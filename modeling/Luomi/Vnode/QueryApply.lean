import Luomi.Vnode.QueryBlockSteps

/-!
# The functions and the buffer for the results

A query whose functions give one result for each row stops inside a block when
the buffer is full.  It stops at the row that filled the buffer, and `lastKey` is
the key behind this row.
-/

namespace Luomi.Vnode.QueryApply

open QueryBlocks QueryCursor QueryMoves
  Luomi.Vnode.QuerySteps Luomi.Vnode.QueryScan Luomi.Vnode.QueryBlockSteps

/-- Where the buffer is checked, the functions read the keys and the data of all
blocks, and neither top and bottom nor an interval is among them. -/
structure Consistent (functions : Functions) (query : SQuery) : Prop where
  keys : query.checkBufferInLoop = true -> query.requireTimestamp = true
  data : query.checkBufferInLoop = true -> ∀ accessed block,
    functions.demand accessed block ≠ .notNeeded
  plain : query.checkBufferInLoop = true ->
    query.isTopBottomQuery = false ∧ query.isIntervalQuery = false

def OnePerRow (functions : Functions) (query : SQuery) : Prop :=
  query.checkBufferInLoop = true -> ∀ accessed rows, functions.numOfRes accessed rows = rows.length

theorem filteredSteps_cons (passes : Int -> Bool) (pointsOffset : Int) (row : Int)
    (rest : List Int) (numOfRes : Int) :
    filteredSteps passes pointsOffset (row :: rest) numOfRes =
      if passes row then
        if pointsOffset ≤ numOfRes + 1 then (1, true)
        else ((filteredSteps passes pointsOffset rest (numOfRes + 1)).1 + 1,
          (filteredSteps passes pointsOffset rest (numOfRes + 1)).2)
      else ((filteredSteps passes pointsOffset rest numOfRes).1 + 1,
        (filteredSteps passes pointsOffset rest numOfRes).2) := rfl

/-- The loop stops at the row that fills the buffer, or it goes through all rows. -/
theorem filteredSteps_spec {passes : Int -> Bool} {pointsOffset : Int} (rows : List Int)
    {numOfRes : Int} (room : numOfRes < pointsOffset) :
    ((filteredSteps passes pointsOffset rows numOfRes).2 = false ∧
        numOfRes + (rows.filter passes).length < pointsOffset) ∨
      ((filteredSteps passes pointsOffset rows numOfRes).2 = true ∧
        0 < (filteredSteps passes pointsOffset rows numOfRes).1 ∧
        (filteredSteps passes pointsOffset rows numOfRes).1 ≤ rows.length ∧
        numOfRes + ((rows.take (filteredSteps passes pointsOffset rows numOfRes).1).filter
          passes).length = pointsOffset) := by
  induction rows generalizing numOfRes with
  | nil => exact Or.inl ⟨rfl, by simpa using room⟩
  | cons row rest ih =>
    rw [filteredSteps_cons]
    by_cases isPassing : passes row = true
    · rw [if_pos isPassing]
      by_cases full : pointsOffset ≤ numOfRes + 1
      · rw [if_pos full]
        refine Or.inr ⟨rfl, by simp, by simp, ?_⟩
        rw [List.take_succ_cons, List.take_zero, List.filter_cons_of_pos isPassing,
          List.filter_nil, List.length_singleton]
        push_cast
        omega
      · rw [if_neg full]
        rcases ih (show numOfRes + 1 < pointsOffset by omega) with ⟨goesOn, less⟩ |
          ⟨stops, positive, most, count⟩
        · refine Or.inl ⟨goesOn, ?_⟩
          rw [List.filter_cons_of_pos isPassing, List.length_cons]
          push_cast
          omega
        · refine Or.inr ⟨stops, by simp, by simpa using most, ?_⟩
          rw [List.take_succ_cons, List.filter_cons_of_pos isPassing, List.length_cons]
          push_cast
          omega
    · rw [if_neg isPassing]
      rcases ih room with ⟨goesOn, less⟩ | ⟨stops, positive, most, count⟩
      · refine Or.inl ⟨goesOn, ?_⟩
        rw [List.filter_cons_of_neg isPassing]
        exact less
      · refine Or.inr ⟨stops, by simp, by simpa using most, ?_⟩
        rw [List.take_succ_cons, List.filter_cons_of_neg isPassing]
        exact count

structure Handled (query : SQuery) (block : List Int) (query' : SQuery) (steps : Nat) : Prop where
  some_ : 0 < steps
  inRange : steps ≤ rowsInRange query block
  result : ∃ lastKey pointsOffset status applied, query' = { query with
    lastKey := lastKey
    pointsOffset := pointsOffset
    status := status
    accessed := query.accessed ++ [{
      position := query.cursor
      rows := (rowsFrom query.order block query.cursor.pos).take steps
      applied := applied }] }
  lastKey : query'.lastKey = query.lastKey ∨
    (rowsFrom query.order block query.cursor.pos)[steps - 1]? =
      some (query'.lastKey - step query.order)
  stopped : (query'.status = query.status ∧ steps = rowsInRange query block ∧
      0 < query'.pointsOffset) ∨
    (query.checkBufferInLoop = true ∧ query'.status = setFull query.status ∧
      query'.pointsOffset = 0 ∧
      (rowsFrom query.order block query.cursor.pos)[steps - 1]? =
        some (query'.lastKey - step query.order))

variable {block : List Int} {functions : Functions} {query : SQuery}

theorem keys_of_checked
    (consistent : Consistent functions query) (ready : Ready functions query block .loaded)
    (checked : query.checkBufferInLoop = true) : query.keysLoaded = true := by
  refine ready.keys rfl ?_ ?_
  · cases isLoaded : query.loaded with
    | true => rfl
    | false =>
      exact absurd (ready.unread rfl isLoaded).2 (consistent.data checked query.accessed block)
  · rw [needPrimaryTimestampCol, decide_eq_true_eq]
    exact Or.inr (Or.inr (consistent.keys checked))

section

variable (atRow : AtRow query block)
include atRow

theorem primaryKey_steps (keysLoaded : query.keysLoaded = true) {steps : Nat} (positive : 0 < steps)
    (most : steps ≤ (rowsFrom query.order block query.cursor.pos).length) :
    ∃ last, (rowsFrom query.order block query.cursor.pos)[steps - 1]? = some last ∧
      primaryKey query block (query.cursor.pos + ((steps : Int) - 1) * step query.order) =
        some last := by
  have reached : steps - 1 < (rowsFrom query.order block query.cursor.pos).length := by omega
  refine ⟨_, List.getElem?_eq_getElem reached, ?_⟩
  rw [primaryKey, if_pos keysLoaded, show (steps : Int) - 1 = ((steps - 1 : Nat) : Int) by omega]
  exact keyAt_step atRow.inside atRow.small reached

section

variable (ready : Ready functions query block .loaded)
include ready

section

variable (consistent : Consistent functions query)

include consistent

theorem revised_spec (room : 0 < query.pointsOffset) {last : Int}
    (lastAt : (rowsFrom query.order block query.cursor.pos)[rowsInRange query block - 1]? = some last)
    :
    ∃ (steps : Nat) (key : Int), reviseForwardSteps query (rowsInRange query block) = steps ∧
      0 < steps ∧ steps ≤ rowsInRange query block ∧
      (rowsFrom query.order block query.cursor.pos)[steps - 1]? = some key ∧
      (if (steps : Int) < (rowsInRange query block : Int) ∧ 0 < (steps : Int) then
        (primaryKey query block (query.cursor.pos + ((steps : Int) - 1) * step query.order)).map
          fun key => key + step query.order
        else some (last + step query.order)) = some (key + step query.order) ∧
      ((steps = rowsInRange query block ∧
          (query.checkBufferInLoop = true -> query.hasFilters = false ->
            (steps : Int) ≤ query.pointsOffset)) ∨
        (query.checkBufferInLoop = true ∧ query.hasFilters = false ∧
          (steps : Int) = query.pointsOffset)) := by
  have positive := atRow.steps_pos
  have most := rowsInRange_le query block
  have whole : (if (rowsInRange query block : Int) < (rowsInRange query block : Int) ∧
        0 < (rowsInRange query block : Int) then
        (primaryKey query block (query.cursor.pos +
          ((rowsInRange query block : Int) - 1) * step query.order)).map
            fun key => key + step query.order
        else some (last + step query.order)) = some (last + step query.order) :=
    if_neg (fun less => lt_irrefl _ less.1)
  unfold reviseForwardSteps
  by_cases limits : query.checkBufferInLoop = true ∧ query.hasFilters = false ∧
      query.isTopBottomQuery = false
  · rw [if_pos limits]
    by_cases full : query.pointsOffset ≤ (rowsInRange query block : Int)
    · rw [if_pos full]
      obtain ⟨steps, isSteps⟩ : ∃ steps : Nat, query.pointsOffset = steps :=
        ⟨query.pointsOffset.toNat, by omega⟩
      obtain ⟨key, keyIs, primary⟩ := primaryKey_steps atRow
        (keys_of_checked consistent ready limits.1) (show 0 < steps by omega)
        (show steps ≤ _ by omega)
      refine ⟨steps, key, isSteps, by omega, by omega, keyIs, ?_,
        Or.inr ⟨limits.1, limits.2.1, isSteps.symm⟩⟩
      by_cases less : (steps : Int) < (rowsInRange query block : Int) ∧ 0 < (steps : Int)
      · rw [if_pos less, primary, Option.map_some]
      · obtain rfl : steps = rowsInRange query block := by omega
        rw [if_neg less]
        rw [keyIs, Option.some.injEq] at lastAt
        rw [lastAt]
    · rw [if_neg full]
      exact ⟨_, last, rfl, positive, le_rfl, lastAt, whole, Or.inl ⟨rfl, fun _ _ => by omega⟩⟩
  · rw [if_neg limits]
    refine ⟨_, last, rfl, positive, le_rfl, lastAt, whole, Or.inl ⟨rfl, fun checked plain => ?_⟩⟩
    exact absurd ⟨checked, plain, (consistent.plain checked).1⟩ limits

theorem applyAllFunctions_spec (onePerRow : OnePerRow functions query)
    (room : 0 < query.pointsOffset) {steps : Nat} {key : Int} (positive : 0 < steps)
    (most : steps ≤ rowsInRange query block)
    (keyIs : (rowsFrom query.order block query.cursor.pos)[steps - 1]? = some key)
    (limit : (steps = rowsInRange query block ∧ (query.checkBufferInLoop = true -> query.hasFilters = false -> (steps : Int) ≤ query.pointsOffset)) ∨ (query.checkBufferInLoop = true ∧ query.hasFilters = false ∧ (steps : Int) = query.pointsOffset))
    :
    ∃ (steps' : Nat) (key' : Int) (numOfRes : Nat),
      applyAllFunctions functions query block steps (key + step query.order) =
        some ((steps' : Int), key' + step query.order, numOfRes) ∧
      0 < steps' ∧ steps' ≤ rowsInRange query block ∧
      (rowsFrom query.order block query.cursor.pos)[steps' - 1]? = some key' ∧
      ((query.checkBufferInLoop = true ∧ (numOfRes : Int) = query.pointsOffset) ∨
        (steps' = rowsInRange query block ∧
          (query.checkBufferInLoop = true -> (numOfRes : Int) < query.pointsOffset))) := by
  have rowsLength := rowsInRange_le query block
  generalize isRows : rowsFrom query.order block query.cursor.pos = rows at *
  have takeLength : (rows.take steps).length = steps := by
    rw [List.length_take]
    omega
  unfold applyAllFunctions
  simp only [isRows, Int.toNat_natCast]
  cases hasFilters : query.hasFilters with
  | false =>
    simp only [Bool.false_eq_true, if_false]
    refine ⟨steps, key, _, rfl, positive, most, keyIs, ?_⟩
    rcases limit with ⟨isAll, less⟩ | ⟨checked, -, isFull⟩
    · by_cases checked : query.checkBufferInLoop = true
      · rw [onePerRow checked, takeLength]
        rcases lt_or_eq_of_le (less checked hasFilters) with before | equal
        · exact Or.inr ⟨isAll, fun _ => before⟩
        · exact Or.inl ⟨checked, equal⟩
      · exact Or.inr ⟨isAll, fun isChecked => absurd isChecked checked⟩
    · rw [onePerRow checked, takeLength]
      exact Or.inl ⟨checked, isFull⟩
  | true =>
    obtain ⟨isAll, -⟩ : steps = rowsInRange query block ∧ True := by
      rcases limit with ⟨isAll, -⟩ | ⟨-, plain, -⟩
      · exact ⟨isAll, trivial⟩
      · rw [hasFilters] at plain
        cases plain
    simp only [if_true]
    by_cases checked : query.checkBufferInLoop = true
    · rw [if_pos checked]
      rcases @filteredSteps_spec functions.passes query.pointsOffset (rows.take steps) 0 room
        with ⟨goesOn, less⟩ | ⟨stops, some_, inside, count⟩
      · simp only [goesOn, Bool.false_eq_true, if_false]
        refine ⟨steps, key, _, rfl, positive, most, keyIs, Or.inr ⟨isAll, fun _ => ?_⟩⟩
        rw [onePerRow checked]
        have shorter : ((((rows.take steps).take
            (filteredSteps functions.passes query.pointsOffset (rows.take steps) 0).1).filter
              functions.passes).length) ≤ ((rows.take steps).filter functions.passes).length :=
          ((List.take_sublist _ _).filter _).length_le
        omega
      · simp only [stops, if_true]
        generalize isStop : (filteredSteps functions.passes query.pointsOffset
          (rows.take steps) 0).1 = stop at *
        rw [takeLength] at inside
        obtain ⟨last, lastIs, primary⟩ := primaryKey_steps atRow
          (keys_of_checked consistent ready checked) some_ (by rw [isRows]; omega)
        rw [primary]
        refine ⟨stop, last, _, rfl, some_, by omega, by rw [<- isRows]; exact lastIs,
          Or.inl ⟨checked, ?_⟩⟩
        rw [onePerRow checked]
        omega
    · rw [if_neg checked]
      exact ⟨steps, key, _, rfl, positive, most, keyIs,
        Or.inr ⟨isAll, fun isChecked => absurd isChecked checked⟩⟩

theorem applyFunctionsOnBlock_spec (onePerRow : OnePerRow functions query)
    (room : 0 < query.pointsOffset) : ∃ (query' : SQuery) (steps : Nat),
      applyFunctionsOnBlock functions query block = some (query', (steps : Int)) ∧
      Handled query block query' steps := by
  obtain ⟨last, lastAt, forward⟩ := forwardSteps_spec atRow ready
  obtain ⟨revised, key, isRevised, positive, most, keyIs, limited, limit⟩ :=
    revised_spec atRow ready consistent room lastAt
  obtain ⟨steps, key', numOfRes, applied, some_, inRange, keyIs', stopped⟩ :=
    applyAllFunctions_spec atRow ready consistent onePerRow room positive most keyIs limit
  unfold applyFunctionsOnBlock
  rw [if_pos (validate_spec atRow ready), forward]
  simp only [isRevised]
  rw [if_pos ⟨by omega, by omega⟩, limited]
  simp only [applied, Int.toNat_natCast]
  refine ⟨_, steps, rfl, some_, inRange, ⟨_, _, _, true, rfl⟩, Or.inr ?_, ?_⟩
  · simp only
    rw [keyIs', Int.add_sub_cancel]
  · simp only
    rw [keyIs', Int.add_sub_cancel]
    rcases stopped with ⟨checked, isFull⟩ | ⟨isAll, less⟩
    · have hasRes : 0 < numOfRes ∧ query.checkBufferInLoop = true := ⟨by omega, checked⟩
      have empty : query.pointsOffset - (numOfRes : Int) = 0 := by omega
      refine Or.inr ⟨checked, ?_, ?_, rfl⟩
      · rw [if_pos hasRes, if_pos ⟨hasRes.1, checked, empty⟩]
      · rw [if_pos hasRes, empty]
    · refine Or.inl ⟨?_, isAll, ?_⟩
      · rw [if_neg]
        rintro ⟨hasRes, checked, isFull⟩
        rw [if_pos ⟨hasRes, checked⟩] at isFull
        have := less checked
        omega
      · split
        · rename_i isChecked
          have := less isChecked.2
          omega
        · exact room

end

end

theorem handleBlock_spec {blockLoadStatus : LoadStatus}
    (ready : Ready functions query block blockLoadStatus) (consistent : Consistent functions query)
    (onePerRow : OnePerRow functions query) (room : 0 < query.pointsOffset)
    (whole : blockLoadStatus = .discarded -> query.cursor.pos = firstPos query.order block) :
    ∃ (query' : SQuery) (steps : Nat), handleBlock functions query block blockLoadStatus =
        some (query', (steps : Int)) ∧ Handled query block query' steps := by
  unfold handleBlock
  cases blockLoadStatus with
  | loaded =>
    rw [if_neg (fun isDiscarded => by cases isDiscarded.2)]
    exact applyFunctionsOnBlock_spec atRow ready consistent onePerRow room
  | discarded =>
    obtain ⟨inFile, covered, -⟩ := ready.discarded rfl
    rw [if_pos ⟨inFile, rfl⟩]
    have length := @rowsFrom_length query.order block _ atRow.inside atRow.small
    have rowsAre : (rowsFrom query.order block query.cursor.pos).length = block.length := by
      have isFirst := whole rfl
      rcases order_cases query.order with order | order
      · simp only [order, firstPos] at length isFirst ⊢
        omega
      · simp only [order, firstPos, numOfPoints] at length isFirst ⊢
        omega
    have isAll : rowsInRange query block = block.length := by
      rw [rowsInRange_all atRow ?_, rowsAre]
      rw [isCovered] at covered
      rcases order_cases query.order with order | order
      all_goals
        rw [EndsInside, order]
        simp only [order, decide_eq_true_eq] at covered ⊢
        omega
    refine ⟨_, block.length, rfl, List.length_pos_iff.mpr atRow.some_, isAll.ge,
      ⟨query.lastKey, query.pointsOffset, query.status, false, ?_⟩, Or.inl rfl,
      Or.inl ⟨rfl, isAll.symm, room⟩⟩
    rw [<- rowsAre, List.take_length]

end

end Luomi.Vnode.QueryApply
