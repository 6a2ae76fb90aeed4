import Luomi.Vnode.QueryScan
import Luomi.Vnode.QuerySteps

/-!
# What a scan does with one block

The functions see the rows of the block from the position on, up to the end of
the range, or up to the row with which the buffer for the results is full.
-/

namespace Luomi.Vnode.QueryBlockSteps

open QueryBlocks QueryCursor QueryMoves
  Luomi.Vnode.QuerySteps Luomi.Vnode.QueryScan
open List (getElem?_eq_getElem getElem_drop getElem_mem getElem_take length_drop length_reverse
  length_take)
open Option (map_some some.injEq)

section

variable {order : QueryOrder} {block : List Int} {pos : Int} (inside : 0 ≤ pos)
  (small : pos < block.length)

include inside small

theorem rowsFrom_length : ((rowsFrom order block pos).length : Int) =
      match order with
      | .asc => block.length - pos
      | .desc => pos + 1 := by
  cases order with
  | asc =>
    simp only [rowsFrom, length_drop]
    omega
  | desc =>
    simp only [rowsFrom, length_reverse, length_take]
    omega

theorem keyAt_step {i : Nat} (reached : i < (rowsFrom order block pos).length) :
    keyAt block (pos + i * step order) = some (rowsFrom order block pos)[i] := by
  have length := @rowsFrom_length order block pos inside small
  cases order with
  | asc =>
    simp only [rowsFrom, length_drop] at reached ⊢
    simp only [step, Int.mul_one]
    rw [keyAt, if_pos (by omega), getElem_drop,
      show (pos + i).toNat = pos.toNat + i by omega, getElem?_eq_getElem (by omega)]
  | desc =>
    simp only [rowsFrom, length_reverse, length_take] at reached ⊢
    simp only [step, List.getElem_reverse, getElem_take, length_take]
    rw [keyAt, if_pos (by omega),
      show (pos + i * -1).toNat = min (pos + 1).toNat block.length - 1 - i by omega,
      getElem?_eq_getElem (by omega)]

end

variable {block : List Int} {query : SQuery} {functions : Functions}

theorem rowsFrom_subset {order : QueryOrder} {pos k : Int}
    (member : k ∈ rowsFrom order block pos) : k ∈ block := by
  cases order with
  | asc => exact List.mem_of_mem_drop member
  | desc => exact List.mem_of_mem_take (List.mem_reverse.mp member)

theorem rowsFrom_ordered {order : QueryOrder} {block : List Int}
    (increasing : block.Pairwise (· < ·)) (pos : Int) :
    (rowsFrom order block pos).Pairwise (Before order) := by
  cases order with
  | asc => exact increasing.drop
  | desc => exact List.pairwise_reverse.mpr increasing.take

theorem takeWhile_length {rows : List Int} {holds : Int -> Bool} {n : Nat}
    (enough : n ≤ rows.length) (within : ∀ i (inside : i < rows.length), i < n -> holds rows[i])
    (ends : ∀ inside : n < rows.length, ¬ holds rows[n]) : (rows.takeWhile holds).length = n := by
  induction rows generalizing n with
  | nil => exact (Nat.le_zero.mp enough).symm
  | cons row rest ih =>
    cases n with
    | zero =>
      have stops := ends (by simp)
      simp only [List.getElem_cons_zero] at stops
      simp [stops]
    | succ n =>
      have first := within 0 (by simp) (by omega)
      simp only [List.getElem_cons_zero] at first
      rw [List.takeWhile_cons, if_pos first, List.length_cons, ih (by simpa using enough)
          (fun i inside small => within (i + 1) (by simpa using inside) (by omega))
          (fun inside => ends (by simpa using inside))]

def rowsInRange (query : SQuery) (block : List Int) : Nat :=
  ((rowsFrom query.order block query.cursor.pos).takeWhile
    fun k => decide (UpTo query.order k query.ekey)).length

structure AtRow (query : SQuery) (block : List Int) : Prop where
  inside : 0 ≤ query.cursor.pos
  small : query.cursor.pos < block.length
  increasing : block.Pairwise (· < ·)
  inRange : ∀ k, keyAt block query.cursor.pos = some k -> UpTo query.order k query.ekey
  behind : ∀ k ∈ rowsFrom query.order block query.cursor.pos, UpTo query.order query.lastKey k
  inQuery : InQuery query

theorem AtRow.some_ (atRow : AtRow query block) : block ≠ [] := by
  rintro rfl
  have := atRow.inside
  have := atRow.small
  simp at this
  omega

theorem AtRow.rows_pos (atRow : AtRow query block) :
    0 < (rowsFrom query.order block query.cursor.pos).length := by
  have length := @rowsFrom_length query.order block _ atRow.inside atRow.small
  have inside := atRow.inside
  have small := atRow.small
  rcases order_cases query.order with order | order
  · simp only [order] at length ⊢
    omega
  · simp only [order] at length ⊢
    omega

theorem AtRow.first {query : SQuery} {block : List Int} (atRow : AtRow query block) :
    ∃ row, keyAt block query.cursor.pos = some row ∧
      (rowsFrom query.order block query.cursor.pos)[0]? = some row ∧ row ∈ block ∧
      UpTo query.order row query.ekey ∧ UpTo query.order query.lastKey row := by
  have at_ := @keyAt_step query.order block _ atRow.inside atRow.small 0 atRow.rows_pos
  rw [Nat.cast_zero, Int.zero_mul, Int.add_zero] at at_
  refine ⟨_, at_, getElem?_eq_getElem atRow.rows_pos, rowsFrom_subset (getElem_mem atRow.rows_pos),
    atRow.inRange _ at_, atRow.behind _ (getElem_mem atRow.rows_pos)⟩

theorem AtRow.steps_pos (atRow : AtRow query block) : 0 < rowsInRange query block := by
  obtain ⟨row, -, isFirst, -, inRange, -⟩ := atRow.first
  obtain ⟨first, rest, rows⟩ := List.exists_cons_of_length_pos atRow.rows_pos
  rw [rows, List.getElem?_cons_zero, some.injEq] at isFirst
  rw [<- isFirst] at inRange
  simp [rowsInRange, rows, inRange]

theorem rowsInRange_le (query : SQuery) (block : List Int) :
    rowsInRange query block ≤ (rowsFrom query.order block query.cursor.pos).length :=
  (List.takeWhile_prefix _).length_le

theorem getElem_lt (increasing : block.Pairwise (· < ·)) {i j : Nat}
    (less : i < j) (inside : j < block.length) : block[i] < block[j] :=
  List.pairwise_iff_getElem.mp increasing i j (by omega) inside less

def EndsInside (query : SQuery) (block : List Int) : Prop :=
  match query.order with
  | .asc => query.ekey < keyLast block
  | .desc => keyFirst block < query.ekey

theorem searchFn_rows {order : QueryOrder} {pos key row : Int}
    (ends : match order with
      | .asc => key < keyLast block
      | .desc => keyFirst block < key)
    (inside : 0 ≤ pos) (increasing : block.Pairwise (· < ·)) (rowAt : keyAt block pos = some row)
    (started : UpTo order row key) :
    ∃ before last later, rowsFrom order block pos = before ++ last :: later ∧
      searchFn block key order = some (pos + before.length * step order) ∧
      (∀ k ∈ before, Before order k key) ∧ UpTo order key last := by
  rw [keyAt, if_pos inside, List.getElem?_eq_some_iff] at rowAt
  obtain ⟨small, rowIs⟩ := rowAt
  have some_ : block ≠ [] := List.ne_nil_of_length_pos (by omega)
  cases order with
  | asc =>
    obtain ⟨m, found, mInside, below, above⟩ := searchFn_asc some_ increasing (le_of_lt ends)
    have atEnd := above _ (List.mem_drop_iff_getElem.mpr ⟨0, by omega, rfl⟩)
    have ordered : pos.toNat ≤ m := by
      by_contra before
      have := getElem_lt increasing (not_le.mp before) small
      exact absurd started (not_le.mpr (rowIs ▸ atEnd.trans_lt this))
    refine ⟨(block.drop pos.toNat).take (m - pos.toNat), block[m], block.drop (m + 1), ?_, ?_, ?_,
      atEnd⟩
    · rw [List.getElem_cons_drop, rowsFrom]
      have whole := List.take_append_drop (m - pos.toNat) (block.drop pos.toNat)
      rw [List.drop_drop, Nat.add_sub_cancel' ordered] at whole
      exact whole.symm
    · rw [found, length_take, length_drop, step]
      congr 1
      omega
    · intro k member
      rw [List.take_drop, Nat.add_sub_cancel' ordered] at member
      exact below k (List.mem_of_mem_drop member)
  | desc =>
    obtain ⟨m, found, mInside, below, above⟩ := searchFn_desc some_ increasing (le_of_lt ends)
    have atEnd := below _ (List.mem_take_iff_getElem.mpr ⟨m, by omega, rfl⟩)
    have ordered : m ≤ pos.toNat := by
      by_contra before
      have := getElem_lt increasing (not_le.mp before) mInside
      exact absurd started (not_le.mpr (rowIs ▸ this.trans_le atEnd))
    refine ⟨((block.take (pos + 1).toNat).drop (m + 1)).reverse, block[m], (block.take m).reverse,
      ?_, ?_, ?_, atEnd⟩
    · have whole := List.take_append_drop (m + 1) (block.take (pos + 1).toNat)
      rw [List.take_take, min_eq_left (by omega), List.take_add_one, getElem?_eq_getElem mInside]
        at whole
      exact (congrArg List.reverse whole.symm).trans (by simp)
    · rw [found, length_reverse, length_drop, length_take, step]
      congr 1
      omega
    · intro k member
      rw [List.mem_reverse, List.drop_take] at member
      exact above k (List.mem_of_mem_take member)

theorem getForwardStepsInBlock_rows (atRow : AtRow query block)
    (keysLoaded : query.keysLoaded = true) (ends : EndsInside query block) :
    getForwardStepsInBlock query block = some (rowsInRange query block : Int) := by
  obtain ⟨row, rowAt, -, -, inRange, -⟩ := atRow.first
  obtain ⟨before, last, later, rows, found, isBefore, atEnd⟩ :=
    searchFn_rows ends atRow.inside atRow.increasing rowAt inRange
  have lastAt : keyAt block (query.cursor.pos + before.length * step query.order) = some last := by
    rw [keyAt_step atRow.inside atRow.small (by simp [rows])]
    simp [rows]
  have ordered := @rowsFrom_ordered query.order block atRow.increasing query.cursor.pos
  have inside := atRow.inside
  unfold getForwardStepsInBlock rowsInRange
  rw [rows] at ordered ⊢
  simp only [keysLoaded, if_true, found, lastAt, map_some]
  have behind := (List.pairwise_cons.mp (List.pairwise_append.mp ordered).2.1).1
  have counted : ((before ++ last :: later).takeWhile
      fun k => decide (UpTo query.order k query.ekey)).length =
        before.length + if last = query.ekey then 1 else 0 := by
    rcases order_cases query.order with order | order
    all_goals
      simp only [order, UpTo, Before] at isBefore atEnd behind ⊢
      rw [List.takeWhile_append_of_pos fun k member => decide_eq_true (isBefore k member).le,
        List.length_append, List.takeWhile_cons]
      congr 1
      by_cases same : last = query.ekey
      · rw [if_pos (decide_eq_true (by omega)), if_pos same]
        cases later with
        | nil => rfl
        | cons next later =>
          have := behind next List.mem_cons_self
          rw [List.takeWhile_cons_of_neg (by simp only [decide_eq_true_eq]; omega)]
          rfl
      · rw [if_neg (by simp only [decide_eq_true_eq]; omega), if_neg same]
        rfl
  have reached : 0 ≤ query.cursor.pos + before.length * step query.order := by
    by_contra negative
    rw [keyAt, if_neg negative] at lastAt
    cases lastAt
  rw [counted, if_pos reached]
  rcases order_cases query.order with order | order
  all_goals
    simp only [order, step]
    rw [if_pos (by omega)]
    congr 1
    split
    · push_cast
      omega
    · push_cast
      omega

theorem AtRow.mem_le (atRow : AtRow query block) {k : Int}
    (member : k ∈ block) : keyFirst block ≤ k ∧ k ≤ keyLast block :=
  ⟨keyFirst_le atRow.increasing member, le_keyLast atRow.increasing member⟩

theorem keys_of_need
    (ready : Ready functions query block .loaded) (covered : ¬ isCovered query block = true)
    (need : needPrimaryTimestampCol query block = true) : query.keysLoaded = true := by
  refine ready.keys rfl ?_ need
  cases isLoaded : query.loaded with
  | true => rfl
  | false => exact absurd (ready.unread rfl isLoaded).1 covered

theorem keys_of_endsInside (atRow : AtRow query block) (ready : Ready functions query block .loaded)
    (ends : EndsInside query block) : query.keysLoaded = true := by
  obtain ⟨row, -, -, member, inRange, -⟩ := atRow.first
  have between := atRow.mem_le member
  rcases order_cases query.order with order | order
  all_goals
    rw [order] at inRange
    rw [EndsInside, order] at ends
    simp only [UpTo] at inRange ends
    refine keys_of_need ready ?_ ?_
    · rw [isCovered, order]
      simp only [decide_eq_true_eq]
      omega
    · rw [needPrimaryTimestampCol, decide_eq_true_eq]
      exact Or.inr (Or.inl ⟨by omega, by omega⟩)

theorem rowsInRange_all (atRow : AtRow query block) (ends : ¬ EndsInside query block) :
    rowsInRange query block = (rowsFrom query.order block query.cursor.pos).length := by
  refine takeWhile_length le_rfl ?_ (fun inside => absurd inside (lt_irrefl _))
  intro i inside _
  rw [decide_eq_true_eq]
  generalize isRow : (rowsFrom query.order block query.cursor.pos)[i] = row
  have between := atRow.mem_le (rowsFrom_subset (isRow ▸ getElem_mem inside))
  rcases order_cases query.order with order | order
  all_goals
    rw [EndsInside, order] at ends
    rw [order]
    simp only [UpTo] at ends ⊢
    omega

theorem last_rowsFrom {order : QueryOrder} {block : List Int} {pos : Int} (inside : 0 ≤ pos)
    (small : pos < block.length) :
    (rowsFrom order block pos)[(rowsFrom order block pos).length - 1]? =
      some (match order with
        | .asc => keyLast block
        | .desc => keyFirst block) := by
  have some_ : block ≠ [] := by
    rintro rfl
    simp at small
    omega
  cases order with
  | asc =>
    simp only [rowsFrom, List.getElem?_drop, length_drop]
    rw [keyLast, List.getLastD_eq_getLast?, List.getLast?_eq_getElem?,
      getElem?_eq_getElem (show block.length - 1 < block.length by omega),
      Option.getD_some, <- getElem?_eq_getElem]
    congr 1
    omega
  | desc =>
    obtain ⟨key, rest, rfl⟩ := List.exists_cons_of_ne_nil some_
    rw [rowsFrom, <- List.getLast?_eq_getElem?, List.getLast?_reverse, keyFirst, List.headD_cons,
      show (pos + 1).toNat = pos.toNat + 1 by omega, List.take_succ_cons, List.head?_cons]

theorem forwardSteps_spec
    (atRow : AtRow query block) (ready : Ready functions query block .loaded) :
    ∃ last, (rowsFrom query.order block query.cursor.pos)[rowsInRange query block - 1]? =
        some last ∧
      forwardSteps query block = some ((rowsInRange query block : Int), last + step query.order) := by
  have positive := atRow.steps_pos
  have most := rowsInRange_le query block
  have length := @rowsFrom_length query.order block _ atRow.inside atRow.small
  obtain ⟨row, rowAt, -⟩ := atRow.first
  have reached : rowsInRange query block - 1 <
      (rowsFrom query.order block query.cursor.pos).length := by omega
  refine ⟨_, getElem?_eq_getElem reached, ?_⟩
  by_cases ends : EndsInside query block
  · have keysLoaded := keys_of_endsInside atRow ready ends
    have lastAt := keyAt_step atRow.inside atRow.small reached
    have steps : getForwardStepsInBlock query block = some (rowsInRange query block : Int) := by
      exact getForwardStepsInBlock_rows atRow keysLoaded ends
    unfold forwardSteps
    rw [steps]
    rcases order_cases query.order with order | order
    all_goals
      rw [EndsInside, order] at ends
      simp only [order, primaryKey, keysLoaded, if_true] at ends rowAt lastAt ⊢
      rw [if_pos (by simpa using ends)]
      simp only [rowAt]
      rw [if_neg (by omega), show ((rowsInRange query block : Int) - 1) =
        ((rowsInRange query block - 1 : Nat) : Int) by omega, lastAt, map_some]
  · have all := rowsInRange_all atRow ends
    have lastIs := @last_rowsFrom query.order block _ atRow.inside atRow.small
    rw [<- all, getElem?_eq_getElem reached, some.injEq] at lastIs
    rw [lastIs]
    rw [EndsInside] at ends
    unfold forwardSteps
    rcases order_cases query.order with order | order
    · simp only [order] at ends length all ⊢
      rw [if_neg (by simpa using ends), if_pos (by simp only [numOfPoints]; omega), all, length]
      rfl
    · simp only [order] at ends length all ⊢
      rw [if_neg (by simpa using ends), if_pos (by omega), all, length]

theorem validate_spec (atRow : AtRow query block) (ready : Ready functions query block .loaded) :
    validateQueryRangeAndData query block = true := by
  obtain ⟨row, rowAt, -, member, inRange, behind⟩ := atRow.first
  have between := atRow.mem_le member
  have inQuery := atRow.inQuery
  unfold validateQueryRangeAndData
  simp only
  by_cases keyed : query.loaded = true ∧ needPrimaryTimestampCol query block = true
  · have keysLoaded := ready.keys rfl keyed.1 keyed.2
    rw [if_pos keyed]
    simp only [primaryKey, keysLoaded, if_true, rowAt]
    rcases order_cases query.order with order | order
    · simp only [order, UpTo, InQuery] at inRange behind inQuery ⊢
      simp [inRange, behind, inQuery]
    · simp only [order, UpTo, InQuery] at inRange behind inQuery ⊢
      simp [inRange, behind, inQuery]
  · rw [if_neg keyed]
    -- The block lies wholly in what is left of the range.
    have whole : match query.order with
        | .asc => query.lastKey ≤ keyFirst block ∧ keyLast block ≤ query.ekey
        | .desc => query.ekey ≤ keyFirst block := by
      cases isLoaded : query.loaded with
      | false =>
        have covered := (ready.unread rfl isLoaded).1
        rw [isCovered] at covered
        rcases order_cases query.order with order | order
        · simp only [order, decide_eq_true_eq] at covered ⊢
          exact covered
        · simp only [order, decide_eq_true_eq] at covered ⊢
          exact covered.1
      | true =>
        have notNeeded : ¬ needPrimaryTimestampCol query block = true :=
          fun need => keyed ⟨isLoaded, need⟩
        rw [needPrimaryTimestampCol, decide_eq_true_eq] at notNeeded
        rcases order_cases query.order with order | order
        · simp only [order, UpTo] at inRange behind ⊢
          omega
        · simp only [order, UpTo] at inRange behind ⊢
          omega
    rcases order_cases query.order with order | order
    · simp only [order, UpTo, InQuery] at inRange behind inQuery whole ⊢
      simp only [Bool.and_eq_true, decide_eq_true_eq]
      omega
    · simp only [order, UpTo, InQuery] at inRange behind inQuery whole ⊢
      simp only [Bool.and_eq_true, decide_eq_true_eq]
      omega

end Luomi.Vnode.QueryBlockSteps
