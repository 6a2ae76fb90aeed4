import Luomi.Edb.Drain

/-!
# Calls of `move_next` one after the other

A query comes to its end over rows exactly if every window it meets lies inside
its block and ends behind its start, and then in as many calls as there are rows
in these windows.  The only stop test is equality of two indexes: a row index
that has crossed the end leaves the buffer.
-/

namespace Luomi.Edb.Exhaustion

open Database Cursor CursorFrame Segment Landing Stops Drain

section Exhaustion

variable {α : Type} {uninit : Int} {codec : Codec α} {range : Range} {order : Order} {db : Db α}
  {query : Query α} {rows : List (Row α)}

/-- The fields of a query only `open_query` assigns. -/
def fixed (query : Query α) : Int × Int × Order × Int × Int :=
  (query.startTimestamp, query.endTimestamp, query.order, query.startFileIndex, query.endFileIndex)

theorem fixed_checkBlock : fixed (checkBlock uninit codec db query).2 = fixed query := by
  unfold checkBlock
  split
  · rfl
  · simp only
    split
    · rfl
    · split <;> rfl

theorem fixed_searchBlocks (fuel : Nat) : ∀ {query : Query α},
    fixed (searchBlocks uninit codec db fuel query).2 = fixed query := by
  induction fuel with
  | zero =>
    intro query
    rfl
  | succ fuel ih =>
    intro query
    unfold searchBlocks
    split
    · rfl
    · simp only
      split
      · exact fixed_checkBlock
      · rw [ih]
        exact fixed_checkBlock

theorem fixed_checkFile : fixed (checkFile uninit codec db query).2.2 = fixed query := by
  unfold checkFile searchBlockIndex
  simp only
  split
  · rfl
  · rw [fixed_searchBlocks]
    split <;> rfl

theorem fixed_searchFiles (fuel : Nat) : ∀ {db : Db α} {query : Query α},
    fixed (searchFiles uninit codec fuel db query).2.2 = fixed query := by
  induction fuel with
  | zero =>
    intro db query
    rfl
  | succ fuel ih =>
    intro db query
    unfold searchFiles
    split
    · rfl
    · simp only
      split
      · exact fixed_checkFile
      · rw [ih]
        exact fixed_checkFile

theorem fixed_dueLog : fixed (dueLog uninit order db query).2 = fixed query := by
  unfold dueLog checkLog
  split
  · simp only
    split <;> rfl
  · rfl

theorem fixed_firstFile : fixed (firstFile uninit codec db query).2.2 = fixed query := by
  unfold firstFile searchFileIndex
  split
  · exact fixed_searchFiles _
  · rfl

theorem fixed_nextBlock : fixed (nextBlock uninit codec db query).2.2 = fixed query := by
  unfold nextBlock searchFileIndex searchBlockIndex
  split
  · simp only
    split
    · exact fixed_searchFiles _
    · split
      · exact fixed_searchBlocks _
      · exact (fixed_searchFiles _).trans (fixed_searchBlocks _)
  · rfl

theorem fixed_nextRow : fixed (nextRow uninit db query).2 = fixed query := by
  unfold nextRow
  split
  · rfl
  · simp only
    split <;> exact fixed_dueLog

theorem fixed_moveNext : fixed (moveNext uninit codec db query).2.2 = fixed query := by
  unfold moveNext
  simp only
  split
  · exact fixed_dueLog
  · split
    · exact fixed_firstFile.trans fixed_dueLog
    · have log := @fixed_dueLog _ uninit .desc db query
      split
      · exact fixed_nextBlock.trans (fixed_firstFile.trans log)
      · exact fixed_nextRow.trans (fixed_nextBlock.trans (fixed_firstFile.trans log))

theorem seeks_of_fixed {other : Query α} (seeks : Seeks range order query)
    (same : fixed other = fixed query) : Seeks range order other := by
  simp only [fixed, Prod.mk.injEq] at same
  exact ⟨same.1.trans seeks.start, same.2.1.trans seeks.finish, same.2.2.1.trans seeks.order⟩

/-- What the call of `move_next` behind a number of others gives. -/
def call (uninit : Int) (codec : Codec α) (db : Db α) (query : Query α) : Nat -> Int × Db α × Query
    α
  | 0 => moveNext uninit codec db query
  | count + 1 =>
    let before := call uninit codec db query count
    moveNext uninit codec before.2.1 before.2.2

/-- The current row lies in the buffer, and `fetch_col` finds one of the stored
rows there. -/
def OnRow (rows : List (Row α)) (query : Query α) : Prop :=
  0 ≤ query.curDataIndex ∧ query.curDataIndex < query.rowCount ∧
    ∃ row ∈ rows, fetch query = some row

def Comes (uninit : Int) (codec : Codec α) (rows : List (Row α)) : Nat -> Db α -> Query α -> Prop
  | 0, db, query => (moveNext uninit codec db query).1 = -1
  | count + 1, db, query =>
    let next := moveNext uninit codec db query
    next.1 = 0 ∧ OnRow rows next.2.2 ∧ Comes uninit codec rows count next.2.1 next.2.2

theorem call_succ (count : Nat) : call uninit codec db query (count + 1) =
      call uninit codec (moveNext uninit codec db query).2.1 (moveNext uninit codec db query).2.2
        count := by
  induction count with
  | zero => rfl
  | succ count ih =>
    rw [call, ih]
    rfl

theorem call_add (count more : Nat) : call uninit codec db query (count + 1 + more) =
      call uninit codec (call uninit codec db query count).2.1
        (call uninit codec db query count).2.2 more := by
  induction more with
  | zero => rfl
  | succ more ih =>
    rw [<- Nat.add_assoc, call, ih]
    rfl

theorem fixed_call (number : Nat) :
    fixed (call uninit codec db query number).2.2 = fixed query := by
  induction number with
  | zero => exact fixed_moveNext
  | succ number ih => exact fixed_moveNext.trans ih

theorem call_db (number : Nat) : (call uninit codec db query number).2.1 = db ∨
    (call uninit codec db query number).2.1 = visited db := by
  induction number with
  | zero =>
    rw [call, moveNext_db]
    split
    · exact Or.inr rfl
    · exact Or.inl rfl
  | succ number ih =>
    rw [call, moveNext_db]
    split
    · rcases ih with stays | moves
      · rw [stays]
        exact Or.inr rfl
      · rw [moves]
        exact Or.inr rfl
    · exact ih

theorem comes_iff (count : Nat) : ∀ {db : Db α} {query : Query α},
    Comes uninit codec rows count db query ↔
      (∀ number < count, (call uninit codec db query number).1 = 0 ∧
        OnRow rows (call uninit codec db query number).2.2) ∧
      (call uninit codec db query count).1 = -1 := by
  induction count with
  | zero =>
    intro db query
    simp [Comes, call]
  | succ count ih =>
    intro db query
    rw [Comes, call_succ, ih]
    constructor
    · rintro ⟨found, row, later, fails⟩
      refine ⟨?_, fails⟩
      intro number below
      cases number with
      | zero => exact ⟨found, row⟩
      | succ number =>
        rw [call_succ]
        exact later number (by omega)
    · rintro ⟨all, fails⟩
      refine ⟨(all 0 (Nat.succ_pos _)).1, (all 0 (Nat.succ_pos _)).2, ?_, fails⟩
      intro number below
      have here := all (number + 1) (by omega)
      rwa [call_succ] at here

def Filled (rows : List (Row α)) (query : Query α) : Prop :=
  ∀ index < query.rowCount, ∃ row ∈ rows, query.buf[index]? = some row

theorem Filled.onRow (filled : Filled rows query) (nonneg : 0 ≤ query.curDataIndex)
    (inside : query.curDataIndex < query.rowCount) : OnRow rows query := by
  obtain ⟨row, member, found⟩ := filled query.curDataIndex.toNat (by omega)
  exact ⟨nonneg, inside, row, member, (if_pos nonneg).trans found⟩

/-- The row index has left the window, or is on its way to an end outside the
buffer. -/
def Crossed (query : Query α) : Prop :=
  match query.order with
  | .asc => query.endDataIndex < query.curDataIndex ∨ (query.rowCount : Int) ≤ query.endDataIndex
  | .desc => query.curDataIndex < query.endDataIndex ∨ query.endDataIndex < 0

theorem not_comes_of_crossed (count : Nat) : ∀ {query : Query α} {stops : List (Block α)},
    Behind db query stops -> OnRow rows query -> Crossed query ->
      ¬ Comes uninit codec rows count db query := by
  induction count with
  | zero =>
    intro query stops behind onRow crossed fails
    have notLast : query.curDataIndex ≠ query.endDataIndex := by
      obtain ⟨nonneg, inside, -⟩ := onRow
      unfold Crossed at crossed
      split at crossed <;> omega
    rw [Comes, moveNext_inside behind.noLog (by have := onRow.1; omega) notLast] at fails
    cases fails
  | succ count ih =>
    intro query stops behind onRow crossed comes
    obtain ⟨nonneg, inside, -⟩ := onRow
    have notLast : query.curDataIndex ≠ query.endDataIndex := by
      unfold Crossed at crossed
      split at crossed <;> omega
    rw [Comes, moveNext_inside behind.noLog (by omega) notLast] at comes
    obtain ⟨-, onNext, later⟩ := comes
    refine ih (behind.toRow _) onNext ?_ later
    unfold Crossed at crossed ⊢
    change match query.order with
      | .asc => query.endDataIndex < query.curDataIndex + query.order.step ∨ _
      | .desc => query.curDataIndex + query.order.step < query.endDataIndex ∨ _
    split <;> rename_i ordered <;> rw [ordered] at crossed ⊢ <;>
      simp only [Order.step] at crossed ⊢
    all_goals exact crossed.imp (fun beyond => by omega) id

variable {stops : List (Block α)} {block : Block α}

theorem comes_walk (steps : Nat) :
    ∀ {query : Query α} {count : Nat}, Behind db query stops -> Filled rows query ->
      (∀ step ≤ steps, 0 ≤ query.curDataIndex + step * query.order.step ∧
        query.curDataIndex + step * query.order.step < query.rowCount) ->
      query.endDataIndex = query.curDataIndex + steps * query.order.step ->
        (Comes uninit codec rows count db query ↔ ∃ later, count = steps + later ∧
          Comes uninit codec rows later db (toRow query query.endDataIndex)) := by
  induction steps with
  | zero =>
    intro query count behind filled inside finish
    have here : query.endDataIndex = query.curDataIndex := by simpa using finish
    have same : toRow query query.endDataIndex = query := by
      rw [here]
      rfl
    simp [same]
  | succ steps ih =>
    intro query count behind filled inside finish
    have current := (inside 0 (Nat.zero_le _)).1
    have following := inside 1 (by omega)
    simp only [Nat.cast_zero, zero_mul, add_zero, Nat.cast_one, one_mul] at current following
    have notLast : query.curDataIndex ≠ query.endDataIndex := by
      rw [finish]
      cases query.order <;> simp only [Order.step] <;> push_cast <;> omega
    have next := @moveNext_inside _ uninit codec _ _ behind.noLog (by omega) notLast
    have onNext : OnRow rows (toRow query (query.curDataIndex + query.order.step)) :=
      Filled.onRow filled following.1 following.2
    have onward := fun later =>
      @ih (toRow query (query.curDataIndex + query.order.step)) later (behind.toRow _) filled
        (fun step below => by
          have := inside (step + 1) (by omega)
          push_cast at this
          rwa [add_mul, one_mul, add_comm ((step : Int) * _), <- add_assoc] at this)
        (by
          change query.endDataIndex =
            query.curDataIndex + query.order.step + steps * query.order.step
          rw [finish]
          push_cast
          ring)
    cases count with
    | zero =>
      refine iff_of_false ?_ (by rintro ⟨later, none', -⟩; omega)
      rw [Comes, next]
      simp
    | succ count =>
      rw [Comes, next]
      simp only [true_and]
      constructor
      · rintro ⟨-, comes⟩
        obtain ⟨later, countEq, comes⟩ := (onward count).mp comes
        exact ⟨later, by omega, comes⟩
      · rintro ⟨later, countEq, comes⟩
        exact ⟨onNext, (onward count).mpr ⟨later, by omega, comes⟩⟩

section

variable (uninit : Int) (range : Range)

def Inside (block : Block α) : Prop :=
  ∀ low high, window uninit range block = some (low, high) ->
    0 ≤ low ∧ low ≤ high ∧ high < block.rowCount

def size (block : Block α) : Nat :=
  match window uninit range block with
  | none => 0
  | some (low, high) => (high + 1 - low).toNat

def sizes (stops : List (Block α)) : Nat :=
  (stops.map (size uninit range)).sum

end

variable {later : List (Block α)}

theorem skipped_before_hit {indexes : Int × Int} (hit : firstHit uninit range stops = some (block, indexes, later)) :
    ∃ before, stops = before ++ block :: later ∧
      ∀ skipped ∈ before, window uninit range skipped = none := by
  induction stops with
  | nil => cases hit
  | cons first rest ih =>
    rw [firstHit] at hit
    split at hit
    · cases hit
      exact ⟨[], rfl, by simp⟩
    · rename_i none'
      obtain ⟨before, rfl, skipped⟩ := ih hit
      exact ⟨first :: before, rfl, List.forall_mem_cons.mpr ⟨none', skipped⟩⟩

theorem firstHit_eq_none_iff :
    firstHit uninit range stops = none ↔ ∀ block ∈ stops, window uninit range block = none := by
  induction stops with
  | nil => simp [firstHit]
  | cons block stops ih =>
    rw [firstHit, List.forall_mem_cons, <- ih]
    cases window uninit range block <;> simp

theorem sizes_eq_zero (skipped : ∀ block ∈ stops, window uninit range block = none) :
    sizes uninit range stops = 0 := by
  refine List.sum_eq_zero ?_
  intro number member
  obtain ⟨block, inside, rfl⟩ := List.mem_map.mp member
  rw [size, skipped block inside]

theorem inside_of_skipped (skipped : window uninit range block = none) :
    Inside uninit range block := by
  intro low high passes
  rw [skipped] at passes
  cases passes

structure Holds (rows : List (Row α)) (block : Block α) : Prop where
  count : block.rows.length = block.rowCount
  stored : ∀ row ∈ block.rows, row ∈ rows

variable {buf : List (Row α)} {base : Query α}

theorem Holds.filled (holds : Holds rows block) (same : ∀ index < block.rowCount, buf[index]? = block.rows[index]?)
    (indexes : Int × Int) : Filled rows (landed base buf block.rowCount indexes) := by
  intro index below
  have inside : index < block.rows.length := by
    rw [holds.count]
    exact below
  exact ⟨block.rows[index], holds.stored _ (List.getElem_mem inside),
    (same index below).trans (List.getElem?_eq_getElem inside)⟩

theorem landed_ends (base : Query α) (buf : List (Row α)) (count : Nat) (low high : Int)
    (ordered : base.order = order) :
    (landed base buf count (low, high)).curDataIndex = (if order = .asc then low else high) ∧
      (landed base buf count (low, high)).endDataIndex = (if order = .asc then high else low) := by
  subst ordered
  exact ⟨rfl, rfl⟩

theorem comes_landed {base : Query α} {buf : List (Row α)} {block : Block α} {low high : Int}
    {later : List (Block α)} {count : Nat} (holds : Holds rows block)
    (same : ∀ index < block.rowCount, buf[index]? = block.rows[index]?)
    (ordered : base.order = order) (behind : Behind db base later)
    (bounds : 0 ≤ low ∧ low ≤ high ∧ high < block.rowCount) :
    let query := landed base buf block.rowCount (low, high)
    OnRow rows query ∧ (Comes uninit codec rows count db query ↔
      ∃ rest, count = (high - low).toNat + rest ∧
        Comes uninit codec rows rest db (toRow query query.endDataIndex)) := by
  intro query
  obtain ⟨entry, exit⟩ := landed_ends base buf block.rowCount low high ordered
  have direction : query.order = order := ordered
  have filled : Filled rows query := holds.filled same (low, high)
  have queryBehind : Behind db query later := behind.withRows _ _ _ _ _
  refine ⟨filled.onRow ?_ ?_, comes_walk _ queryBehind filled ?_ ?_⟩
  · rw [entry]
    split <;> omega
  · rw [entry]
    change (if order = .asc then low else high) < (block.rowCount : Int)
    split <;> omega
  · intro step below
    rw [entry, direction]
    change _ ∧ _ < (block.rowCount : Int)
    cases order with
    | asc =>
      rw [if_pos rfl]
      simp only [Order.step]
      omega
    | desc =>
      rw [if_neg (by simp)]
      simp only [Order.step]
      omega
  · rw [entry, exit, direction]
    cases order with
    | asc =>
      rw [if_pos rfl, if_pos rfl]
      simp only [Order.step]
      omega
    | desc =>
      rw [if_neg (by simp), if_neg (by simp)]
      simp only [Order.step]
      omega

theorem crossed_of_landed {low high : Int}
    (ordered : base.order = order) (onRow : OnRow rows (landed base buf block.rowCount (low, high)))
    (outside : ¬ (0 ≤ low ∧ low ≤ high ∧ high < block.rowCount)) :
    Crossed (landed base buf block.rowCount (low, high)) := by
  obtain ⟨entry, exit⟩ := landed_ends base buf block.rowCount low high ordered
  have direction : (landed base buf block.rowCount (low, high)).order = order := ordered
  obtain ⟨nonneg, below, -⟩ := onRow
  rw [entry] at nonneg below
  change _ < (block.rowCount : Int) at below
  unfold Crossed
  rw [direction, entry, exit]
  cases order with
  | asc =>
    rw [if_pos rfl] at nonneg below
    change high < low ∨ (block.rowCount : Int) ≤ high
    omega
  | desc =>
    rw [if_neg (by simp)] at nonneg below
    change high < low ∨ low < 0
    omega

theorem sizes_of_split {before : List (Block α)} {low high : Int}
    (skipped : ∀ other ∈ before, window uninit range other = none)
    (passes : window uninit range block = some (low, high)) :
    sizes uninit range (before ++ block :: later) =
      (high + 1 - low).toNat + sizes uninit range later := by
  have none' := sizes_eq_zero skipped
  unfold sizes at none' ⊢
  rw [List.map_append, List.sum_append, none', List.map_cons, List.sum_cons, zero_add, size, passes]

/-- From where its first call lands a query comes to its end over rows exactly if
all windows lie inside their blocks, and there are as many calls as rows in
them. -/
theorem comes_iff_inside (length : Nat) :
    ∀ {db : Db α} {query : Query α} {stops : List (Block α)} {count : Nat},
      stops.length ≤ length -> Readable codec db -> (∀ block ∈ stops, Holds rows block) ->
      LandsNext uninit range order db stops (moveNext uninit codec db query).1
        (moveNext uninit codec db query).2.2 -> (Comes uninit codec rows count db query ↔
        (∀ block ∈ stops, Inside uninit range block) ∧ count = sizes uninit range stops) := by
  induction length with
  | zero =>
    intro db query stops count short readable holds lands
    have none' : stops = [] := List.eq_nil_of_length_eq_zero (Nat.le_zero.mp short)
    subst none'
    have ends : (moveNext uninit codec db query).1 = -1 := lands
    cases count with
    | zero => simp [Comes, ends, sizes]
    | succ count => simp [Comes, ends, sizes]
  | succ length ih =>
    intro db query stops count short readable holds lands
    unfold LandsNext at lands
    cases hit : firstHit uninit range stops with
    | none =>
      rw [hit] at lands
      have skipped := firstHit_eq_none_iff.mp hit
      rw [sizes_eq_zero skipped]
      have all : ∀ block ∈ stops, Inside uninit range block :=
        fun block member => inside_of_skipped (skipped block member)
      cases count with
      | zero => exact iff_of_true lands ⟨all, rfl⟩
      | succ count =>
        refine iff_of_false ?_ (by simp)
        rintro ⟨found, -⟩
        rw [lands] at found
        cases found
    | some found =>
      rw [hit] at lands
      obtain ⟨block, ⟨low, high⟩, later⟩ := found
      obtain ⟨code, base, buf, result, same, seeks, behind⟩ := lands
      obtain ⟨before, stopsEq, skipped⟩ := skipped_before_hit hit
      have passes := (firstHit_split hit).1
      subst stopsEq
      have blockHolds := holds block (by simp)
      have next : Readable codec (moveNext uninit codec db query).2.1 ∧
          Behind (moveNext uninit codec db query).2.1 base later :=
        ⟨readable_moveNext readable, Behind.moveNext behind⟩
      rw [sizes_of_split skipped passes]
      by_cases bounds : 0 ≤ low ∧ low ≤ high ∧ high < block.rowCount
      · have inside : Inside uninit range block := by
          intro first last passesToo
          rw [passes] at passesToo
          cases passesToo
          exact bounds
        have every : (∀ other ∈ before ++ block :: later, Inside uninit range other) ↔
            ∀ other ∈ later, Inside uninit range other := by
          simp only [List.forall_mem_append, List.forall_mem_cons]
          exact ⟨fun all => all.2.2, fun all =>
            ⟨fun other member => inside_of_skipped (skipped other member), inside, all⟩⟩
        rw [every]
        cases count with
        | zero =>
          refine iff_of_false ?_ (by omega)
          intro fails
          rw [Comes, code] at fails
          cases fails
        | succ count =>
          obtain ⟨onRow, walk⟩ := @comes_landed _ uninit codec order
            (moveNext uninit codec db query).2.1 rows base buf block low high later count
            blockHolds same seeks.order next.2 bounds
          rw [<- result] at onRow walk
          have lastRow : LandsNext uninit range order (moveNext uninit codec db query).2.1 later
              _ _ :=
            @moveNext_last _ uninit codec range order _
              (toRow (moveNext uninit codec db query).2.2
                (moveNext uninit codec db query).2.2.endDataIndex) next.1
              (by rw [result]; exact ⟨seeks.start, seeks.finish, seeks.order⟩) _
              (by rw [result]; exact (next.2.withRows _ _ _ _ _).toRow _)
              ⟨by
                rw [result]
                change (if base.order = .asc then high else low) ≠ -1
                split <;> omega, rfl⟩
          have rest := fun count => @ih _ _ later count (by
              rw [List.length_append, List.length_cons] at short
              omega) next.1 (fun other member => holds other (by simp [member])) lastRow
          rw [Comes, walk]
          simp only [rest, code, onRow, true_and]
          constructor
          · rintro ⟨left, countEq, all, leftEq⟩
            exact ⟨all, by omega⟩
          · rintro ⟨all, countEq⟩
            exact ⟨_, by omega, all, rfl⟩
      · refine iff_of_false ?_ (fun all => bounds (all.1 block (by simp) low high passes))
        intro comes
        cases count with
        | zero =>
          rw [Comes, code] at comes
          cases comes
        | succ count =>
          obtain ⟨-, onRow, comes⟩ := comes
          rw [result] at onRow comes
          exact not_comes_of_crossed count (next.2.withRows _ _ _ _ _) onRow
            (crossed_of_landed seeks.order onRow bounds) comes

end Exhaustion

end Luomi.Edb.Exhaustion
