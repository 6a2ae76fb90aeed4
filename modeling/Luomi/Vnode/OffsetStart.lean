import Luomi.Vnode.OffsetRuns

/-!
# The scan behind the offset

The scan begins with the row of the offset.  Where the range has no such row the
query is to be finished, which is not noticed while the data go on behind the range.
-/

namespace Luomi.Vnode.OffsetStart

open QueryBlocks QueryCursor QueryMoves
   Luomi.Vnode.QueryScan Luomi.Vnode.QueryBlockSteps
  Luomi.Vnode.QueryApply Luomi.Vnode.ScanProgress Luomi.Vnode.ScanResume
  Luomi.Vnode.QueryOffset Luomi.Vnode.OffsetRuns

section

variable {order : QueryOrder} {rows : List Int} (ordered : rows.Pairwise (Before order))

include ordered

theorem upToEnd_behind {ekey : Int} {k : Nat} (within : k ≤ (upToEnd order ekey rows).length) :
    upToEnd order ekey (rows.drop k) = (upToEnd order ekey rows).drop k := by
  have first : ∀ row ∈ rows.take k, UpTo order row ekey := by
    intro row member
    have isPrefix : rows.take k <+: upToEnd order ekey rows := by
      rw [upToEnd_takeWhile ordered] at within ⊢
      exact List.prefix_of_prefix_length_le (List.take_prefix _ _) (List.takeWhile_prefix _)
        (by rw [List.length_take]; exact le_trans (min_le_left _ _) within)
    exact of_decide_eq_true (List.mem_filter.mp (isPrefix.subset member)).2
  have most : k ≤ rows.length := le_trans within (List.length_filter_le _ _)
  have splits : upToEnd order ekey rows = rows.take k ++ upToEnd order ekey (rows.drop k) := by
    rw [<- upToEnd_all first, <- upToEnd_append, List.take_append_drop]
  rw [splits, List.drop_left' (by rw [List.length_take]; omega)]

theorem head_inRange {ekey key : Int} (head : rows.head? = some key)
    (some_ : upToEnd order ekey rows ≠ []) : UpTo order key ekey := by
  cases rows with
  | nil => cases head
  | cons row rest =>
    cases head
    by_contra beyond
    rw [upToEnd_takeWhile ordered, List.takeWhile_cons, if_neg (by simpa using beyond)] at some_
    exact some_ rfl

end

variable {found query : SQuery} {meter : SMeterObj} {functions : Functions}

theorem landed_start (start : Start meter query)
    {k : Nat} (inRange : k < (rangeRows meter.toSMeterData query).length)
    (landed : Landed meter query found ((rowsFromStart meter.toSMeterData query).drop k)) :
    Start meter found ∧ rangeRows meter.toSMeterData found =
      (rangeRows meter.toSMeterData query).drop k := by
  rw [rangeRows_eq] at inRange
  have rangeRest := upToEnd_behind (rowsFromStart_ordered meter query) inRange.le
  have some_ : upToEnd query.order query.ekey
      ((rowsFromStart meter.toSMeterData query).drop k) ≠ [] := by
    rw [rangeRest]
    exact List.ne_nil_of_length_pos (by rw [List.length_drop]; omega)
  have reaches := head_inRange (rowsFromStart_ordered meter query).drop landed.row some_
  obtain ⟨block, later, stands, rest⟩ := landed.stands
  have isKey := landed.row
  obtain ⟨front, back, here, inside, small, isLater⟩ := id stands
  rw [rest, <- keyAt_remaining inside small later] at isKey
  have reached : UpTo query.order found.skey found.skey := by
    cases query.order <;> exact le_rfl
  have rows := rows_behind stands isKey reached fun _ _ isReached => isReached
  obtain ⟨cursor, skey, status, rfl⟩ := landed.result
  refine ⟨?_, ?_⟩
  · exact { first := ⟨front, block, back, skey, here, isKey, reached, reaches,
              fun _ _ isReached => isReached⟩
            lastKey := rfl
            unread := start.unread
            loaded := rfl
            keysLoaded := rfl
            room := start.room
            empty := start.empty }
  · rw [rangeRows_eq, rangeRows_eq, <- rangeRest, rest, <- rows]
    rfl

theorem side_first (fresh : query.status = {})
    (passed : List Int) : Side meter.toSMeterData query query passed where
  onward := by cases query.order <;> exact id
  status := Or.inl fresh
  completed := by
    rw [fresh]
    exact ⟨fun completed => (by cases completed), fun both => absurd Iff.rfl both.1⟩
  whole := fun crossed => absurd Iff.rfl crossed

variable {later : List (List Int)} {block : List Int}

theorem skipping_first (poised : Poised meter query block later)
    (rows : rowsFromStart meter.toSMeterData query =
      remaining query.order block query.cursor.pos later) (fresh : query.status = {}) :
    Skipping meter query query block later (rowsFrom query.order block query.cursor.pos) where
  stands := poised.stands
  rows := rows
  same := ⟨_, _, _, _, _, rfl⟩
  reached := poised.reached
  behind := fun k isLater =>
    poised.behind k (List.mem_append_right _ (mem_later.mpr isLater))
  firstKey := fun desc => by
    obtain ⟨_, _, _, inside, small, _⟩ := poised.stands
    have lastIs := @last_rowsFrom query.order block _ inside small
    rw [desc] at lastIs ⊢
    exact List.mem_of_getElem? lastIs
  side := side_first fresh _

theorem firstBlock_within (stands : StandsAt meter query.order query.cursor block later)
    (rows : rowsFromStart meter.toSMeterData query =
      remaining query.order block query.cursor.pos later)
    (before : CanCross query.order query.cursor) :
    (rowsFrom query.order block query.cursor.pos).length ≤ sideRows meter.toSMeterData query := by
  have isOther := otherSide_later stands before
  rw [sideRows, rows, remaining, List.length_append, flatMap_length]
  omega

theorem forward_spec {meter : SMeterObj} {functions : Functions} {query : SQuery} {k : Nat}
    (start : Start meter query) (fresh : query.status = {}) (even : EvenSkips meter query k)
    (kept : StartKept meter.toSMeterData query k) (positive : 0 < k) :
    ∃ found left, forwardQueryStartPosition meter.toSMeterData functions query k =
      some (found, left) ∧ Skipped meter query k found := by
  obtain ⟨block, later, poised, rows⟩ := start_poised start
  have stands := poised.stands
  have ⟨_, _, _, inside, small, _⟩ := stands
  have length := congrArg List.length rows
  rw [remaining, List.length_append, flatMap_length] at length
  rw [forwardQueryStartPosition, if_neg (by omega), stands.found]
  simp only
  rw [maxReads_eq inside small]
  by_cases within : k < (rowsFrom query.order block query.cursor.pos).length
  · rw [if_pos (by exact_mod_cast within)]
    obtain ⟨found, updates, landed, status, -⟩ := updateOffsetVal_spec stands
      (fun _ => ⟨start.loaded, start.keysLoaded⟩) within
    rw [updates]
    refine ⟨found, 0, rfl, Or.inr ⟨by omega, ?_, ?_⟩⟩
    · rw [rows]
      exact landed
    · rw [Finished, status, <- Finished]
      exact landed_finished stands (side_first fresh []) rows (by rw [fresh]) (Nat.zero_le _)
        (by rwa [List.length_nil, Nat.zero_add])
  · rw [if_neg (by exact_mod_cast within),
      show (k : Int) - ((rowsFrom query.order block query.cursor.pos).length : Int) =
        ((k - (rowsFrom query.order block query.cursor.pos).length : Nat) : Int) by omega]
    exact doSkip_spec even kept meter.blocks.length (skipping_first poised rows fresh) (by omega)
      (later_length stands)

/-- Without a start of the scan that was kept, the change to the files fails. -/
theorem forward_kept {k : Nat}
    {left : Int} (start : Start meter query) (fresh : query.status = {}) (positive : 0 < k)
    (runs : forwardQueryStartPosition meter.toSMeterData functions query k = some (found, left)) :
    StartKept meter.toSMeterData query k := by
  intro desc cached inFiles passes
  by_contra unknown
  obtain ⟨block, later, poised, rows⟩ := start_poised start
  have stands := poised.stands
  have ⟨_, _, _, inside, small, _⟩ := stands
  have within := firstBlock_within stands rows (by rw [desc]; exact cached)
  rw [forwardQueryStartPosition, if_neg (by omega), stands.found] at runs
  simp only at runs
  rw [maxReads_eq inside small, if_neg (by omega),
    show (k : Int) - ((rowsFrom query.order block query.cursor.pos).length : Int) =
      ((k - (rowsFrom query.order block query.cursor.pos).length : Nat) : Int) by omega,
    skip_fails desc inFiles passes (not_lt.mp unknown) _ (skipping_first poised rows fresh) cached
      (by omega)] at runs
  cases runs

theorem first_inRange (start : Start meter query) :
    0 < (rangeRows meter.toSMeterData query).length := by
  obtain ⟨front, block, back, key, here, isKey, reached, inRange, isFirst⟩ := start.first
  obtain ⟨inside, small⟩ := keyAt_some isKey
  have rows := rows_behind ⟨front, back, here, inside, small, rfl⟩ isKey reached isFirst
  rw [keyAt_remaining inside small (blocksAfter query.order front back)] at isKey
  have member := List.mem_of_mem_head? isKey
  rw [<- rows, <- rowsFromStart] at member
  rw [rangeRows_eq]
  exact List.length_pos_of_mem (List.mem_filter.mpr ⟨member, decide_eq_true inRange⟩)

/-- The start is at the row of the offset, from where the scans handle the rest of
the range, or the query is finished where the range has no such row. -/
def Forwarded (meter : SMeterObj) (functions : Functions) (query : SQuery) (k : Nat) : Prop :=
  ∃ found left, forwardQueryStartPosition meter.toSMeterData functions query k =
      some (found, left) ∧
    (k < (rangeRows meter.toSMeterData query).length -> ¬ Finished found ∧ Start meter found ∧
      rangeRows meter.toSMeterData found = (rangeRows meter.toSMeterData query).drop k ∧
      ∀ (n : Nat) (result : Option SQuery),
        Run meter.toSMeterData functions found (Resumable meter.toSMeterData found) n result ->
        ∃ stopped, result = some stopped ∧ Complete meter found n stopped) ∧
    ((rangeRows meter.toSMeterData query).length ≤ k -> Finished found)

/-- The range has a row at the offset, or the data have none, or the range ends where
the scan changes sides and the offset takes it there. -/
def Forwardable (meter : SMeterObj) (query : SQuery) (k : Nat) : Prop :=
  (k < (rangeRows meter.toSMeterData query).length ∨
    (rowsFromStart meter.toSMeterData query).length ≤ k ∨ (CanCross query.order query.cursor ∧
      (rangeRows meter.toSMeterData query).length ≤ sideRows meter.toSMeterData query ∧
      sideRows meter.toSMeterData query ≤ k)) ∧
  StartKept meter.toSMeterData query k

theorem range_le (meter : SMeterData) (query : SQuery) :
    (rangeRows meter query).length ≤ (rowsFromStart meter query).length := by
  rw [rangeRows_eq]
  exact List.length_filter_le _ _

theorem start_runs (start : Start meter found) (consistent : Consistent functions found)
    (onePerRow : OnePerRow functions found) (n : Nat) (result : Option SQuery)
    (run : Run meter.toSMeterData functions found (Resumable meter.toSMeterData found) n result) :
    ∃ stopped, result = some stopped ∧ Complete meter found n stopped := by
  obtain ⟨stopped, isStopped, progress⟩ := run_progress start consistent onePerRow run
  exact ⟨stopped, isStopped, progress.complete⟩

variable {rest : List Int}

theorem landed_consistent (landed : Landed meter query found rest)
    (consistent : Consistent functions query) : Consistent functions found := by
  obtain ⟨_, _, _, rfl⟩ := landed.result
  exact ⟨consistent.keys, consistent.data, consistent.plain⟩

theorem landed_onePerRow (landed : Landed meter query found rest)
    (onePerRow : OnePerRow functions query) : OnePerRow functions found := by
  obtain ⟨_, _, _, rfl⟩ := landed.result
  exact onePerRow

theorem forwarded_zero (start : Start meter query) (fresh : query.status = {})
    (consistent : Consistent functions query) (onePerRow : OnePerRow functions query) :
    Forwarded meter functions query 0 := by
  refine ⟨query, 0, rfl, fun _ => ⟨?_, start, rfl, start_runs start consistent onePerRow⟩, ?_⟩
  · rw [Finished, fresh]
    decide
  · intro none_
    exact absurd (first_inRange start) (not_lt.mpr none_)

theorem forwardable_zero (start : Start meter query) : Forwardable meter query 0 := by
  refine ⟨Or.inl (first_inRange start), fun desc cached _ none_ => ?_⟩
  obtain ⟨block, later, poised, rows⟩ := start_poised start
  have ⟨_, _, _, inside, small, _⟩ := poised.stands
  have within := firstBlock_within poised.stands rows (by rw [desc]; exact cached)
  have length := @rowsFrom_length query.order block _ inside small
  rw [desc] at length within
  simp only at length
  omega

/-- Just then the offset is right: else the end of the range inside the data is not
noticed, or the change to the files fails. -/
theorem offset_iff {meter : SMeterObj} {functions : Functions} {query : SQuery} {k : Nat}
    (start : Start meter query) (fresh : query.status = {}) (even : EvenSkips meter query k)
    (consistent : Consistent functions query) (onePerRow : OnePerRow functions query) :
    Forwarded meter functions query k ↔ Forwardable meter query k := by
  rcases Nat.eq_zero_or_pos k with rfl | positive
  · exact iff_of_true (forwarded_zero start fresh consistent onePerRow) (forwardable_zero start)
  have range := range_le meter.toSMeterData query
  constructor
  · rintro ⟨found, left, runs, -, ends⟩
    have kept := forward_kept start fresh positive runs
    obtain ⟨found', left', runs', skipped⟩ :=
      @forward_spec meter functions query k start fresh even kept positive
    rw [runs, Option.some.injEq, Prod.mk.injEq] at runs'
    obtain ⟨rfl, rfl⟩ := runs'
    refine ⟨?_, kept⟩
    by_cases inRange : k < (rangeRows meter.toSMeterData query).length
    · exact Or.inl inRange
    · have finished := ends (not_lt.mp inRange)
      rcases skipped with ⟨noRow, -⟩ | ⟨-, -, isFinished⟩
      · exact Or.inr (Or.inl noRow)
      · obtain ⟨canCross, passes, enough⟩ := isFinished.mp finished
        exact Or.inr (Or.inr ⟨canCross, enough, passes⟩)
  · rintro ⟨cases_, kept⟩
    obtain ⟨found, left, runs, skipped⟩ :=
      @forward_spec meter functions query k start fresh even kept positive
    refine ⟨found, left, runs, fun inRange => ?_, fun beyond => ?_⟩
    · rcases skipped with ⟨noRow, -⟩ | ⟨-, landed, isFinished⟩
      · omega
      · obtain ⟨begins, rows⟩ := landed_start start inRange landed
        refine ⟨fun finished => ?_, begins, rows,
          start_runs begins (landed_consistent landed consistent)
            (landed_onePerRow landed onePerRow)⟩
        obtain ⟨-, passes, enough⟩ := isFinished.mp finished
        omega
    · rcases skipped with ⟨-, noData⟩ | ⟨hasRow, -, isFinished⟩
      · exact Or.inl noData
      · rcases cases_ with inRange | noRow | ⟨canCross, enough, passes⟩
        · omega
        · omega
        · exact isFinished.mpr ⟨canCross, passes, enough⟩

theorem offset_inside : Forwarded twoFiles project (projection .asc 2) 2 ↔
    Forwardable twoFiles (projection .asc 2) 2 :=
  offset_iff (projection_start .asc (by decide)) rfl (fun desc => by cases desc)
    (projection_consistent .asc 2) (projection_onePerRow .asc 2)

/-- The range ends with row 1, and an offset of 1 takes the start to row 2: the query
is not finished. -/
def shortRange : SQuery := { projection .asc 2 with ekey := 1 }

theorem shortRange_start : Start twoFiles shortRange where
  first := ⟨[], [1], [[2, 3], [10]], 1,
    @Here.file twoFiles [] [⟨2, [[10]]⟩] ⟨0, [[1], [2, 3]]⟩ [] [[2, 3]] [1] 0 rfl rfl, rfl, le_rfl,
    le_rfl, fun _ _ reached => reached⟩
  lastKey := rfl
  unread := rfl
  loaded := rfl
  keysLoaded := rfl
  room := by decide
  empty := rfl

theorem not_finished : ¬ ∀ (meter : SMeterObj) (functions : Functions) (query : SQuery) (k : Nat),
    Start meter query -> query.status = {} -> Consistent functions query ->
    OnePerRow functions query -> Forwarded meter functions query k := by
  intro holds
  obtain ⟨found, left, runs, -, ends⟩ := holds twoFiles project shortRange 1 shortRange_start rfl
    ⟨fun _ => rfl, fun _ _ _ => by simp [project], fun _ => ⟨rfl, rfl⟩⟩ (fun _ _ _ => rfl)
  have finished := ends (by decide +kernel)
  have isFound : (forwardQueryStartPosition twoFiles.toSMeterData project shortRange 1).map
      (fun result => decide (Finished result.1)) = some false := by decide +kernel
  rw [show ((1 : Nat) : Int) = 1 from rfl] at runs
  rw [runs, Option.map_some, Option.some.injEq, decide_eq_false_iff_not] at isFound
  exact isFound finished

end Luomi.Vnode.OffsetStart
