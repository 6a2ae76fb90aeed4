import Luomi.Edb.BlockSearch

/-!
# One block or log before a query

Which rows of a block or of the log a query returns depends on the relation of
its first and last timestamp to the range and on what the two binary searches
hit.  `Answers` is the exact condition under which these are the rows in the
range.
-/

namespace Luomi.Edb.Segment

open SortedWindow Database Cursor BlockSearch

structure Range where
  start : Int
  finish : Int
  ordered : start ≤ finish

section Segment

variable {α : Type}

def rowsIn (range : Range) (rows : List (Row α)) : List (Row α) :=
  between Row.timestamp range.start range.finish rows

def directed {β : Type} (order : Order) (list : List β) : List β :=
  if order = .asc then list else list.reverse

/-- The lower and the upper index `set_data_index` takes for a block that
passes. -/
def window (uninit : Int) (range : Range) (block : Block α) : Option (Int × Int) :=
  let type := getBlockType block.startTimestamp block.endTimestamp range.start range.finish
  if type.toNat < BlockType.equal.toNat then none
  else
    let search := fun key isStart =>
      binarySearch uninit (timestamps block.rows) key block.rowCount isStart
    let last : Int := block.rowCount - 1
    match type with
    | .leftCross => some (search range.start true, last)
    | .rightCross => some (0, search range.finish false)
    | .containing => some (search range.start true, search range.finish false)
    | _ => some (0, last)

def slice (rows : List (Row α)) (low high : Int) : List (Row α) :=
  (rows.drop low.toNat).take (high + 1 - low).toNat

/-- The rows a query returns for a block; `none` if it misses the end of the
window. -/
def emission (uninit : Int) (range : Range) (order : Order) (block : Block α) :
    Option (List (Row α)) :=
  match window uninit range block with
  | none => some []
  | some (low, high) => if low ≤ high then some (directed order (slice block.rows low high)) else none

structure Recorded (block : Block α) : Prop where
  count : block.rows.length = block.rowCount
  first : block.rows.head?.map Row.timestamp = some block.startTimestamp
  last : block.rows.getLast?.map Row.timestamp = some block.endTimestamp
  sorted : Ascending Row.timestamp block.rows

/-- A block lies outside the range, or neither of its ends is that of the range,
it has a row in the range, and where it goes beyond an end of the range the
binary search hits the outermost row within. -/
def Answers (uninit : Int) (range : Range) (block : Block α) : Prop :=
  (block.endTimestamp < range.start ∨ range.finish < block.startTimestamp) ∨
    (block.startTimestamp ≠ range.start ∧ block.endTimestamp ≠ range.finish ∧
      rowsIn range block.rows ≠ [] ∧ (block.startTimestamp < range.start ->
        binarySearch uninit (timestamps block.rows) range.start block.rowCount true =
          lower Row.timestamp block.rows range.start) ∧ (range.finish < block.endTimestamp ->
        binarySearch uninit (timestamps block.rows) range.finish block.rowCount false =
          (upper Row.timestamp block.rows range.finish : Int) - 1))

/-- The blocks without a window are those `get_block_type` takes for disjoint
from the range, among them the ones that share an end with it. -/
theorem window_eq (uninit : Int) (range : Range) {block : Block α}
    (ordered : block.startTimestamp ≤ block.endTimestamp) :
    window uninit range block =
      if block.startTimestamp = range.start ∨ block.endTimestamp = range.finish ∨
          block.endTimestamp < range.start ∨ range.finish < block.startTimestamp then none
      else some
        (if block.startTimestamp < range.start then
            binarySearch uninit (timestamps block.rows) range.start block.rowCount true
          else 0,
          if range.finish < block.endTimestamp then
            binarySearch uninit (timestamps block.rows) range.finish block.rowCount false
          else (block.rowCount : Int) - 1) := by
  have rangeOrdered := range.ordered
  unfold window getBlockType
  split_ifs <;> first | rfl | omega

section Recorded

variable {uninit : Int} {range : Range} {block : Block α}
  {rows : List (Row α)} {index : Nat}

theorem timestamps_getD (inside : index < rows.length) :
    (timestamps rows).getD index 0 = rows[index].timestamp := by
  rw [timestamps, List.getD_eq_getElem?_getD, List.getElem?_map,
    List.getElem?_eq_getElem inside, Option.map_some, Option.getD_some]

section

variable (recorded : Recorded block)
include recorded

theorem Recorded.rising : Rising (timestamps block.rows) block.rowCount := by
  intro low high ordered inside
  rw [<- recorded.count] at inside
  rw [timestamps_getD (lt_of_le_of_lt ordered inside), timestamps_getD inside]
  rcases Nat.lt_or_eq_of_le ordered with less | rfl
  · exact List.pairwise_iff_getElem.mp recorded.sorted low high _ inside less
  · exact le_rfl

theorem Recorded.pos : 0 < block.rowCount := by
  rw [<- recorded.count]
  cases rows : block.rows with
  | nil =>
    have first := recorded.first
    rw [rows] at first
    cases first
  | cons row later => exact Nat.succ_pos _

theorem Recorded.first_getD : (timestamps block.rows).getD 0 0 = block.startTimestamp := by
  have first := recorded.first
  cases rows : block.rows with
  | nil =>
    rw [rows] at first
    cases first
  | cons row later =>
    rw [rows] at first
    exact Option.some.inj first

theorem Recorded.last_getD :
    (timestamps block.rows).getD (block.rowCount - 1) 0 = block.endTimestamp := by
  have last := recorded.last
  have positive := recorded.pos
  rw [List.getLast?_eq_getElem?, recorded.count] at last
  have inside : block.rowCount - 1 < block.rows.length := by
    rw [recorded.count]
    omega
  rw [List.getElem?_eq_getElem inside] at last
  rw [timestamps_getD inside]
  exact Option.some.inj last

theorem Recorded.ordered : block.startTimestamp ≤ block.endTimestamp := by
  rw [<- recorded.first_getD, <- recorded.last_getD]
  have positive := recorded.pos
  exact recorded.rising 0 _ (Nat.zero_le _) (by omega)

theorem Recorded.lt_iff (inside : index < block.rowCount)
    (bound : Int) : (timestamps block.rows).getD index 0 < bound ↔
      index < lower Row.timestamp block.rows bound := by
  rw [<- recorded.count] at inside
  rw [timestamps_getD inside]
  exact key_lt_iff recorded.sorted inside bound

theorem Recorded.le_iff (inside : index < block.rowCount)
    (bound : Int) : (timestamps block.rows).getD index 0 ≤ bound ↔
      index < upper Row.timestamp block.rows bound := by
  rw [<- recorded.count] at inside
  rw [timestamps_getD inside]
  exact key_le_iff recorded.sorted inside bound

theorem Recorded.upper_le (bound : Int) :
    upper Row.timestamp block.rows bound ≤ block.rowCount := by
  rw [<- recorded.count]
  exact upper_le_length _ _ _

theorem Recorded.lower_le (bound : Int) :
    lower Row.timestamp block.rows bound ≤ block.rowCount := by
  rw [<- recorded.count]
  exact lower_le_length _ _ _

variable {border : Nat} {bound : Int}

theorem Recorded.eq_lower (inside : border ≤ block.rowCount)
    (before : ∀ index < border, (timestamps block.rows).getD index 0 < bound)
    (after : ∀ index, border ≤ index -> index < block.rowCount ->
      ¬ (timestamps block.rows).getD index 0 < bound) :
    border = lower Row.timestamp block.rows bound := by
  have lowerLe := recorded.lower_le bound
  rcases Nat.lt_trichotomy border (lower Row.timestamp block.rows bound) with less | equal | more
  · exact absurd ((recorded.lt_iff (by omega) bound).mpr less) (after border le_rfl (by omega))
  · exact equal
  · exact absurd ((recorded.lt_iff (by omega) bound).mp (before _ more)) (Nat.lt_irrefl _)

theorem Recorded.eq_upper (inside : border ≤ block.rowCount)
    (before : ∀ index < border, (timestamps block.rows).getD index 0 ≤ bound)
    (after : ∀ index, border ≤ index -> index < block.rowCount ->
      ¬ (timestamps block.rows).getD index 0 ≤ bound) :
    border = upper Row.timestamp block.rows bound := by
  have upperLe := recorded.upper_le bound
  rcases Nat.lt_trichotomy border (upper Row.timestamp block.rows bound) with less | equal | more
  · exact absurd ((recorded.le_iff (by omega) bound).mpr less) (after border le_rfl (by omega))
  · exact equal
  · exact absurd ((recorded.le_iff (by omega) bound).mp (before _ more)) (Nat.lt_irrefl _)

theorem Recorded.low_spec (uninit : Int) (range : Range)
    (notLeft : range.start ≤ block.endTimestamp)
    {low : Int} (lowEq : low = if block.startTimestamp < range.start then
      binarySearch uninit (timestamps block.rows) range.start block.rowCount true else 0) :
    ∃ index < block.rowCount, low = (index : Int) ∧
      (index = lower Row.timestamp block.rows range.start ∨ block.startTimestamp < range.start ∧
          (timestamps block.rows).getD index 0 = range.start) := by
  have positive := recorded.pos
  split at lowEq
  · rename_i before
    rcases binarySearch_spec uninit recorded.rising true with found | ⟨border, spec⟩
    · obtain ⟨index, inside, equal, value⟩ := found
      exact ⟨index, inside, lowEq.trans equal, Or.inr ⟨before, value⟩⟩
    · have inside : border < block.rowCount := by
        by_contra beyond
        have below := spec.before (block.rowCount - 1) (by omega)
        rw [recorded.last_getD] at below
        omega
      refine ⟨border, inside, lowEq.trans (spec.start rfl inside), Or.inl ?_⟩
      exact recorded.eq_lower (Nat.le_of_lt inside) spec.before fun index above under =>
        not_lt_of_gt (spec.after index above under)
  · rename_i notBefore
    refine ⟨0, positive, lowEq, Or.inl ?_⟩
    refine recorded.eq_lower (Nat.zero_le _) (fun index below => absurd below (Nat.not_lt_zero _))
      fun index _ inside less => notBefore ?_
    have first := recorded.rising 0 index (Nat.zero_le _) inside
    rw [recorded.first_getD] at first
    omega

theorem Recorded.high_spec (uninit : Int) (range : Range)
    (notRight : block.startTimestamp ≤ range.finish) {high : Int}
    (highEq : high = if range.finish < block.endTimestamp then
      binarySearch uninit (timestamps block.rows) range.finish block.rowCount false
      else (block.rowCount : Int) - 1) :
    ∃ index < block.rowCount, high = (index : Int) ∧
      (index + 1 = upper Row.timestamp block.rows range.finish ∨ range.finish < block.endTimestamp ∧
          (timestamps block.rows).getD index 0 = range.finish) := by
  have positive := recorded.pos
  split at highEq
  · rename_i beyond
    rcases binarySearch_spec uninit recorded.rising false with found | ⟨border, spec⟩
    · obtain ⟨index, inside, equal, value⟩ := found
      exact ⟨index, inside, highEq.trans equal, Or.inr ⟨beyond, value⟩⟩
    · have some' : 0 < border := by
        by_contra none'
        have above := spec.after 0 (by omega) positive
        rw [recorded.first_getD] at above
        omega
      have inside := spec.inside
      have result := highEq.trans (spec.finish rfl some')
      refine ⟨border - 1, by omega, by omega, Or.inl ?_⟩
      rw [Nat.sub_add_cancel some']
      exact recorded.eq_upper inside (fun index below => le_of_lt (spec.before index below))
        fun index above under => not_le_of_gt (spec.after index above under)
  · rename_i notBeyond
    refine ⟨block.rowCount - 1, by omega, by omega, Or.inl ?_⟩
    rw [Nat.sub_add_cancel positive]
    refine recorded.eq_upper le_rfl (fun index inside => ?_)
      fun index above inside => absurd inside (not_lt_of_ge above)
    have last := recorded.rising index (block.rowCount - 1) (by omega) (by omega)
    rw [recorded.last_getD] at last
    omega

end

/-- Where a block that passes is entered and left.  Both ends lie within the rows
in the range if there are any; if not, the window is empty. -/
structure Ends (uninit : Int) (range : Range) (block : Block α) (low high : Nat) : Prop where
  lowInside : low < block.rowCount
  highInside : high < block.rowCount
  lowAbove : lower Row.timestamp block.rows range.start ≤ low
  highBelow : high + 1 ≤ upper Row.timestamp block.rows range.finish
  meet : lower Row.timestamp block.rows range.start < upper Row.timestamp block.rows range.finish ->
    low ≤ high
  apart : ¬ lower Row.timestamp block.rows range.start <
    upper Row.timestamp block.rows range.finish -> high < low

theorem Recorded.ends (recorded : Recorded block) {low high : Int}
    (passes : window uninit range block = some (low, high)) :
    ∃ first last : Nat, low = first ∧ high = last ∧ Ends uninit range block first last := by
  rw [window_eq uninit range recorded.ordered] at passes
  split at passes
  · cases passes
  · rename_i meets
    cases passes
    obtain ⟨first, firstInside, lowEq, lowCases⟩ :=
      recorded.low_spec uninit range (by omega) rfl
    obtain ⟨last, lastInside, highEq, highCases⟩ :=
      recorded.high_spec uninit range (by omega) rfl
    have lowAbove : lower Row.timestamp block.rows range.start ≤ first := by
      rcases lowCases with equal | ⟨-, value⟩
      · omega
      · have := (recorded.lt_iff firstInside range.start).not.mp (by omega)
        omega
    have highBelow : last + 1 ≤ upper Row.timestamp block.rows range.finish := by
      rcases highCases with equal | ⟨-, value⟩
      · omega
      · exact (recorded.le_iff lastInside range.finish).mp (by omega)
    refine ⟨first, last, lowEq, highEq, firstInside, lastInside, lowAbove, highBelow, ?_,
      fun apart => by omega⟩
    intro some'
    rcases lowCases with lowEqual | ⟨before, lowValue⟩
    · rcases highCases with highEqual | ⟨-, highValue⟩
      · omega
      · have := (recorded.lt_iff lastInside range.start).not.mp (by have := range.ordered; omega)
        omega
    · rcases highCases with highEqual | ⟨beyond, highValue⟩
      · have := (recorded.le_iff firstInside range.finish).mp (by have := range.ordered; omega)
        omega
      · -- only equal ends could put the occurrences the wrong way round
        by_contra crossed
        have order := recorded.rising last first (by omega) firstInside
        have rangeOrdered := range.ordered
        have same : range.start = range.finish := by omega
        rw [if_pos before] at lowEq
        rw [if_pos beyond, <- same] at highEq
        have direction := binarySearch_direction uninit recorded.rising firstInside lowValue
        omega

variable {low high : Nat}

theorem slice_length (inside : high < rows.length) :
    (slice rows low high).length = high + 1 - low := by
  rw [slice, List.length_take, List.length_drop]
  omega

theorem directed_length {β : Type} (order : Order) (list : List β) :
    (directed order list).length = list.length := by
  unfold directed
  split <;> simp

section

variable (recorded : Recorded block)
include recorded

theorem Recorded.length_rowsIn : (rowsIn range block.rows).length =
      upper Row.timestamp block.rows range.finish - lower Row.timestamp block.rows range.start :=
  length_between recorded.sorted range.ordered

theorem Recorded.rowsIn_ne_nil_iff (range : Range) : rowsIn range block.rows ≠ [] ↔
      lower Row.timestamp block.rows range.start < upper Row.timestamp block.rows range.finish := by
  rw [<- List.length_pos_iff_ne_nil, recorded.length_rowsIn]
  omega

theorem Recorded.rowsIn_eq_nil_of_outside
    (outside : block.endTimestamp < range.start ∨ range.finish < block.startTimestamp) :
    rowsIn range block.rows = [] := by
  have positive := recorded.pos
  by_contra some'
  have crossing := (recorded.rowsIn_ne_nil_iff range).mp some'
  rcases outside with left | right
  · have last := recorded.lt_iff (Nat.sub_one_lt_of_lt positive) range.start
    rw [recorded.last_getD] at last
    have below := last.mp left
    have upperLe := recorded.upper_le range.finish
    omega
  · have first := recorded.le_iff positive range.finish
    rw [recorded.first_getD] at first
    have none' := first.not.mp (not_le_of_gt right)
    omega

theorem Recorded.rowsIn_ne_nil_of_shared
    (inside : ¬ (block.endTimestamp < range.start ∨ range.finish < block.startTimestamp))
    (shared : block.startTimestamp = range.start ∨ block.endTimestamp = range.finish) :
    rowsIn range block.rows ≠ [] := by
  have positive := recorded.pos
  rw [recorded.rowsIn_ne_nil_iff]
  rcases shared with start | finish
  · have notBelow := (recorded.lt_iff positive range.start).not
    have under := recorded.le_iff positive range.finish
    rw [recorded.first_getD] at notBelow under
    have none' := notBelow.mp (by omega)
    have some' := under.mp (by omega)
    omega
  · have last : block.rowCount - 1 < block.rowCount := Nat.sub_one_lt_of_lt positive
    have notBelow := (recorded.lt_iff last range.start).not
    have under := recorded.le_iff last range.finish
    rw [recorded.last_getD] at notBelow under
    have above := notBelow.mp (by omega)
    have some' := under.mp (by omega)
    omega

theorem Recorded.answers_iff_of_skipped (skipped : window uninit range block = none) :
    Answers uninit range block ↔ rowsIn range block.rows = [] := by
  rw [window_eq uninit range recorded.ordered] at skipped
  have notPassing : block.startTimestamp = range.start ∨ block.endTimestamp = range.finish ∨
      block.endTimestamp < range.start ∨ range.finish < block.startTimestamp := by
    by_contra passing
    rw [if_neg passing] at skipped
    cases skipped
  by_cases outside : block.endTimestamp < range.start ∨ range.finish < block.startTimestamp
  · exact iff_of_true (Or.inl outside) (recorded.rowsIn_eq_nil_of_outside outside)
  · have shared : block.startTimestamp = range.start ∨ block.endTimestamp = range.finish := by
      omega
    refine iff_of_false (fun answers => ?_) (recorded.rowsIn_ne_nil_of_shared outside shared)
    rcases answers with outside' | ⟨start, finish, -⟩
    · exact outside outside'
    · exact shared.elim start finish

/-- A block that passes answers if its window is as long as the rows in the
range. -/
theorem Recorded.answers_iff_of_passes
    (passes : window uninit range block = some ((low : Int), (high : Int)))
    (ends : Ends uninit range block low high) : Answers uninit range block ↔
      low = lower Row.timestamp block.rows range.start ∧
        high + 1 = upper Row.timestamp block.rows range.finish ∧ low ≤ high := by
  rw [window_eq uninit range recorded.ordered] at passes
  split at passes
  · cases passes
  · rename_i meets
    have lowEq := congrArg Prod.fst (Option.some.inj passes)
    have highEq := congrArg Prod.snd (Option.some.inj passes)
    simp only at lowEq highEq
    have rows := recorded.rowsIn_ne_nil_iff range
    have lowAbove := ends.lowAbove
    have highBelow := ends.highBelow
    have meet := ends.meet
    have apart := ends.apart
    have upperLe := recorded.upper_le range.finish
    unfold Answers
    constructor
    · rintro (outside | ⟨-, -, some', start, finish⟩)
      · omega
      · have crossing := rows.mp some'
        refine ⟨?_, ?_, meet crossing⟩
        · split at lowEq
          · rename_i before
            have := start before
            omega
          · omega
        · split at highEq
          · rename_i beyond
            have := finish beyond
            omega
          · omega
    · rintro ⟨lowIs, highIs, ordered⟩
      refine Or.inr ⟨by omega, by omega, rows.mpr (by omega), fun before => ?_, fun beyond => ?_⟩
      · rw [if_pos before] at lowEq
        omega
      · rw [if_pos beyond] at highEq
        omega

theorem directed_rowsIn (lowIs : low = lower Row.timestamp block.rows range.start)
    (highIs : high + 1 = upper Row.timestamp block.rows range.finish) :
    slice block.rows low high = rowsIn range block.rows := by
  rw [rowsIn, between_eq_slice recorded.sorted range.ordered, <- lowIs, <- highIs, slice]
  congr 1
  omega

theorem Recorded.emission_of_answers (order : Order) (answers : Answers uninit range block) :
    emission uninit range order block = some (directed order (rowsIn range block.rows)) := by
  unfold emission
  cases passes : window uninit range block with
  | none =>
    rw [(recorded.answers_iff_of_skipped passes).mp answers]
    cases order <;> rfl
  | some indexes =>
    obtain ⟨low, high⟩ := indexes
    obtain ⟨first, last, rfl, rfl, ends⟩ := recorded.ends passes
    obtain ⟨lowIs, highIs, ordered⟩ := (recorded.answers_iff_of_passes passes ends).mp answers
    simp only
    rw [if_pos (by omega), directed_rowsIn recorded lowIs highIs]

theorem Recorded.emission_length {order : Order} (emits : emission uninit range order block = some rows) :
    rows.length ≤ (rowsIn range block.rows).length ∧
      ((rowsIn range block.rows).length ≤ rows.length -> Answers uninit range block) := by
  unfold emission at emits
  split at emits
  · rename_i skipped
    cases emits
    refine ⟨Nat.zero_le _, fun none' => ?_⟩
    exact (recorded.answers_iff_of_skipped skipped).mpr
      (List.eq_nil_of_length_eq_zero (Nat.le_zero.mp none'))
  · rename_i low high passes
    obtain ⟨first, last, rfl, rfl, ends⟩ := recorded.ends passes
    split at emits
    · rename_i ordered
      cases emits
      have inside := ends.highInside
      have lowAbove := ends.lowAbove
      have highBelow := ends.highBelow
      rw [directed_length, slice_length (by rw [recorded.count]; exact inside),
        recorded.length_rowsIn]
      refine ⟨by omega, fun enough => ?_⟩
      exact (recorded.answers_iff_of_passes passes ends).mpr ⟨by omega, by omega, by omega⟩
    · cases emits

theorem Recorded.rowsIn_eq_nil_of_apart
    (ends : Ends uninit range block low high) (crossed : high < low) :
    rowsIn range block.rows = [] := by
  by_contra some'
  have := ends.meet ((recorded.rowsIn_ne_nil_iff range).mp some')
  omega

end

end Recorded

end Segment

end Luomi.Edb.Segment
