import Luomi.Base.SortedWindow
import Luomi.Edb.Cursor

/-!
# `binary_search` on the timestamps of a block

A timestamp that occurs is found, whichever of its occurrences the halving meets
first and whichever end is asked for.  One that does not occur gives the first
later index or the last earlier one, if there is any.
-/

namespace Luomi.Edb.BlockSearch

open Database Cursor

section Loop

variable {data : List Int} {key : Int} {count : Nat}

/-- The values of the first `count` places, as the loop reads them. -/
def Rising (data : List Int) (count : Nat) : Prop :=
  ∀ low high : Nat, low ≤ high -> high < count -> data.getD low 0 ≤ data.getD high 0

/-- The key is not below `low` nor above `high`, and the variables hold the last
places compared. -/
structure Narrowed (data : List Int) (key : Int) (count : Nat) (low high start finish : Int) :
    Prop where
  lowNonneg : 0 ≤ low
  meet : low ≤ high + 1
  highBelow : high < count
  before : ∀ index : Nat, (index : Int) < low -> data.getD index 0 < key
  after : ∀ index : Nat, high < index -> index < count -> key < data.getD index 0
  startEq : high + 1 < count -> start = high + 1
  finishEq : 0 < low -> finish = low - 1

/-- What the search returns for a key that does not occur: the border between the
smaller and the greater values. -/
structure Border (data : List Int) (key : Int) (count : Nat) (isStart : Bool) (result : Int)
    (border : Nat) : Prop where
  inside : border ≤ count
  before : ∀ index < border, data.getD index 0 < key
  after : ∀ index, border ≤ index -> index < count -> key < data.getD index 0
  start : isStart = true -> border < count -> result = border
  finish : isStart = false -> 0 < border -> result = (border : Int) - 1

theorem center_bounds {low high : Int} (nonneg : 0 ≤ low) (ordered : low ≤ high) :
    low ≤ (low + high).tdiv 2 ∧ (low + high).tdiv 2 ≤ high := by
  rw [Int.tdiv_eq_ediv_of_nonneg (by omega)]
  omega

theorem searchLoop_spec (rising : Rising data count) (isStart : Bool) (fuel : Nat) :
    ∀ {low high start finish : Int}, high - low < fuel ->
      Narrowed data key count low high start finish ->
        let result := searchLoop data key isStart fuel low high start finish
        (∃ index < count, result = (index : Int) ∧ data.getD index 0 = key) ∨
          ∃ border, Border data key count isStart result border := by
  induction fuel with
  | zero =>
    intro low high start finish enough narrowed
    right
    have meet := narrowed.meet
    have lowNonneg := narrowed.lowNonneg
    have highBelow := narrowed.highBelow
    refine ⟨low.toNat, by omega, fun index below => narrowed.before index (by omega),
      fun index above inside => narrowed.after index (by omega) inside, ?_, ?_⟩
    · intro isTrue inside
      rw [isTrue]
      have := narrowed.startEq (by omega)
      simp only [searchLoop, if_true]
      omega
    · intro isFalse positive
      rw [isFalse]
      have := narrowed.finishEq (by omega)
      simp only [searchLoop, Bool.false_eq_true, if_false]
      omega
  | succ fuel ih =>
    intro low high start finish enough narrowed
    have meet := narrowed.meet
    have lowNonneg := narrowed.lowNonneg
    have highBelow := narrowed.highBelow
    unfold searchLoop
    split
    · rename_i ordered
      obtain ⟨above, below⟩ := center_bounds lowNonneg ordered
      simp only
      generalize (low + high).tdiv 2 = center at above below
      split
      · rename_i found
        left
        exact ⟨center.toNat, by omega, by omega, found⟩
      · rename_i missed
        split
        · rename_i greater
          refine ih (by omega) ⟨lowNonneg, by omega, by omega, narrowed.before, ?_, ?_, ?_⟩
          · intro index beyond inside
            have := rising center.toNat index (by omega) inside
            omega
          · intro _
            omega
          · exact narrowed.finishEq
        · rename_i notGreater
          refine ih (by omega) ⟨by omega, by omega, highBelow, ?_, narrowed.after, ?_, ?_⟩
          · intro index beneath
            have := rising index center.toNat (by omega) (by omega)
            omega
          · exact narrowed.startEq
          · intro _
            omega
    · rename_i crossed
      right
      refine ⟨low.toNat, by omega, fun index below => narrowed.before index (by omega),
        fun index above inside => narrowed.after index (by omega) inside, ?_, ?_⟩
      · intro isTrue inside
        have := narrowed.startEq (by omega)
        simp only [isTrue, if_true]
        omega
      · intro isFalse positive
        have := narrowed.finishEq (by omega)
        simp only [isFalse, Bool.false_eq_true, if_false]
        omega

theorem searchLoop_direction (rising : Rising data count) (fuel : Nat) :
    ∀ {low high start finish start' finish' : Int}, high - low < fuel -> 0 ≤ low -> high < count ->
      (∃ index : Nat, low ≤ index ∧ index ≤ high ∧ data.getD index 0 = key) ->
        searchLoop data key true fuel low high start finish =
          searchLoop data key false fuel low high start' finish' := by
  induction fuel with
  | zero =>
    intro low high start finish start' finish' enough _ _ occurs
    obtain ⟨index, above, below, -⟩ := occurs
    omega
  | succ fuel ih =>
    intro low high start finish start' finish' enough nonneg inside occurs
    obtain ⟨index, above, below, equal⟩ := occurs
    obtain ⟨atLeast, atMost⟩ := center_bounds nonneg (le_trans above below)
    unfold searchLoop
    simp only [if_pos (le_trans above below)]
    generalize (low + high).tdiv 2 = center at atLeast atMost
    split
    · rfl
    · rename_i missed
      split
      · rename_i greater
        refine ih (by omega) nonneg (by omega) ⟨index, above, ?_, equal⟩
        by_contra beyond
        have := rising center.toNat index (by omega) (by omega)
        omega
      · rename_i notGreater
        refine ih (by omega) (by omega) inside ⟨index, ?_, below, equal⟩
        by_contra beneath
        have := rising index center.toNat (by omega) (by omega)
        omega

theorem searchLoop_congr {other : List Int} (isStart : Bool)
    (same : ∀ index < count, data.getD index 0 = other.getD index 0) (fuel : Nat) :
    ∀ {low high start finish : Int}, 0 ≤ low -> high < count ->
      searchLoop data key isStart fuel low high start finish =
        searchLoop other key isStart fuel low high start finish := by
  induction fuel with
  | zero =>
    intro low high start finish _ _
    rfl
  | succ fuel ih =>
    intro low high start finish nonneg inside
    unfold searchLoop
    split
    · rename_i ordered
      obtain ⟨atLeast, atMost⟩ := center_bounds nonneg ordered
      simp only
      generalize (low + high).tdiv 2 = center at atLeast atMost
      rw [same center.toNat (by omega)]
      split
      · rfl
      · split
        · exact ih nonneg (by omega)
        · exact ih (by omega) inside
    · rfl

end Loop

section Search

variable {data : List Int} {key : Int} {count : Nat}

theorem binarySearch_spec (uninit : Int) (rising : Rising data count) (isStart : Bool) :
    let result := binarySearch uninit data key count isStart
    (∃ index < count, result = (index : Int) ∧ data.getD index 0 = key) ∨
      ∃ border, Border data key count isStart result border :=
  searchLoop_spec rising isStart count (by omega)
    ⟨by omega, by omega, by omega, fun index below => by omega, fun index above inside => by omega,
      fun inside => by omega, fun positive => by omega⟩

theorem binarySearch_direction (uninit : Int) (rising : Rising data count) {index : Nat}
    (inside : index < count) (equal : data.getD index 0 = key) :
    binarySearch uninit data key count true = binarySearch uninit data key count false :=
  searchLoop_direction rising count (by omega) (by omega) (by omega)
    ⟨index, by omega, by omega, equal⟩

theorem binarySearch_congr (uninit : Int) {other : List Int} (isStart : Bool)
    (same : ∀ index < count, data.getD index 0 = other.getD index 0) :
    binarySearch uninit data key count isStart = binarySearch uninit other key count isStart :=
  searchLoop_congr isStart same count (by omega) (by omega)

end Search

end Luomi.Edb.BlockSearch
