import Luomi.Vnode.QueryMoves

/-!
# The interpolating key search (`vnodeRead.c`)

The difference of two keys is kept in an `int`.  Where it fits, the estimate is the first place
of the range, and the search goes through the keys one by one.  `none` is a read outside of the
block or a division that has no result.
-/

namespace Luomi.Vnode.InterpolationSearch

open CommitQuery QueryMoves

def interpolate (keyList : Int -> Int) (key firstPos lastPos : Int) : Option Int :=
  let numOfPoints := lastPos - firstPos + 1
  let delta := (keyList lastPos - keyList firstPos).bmod (2 ^ 32)
  let distance := (key - keyList firstPos).bmod (2 ^ 64)
  if delta = 0 ∨ distance = -2 ^ 63 ∧ delta = -1 then none
  else some ((distance.tdiv delta * numOfPoints + firstPos).bmod (2 ^ 32))

/-- The loops of `vnodeInterpolationSearchKey`, which share their end. -/
def searchLoop (keyList : Int -> Int) (num key : Int) (asc : Bool) :
    Nat -> Int -> Int -> Option Int
  | 0, _, _ => none
  | fuel + 1, firstPos, lastPos =>
    let narrow (lastPos : Int) : Option Int :=
      (interpolate keyList key firstPos lastPos).bind fun midPos =>
        if midPos < 0 ∨ num ≤ midPos then none
        else if key < keyList midPos then searchLoop keyList num key asc fuel firstPos (midPos - 1)
        else if keyList midPos < key then searchLoop keyList num key asc fuel (midPos + 1) lastPos
        else some midPos
    if firstPos < 0 ∨ num ≤ firstPos ∨ lastPos < 0 ∨ num ≤ lastPos then none
    else if asc then
      if key ≤ keyList firstPos then some firstPos
      else if key = keyList lastPos then some lastPos
      else if keyList lastPos < key then
        if num ≤ lastPos + 1 then some (-1) else narrow (lastPos + 1)
      else narrow lastPos
    else
      if keyList lastPos ≤ key then some lastPos
      else if key = keyList firstPos then some firstPos
      else if key < keyList firstPos then some (firstPos - 1)
      else narrow lastPos

section

variable (keyList : Int -> Int) (num key : Int) (asc : Bool) (place : Int)

/-- A result, after some number of turns. -/
def VnodeInterpolationSearchKey : Prop :=
  ∃ fuel, searchLoop keyList num key asc fuel 0 (num - 1) = some place

/-- The least place from the key on or the greatest one up to it, or -1. -/
def IsPosition : Prop :=
  if asc then
    StartsAt keyList num key place ∨ place = -1 ∧ ∀ i, 0 ≤ i -> i < num -> keyList i < key
  else EndsAt keyList num key place

end

structure Block (keyList : Int -> Int) (num : Int) : Prop where
  some' : 0 < num
  most : num < 2 ^ 31
  increasing : ∀ i j, 0 ≤ i -> i < j -> j < num -> keyList i < keyList j
  keys : ∀ i, 0 ≤ i -> i < num -> -2 ^ 63 ≤ keyList i ∧ keyList i < 2 ^ 63

section Search

variable {keyList : Int -> Int} {num key : Int} {asc : Bool}

theorem IsPosition.unique {place other : Int} (here : IsPosition keyList num key asc place)
    (there : IsPosition keyList num key asc other) : place = other := by
  cases asc with
  | false =>
    obtain ⟨lower, upper, below, above⟩ := here
    obtain ⟨lower', upper', below', above'⟩ := there
    rcases lt_trichotomy place other with less | same | more
    · exact absurd (above other less upper') (not_lt.mpr (below' other (by omega) le_rfl))
    · exact same
    · exact absurd (above' place more upper) (not_lt.mpr (below place (by omega) le_rfl))
  | true =>
    rcases here with ⟨lower, upper, below, above⟩ | ⟨rfl, all⟩
    · rcases there with ⟨lower', upper', below', above'⟩ | ⟨rfl, all⟩
      · rcases lt_trichotomy place other with less | same | more
        · exact absurd (below' place lower less) (not_lt.mpr (above place le_rfl upper))
        · exact same
        · exact absurd (below other lower' more) (not_lt.mpr (above' other le_rfl upper'))
      · exact absurd (all place lower upper) (not_lt.mpr (above place le_rfl upper))
    · rcases there with ⟨lower', upper', _, above'⟩ | ⟨rfl, _⟩
      · exact absurd (all other lower' upper') (not_lt.mpr (above' other le_rfl upper'))
      · rfl

variable (block : Block keyList num)

include block

theorem binarySearch_position (key : Int) (asc : Bool) :
    ∃ place, Import.vnodeBinarySearchKey keyList num key asc = some place ∧
      IsPosition keyList num key asc place := by
  cases asc with
  | false => exact vnodeBinarySearchKey_ends keyList num key block.some' block.increasing
  | true => exact vnodeBinarySearchKey_starts keyList num key block.some' block.increasing

section

variable {firstPos : Int} (nonneg : 0 ≤ firstPos) (inside : firstPos < num)
  (narrow : keyList (num - 1) - keyList firstPos ≤ 2 ^ 31) (behind : keyList firstPos < key)
  (before : key < keyList (num - 1))

include nonneg inside narrow behind before

/-- A difference that an `int` holds up to its sign leaves the estimate at the first place. -/
theorem interpolate_first : interpolate keyList key firstPos (num - 1) = some firstPos := by
  have most := block.most
  have distance : (key - keyList firstPos).bmod (2 ^ 64) = key - keyList firstPos :=
    Int.bmod_eq_of_le (by omega) (by omega)
  have quotient : (key - keyList firstPos).tdiv
      ((keyList (num - 1) - keyList firstPos).bmod (2 ^ 32)) = 0 ∧
        (keyList (num - 1) - keyList firstPos).bmod (2 ^ 32) ≠ 0 := by
    rcases eq_or_lt_of_le narrow with same | less
    · rw [same]
      exact ⟨(Int.tdiv_neg _ (2 ^ 31)).trans
        (neg_eq_zero.mpr (Int.tdiv_eq_zero_of_lt (by omega) (by omega))), by decide⟩
    · rw [Int.bmod_eq_of_le (by omega) (by omega)]
      exact ⟨Int.tdiv_eq_zero_of_lt (by omega) (by omega), by omega⟩
  rw [interpolate, distance, if_neg (by omega), quotient.1, zero_mul, zero_add,
    Int.bmod_eq_of_le (by omega) (by omega)]

theorem searchLoop_next {fuel : Nat} :
    searchLoop keyList num key asc (fuel + 1) firstPos (num - 1) =
      searchLoop keyList num key asc fuel (firstPos + 1) (num - 1) := by
  have first := interpolate_first block nonneg inside narrow behind before
  rw [searchLoop, if_neg (by omega)]
  dsimp only
  rw [first, Option.bind_some]
  cases asc with
  | true =>
    rw [if_pos rfl, if_neg (not_le.mpr behind), if_neg before.ne, if_neg (not_lt.mpr before.le),
      if_neg (by omega), if_neg (not_lt.mpr behind.le), if_pos behind]
  | false =>
    rw [if_neg Bool.false_ne_true, if_neg (not_le.mpr before), if_neg behind.ne',
      if_neg (not_lt.mpr behind.le), if_neg (by omega), if_neg (not_lt.mpr behind.le),
      if_pos behind]

end

theorem searchLoop_position (before : key < keyList (num - 1)) {fuel : Nat} {firstPos : Int}
    (nonneg : 0 ≤ firstPos) (inside : firstPos < num)
    (narrow : keyList (num - 1) - keyList firstPos ≤ 2 ^ 31)
    (below : ∀ i, 0 ≤ i -> i < firstPos -> keyList i < key) (enough : num - firstPos < fuel) :
    ∃ place, searchLoop keyList num key asc fuel firstPos (num - 1) = some place ∧
      IsPosition keyList num key asc place := by
  induction fuel generalizing firstPos with
  | zero => omega
  | succ fuel ih =>
    have mono := fun i (least : firstPos ≤ i) (less : i < num) =>
      keyList_mono block.increasing nonneg least less
    by_cases front : key ≤ keyList firstPos
    · rw [searchLoop, if_neg (by omega)]
      have starts : StartsAt keyList num key firstPos :=
        ⟨nonneg, inside, below, fun i least less => front.trans (mono i least less)⟩
      cases asc with
      | true => exact ⟨firstPos, by rw [if_pos rfl, if_pos front], .inl starts⟩
      | false =>
        rw [if_neg Bool.false_ne_true, if_neg (not_le.mpr before)]
        rcases eq_or_lt_of_le front with same | less
        · refine ⟨firstPos, if_pos same, by omega, inside, ?_, ?_⟩
          · intro i lower least
            exact same ▸ keyList_mono block.increasing lower least inside
          · intro i more less
            exact same ▸ block.increasing firstPos i nonneg more less
        · refine ⟨firstPos - 1, ?_, by omega, by omega, ?_, ?_⟩
          · rw [if_neg less.ne, if_pos less]
          · exact fun i lower least => (below i lower (by omega)).le
          · exact fun i more small => less.trans_le (mono i (by omega) small)
    · have behind := not_le.mp front
      have room : firstPos < num - 1 :=
        lt_of_le_of_ne (by omega) fun same => front (same ▸ before.le)
      rw [searchLoop_next block nonneg inside narrow behind before]
      apply ih (by omega) (by omega)
      · have := block.increasing firstPos (firstPos + 1) nonneg (by omega) (by omega)
        omega
      · intro i lower less
        exact (keyList_mono block.increasing lower (by omega) inside).trans_lt behind
      · push_cast at enough
        omega

theorem searchKey_position (narrow : keyList (num - 1) - keyList 0 ≤ 2 ^ 31) (key : Int)
    (asc : Bool) : ∃ place, VnodeInterpolationSearchKey keyList num key asc place ∧
      IsPosition keyList num key asc place := by
  have some' := block.some'
  by_cases before : key < keyList (num - 1)
  · obtain ⟨place, search, position⟩ := @searchLoop_position keyList num key asc block before
      (num.toNat + 1) 0 le_rfl some' narrow (fun i _ _ => by omega) (by push_cast; omega)
    exact ⟨place, ⟨_, search⟩, position⟩
  · obtain ⟨place, search, position⟩ := binarySearch_position block key asc
    refine ⟨place, ⟨1, ?_⟩, position⟩
    rw [<- search, Import.vnodeBinarySearchKey, if_neg (by omega)]
    cases asc with
    | false =>
      rw [if_neg Bool.false_ne_true, Import.binarySearchDesc, if_pos (not_lt.mp before), searchLoop,
        if_neg (by omega), if_neg Bool.false_ne_true, if_pos (not_lt.mp before)]
    | true =>
      rw [if_pos rfl, Import.binarySearchAsc, searchLoop, if_neg (by omega), if_pos rfl]
      by_cases first : key ≤ keyList 0
      · rw [if_pos first, if_pos first]
      · rw [if_neg first, if_neg first]
        by_cases last : key = keyList (num - 1)
        · rw [if_pos last, if_pos last]
        · rw [if_neg last, if_neg last, if_pos (by omega), if_pos (by omega), if_pos (by omega),
            if_pos (by omega)]

/-- Where the difference does not fit, there is a key that has no estimate inside the block. -/
theorem wide_fails (wide : 2 ^ 31 < keyList (num - 1) - keyList 0) :
    ∃ key, -2 ^ 63 ≤ key ∧ key < 2 ^ 63 ∧
      ∀ place, ¬ VnodeInterpolationSearchKey keyList num key false place := by
  have some' := block.some'
  have most := block.most
  have firstKey := block.keys 0 le_rfl some'
  have lastKey := block.keys (num - 1) (by omega) (by omega)
  have estimate : ∃ key, keyList 0 < key ∧ key < keyList (num - 1) ∧
      ∀ midPos, interpolate keyList key 0 (num - 1) = some midPos -> midPos < 0 ∨ num ≤ midPos := by
    unfold interpolate
    generalize size : (keyList (num - 1) - keyList 0).bmod (2 ^ 32) = delta
    have upper := Int.bmod_lt (x := keyList (num - 1) - keyList 0) (m := 2 ^ 32) (by decide)
    have lower := Int.le_bmod (x := keyList (num - 1) - keyList 0) (m := 2 ^ 32) (by decide)
    rw [size] at upper lower
    rcases lt_trichotomy delta 0 with negative | zero | positive
    · refine ⟨keyList 0 + -delta, by omega, by omega, fun midPos found => .inl ?_⟩
      rw [add_sub_cancel_left, Int.bmod_eq_of_le (by omega) (by omega), if_neg (by omega),
        Int.neg_tdiv, Int.tdiv_self negative.ne, Int.bmod_eq_of_le (by omega) (by omega)] at found
      have := Option.some.inj found
      omega
    · refine ⟨keyList 0 + 1, by omega, by omega, fun midPos found => ?_⟩
      rw [if_pos (.inl zero)] at found
      cases found
    · refine ⟨keyList 0 + delta, by omega, by omega, fun midPos found => .inr ?_⟩
      rw [add_sub_cancel_left, Int.bmod_eq_of_le (by omega) (by omega), if_neg (by omega),
        Int.tdiv_self positive.ne', Int.bmod_eq_of_le (by omega) (by omega)] at found
      have := Option.some.inj found
      omega
  obtain ⟨key, behind, before, outside⟩ := estimate
  refine ⟨key, by omega, by omega, ?_⟩
  rintro place ⟨fuel, search⟩
  cases fuel with
  | zero => cases search
  | succ fuel =>
    rw [searchLoop, if_neg (by omega), if_neg Bool.false_ne_true, if_neg (by omega),
      if_neg (by omega), if_neg (by omega)] at search
    obtain ⟨midPos, found, search⟩ := Option.bind_eq_some_iff.mp search
    rw [if_pos (outside midPos found)] at search
    cases search

end Search

/-- The binary search is right, and the interpolating one does what it does exactly if the
greatest difference of two keys is an `int` but for its sign. -/
theorem interpolation_iff {keyList : Int -> Int} {num : Int} (block : Block keyList num) :
    (∀ key asc, ∃ place, Import.vnodeBinarySearchKey keyList num key asc = some place ∧
      IsPosition keyList num key asc place) ∧
    ((∀ key asc, -2 ^ 63 ≤ key -> key < 2 ^ 63 ->
        ∃ place, VnodeInterpolationSearchKey keyList num key asc place ∧
          Import.vnodeBinarySearchKey keyList num key asc = some place) ↔
      keyList (num - 1) - keyList 0 ≤ 2 ^ 31) := by
  refine ⟨binarySearch_position block, ?_, ?_⟩
  · intro agrees
    by_contra wide
    obtain ⟨key, lower, upper, fails⟩ := wide_fails block (not_le.mp wide)
    obtain ⟨place, search, _⟩ := agrees key false lower upper
    exact fails place search
  · intro narrow key asc _ _
    obtain ⟨place, search, position⟩ := searchKey_position block narrow key asc
    obtain ⟨other, binary, position'⟩ := binarySearch_position block key asc
    exact ⟨place, search, position.unique position' ▸ binary⟩

theorem threeKeys_agree : ∃ place, VnodeInterpolationSearchKey (2 * ·) 3 1 true place ∧
    Import.vnodeBinarySearchKey (2 * ·) 3 1 true = some place :=
  (interpolation_iff ⟨by decide, by decide, fun i j _ less _ => by omega,
    fun i nonneg inside => by omega⟩).2.mpr (by decide) 1 true (by decide) (by decide)

/-- Two keys 2^32 apart: the search divides by zero. -/
theorem farKeys_fail : ¬ ∀ (keyList : Int -> Int) (num key : Int) (asc : Bool),
    Block keyList num -> -2 ^ 63 ≤ key -> key < 2 ^ 63 ->
    ∃ place, VnodeInterpolationSearchKey keyList num key asc place := by
  intro agrees
  have block : Block (· * 2 ^ 32) 2 :=
    ⟨by decide, by decide, fun i j _ less _ => by omega, fun i nonneg inside => by omega⟩
  obtain ⟨key, lower, upper, fails⟩ := wide_fails block (by decide)
  obtain ⟨place, search⟩ := agrees _ _ key false block lower upper
  exact fails place search

end Luomi.Vnode.InterpolationSearch
