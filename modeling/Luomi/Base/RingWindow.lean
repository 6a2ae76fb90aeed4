import Mathlib.Tactic

/-!
# Windows of a ring

Things are numbered from 1 on and kept in a ring of a fixed size, one after the
other.  While no more of them are kept than the ring has slots, the number of a
kept thing and its slot determine each other.
-/

set_option autoImplicit false

namespace Luomi.RingWindow

def slotOf (size number : Int) : Int := (number - 1) % size

section Slots

variable {size : Int}

theorem slotOf_nonneg (positive : 0 < size) (number : Int) : 0 ≤ slotOf size number :=
  Int.emod_nonneg _ (ne_of_gt positive)

theorem slotOf_one : slotOf size 1 = 0 := by
  unfold slotOf
  rw [Int.sub_self, Int.zero_emod]

theorem slotOf_eq_iff {first second : Int} :
    slotOf size first = slotOf size second ↔ size ∣ second - first := by
  have shift : second - first = (second - 1) - (first - 1) := by ring
  rw [shift]
  exact Int.modEq_iff_dvd

theorem slotOf_injective {low high : Int} (order : low ≤ high) (near : high - low < size)
    (same : slotOf size low = slotOf size high) : low = high := by
  have divides := slotOf_eq_iff.mp same
  have zero := Int.eq_zero_of_dvd_of_nonneg_of_lt (Int.sub_nonneg.mpr order) near divides
  omega

theorem slotOf_next (number : Int) :
    (slotOf size number + 1) % size = slotOf size (number + 1) := by
  unfold slotOf
  rw [Int.emod_add_emod]
  congr 1
  ring

theorem slotOf_back (positive : 0 < size) {number back : Int} (order : back ≤ size) :
    (slotOf size number - back + size).tmod size = slotOf size (number - back) := by
  have nonneg := slotOf_nonneg positive number
  rw [Int.tmod_eq_emod_of_nonneg (by omega), Int.add_emod_right]
  unfold slotOf
  rw [Int.emod_sub_emod]
  congr 1
  ring

theorem slotOf_sub {low high : Int} (order : low ≤ high) (near : high - low < size) :
    (slotOf size high - slotOf size low) % size = high - low := by
  unfold slotOf
  rw [<- Int.sub_emod]
  have shift : high - 1 - (low - 1) = high - low := by ring
  rw [shift]
  exact Int.emod_eq_of_lt (Int.sub_nonneg.mpr order) near

theorem slotOf_sub_around {low high : Int} (order : low < high) (near : high - low < size) :
    (slotOf size low - slotOf size high) % size = low - high + size := by
  unfold slotOf
  rw [<- Int.sub_emod]
  have shift : low - 1 - (high - 1) = low - high + size - size := by ring
  rw [shift, Int.sub_emod_right]
  exact Int.emod_eq_of_lt (by omega) (by omega)

theorem slotOf_of_sub {slot number : Int} (lower : 0 ≤ slot) (upper : slot < size) :
    slot = slotOf size (number + (slot - slotOf size number) % size) := by
  have back := Int.emod_add_emod (slot - slotOf size number) size (number - 1)
  have quotient := Int.emod_add_mul_ediv (number - 1) size
  unfold slotOf at back ⊢
  have shift : number + (slot - (number - 1) % size) % size - 1 =
      (slot - (number - 1) % size) % size + (number - 1) := by ring
  have whole : slot - (number - 1) % size + (number - 1) =
      slot + size * ((number - 1) / size) := by omega
  rw [shift, back, whole, Int.add_mul_emod_self_left]
  exact (Int.emod_eq_of_lt lower upper).symm

end Slots

theorem sum_update (count : Nat) (table : Nat -> Int) (index : Nat) (inside : index < count)
    (value : Int) : ∑ i ∈ Finset.range count, Function.update table index value i =
      ∑ i ∈ Finset.range count, table i - table index + value := by
  have member := Finset.mem_range.mpr inside
  rw [Finset.sum_update_of_mem member, <- Finset.sum_sdiff (Finset.singleton_subset_iff.mpr member),
    Finset.sum_singleton]
  ring

end Luomi.RingWindow
