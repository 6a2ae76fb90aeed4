import Mathlib.Tactic

/-!
# Bit fields of machine words

Arithmetic of the two idioms that build and read packed words: or-ing a masked
value in at a shift, and shifting then masking it out again.
-/

set_option autoImplicit false

namespace Luomi.BitFields

variable {width : Nat}

/-- The mask of the `bits` low bits, computed as `(1 << bits) - 1`. -/
def mask (width bits : Nat) : BitVec width :=
  (BitVec.ofNat width 1 <<< bits) - BitVec.ofNat width 1

variable {bits : Nat}

theorem mask_toNat (inside : bits < width) : (mask width bits).toNat = 2 ^ bits - 1 := by
  have power : 2 ^ bits < 2 ^ width := Nat.pow_lt_pow_right (by decide) inside
  have positive : 0 < 2 ^ bits := Nat.two_pow_pos bits
  have one : (1 : Nat) % 2 ^ width = 1 := Nat.mod_eq_of_lt (by omega)
  have shifted : (BitVec.ofNat width 1 <<< bits).toNat = 2 ^ bits := by
    rw [BitVec.toNat_shiftLeft, BitVec.toNat_ofNat, one, Nat.one_shiftLeft, Nat.mod_eq_of_lt power]
  rw [mask, BitVec.toNat_sub, shifted, BitVec.toNat_ofNat, one]
  rw [show 2 ^ width - 1 + 2 ^ bits = (2 ^ bits - 1) + 2 ^ width by omega,
    Nat.add_mod_right, Nat.mod_eq_of_lt (by omega)]

theorem and_mask_toNat (inside : bits < width) (word : BitVec width) :
    (word &&& mask width bits).toNat = word.toNat % 2 ^ bits := by
  rw [BitVec.toNat_and, mask_toNat inside, Nat.and_two_pow_sub_one_eq_mod]

theorem and_mask_of_lt (inside : bits < width) {word : BitVec width}
    (small : word.toNat < 2 ^ bits) : word &&& mask width bits = word := by
  apply BitVec.eq_of_toNat_eq
  rw [and_mask_toNat inside, Nat.mod_eq_of_lt small]

theorem or_shiftLeft_toNat {stored field : BitVec width} {shift : Nat}
    (below : stored.toNat < 2 ^ shift) (fits : 2 ^ shift * field.toNat < 2 ^ width) :
    (stored ||| field <<< shift).toNat = stored.toNat + 2 ^ shift * field.toNat := by
  have moved : (field <<< shift).toNat = 2 ^ shift * field.toNat := by
    rw [BitVec.toNat_shiftLeft, Nat.shiftLeft_eq, Nat.mul_comm, Nat.mod_eq_of_lt fits]
  rw [BitVec.toNat_or, moved, Nat.or_comm, <- Nat.two_pow_add_eq_or_of_lt below, Nat.add_comm]

theorem shiftRight_and_mask_toNat (inside : bits < width) (word : BitVec width) (shift : Nat) :
    (word >>> shift &&& mask width bits).toNat = word.toNat / 2 ^ shift % 2 ^ bits := by
  rw [and_mask_toNat inside, BitVec.toNat_ushiftRight, Nat.shiftRight_eq_div_pow]

end Luomi.BitFields
