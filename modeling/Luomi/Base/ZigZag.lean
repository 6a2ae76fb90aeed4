import Mathlib.Tactic

/-!
# Zig-zag coding of 64-bit words

The usual map from signed to unsigned words that sends differences of small
magnitude to small numbers, as it is computed on two's-complement words:
`(x >> 63) ^ (x << 1)` and back `(z >> 1) ^ -(z & 1)`.
-/

set_option autoImplicit false

namespace Luomi.ZigZag

def zigzag (difference : BitVec 64) : BitVec 64 :=
  difference.sshiftRight 63 ^^^ (difference <<< 1)

def unzigzag (value : BitVec 64) : BitVec 64 :=
  (value >>> 1) ^^^ -(value &&& 1#64)

variable {difference : BitVec 64}

theorem zigzag_of_nonneg (sign : difference.msb = false) :
    zigzag difference = difference <<< 1 := by
  have fill : difference.sshiftRight 63 = 0#64 := by
    apply BitVec.eq_of_getLsbD_eq
    intro bit bitLt
    rw [BitVec.getLsbD_sshiftRight]
    by_cases low : 63 + bit < 64
    · have bitZero : bit = 0 := by omega
      subst bitZero
      simpa [BitVec.msb_eq_getLsbD_last] using sign
    · simp [low, sign]
  rw [zigzag, fill, BitVec.zero_xor]

theorem zigzag_of_neg (sign : difference.msb = true) :
    zigzag difference = ~~~(difference <<< 1) := by
  have fill : difference.sshiftRight 63 = BitVec.allOnes 64 := by
    apply BitVec.eq_of_getLsbD_eq
    intro bit bitLt
    rw [BitVec.getLsbD_sshiftRight, BitVec.getLsbD_allOnes]
    by_cases low : 63 + bit < 64
    · have bitZero : bit = 0 := by omega
      subst bitZero
      simpa [BitVec.msb_eq_getLsbD_last] using sign
    · simp [low, sign, bitLt]
  rw [zigzag, fill, BitVec.allOnes_xor]

theorem unzigzag_of_even {value : BitVec 64} (parity : value[0] = false) :
    unzigzag value = value >>> 1 := by
  have low : value &&& 1#64 = 0#64 := by
    apply BitVec.eq_of_getLsbD_eq
    intro bit bitLt
    by_cases bitZero : bit = 0
    · subst bitZero; simp [parity]
    · simp [BitVec.getLsbD_one, bitZero]
  rw [unzigzag, low]
  simp

theorem unzigzag_of_odd {value : BitVec 64} (parity : value[0] = true) :
    unzigzag value = ~~~(value >>> 1) := by
  have low : value &&& 1#64 = 1#64 := by
    apply BitVec.eq_of_getLsbD_eq
    intro bit bitLt
    by_cases bitZero : bit = 0
    · subst bitZero; simp [parity]
    · simp [BitVec.getLsbD_one, bitZero]
  have ones : -(1#64) = BitVec.allOnes 64 := by decide
  rw [unzigzag, low, ones, BitVec.xor_allOnes]

@[simp] theorem unzigzag_zigzag (difference : BitVec 64) :
    unzigzag (zigzag difference) = difference := by
  have top : difference[63] = difference.msb := by
    simp [BitVec.msb_eq_getLsbD_last]
  cases sign : difference.msb with
  | false =>
    rw [zigzag_of_nonneg sign, unzigzag_of_even (by simp)]
    apply BitVec.eq_of_getElem_eq
    intro bit bitLt
    by_cases last : bit = 63
    · subst last; simp [top, sign]
    · have inside : 1 + bit < 64 := by omega
      simp [inside]
  | true =>
    rw [zigzag_of_neg sign, unzigzag_of_odd (by simp)]
    apply BitVec.eq_of_getElem_eq
    intro bit bitLt
    by_cases last : bit = 63
    · subst last; simp [top, sign]
    · have inside : 1 + bit < 64 := by omega
      simp [inside]

theorem zigzag_toNat_of_nonneg (sign : difference.msb = false) :
    (zigzag difference).toNat = 2 * difference.toNat := by
  have small : difference.toNat < 2 ^ 63 := by
    simpa [BitVec.msb_eq_decide] using sign
  rw [zigzag_of_nonneg sign, BitVec.toNat_shiftLeft, Nat.shiftLeft_eq]
  omega

theorem zigzag_toNat_of_neg (sign : difference.msb = true) :
    (zigzag difference).toNat + 1 = 2 * (2 ^ 64 - difference.toNat) := by
  have large : 2 ^ 63 ≤ difference.toNat := by
    simpa [BitVec.msb_eq_decide] using sign
  rw [zigzag_of_neg sign, BitVec.toNat_not, BitVec.toNat_shiftLeft, Nat.shiftLeft_eq]
  omega

theorem zigzag_toNat_lt {bound : Nat}
    (lower : -(bound : Int) < difference.toInt) (upper : difference.toInt < bound) :
    (zigzag difference).toNat < 2 * bound := by
  have size := difference.isLt
  cases sign : difference.msb with
  | false =>
    rw [zigzag_toNat_of_nonneg sign]
    rw [BitVec.toInt_eq_msb_cond, sign] at upper
    simp only [Bool.false_eq_true, if_false] at upper
    omega
  | true =>
    have value := zigzag_toNat_of_neg sign
    rw [BitVec.toInt_eq_msb_cond, sign] at lower
    simp only [if_true] at lower
    omega

end Luomi.ZigZag
