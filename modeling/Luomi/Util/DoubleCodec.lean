import Luomi.Util.XorRoundTrip

/-!
# The double codec (`tsCompressDoubleImp`, `tsDecompressDoubleImp`)

Values are 64-bit patterns, and every shift the codec makes is defined, so each
difference comes back from its bytes.
-/

namespace Luomi.DoubleCodec

open XorCodec XorRoundTrip

def doubleShifts : Shifts 64 where
  right word shift := word >>> shift.toNat
  left word shift := word <<< shift.toNat
  right_defined word shift _ := by rw [Int.toNat_natCast]
  left_defined word shift _ := by rw [Int.toNat_natCast]

def doubleLayout : Layout 64 where
  valueBytes := 8
  clz diff := diff.clz.toNat
  ctz diff := diff.ctz.toNat
  shifts := doubleShifts

def tsCompressDoubleImp (input : List (BitVec 64)) : List UInt8 :=
  compress doubleLayout input

def tsDecompressDoubleImp (input : List UInt8) (nelements : Nat) : Option (List (BitVec 64)) :=
  decompress doubleLayout input nelements

/-- The flag of a difference with `zeros` trailing zero bytes. -/
def trailingFlag (zeros : Nat) : UInt8 :=
  let nbytes := UInt8.ofNat 8 - UInt8.ofNat zeros
  let nbytes := if nbytes > 0 then nbytes - 1 else nbytes
  ((1 : UInt8) <<< 3) ||| nbytes

/-- The flag of a difference with `zeros` leading zero bytes. -/
def leadingFlag (zeros : Nat) : UInt8 :=
  let nbytes := UInt8.ofNat 8 - UInt8.ofNat zeros
  if nbytes > 0 then nbytes - 1 else nbytes

theorem trailingFlag_spec : ∀ zeros < 8,
    (trailingFlag zeros).toNat < 16 ∧ byteCount (trailingFlag zeros) = 8 - zeros ∧
      shiftWidth 64 (trailingFlag zeros) = (8 * zeros : Nat) := by
  decide

theorem leadingFlag_spec : ∀ zeros ≤ 8,
    (leadingFlag zeros).toNat < 16 ∧ byteCount (leadingFlag zeros) = max 1 (8 - zeros) ∧
      shiftWidth 64 (leadingFlag zeros) = (0 : Nat) := by
  decide

theorem two_pow_ctz_dvd (diff : BitVec 64) : 2 ^ diff.ctz.toNat ∣ diff.toNat := by
  rw [Nat.dvd_iff_mod_eq_zero]
  apply Nat.eq_of_testBit_eq
  intro bit
  rw [Nat.testBit_mod_two_pow, Nat.zero_testBit]
  by_cases below : bit < diff.ctz.toNat
  · have zero := BitVec.getLsbD_false_of_lt_ctz below
    simpa [BitVec.getLsbD, below] using zero
  · simp [below]

theorem double_restores (diff : BitVec 64) : Restores doubleLayout diff := by
  by_cases zero : diff = 0
  · subst zero
    have flag : flagOf doubleLayout 0 = 0 := by decide
    exact restores_of_fits 0 (by rw [flag]; decide) (by rw [flag]; decide)
      (by rw [flag]; decide) (by decide) (by simp) (by simp)
  · have leading : diff.toNat < 2 ^ (64 - diff.clz.toNat) := BitVec.toNat_lt_two_pow_sub_clz
    by_cases kind : diff.ctz.toNat > diff.clz.toNat
    · have flag : flagOf doubleLayout diff = trailingFlag (diff.ctz.toNat / 8) := by
        simp only [flagOf, doubleLayout, if_neg zero, if_pos kind, trailingFlag]
      have inside : diff.ctz.toNat < 64 := by
        by_contra beyond
        have divides := (pow_dvd_pow 2 (show 64 ≤ diff.ctz.toNat by omega)).trans
          (two_pow_ctz_dvd diff)
        have none' := Nat.eq_zero_of_dvd_of_lt divides diff.isLt
        exact zero (BitVec.eq_of_toNat_eq (by simpa using none'))
      obtain ⟨small, count, shift⟩ := trailingFlag_spec (diff.ctz.toNat / 8) (by omega)
      have high : diff.toNat / 2 ^ (8 * (diff.ctz.toNat / 8)) < 256 ^ (8 - diff.ctz.toNat / 8) := by
        apply Nat.div_lt_of_lt_mul
        rw [show (256 : Nat) = 2 ^ 8 from rfl, <- pow_mul, <- pow_add]
        exact diff.isLt.trans_le (Nat.pow_le_pow_right (by decide) (by omega))
      exact restores_of_fits (8 * (diff.ctz.toNat / 8)) (by rw [flag]; exact small)
        (by rw [flag, count]; omega) (by rw [flag]; exact shift) (by omega)
        (by rw [flag, count]; exact high)
        ((pow_dvd_pow 2 (by omega)).trans (two_pow_ctz_dvd diff))
    · have flag : flagOf doubleLayout diff = leadingFlag (diff.clz.toNat / 8) := by
        simp only [flagOf, doubleLayout, if_neg zero, if_neg kind, leadingFlag]
      have bound : diff.clz.toNat ≤ 64 := by
        have := BitVec.clz_le (x := diff)
        simpa [BitVec.le_def] using this
      obtain ⟨small, count, shift⟩ := leadingFlag_spec (diff.clz.toNat / 8) (by omega)
      have high : diff.toNat / 2 ^ 0 < 256 ^ max 1 (8 - diff.clz.toNat / 8) := by
        rw [pow_zero, Nat.div_one, show (256 : Nat) = 2 ^ 8 from rfl, <- pow_mul]
        exact leading.trans_le (Nat.pow_le_pow_right (by decide) (by omega))
      exact restores_of_fits 0 (by rw [flag]; exact small)
        (by rw [flag, count]; omega) (by rw [flag]; exact shift) (by decide)
        (by rw [flag, count]; exact high) (by simp)

theorem tsDecompressDoubleImp_append (input : List (BitVec 64)) (rest : List UInt8) :
    tsDecompressDoubleImp (tsCompressDoubleImp input ++ rest) input.length = some input :=
  decompress_of_restores (by decide) (fun diff _ => double_restores diff) rest

/-- Compressing and decompressing gives every list of bit patterns back. -/
theorem double_roundTrip (input : List (BitVec 64)) :
    tsDecompressDoubleImp (tsCompressDoubleImp input) input.length = some input := by
  simpa using tsDecompressDoubleImp_append input []

end Luomi.DoubleCodec
