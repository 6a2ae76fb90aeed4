import Luomi.Base.LittleEndian

/-!
# Byte fields in pairs under a shared header byte

A field is a four-bit tag and its bytes.  Two fields share one header byte, the
first tag in the low nibble and the second in the high one; the last field of
an odd list has a header byte of its own, and whatever its format appends.
-/

set_option autoImplicit false

namespace Luomi.NibblePairs

def header (low high : UInt8) : UInt8 := low ||| (high <<< 4)

def lowNibble (byte : UInt8) : UInt8 := byte &&& 15

def highNibble (byte : UInt8) : UInt8 := (byte >>> 4) &&& 15

structure Field where
  tag : UInt8
  bytes : List UInt8

/-- The layout of a list of fields; `tail` follows the last field of an odd
list. -/
def packPairs (tail : List UInt8) : List Field -> List UInt8
  | [] => []
  | [single] => header single.tag 0 :: (single.bytes ++ tail)
  | first :: second :: rest =>
    header first.tag second.tag :: (first.bytes ++ (second.bytes ++ packPairs tail rest))

theorem packPairs_cons (tail : List UInt8) (first : Field) (fields : List Field) :
    ∃ high later, packPairs tail (first :: fields) =
      header first.tag high :: (first.bytes ++ later) := by
  cases fields with
  | nil => exact ⟨0, tail, rfl⟩
  | cons second rest => exact ⟨second.tag, second.bytes ++ packPairs tail rest, rfl⟩

theorem packPairs_length (tail : List UInt8) (fields : List Field) :
    (packPairs tail fields).length = (fields.length + 1) / 2 +
      (fields.map fun field => field.bytes.length).sum +
        (if fields.length % 2 = 1 then tail.length else 0) := by
  induction fields using List.twoStepInduction with
  | nil => rfl
  | singleton single => simp [packPairs]; omega
  | cons_cons first second rest ih _ =>
    have parity : (first :: second :: rest).length % 2 = rest.length % 2 := by
      simp only [List.length_cons]; omega
    rw [parity]
    simp only [packPairs, List.length_cons, List.length_append, ih, List.map_cons, List.sum_cons]
    omega

@[simp] theorem header_zero (low : UInt8) : header low 0 = low := by
  simp [header]

theorem lowNibble_toNat (byte : UInt8) : (lowNibble byte).toNat = byte.toNat % 16 := by
  rw [lowNibble, UInt8.toNat_and]
  exact Nat.and_two_pow_sub_one_eq_mod byte.toNat 4

theorem highNibble_toNat (byte : UInt8) : (highNibble byte).toNat = byte.toNat / 16 := by
  have shifted : (byte >>> 4).toNat = byte.toNat / 16 := by
    rw [UInt8.toNat_shiftRight]
    exact Nat.shiftRight_eq_div_pow byte.toNat 4
  have bound := byte.toNat_lt
  rw [highNibble, UInt8.toNat_and, shifted, show (15 : UInt8).toNat = 2 ^ 4 - 1 from rfl,
    Nat.and_two_pow_sub_one_eq_mod, Nat.mod_eq_of_lt (by omega)]

theorem header_toNat (low high : UInt8) :
    (header low high).toNat = low.toNat ||| 16 * (high.toNat % 16) := by
  have shifted : (high <<< 4).toNat = 16 * (high.toNat % 16) := by
    rw [UInt8.toNat_shiftLeft, show (4 : UInt8).toNat % 8 = 4 from rfl, Nat.shiftLeft_eq]
    omega
  rw [header, UInt8.toNat_or, shifted]

/-- The low nibble is the first tag's whatever the second tag is. -/
theorem lowNibble_header (low high : UInt8) : lowNibble (header low high) = lowNibble low := by
  apply UInt8.toNat_inj.mp
  rw [lowNibble_toNat, lowNibble_toNat, header_toNat]
  have clear : 16 * (high.toNat % 16) % 2 ^ 4 = 0 := by omega
  have reduced := Nat.or_mod_two_pow (a := low.toNat) (b := 16 * (high.toNat % 16)) (n := 4)
  rw [clear, Nat.or_zero] at reduced
  exact reduced

theorem lowNibble_of_lt {byte : UInt8} (small : byte.toNat < 16) : lowNibble byte = byte := by
  apply UInt8.toNat_inj.mp
  rw [lowNibble_toNat, Nat.mod_eq_of_lt small]

/-- A first tag of more than four bits would spoil the high nibble. -/
theorem highNibble_header {low : UInt8} (small : low.toNat < 16) (high : UInt8) :
    highNibble (header low high) = lowNibble high := by
  apply UInt8.toNat_inj.mp
  have sum : low.toNat ||| 16 * (high.toNat % 16) = 16 * (high.toNat % 16) + low.toNat := by
    rw [Nat.or_comm]
    exact (Nat.two_pow_add_eq_or_of_lt (i := 4) small (high.toNat % 16)).symm
  rw [highNibble_toNat, lowNibble_toNat, header_toNat, sum]
  omega

end Luomi.NibblePairs
