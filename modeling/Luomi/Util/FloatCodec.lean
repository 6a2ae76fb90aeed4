import Luomi.Util.XorRoundTrip

/-!
# The float codec (`tsCompressFloatImp`, `tsDecompressFloatImp`)

The codec counts zeros with `__builtin_clzl` and `__builtin_ctzl`, which work on
`long`.  Where `long` has 64 bits a 32-bit difference has 32 leading zeros too
many: the trailing zeros never win, a difference with a significant top byte is
cut to its lowest byte, and a smaller one gets a flag that no nibble holds.
-/

namespace Luomi.FloatCodec

open LittleEndian NibblePairs XorCodec XorRoundTrip

/-- The builtins see the zero extension of the difference. -/
def floatLayout (shifts : Shifts 32) : Layout 32 where
  valueBytes := 4
  clz diff := (diff.setWidth 64).clz.toNat
  ctz diff := (diff.setWidth 64).ctz.toNat
  shifts := shifts

def tsCompressFloatImp (shifts : Shifts 32) (input : List (BitVec 32)) : List UInt8 :=
  compress (floatLayout shifts) input

def tsDecompressFloatImp (shifts : Shifts 32) (input : List UInt8) (nelements : Nat) :
    Option (List (BitVec 32)) :=
  decompress (floatLayout shifts) input nelements

def clearingShifts : Shifts 32 where
  right word shift := if 0 ≤ shift ∧ shift < 32 then word >>> shift.toNat else 0
  left word shift := if 0 ≤ shift ∧ shift < 32 then word <<< shift.toNat else 0
  right_defined word shift inside := by rw [if_pos (by omega), Int.toNat_natCast]
  left_defined word shift inside := by rw [if_pos (by omega), Int.toNat_natCast]

/-- The flag of a difference whose zero extension has `zeros` leading zero
bytes. -/
def leadingFlag (zeros : Nat) : UInt8 :=
  let nbytes := UInt8.ofNat 4 - UInt8.ofNat zeros
  if nbytes > 0 then nbytes - 1 else nbytes

def spanBytes (diff : BitVec 32) : Nat :=
  if diff = 0 ∨ 2 ^ 24 ≤ diff.toNat then 1
  else if 2 ^ 16 ≤ diff.toNat then 7
  else if 2 ^ 8 ≤ diff.toNat then 6
  else 5

section Flags

variable (shifts : Shifts 32)

theorem flagOf_zero : flagOf (floatLayout shifts) 0 = 0 := by
  have size : (floatLayout shifts).valueBytes = 4 := rfl
  simp only [flagOf, if_true, size]
  decide

variable {diff : BitVec 32}

theorem extension_ne_zero (nonzero : diff ≠ 0) : diff.setWidth 64 ≠ 0 := by
  intro zero
  apply nonzero
  apply BitVec.eq_of_toNat_eq
  have value := congrArg BitVec.toNat zero
  rw [BitVec.toNat_setWidth, Nat.mod_eq_of_lt (by omega)] at value
  exact value

theorem ctz_le_clz (nonzero : diff ≠ 0) :
    (diff.setWidth 64).ctz.toNat < 32 ∧ 32 ≤ (diff.setWidth 64).clz.toNat := by
  have size := diff.isLt
  have value : (diff.setWidth 64).toNat = diff.toNat := by
    rw [BitVec.toNat_setWidth, Nat.mod_eq_of_lt (by omega)]
  constructor
  · have lowest := BitVec.getLsbD_true_ctz_of_ne_zero (extension_ne_zero nonzero)
    rw [BitVec.getLsbD_setWidth] at lowest
    simp only [Bool.and_eq_true] at lowest
    exact BitVec.lt_of_getLsbD lowest.2
  · have leading := BitVec.two_pow_sub_clz_le_toNat_of_ne_zero (by decide)
      (extension_ne_zero nonzero)
    rw [value] at leading
    by_contra fewer
    have power : 2 ^ 32 ≤ 2 ^ (64 - 1 - (diff.setWidth 64).clz.toNat) :=
      Nat.pow_le_pow_right (by decide) (by omega)
    omega

theorem flagOf_nonzero (nonzero : diff ≠ 0) :
    flagOf (floatLayout shifts) diff = leadingFlag ((diff.setWidth 64).clz.toNat / 8) := by
  obtain ⟨trailing, leading⟩ := ctz_le_clz nonzero
  have kind : ¬ (diff.setWidth 64).ctz.toNat > (diff.setWidth 64).clz.toNat := by omega
  simp only [flagOf, floatLayout, if_neg nonzero, if_neg kind, leadingFlag]

theorem clz_div_eight (zeros : Nat) (some' : 4 ≤ zeros) (below : zeros < 8)
    (low : zeros < 7 -> 2 ^ (8 * (7 - zeros)) ≤ diff.toNat) (nonzero : diff ≠ 0)
    (high : diff.toNat < 2 ^ (8 * (8 - zeros))) : (diff.setWidth 64).clz.toNat / 8 = zeros := by
  have value : (diff.setWidth 64).toNat = diff.toNat := by
    rw [BitVec.toNat_setWidth, Nat.mod_eq_of_lt (by omega)]
  have upper : diff.toNat < 2 ^ (64 - (diff.setWidth 64).clz.toNat) := by
    rw [<- value]; exact BitVec.toNat_lt_two_pow_sub_clz
  have lower := BitVec.two_pow_sub_clz_le_toNat_of_ne_zero (by decide) (extension_ne_zero nonzero)
  rw [value] at lower
  have enough : 8 * zeros ≤ (diff.setWidth 64).clz.toNat := by
    by_contra fewer
    have power : 2 ^ (8 * (8 - zeros)) ≤ 2 ^ (64 - 1 - (diff.setWidth 64).clz.toNat) :=
      Nat.pow_le_pow_right (by decide) (by omega)
    omega
  have notMore : (diff.setWidth 64).clz.toNat < 8 * (zeros + 1) := by
    by_contra more
    by_cases last : zeros < 7
    · have power : 2 ^ (64 - (diff.setWidth 64).clz.toNat) ≤ 2 ^ (8 * (7 - zeros)) :=
        Nat.pow_le_pow_right (by decide) (by omega)
      have := low last
      omega
    · rw [show 64 - (diff.setWidth 64).clz.toNat = 0 by omega, pow_zero] at upper
      exact nonzero (BitVec.eq_of_toNat_eq (by simpa using upper))
  omega

theorem flagOf_ranges (nonzero : diff ≠ 0) :
    (2 ^ 24 ≤ diff.toNat ∧ flagOf (floatLayout shifts) diff = 0) ∨
    (diff.toNat < 2 ^ 24 ∧ 2 ^ 16 ≤ diff.toNat ∧ flagOf (floatLayout shifts) diff = 254) ∨
    (diff.toNat < 2 ^ 16 ∧ 2 ^ 8 ≤ diff.toNat ∧ flagOf (floatLayout shifts) diff = 253) ∨
    (diff.toNat < 2 ^ 8 ∧ flagOf (floatLayout shifts) diff = 252) := by
  have size := diff.isLt
  rw [flagOf_nonzero shifts nonzero]
  by_cases top : 2 ^ 24 ≤ diff.toNat
  · left
    rw [clz_div_eight 4 (by decide) (by decide) (fun _ => top) nonzero size]
    exact ⟨top, by decide⟩
  by_cases middle : 2 ^ 16 ≤ diff.toNat
  · right; left
    rw [clz_div_eight 5 (by decide) (by decide) (fun _ => middle) nonzero (by simpa using top)]
    exact ⟨by omega, middle, by decide⟩
  by_cases second : 2 ^ 8 ≤ diff.toNat
  · right; right; left
    rw [clz_div_eight 6 (by decide) (by decide) (fun _ => second) nonzero (by simpa using middle)]
    exact ⟨by omega, second, by decide⟩
  · right; right; right
    rw [clz_div_eight 7 (by decide) (by decide) (fun more => absurd more (by decide))
      nonzero (by simpa using second)]
    exact ⟨by omega, by decide⟩

theorem byteCount_flagOf (diff : BitVec 32) :
    byteCount (flagOf (floatLayout shifts) diff) = spanBytes diff := by
  unfold spanBytes
  by_cases zero : diff = 0
  · rw [if_pos (Or.inl zero), zero, flagOf_zero]
    decide
  · rcases flagOf_ranges shifts zero with ⟨top, flag⟩ | ⟨below, above, flag⟩ |
      ⟨below, above, flag⟩ | ⟨below, flag⟩ <;> rw [flag]
    · rw [if_pos (Or.inr top)]; decide
    · rw [if_neg (not_or.mpr ⟨zero, by omega⟩), if_pos above]; decide
    · rw [if_neg (not_or.mpr ⟨zero, by omega⟩), if_neg (by omega), if_pos above]; decide
    · rw [if_neg (not_or.mpr ⟨zero, by omega⟩), if_neg (by omega), if_neg (by omega)]; decide

/-- A flag that fits its nibble belongs to 0 or to a difference with a
significant top byte. -/
theorem flagOf_eq_zero_of_small
    (small : (flagOf (floatLayout shifts) diff).toNat < 16) (nonzero : diff ≠ 0) :
    2 ^ 24 ≤ diff.toNat ∧ flagOf (floatLayout shifts) diff = 0 := by
  rcases flagOf_ranges shifts nonzero with found | ⟨-, -, flag⟩ | ⟨-, -, flag⟩ | ⟨-, flag⟩
  · exact found
  all_goals
    rw [flag] at small
    exact absurd small (by decide)

theorem zero_restores : Restores (floatLayout shifts) 0 := by
  have flag := flagOf_zero shifts
  exact restores_of_fits 0 (by rw [flag]; decide) (by rw [flag]; decide)
    (by rw [flag]; decide) (by decide) (by simp) (by simp)

theorem decodeValue_flag_zero {decoded : BitVec 32} {rest later : List UInt8}
    (read : decodeValue (floatLayout shifts) 0
      (encodeValue (floatLayout shifts) diff 0 ++ rest) = some (decoded, later)) :
    decoded.toNat < 256 := by
  have count : byteCount 0 = 1 := by decide
  have shift : shiftWidth 32 0 = (0 : Nat) := by decide
  unfold decodeValue at read
  rw [if_neg (by simp [count]), List.take_left' (encodeValue_length ..)] at read
  have value := congrArg Prod.fst (Option.some.inj read)
  simp only [shift] at value
  rw [(floatLayout shifts).shifts.left_defined _ 0 (by decide), BitVec.shiftLeft_zero] at value
  rw [<- value, orBytes_toNat _ _ 0 0 (by simp [count]) (by decide)]
  have bytes := leValue_lt (encodeValue (floatLayout shifts) diff 0)
  rw [encodeValue_length, count] at bytes
  simpa using bytes

theorem lossy_of_small (small : (flagOf (floatLayout shifts) diff).toNat < 16) (nonzero : diff ≠ 0)
    (rest later : List UInt8) :
    decodeValue (floatLayout shifts) (lowNibble (flagOf (floatLayout shifts) diff))
      (encodeValue (floatLayout shifts) diff (flagOf (floatLayout shifts) diff) ++ rest) ≠
        some (diff, later) := by
  obtain ⟨top, flag⟩ := flagOf_eq_zero_of_small shifts small nonzero
  rw [flag, show lowNibble 0 = 0 by decide]
  intro read
  have byte := decodeValue_flag_zero shifts read
  omega

theorem orBytes_clearing_zeros (count : Nat) : ∀ i : Nat,
    orBytes clearingShifts i 0 (List.replicate count 0) = 0 := by
  induction count with
  | zero => intro i; rfl
  | succ count ih =>
    intro i
    have zero : clearingShifts.left (BitVec.ofNat 32 (0 : UInt8).toNat) ((8 * i : Nat) : Int) =
        0 := by
      unfold clearingShifts
      simp
    rw [List.replicate_succ, orBytes, zero, show (0 : BitVec 32) ||| 0 = 0 by decide]
    exact ih (i + 1)

theorem lossy_of_clearing (nonzero : diff ≠ 0) (rest later : List UInt8) :
    decodeValue (floatLayout clearingShifts) (lowNibble (flagOf (floatLayout clearingShifts) diff))
      (encodeValue (floatLayout clearingShifts) diff
        (flagOf (floatLayout clearingShifts) diff) ++ rest) ≠ some (diff, later) := by
  by_cases small : (flagOf (floatLayout clearingShifts) diff).toNat < 16
  · exact lossy_of_small clearingShifts small nonzero rest later
  · -- the three remaining flags shift right by a negative amount
    have wide : ∃ flag, flagOf (floatLayout clearingShifts) diff = flag ∧
        shiftWidth 32 flag < 0 ∧ byteCount (lowNibble flag) = byteCount flag := by
      rcases flagOf_ranges clearingShifts nonzero with ⟨-, flag⟩ | ⟨-, -, flag⟩ |
        ⟨-, -, flag⟩ | ⟨-, flag⟩
      · rw [flag] at small
        exact absurd (by decide) small
      all_goals exact ⟨_, flag, by decide, by decide⟩
    obtain ⟨flag, flagEq, negative, count⟩ := wide
    have zeros : encodeValue (floatLayout clearingShifts) diff flag =
        List.replicate (byteCount flag) 0 := by
      have cleared : (floatLayout clearingShifts).shifts.right diff (shiftWidth 32 flag) = 0 := by
        have outside : ¬ (0 ≤ shiftWidth 32 flag ∧ shiftWidth 32 flag < 32) := by omega
        change (if 0 ≤ shiftWidth 32 flag ∧ shiftWidth 32 flag < 32 then _ else (0 : BitVec 32)) = 0
        rw [if_neg outside]
      rw [encodeValue, cleared]
      induction byteCount flag with
      | zero => rfl
      | succ count ih =>
        rw [leBytes, List.replicate_succ]
        exact congrArg _ ih
    intro read
    unfold decodeValue at read
    rw [flagEq, count, if_neg (by simp), List.take_left' (encodeValue_length ..), zeros] at read
    have value := (Prod.mk.inj (Option.some.inj read)).1
    rw [show (floatLayout clearingShifts).shifts = clearingShifts from rfl,
      orBytes_clearing_zeros] at value
    apply nonzero
    rw [<- value]
    simp only [clearingShifts]
    split <;> simp

end Flags

/-- The flags of a packed column; a raw one has none. -/
def storedFlags (shifts : Shifts 32) (input : List (BitVec 32)) : List UInt8 :=
  match packed (floatLayout shifts) input with
  | some _ => (diffs 0 input).map (flagOf (floatLayout shifts))
  | none => []

/-- The column comes back, and the flags stored for it fit their nibbles and
stand for one to four bytes. -/
def FloatRestored (shifts : Shifts 32) (input : List (BitVec 32)) : Prop :=
  tsDecompressFloatImp shifts (tsCompressFloatImp shifts input) input.length = some input ∧
    ∀ flag ∈ storedFlags shifts input,
      flag.toNat < 16 ∧ 1 ≤ byteCount flag ∧ byteCount flag ≤ 4

/-- The packed form would be longer than the values. -/
def RawSized (input : List (BitVec 32)) : Prop :=
  input.length * 4 < (input.length + 1) / 2 + ((diffs 0 input).map spanBytes).sum +
    input.length % 2

theorem packed_eq_none_iff (shifts : Shifts 32) (input : List (BitVec 32)) :
    packed (floatLayout shifts) input = none ↔ RawSized input := by
  have spans : (diffs 0 input).map (fun diff => byteCount (flagOf (floatLayout shifts) diff)) =
      (diffs 0 input).map spanBytes := by
    simp [byteCount_flagOf]
  rw [packed_eq, packedBytes_length, spans, RawSized]
  have size : (floatLayout shifts).valueBytes = 4 := rfl
  rw [size]
  split
  · simp only [reduceCtorEq, false_iff]; omega
  · simp only [true_iff]; omega

variable {input : List (BitVec 32)}

theorem tsDecompressFloatImp_of_holds (shifts : Shifts 32)
    (holds : (∀ value ∈ input, value = 0) ∨ RawSized input) (rest : List UInt8) :
    tsDecompressFloatImp shifts (tsCompressFloatImp shifts input ++ rest) input.length =
      some input := by
  have whole : 32 ≤ 8 * (floatLayout shifts).valueBytes := by
    change 32 ≤ 8 * 4
    decide
  rcases holds with zeros | raw
  · apply decompress_of_restores whole
    intro diff member
    rw [(diffs_eq_zero_iff 0 input).mpr zeros diff member]
    exact zero_restores shifts
  · exact decompress_of_raw whole ((packed_eq_none_iff shifts input).mpr raw) rest

/-- A packed column is restored only if each of its differences that loses
something is absent. -/
theorem zeros_of_restored {shifts : Shifts 32}
    (notRaw : ¬ RawSized input) (lossy : ∀ diff ∈ diffs 0 input, diff ≠ 0 -> ∀ rest later,
      decodeValue (floatLayout shifts) (lowNibble (flagOf (floatLayout shifts) diff))
        (encodeValue (floatLayout shifts) diff (flagOf (floatLayout shifts) diff) ++ rest) ≠
          some (diff, later)) (rest : List UInt8)
    (restored : tsDecompressFloatImp shifts (tsCompressFloatImp shifts input ++ rest)
      input.length = some input) : ∀ value ∈ input, value = 0 := by
  have isPacked : packed (floatLayout shifts) input ≠ none := by
    rw [Ne, packed_eq_none_iff]
    exact notRaw
  obtain ⟨out, run⟩ := Option.ne_none_iff_exists'.mp isPacked
  unfold tsDecompressFloatImp tsCompressFloatImp at restored
  rw [decompress_of_packed run] at restored
  exact (diffs_eq_zero_iff 0 input).mp (diffs_eq_zero_of_decodeLoop (zero_restores shifts)
    input 0 0 0 rest rfl lossy restored)

/-- Whatever the undefined shifts do, the codec works exactly for columns of
zeros and for columns that are stored raw because packing does not pay. -/
theorem float_restored_iff (shifts : Shifts 32) (input : List (BitVec 32)) :
    FloatRestored shifts input ↔ (∀ value ∈ input, value = 0) ∨ RawSized input := by
  constructor
  · rintro ⟨restored, flags⟩
    by_contra fails
    obtain ⟨notZeros, notRaw⟩ := not_or.mp fails
    have isPacked : packed (floatLayout shifts) input ≠ none := by
      rw [Ne, packed_eq_none_iff]
      exact notRaw
    obtain ⟨out, run⟩ := Option.ne_none_iff_exists'.mp isPacked
    refine notZeros (zeros_of_restored notRaw ?_ [] (by simpa using restored))
    intro diff member nonzero
    have stored : flagOf (floatLayout shifts) diff ∈ storedFlags shifts input := by
      simp only [storedFlags, run]
      exact List.mem_map_of_mem member
    exact lossy_of_small shifts (flags _ stored).1 nonzero
  · intro holds
    refine ⟨by simpa using tsDecompressFloatImp_of_holds shifts holds [], ?_⟩
    intro flag stored
    rcases holds with zeros | raw
    · have allZero := (diffs_eq_zero_iff 0 input).mpr zeros
      unfold storedFlags at stored
      split at stored
      · obtain ⟨diff, member, rfl⟩ := List.mem_map.mp stored
        rw [allZero diff member, flagOf_zero]
        decide
      · cases stored
    · simp [storedFlags, (packed_eq_none_iff shifts input).mpr raw] at stored

/-- The single value 1.0 is not restored, whatever the undefined shifts do. -/
theorem float_one_not_restored : ¬ ∃ shifts : Shifts 32, FloatRestored shifts [0x3F800000#32] := by
  rintro ⟨shifts, restored, -⟩
  have notRaw : ¬ RawSized [0x3F800000#32] := by unfold RawSized; decide
  have zeros := zeros_of_restored notRaw (by
    intro diff member nonzero
    simp only [diffs, List.mem_singleton] at member
    subst member
    refine lossy_of_small shifts ?_ nonzero
    rcases flagOf_ranges shifts nonzero with ⟨-, flag⟩ | ⟨below, -⟩ | ⟨below, -⟩ | ⟨below, -⟩
    · rw [flag]; decide
    all_goals exact absurd below (by decide)) [] (by simpa using restored)
  exact absurd (zeros _ (List.mem_singleton.mpr rfl)) (by decide)

end Luomi.FloatCodec
