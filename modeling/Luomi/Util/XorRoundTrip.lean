import Luomi.Util.XorCodec

/-!
# Packed columns of the float and double codecs

A packed column is the layout, in pairs, of the differences of successive
values.  It is decoded to the column when each difference restores itself, and
to something else when a difference that is not 0 does not.
-/

namespace Luomi.XorRoundTrip

open BitFields LittleEndian NibblePairs XorCodec

variable {width : Nat}

/-- The differences of a list that follows `prev`. -/
def diffs : BitVec width -> List (BitVec width) -> List (BitVec width)
  | _, [] => []
  | prev, curr :: rest => (curr ^^^ prev) :: diffs curr rest

@[simp] theorem diffs_length (prev : BitVec width) (values : List (BitVec width)) :
    (diffs prev values).length = values.length := by
  induction values generalizing prev with
  | nil => rfl
  | cons curr rest ih => simp [diffs, ih]

theorem diffs_eq_zero_iff (prev : BitVec width) (values : List (BitVec width)) :
    (∀ diff ∈ diffs prev values, diff = 0) ↔ ∀ value ∈ values, value = prev := by
  induction values generalizing prev with
  | nil => simp [diffs]
  | cons curr rest ih =>
    simp only [diffs, List.forall_mem_cons]
    constructor
    · rintro ⟨zero, later⟩
      have same : curr = prev := BitVec.xor_eq_zero_iff.mp zero
      subst same
      exact ⟨rfl, (ih curr).mp later⟩
    · rintro ⟨rfl, later⟩
      exact ⟨BitVec.xor_self, (ih curr).mpr later⟩

section Packing

variable (layout : Layout width)

def fieldOf (diff : BitVec width) : Field :=
  ⟨flagOf layout diff, encodeValue layout diff (flagOf layout diff)⟩

def fields (prev : BitVec width) (values : List (BitVec width)) : List Field :=
  (diffs prev values).map (fieldOf layout)

/-- `encodeDoubleValue(0ul, 0, ...)` after the last value of an odd column. -/
def tailBytes : List UInt8 := encodeValue layout 0 0

def packedBytes (prev : BitVec width) (values : List (BitVec width)) : List UInt8 :=
  packPairs (tailBytes layout) (fields layout prev values)

@[simp] theorem encodeValue_length (diff : BitVec width) (flag : UInt8) :
    (encodeValue layout diff flag).length = byteCount flag := leBytes_length _ _

theorem packedBytes_length (values : List (BitVec width)) (prev : BitVec width) :
    (packedBytes layout prev values).length = (values.length + 1) / 2 +
      ((diffs prev values).map fun diff => byteCount (flagOf layout diff)).sum +
        values.length % 2 := by
  have tail : (tailBytes layout).length = 1 := by simp [tailBytes, byteCount]
  have counts : (fields layout prev values).map (fun field => field.bytes.length) =
      (diffs prev values).map fun diff => byteCount (flagOf layout diff) := by
    simp [fields, fieldOf, Function.comp_def]
  rw [packedBytes, packPairs_length, counts, tail]
  simp only [fields, List.length_map, diffs_length]
  split <;> omega

theorem encode_layout (byteLimit : Nat) (values : List (BitVec width)) :
    ∀ state : Encoder width, state.i % 2 = 0 -> state.out.length + 1 ≤ byteLimit ->
      (encodeLoop layout byteLimit state values).bind (encodeTail layout byteLimit) =
        if state.out.length + 1 + (packedBytes layout state.prevValue values).length ≤ byteLimit
        then some (state.out ++ packedBytes layout state.prevValue values) else none := by
  induction values using List.twoStepInduction with
  | nil =>
    intro state even room
    have notOdd : ¬ state.i % 2 = 1 := by omega
    simp [encodeLoop, encodeTail, notOdd, packedBytes, fields, diffs, packPairs, room]
  | singleton curr =>
    intro state even room
    have odd : (state.i + 1) % 2 = 1 := by omega
    simp only [encodeLoop, step, if_pos even, bind, Option.bind, encodeTail, if_pos odd]
    have length : (packedBytes layout state.prevValue [curr]).length =
        1 + byteCount (flagOf layout (curr ^^^ state.prevValue)) + 1 := by
      rw [packedBytes_length]
      simp [diffs]
    have shape : packedBytes layout state.prevValue [curr] =
        flagOf layout (curr ^^^ state.prevValue) ::
          (encodeValue layout (curr ^^^ state.prevValue)
            (flagOf layout (curr ^^^ state.prevValue)) ++ encodeValue layout 0 0) := by
      simp [packedBytes, fields, diffs, packPairs, fieldOf, tailBytes]
    rw [length, shape]
    congr 1
    simp only [eq_iff_iff]
    omega
  | cons_cons curr1 curr2 rest ih _ =>
    intro state even room
    have odd : ¬ (state.i + 1) % 2 = 0 := by omega
    have shape : packedBytes layout state.prevValue (curr1 :: curr2 :: rest) =
        header (flagOf layout (curr1 ^^^ state.prevValue)) (flagOf layout (curr2 ^^^ curr1)) ::
          (encodeValue layout (curr1 ^^^ state.prevValue)
            (flagOf layout (curr1 ^^^ state.prevValue)) ++
          (encodeValue layout (curr2 ^^^ curr1) (flagOf layout (curr2 ^^^ curr1)) ++
            packedBytes layout curr2 rest)) := by
      simp [packedBytes, fields, diffs, packPairs, fieldOf]
    simp only [encodeLoop, step, if_pos even, bind, Option.bind, if_neg odd]
    by_cases fits : state.out.length + 1 + 1 +
        byteCount (flagOf layout (curr1 ^^^ state.prevValue)) +
        byteCount (flagOf layout (curr2 ^^^ curr1)) ≤ byteLimit
    · rw [if_pos fits]
      have later := ih ⟨state.i + 1 + 1, curr2, curr1 ^^^ state.prevValue,
        flagOf layout (curr1 ^^^ state.prevValue), state.out ++
          header (flagOf layout (curr1 ^^^ state.prevValue)) (flagOf layout (curr2 ^^^ curr1)) ::
            (encodeValue layout (curr1 ^^^ state.prevValue)
              (flagOf layout (curr1 ^^^ state.prevValue)) ++
            encodeValue layout (curr2 ^^^ curr1) (flagOf layout (curr2 ^^^ curr1)))⟩
        (by simp only; omega) (by
          simp only [List.length_append, List.length_cons, encodeValue_length]; omega)
      simp only [Option.bind] at later
      rw [later, shape]
      congr 1
      · simp only [List.length_append, List.length_cons, encodeValue_length, eq_iff_iff]
        omega
      · simp
    · rw [if_neg fits, if_neg]
      rw [shape]
      simp only [List.length_append, List.length_cons, encodeValue_length]
      omega

/-- The column is packed exactly if its layout is no longer than the values. -/
theorem packed_eq (input : List (BitVec width)) : packed layout input =
      if (packedBytes layout 0 input).length ≤ input.length * layout.valueBytes
      then some (packedBytes layout 0 input) else none := by
  rw [packed]
  rw [encode_layout layout _ input _ rfl (by simp)]
  simp only [List.length_nil, List.nil_append]
  congr 1
  simp only [eq_iff_iff]
  omega

/-- A difference comes back from the bytes written for it. -/
def Restores (diff : BitVec width) : Prop :=
  (flagOf layout diff).toNat < 16 ∧ ∀ rest : List UInt8,
    decodeValue layout (flagOf layout diff)
      (encodeValue layout diff (flagOf layout diff) ++ rest) = some (diff, rest)

variable {layout}

variable {input : List UInt8}

section

variable (flags : UInt8) {later : List UInt8} {diff : BitVec width} {i : Nat}

theorem decodeLoop_first (even : i % 2 = 0)
    (read : decodeValue layout (lowNibble flags) input = some (diff, later)) (left : Nat)
    (old : UInt8) (prev : BitVec width) : decodeLoop layout (left + 1) i old prev (flags :: input) =
      (decodeLoop layout left (i + 1) (flags >>> 4) (prev ^^^ diff) later).map
        (List.cons (prev ^^^ diff)) := by
  unfold lowNibble at read
  simp only [decodeLoop, if_pos even, read, bind, Option.bind, pure]
  cases decodeLoop layout left (i + 1) (flags >>> 4) (prev ^^^ diff) later <;> rfl

theorem decodeLoop_second (odd : ¬ i % 2 = 0)
    (read : decodeValue layout (highNibble flags) input = some (diff, later)) (left : Nat)
    (prev : BitVec width) : decodeLoop layout (left + 1) i (flags >>> 4) prev input =
      (decodeLoop layout left (i + 1) (flags >>> 4 >>> 4) (prev ^^^ diff) later).map
        (List.cons (prev ^^^ diff)) := by
  unfold highNibble at read
  simp only [decodeLoop, if_neg odd, read, bind, Option.bind, pure]
  cases decodeLoop layout left (i + 1) (flags >>> 4 >>> 4) (prev ^^^ diff) later <;> rfl

end

theorem xor_xor_self (prev curr : BitVec width) : prev ^^^ (curr ^^^ prev) = curr := by
  rw [BitVec.xor_comm curr prev, <- BitVec.xor_assoc, BitVec.xor_self, BitVec.zero_xor]

theorem decodeLoop_packedBytes (values : List (BitVec width)) :
    ∀ (i : Nat) (old : UInt8) (prev : BitVec width) (rest : List UInt8), i % 2 = 0 ->
      (∀ diff ∈ diffs prev values, Restores layout diff) ->
        decodeLoop layout values.length i old prev (packedBytes layout prev values ++ rest) =
          some values := by
  induction values using List.twoStepInduction with
  | nil => intro i old prev rest _ _; rfl
  | singleton curr =>
    intro i old prev rest even restores
    obtain ⟨small, read⟩ := restores (curr ^^^ prev) (by simp [diffs])
    have first := decodeLoop_first (flagOf layout (curr ^^^ prev)) even
      (by rw [lowNibble_of_lt small]; exact read (tailBytes layout ++ rest)) 0 old prev
    rw [xor_xor_self] at first
    simpa [packedBytes, fields, diffs, packPairs, fieldOf, decodeLoop] using first
  | cons_cons curr1 curr2 later ih _ =>
    intro i old prev rest even restores
    obtain ⟨small1, read1⟩ := restores (curr1 ^^^ prev) (by simp [diffs])
    obtain ⟨small2, read2⟩ := restores (curr2 ^^^ curr1) (by simp [diffs])
    have tail := ih (i + 1 + 1) (header (flagOf layout (curr1 ^^^ prev))
      (flagOf layout (curr2 ^^^ curr1)) >>> 4 >>> 4) curr2 rest (by omega)
      (fun diff member => restores diff (by simp [diffs, member]))
    have second := decodeLoop_second (i := i + 1)
      (header (flagOf layout (curr1 ^^^ prev)) (flagOf layout (curr2 ^^^ curr1))) (by omega)
      (by rw [highNibble_header small1, lowNibble_of_lt small2]
          exact read2 (packedBytes layout curr2 later ++ rest)) later.length curr1
    have first := decodeLoop_first
      (header (flagOf layout (curr1 ^^^ prev)) (flagOf layout (curr2 ^^^ curr1))) even
      (by rw [lowNibble_header, lowNibble_of_lt small1]
          exact read1 (encodeValue layout (curr2 ^^^ curr1) (flagOf layout (curr2 ^^^ curr1)) ++
            (packedBytes layout curr2 later ++ rest))) (later.length + 1) old prev
    rw [xor_xor_self, second, xor_xor_self, tail] at first
    simpa [packedBytes, fields, diffs, packPairs, fieldOf, decodeLoop] using first

section

variable {i left : Nat} {prev curr : BitVec width} {rest : List (BitVec width)}

theorem decodeLoop_first_inv {flags old : UInt8} (even : i % 2 = 0)
    (run : decodeLoop layout (left + 1) i old prev (flags :: input) = some (curr :: rest)) :
    ∃ later, decodeValue layout (lowNibble flags) input = some (curr ^^^ prev, later) ∧
      decodeLoop layout left (i + 1) (flags >>> 4) curr later = some rest := by
  cases read : decodeValue layout (lowNibble flags) input with
  | none =>
    unfold lowNibble at read
    simp [decodeLoop, even, read] at run
  | some pair =>
    rw [decodeLoop_first flags even read] at run
    obtain ⟨values, loop, equal⟩ := Option.map_eq_some_iff.mp run
    cases equal
    refine ⟨pair.2, ?_, loop⟩
    rw [BitVec.xor_comm prev, BitVec.xor_assoc, BitVec.xor_self, BitVec.xor_zero]

theorem decodeLoop_second_inv {flags : UInt8} (odd : ¬ i % 2 = 0)
    (run : decodeLoop layout (left + 1) i (flags >>> 4) prev input = some (curr :: rest)) :
    ∃ later, decodeValue layout (highNibble flags) input = some (curr ^^^ prev, later) ∧
      decodeLoop layout left (i + 1) (flags >>> 4 >>> 4) curr later = some rest := by
  cases read : decodeValue layout (highNibble flags) input with
  | none =>
    unfold highNibble at read
    simp [decodeLoop, odd, read] at run
  | some pair =>
    rw [decodeLoop_second flags odd read] at run
    obtain ⟨values, loop, equal⟩ := Option.map_eq_some_iff.mp run
    cases equal
    refine ⟨pair.2, ?_, loop⟩
    rw [BitVec.xor_comm prev, BitVec.xor_assoc, BitVec.xor_self, BitVec.xor_zero]

end

/-- A difference that is not 0 and does not come back is noticed: the first one
of a packed column is decoded to another value. -/
theorem diffs_eq_zero_of_decodeLoop (zero : Restores layout 0) (values : List (BitVec width)) :
    ∀ (i : Nat) (old : UInt8) (prev : BitVec width) (rest : List UInt8), i % 2 = 0 ->
      (∀ diff ∈ diffs prev values, diff ≠ 0 -> ∀ rest later,
        decodeValue layout (lowNibble (flagOf layout diff))
          (encodeValue layout diff (flagOf layout diff) ++ rest) ≠ some (diff, later)) ->
      decodeLoop layout values.length i old prev (packedBytes layout prev values ++ rest) =
        some values -> ∀ diff ∈ diffs prev values, diff = 0 := by
  obtain ⟨zeroSmall, zeroRead⟩ := zero
  induction values using List.twoStepInduction with
  | nil => intro i old prev rest _ _ _ diff member; cases member
  | singleton curr =>
    intro i old prev rest even lossy run
    simp only [packedBytes, fields, diffs, List.map_cons, List.map_nil, packPairs, fieldOf,
      header_zero, List.cons_append, List.append_assoc, List.length_singleton] at run
    obtain ⟨later, read, -⟩ := decodeLoop_first_inv even run
    by_contra some'
    simp only [diffs, List.mem_singleton, forall_eq] at some' lossy
    exact lossy some' _ later read
  | cons_cons curr1 curr2 tail ih _ =>
    intro i old prev rest even lossy run
    have shape : packedBytes layout prev (curr1 :: curr2 :: tail) ++ rest =
        header (flagOf layout (curr1 ^^^ prev)) (flagOf layout (curr2 ^^^ curr1)) ::
          (encodeValue layout (curr1 ^^^ prev) (flagOf layout (curr1 ^^^ prev)) ++
          (encodeValue layout (curr2 ^^^ curr1) (flagOf layout (curr2 ^^^ curr1)) ++
            (packedBytes layout curr2 tail ++ rest))) := by
      simp [packedBytes, fields, diffs, packPairs, fieldOf]
    rw [shape] at run
    obtain ⟨later1, read1, run⟩ := decodeLoop_first_inv even run
    rw [lowNibble_header] at read1
    have first : curr1 ^^^ prev = 0 := by
      by_contra some'
      exact lossy _ (by simp [diffs]) some' _ later1 read1
    rw [first, lowNibble_of_lt zeroSmall, zeroRead] at read1
    cases read1
    obtain ⟨later2, read2, run⟩ := decodeLoop_second_inv (by omega) run
    rw [highNibble_header (by rw [first]; exact zeroSmall)] at read2
    have second : curr2 ^^^ curr1 = 0 := by
      by_contra some'
      exact lossy _ (by simp [diffs]) some' _ later2 read2
    rw [second, lowNibble_of_lt zeroSmall, zeroRead] at read2
    cases read2
    have others := ih (i + 1 + 1) _ curr2 rest (by omega)
      (fun diff member => lossy diff (by simp [diffs, member])) run
    intro diff member
    simp only [diffs, List.mem_cons] at member
    rcases member with rfl | rfl | member
    · exact first
    · exact second
    · exact others diff member

section

variable {input : List (BitVec width)}

theorem decompress_of_raw (whole : width ≤ 8 * layout.valueBytes) (raw : packed layout input = none)
    (rest : List UInt8) :
    decompress layout (compress layout input ++ rest) input.length = some input := by
  simp only [compress, raw, List.cons_append, decompress, if_true]
  exact decodeWords_encodeWords layout.valueBytes whole input rest

theorem decompress_of_packed {out : List UInt8} (run : packed layout input = some out)
    (rest : List UInt8) : decompress layout (compress layout input ++ rest) input.length =
      decodeLoop layout input.length 0 0 0 (packedBytes layout 0 input ++ rest) := by
  have same : out = packedBytes layout 0 input := by
    rw [packed_eq] at run
    split at run
    · exact (Option.some.inj run).symm
    · cases run
  have indicator : (0 : UInt8) ≠ 1 := by decide
  simp only [compress, run, List.cons_append, decompress, if_neg indicator, same]

/-- A column whose differences all come back is restored, whatever follows it
in the buffer. -/
theorem decompress_of_restores (whole : width ≤ 8 * layout.valueBytes)
    (restores : ∀ diff ∈ diffs 0 input, Restores layout diff) (rest : List UInt8) :
    decompress layout (compress layout input ++ rest) input.length = some input := by
  cases run : packed layout input with
  | none => exact decompress_of_raw whole run rest
  | some out =>
    rw [decompress_of_packed run]
    exact decodeLoop_packedBytes input 0 0 0 rest rfl restores

end

end Packing

theorem orBytes_toNat (shifts : Shifts width) (bytes : List UInt8) :
    ∀ (i : Nat) (diff : BitVec width), 8 * (i + bytes.length) ≤ width -> diff.toNat < 2 ^ (8 * i) ->
        (orBytes shifts i diff bytes).toNat = diff.toNat + 2 ^ (8 * i) * leValue bytes := by
  induction bytes with
  | nil => intro i diff _ _; simp [orBytes, leValue]
  | cons byte bytes ih =>
    intro i diff room below
    rw [List.length_cons] at room
    have byteBound := byte.toNat_lt
    have power : 2 ^ (8 * (i + 1)) = 2 ^ (8 * i) * 256 := by
      rw [show 8 * (i + 1) = 8 * i + 8 by ring, pow_add]
      norm_num
    have whole : 2 ^ (8 * (i + 1)) ≤ 2 ^ width := Nat.pow_le_pow_right (by decide) (by omega)
    have product : 2 ^ (8 * i) * byte.toNat + 2 ^ (8 * i) ≤ 2 ^ (8 * (i + 1)) := by
      rw [power, <- Nat.mul_succ]
      exact Nat.mul_le_mul_left _ byteBound
    have wordFits : byte.toNat < 2 ^ width := by
      have : (2 : Nat) ^ 8 ≤ 2 ^ width := Nat.pow_le_pow_right (by decide) (by omega)
      omega
    have word : (BitVec.ofNat width byte.toNat).toNat = byte.toNat := by
      rw [BitVec.toNat_ofNat, Nat.mod_eq_of_lt wordFits]
    have stored : (diff ||| BitVec.ofNat width byte.toNat <<< (8 * i)).toNat =
        diff.toNat + 2 ^ (8 * i) * byte.toNat := by
      rw [or_shiftLeft_toNat below (by rw [word]; omega), word]
    rw [orBytes, shifts.left_defined _ _ (by omega), ih (i + 1) _ (by omega)
      (by rw [stored]; omega), stored, leValue, power]
    ring

theorem restores_of_fits {layout : Layout width} {diff : BitVec width} (shift : Nat)
    (small : (flagOf layout diff).toNat < 16) (room : 8 * byteCount (flagOf layout diff) ≤ width)
    (shifted : shiftWidth width (flagOf layout diff) = shift) (inside : shift < width)
    (high : diff.toNat / 2 ^ shift < 256 ^ byteCount (flagOf layout diff))
    (low : 2 ^ shift ∣ diff.toNat) : Restores layout diff := by
  refine ⟨small, ?_⟩
  intro rest
  have kept : (layout.shifts.right diff shift).toNat = diff.toNat / 2 ^ shift := by
    rw [layout.shifts.right_defined diff shift inside, BitVec.toNat_ushiftRight,
      Nat.shiftRight_eq_div_pow]
  have read : (orBytes layout.shifts 0 0 (leBytes (byteCount (flagOf layout diff))
      (layout.shifts.right diff shift).toNat)).toNat = diff.toNat / 2 ^ shift := by
    rw [orBytes_toNat _ _ 0 0 (by rw [leBytes_length]; omega) (by simp), kept,
      leValue_leBytes_of_lt high]
    simp
  have value : layout.shifts.left (orBytes layout.shifts 0 0
      (leBytes (byteCount (flagOf layout diff)) (layout.shifts.right diff shift).toNat)) shift =
        diff := by
    apply BitVec.eq_of_toNat_eq
    rw [layout.shifts.left_defined _ _ inside, BitVec.toNat_shiftLeft, read, Nat.shiftLeft_eq,
      Nat.div_mul_cancel low, Nat.mod_eq_of_lt diff.isLt]
  unfold decodeValue
  rw [if_neg (by rw [List.length_append, encodeValue_length]; omega),
    List.take_left' (encodeValue_length ..), List.drop_left' (encodeValue_length ..)]
  simp only [encodeValue, shifted, value]

end Luomi.XorRoundTrip
