import Luomi.Util.IntegerScan

/-!
# Round trip of the Simple8B codec

A packed block decodes to the values it was made from, whatever follows it in
the buffer, because the decoder recovers the selector and every field of each
word.  The encoder produces a block for every list except those on which it
indexes `bit_to_selector` past its 61 entries: that happens exactly when a word
examines an element whose zig-zag delta is at least 2^60 but below
`SIMPLE8B_MAX_INT64`.
-/

namespace Luomi.IntegerRoundTrip

open BitFields LittleEndian ZigZag IntegerCodec IntegerScan
open List (length_cons map_cons)

theorem fillWord_toNat {bit : Nat} (narrow : bit < 64) : ∀ (values : List (BitVec 64))
    (k : Nat) (prev buffer : BitVec 64), (∀ value ∈ zigzags prev values, value.toNat < 2 ^ bit) ->
    bit * (k + values.length) + 4 ≤ 64 -> buffer.toNat < 2 ^ (bit * k + 4) ->
      (fillWord bit k prev buffer values).toNat = buffer.toNat +
        2 ^ (bit * k + 4) * Nat.ofDigits (2 ^ bit) ((zigzags prev values).map BitVec.toNat) := by
  intro values
  induction values with
  | nil => intro k prev buffer _ _ _; simp [fillWord, zigzags]
  | cons curr rest ih =>
    intro k prev buffer fits room below
    have headFits : (zigzag (curr - prev)).toNat < 2 ^ bit := fits _ (by simp [zigzags])
    have restFits : ∀ value ∈ zigzags curr rest, value.toNat < 2 ^ bit := by
      intro value member
      exact fits value (by simp [zigzags, member])
    have next : bit * (k + 1) + 4 = (bit * k + 4) + bit := by ring
    have inside : bit * (k + 1) + 4 ≤ 64 := by
      have : bit * (k + 1) ≤ bit * (k + (curr :: rest).length) :=
        Nat.mul_le_mul_left _ (by simp)
      omega
    have product : 2 ^ (bit * k + 4) * (zigzag (curr - prev)).toNat + 2 ^ (bit * k + 4) ≤
        2 ^ (bit * (k + 1) + 4) := by
      rw [next, pow_add _ _ bit, <- Nat.mul_succ]
      exact Nat.mul_le_mul_left _ headFits
    have whole : 2 ^ (bit * (k + 1) + 4) ≤ 2 ^ 64 := Nat.pow_le_pow_right (by decide) inside
    have positive : 0 < 2 ^ (bit * k + 4) := Nat.two_pow_pos _
    have stored : (buffer ||| zigzag (curr - prev) <<< (bit * k + 4)).toNat =
        buffer.toNat + 2 ^ (bit * k + 4) * (zigzag (curr - prev)).toNat :=
      or_shiftLeft_toNat below (by omega)
    rw [fillWord, and_mask_of_lt narrow headFits]
    rw [ih (k + 1) curr _ restFits (by
        rw [length_cons] at room
        rwa [show k + 1 + rest.length = k + (rest.length + 1) by omega]) (by rw [stored]; omega)]
    rw [stored, next, zigzags, map_cons, Nat.ofDigits_cons, pow_add]
    ring

theorem unpackWord_fields {w : BitVec 64} {selector bit : Nat} (narrow : bit < 64)
    (zeroRun : selector < 2 -> bit = 0) : ∀ (values : List (BitVec 64)) (i : Nat)
    (prev : BitVec 64), (∀ value ∈ zigzags prev values, value.toNat < 2 ^ bit) ->
      w.toNat / 2 ^ (4 + bit * i) =
        Nat.ofDigits (2 ^ bit) ((zigzags prev values).map BitVec.toNat) ->
        unpackWord w selector bit values.length i prev = values := by
  intro values
  induction values with
  | nil => intro i prev _ _; rfl
  | cons curr rest ih =>
    intro i prev fits fields
    have headFits : (zigzag (curr - prev)).toNat < 2 ^ bit := fits _ (by simp [zigzags])
    have restFits : ∀ value ∈ zigzags curr rest, value.toNat < 2 ^ bit := by
      intro value member
      exact fits value (by simp [zigzags, member])
    rw [zigzags, map_cons, Nat.ofDigits_cons] at fields
    have field : (if selector = 0 ∨ selector = 1 then 0
        else (w >>> (4 + bit * i)) &&& mask 64 bit) = zigzag (curr - prev) := by
      apply BitVec.eq_of_toNat_eq
      split
      · rename_i zeros
        have none' : bit = 0 := zeroRun (by omega)
        rw [none'] at headFits
        have : (zigzag (curr - prev)).toNat = 0 := by omega
        simp [this]
      · rw [shiftRight_and_mask_toNat narrow, fields, Nat.add_mul_mod_self_left,
          Nat.mod_eq_of_lt headFits]
    have above : w.toNat / 2 ^ (4 + bit * (i + 1)) =
        Nat.ofDigits (2 ^ bit) ((zigzags curr rest).map BitVec.toNat) := by
      rw [show 4 + bit * (i + 1) = 4 + bit * i + bit by ring, pow_add,
        <- Nat.div_div_eq_div_mul, fields, Nat.add_mul_div_left _ _ (Nat.two_pow_pos bit),
        Nat.div_eq_of_lt headFits, Nat.zero_add]
    have restored : unzigzag (zigzag (curr - prev)) + prev = curr := by
      rw [unzigzag_zigzag, BitVec.sub_add_cancel]
    rw [length_cons, unpackWord, field, restored, ih (i + 1) curr restFits above]

theorem fillWord_selector {word : Word} (prev : BitVec 64) (taken : List (BitVec 64))
    (inTable : word.selector < 16) (bitExact : word.bit = fieldBits word.selector)
    (room : taken.length ≤ capacity word.selector)
    (fits : ∀ value ∈ zigzags prev taken, value.toNat < 2 ^ word.bit) :
    let buffer := fillWord word.bit 0 prev (BitVec.ofNat 64 word.selector) taken
    (buffer &&& mask 64 4).toNat = word.selector ∧
      unpackWord buffer word.selector word.bit taken.length 0 prev = taken := by
  intro buffer
  have table := fieldBits_mul_capacity word.selector inTable
  have narrow : word.bit < 64 := by
    have := fieldBits_le word.selector inTable
    omega
  have product : word.bit * taken.length ≤ 60 := by
    rw [bitExact]
    exact (Nat.mul_le_mul_left _ room).trans table
  have selectorNat : (BitVec.ofNat 64 word.selector).toNat = word.selector := by
    rw [BitVec.toNat_ofNat, Nat.mod_eq_of_lt (by omega)]
  have value : buffer.toNat = word.selector + 2 ^ 4 *
      Nat.ofDigits (2 ^ word.bit) ((zigzags prev taken).map BitVec.toNat) := by
    have := fillWord_toNat narrow taken 0 prev (BitVec.ofNat 64 word.selector) fits
      (by rw [Nat.zero_add]; omega) (by rw [selectorNat]; simpa using inTable)
    rw [selectorNat] at this
    simpa using this
  constructor
  · rw [and_mask_toNat (by decide), value, Nat.add_mul_mod_self_left,
      Nat.mod_eq_of_lt (by simpa using inTable)]
  · apply unpackWord_fields narrow _ taken 0 prev fits
    · rw [value, Nat.mul_zero, Nat.add_zero, Nat.add_mul_div_left _ _ (by decide),
        Nat.div_eq_of_lt (by simpa using inTable), Nat.zero_add]
    · intro small
      rw [bitExact, fieldBits_zero_run _ small]

theorem decompressLoop_compressLoop (byteLimit : Nat) : ∀ (fuel : Nat)
    (values : List (BitVec 64)) (prev : BitVec 64) (out result : List UInt8),
    compressLoop byteLimit fuel prev out values = .ok result ->
      ∃ packed, result = out ++ packed ∧ ∀ (rest : List UInt8) (enough : Nat),
        values.length ≤ enough ->
          decompressLoop enough values.length prev (packed ++ rest) = some values := by
  intro fuel
  induction fuel with
  | zero =>
    intro values prev out result run
    cases values with
    | nil =>
      cases run
      refine ⟨[], by simp, ?_⟩
      intro rest enough _
      cases enough <;> rfl
    | cons value values => cases run
  | succ fuel ih =>
    intro values prev out result run
    cases values with
    | nil =>
      cases run
      refine ⟨[], by simp, ?_⟩
      intro rest enough _
      cases enough <;> rfl
    | cons value values =>
      rw [compressLoop] at run
      cases chosenRun : scan prev prev 0 0 0 (value :: values) with
      | error exit =>
        rw [chosenRun] at run
        cases run
      | ok word =>
        rw [chosenRun] at run
        simp only [bind, Except.bind] at run
        split at run
        case isFalse => cases run
        have chosen : Chosen prev 0 0 (value :: values) word :=
          scan_chosen prev (value :: values) prev 0 0 word (by decide) (by decide) chosenRun
        have nonempty : 0 < word.elems := chosen.nonempty (by simp)
        have available : word.elems ≤ (value :: values).length := by
          simpa using chosen.available
        have length : ((value :: values).take word.elems).length = word.elems := by
          rw [List.length_take]; omega
        obtain ⟨packed, append, decoded⟩ := ih _ _ _ _ run
        refine ⟨leBytes 8 (fillWord word.bit 0 prev (BitVec.ofNat 64 word.selector)
          ((value :: values).take word.elems)).toNat ++ packed, ?_, ?_⟩
        · rw [append, List.append_assoc]
        · intro rest enough bound
          obtain ⟨more, rfl⟩ : ∃ more, enough = more + 1 :=
            ⟨enough - 1, by simp only [length_cons] at bound; omega⟩
          obtain ⟨selector, fields⟩ := fillWord_selector prev
            ((value :: values).take word.elems) chosen.inTable chosen.bitExact
              (by rw [length]; exact chosen.room)
            (by simpa [zigzags_take] using chosen.fits)
          set buffer := fillWord word.bit 0 prev (BitVec.ofNat 64 word.selector)
            ((value :: values).take word.elems) with bufferDef
          -- the decoder takes what the word has room for, or all that is left
          have count : min (capacity word.selector) (values.length + 1) = word.elems := by
            have room := chosen.room
            have full := chosen.full
            simp only [length_cons] at available full
            omega
          have later := decoded rest more (by
            simp only [List.length_drop, length_cons] at bound ⊢
            omega)
          rw [List.length_drop, length_cons] at later
          rw [List.append_assoc, length_cons, decompressLoop]
          rw [if_neg (by simp)]
          rw [List.take_left' (leBytes_length ..), List.drop_left' (leBytes_length ..),
            wordOf_leBytes 8 (by decide)]
          rw [length] at fields
          simp only [selector, getElem?_bitPerInteger chosen.inTable,
            getElem?_selectorToElems chosen.inTable, bind, Option.bind,
            Nat.succ_eq_add_one, count, <- chosen.bitExact, fields, later, pure,
            List.take_append_drop]

theorem truncate_widen {type : IntType} (value : type.Value) :
    truncate type (widen value) = value := by
  have narrow : 8 * type.wordLength ≤ 64 := by cases type <;> decide
  apply BitVec.eq_of_getLsbD_eq
  intro bit bitLt
  have inside : bit < 64 := by omega
  simp only [truncate, widen, BitVec.getLsbD_setWidth, BitVec.getLsbD_signExtend, bitLt,
    inside, decide_true, Bool.true_and, if_true]

theorem decompress_compress {type : IntType} {input : List type.Value} {out : List UInt8}
    (run : tsCompressINTImp type input = some out) (rest : List UInt8) :
    tsDecompressINTImp type (out ++ rest) input.length = some input := by
  unfold tsCompressINTImp at run
  simp only at run
  split at run
  · rename_i result loop
    cases run
    obtain ⟨packed, append, decoded⟩ := decompressLoop_compressLoop _ _ _ _ _ _ loop
    have read := decoded rest input.length (by simp)
    rw [List.length_map] at read
    have indicator : (0 : UInt8) ≠ 1 := by decide
    simp only [tsDecompressINTImp, List.cons_append, if_neg indicator, append,
      List.nil_append, read, Option.map_some, List.map_map]
    simp [Function.comp_def, truncate_widen]
  · cases run
    simp only [tsDecompressINTImp, List.cons_append, if_true]
    exact decodeWords_encodeWords type.wordLength le_rfl input rest
  · cases run
  · cases run

end Luomi.IntegerRoundTrip
