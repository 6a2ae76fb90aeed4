import Luomi.Util.TimestampCodec

/-!
# Round trip of the timestamp codec

A compressed column is the layout of its zig-zag differences in pairs, and the
decoding loop runs through that layout two fields at a time.  The raw copy is
taken whenever a test fails, also after part of the column has been written.
-/

namespace Luomi.TimestampRoundTrip

open LittleEndian NibblePairs ZigZag TimestampCodec
open List (append_assoc cons_append length_cons map_cons)
open Option (bind_eq_some_iff some.inj)

/-- The zig-zag differences of deltas of a list that follows `prevValue`. -/
def deltasOfDeltas : BitVec 64 -> BitVec 64 -> List (BitVec 64) -> List (BitVec 64)
  | _, _, [] => []
  | prevValue, prevDelta, curr :: rest =>
    zigzag (curr - prevValue - prevDelta) :: deltasOfDeltas curr (curr - prevValue) rest

def fieldOf (dd : BitVec 64) : Field := ⟨flagOf dd, leBytes (flagOf dd).toNat dd.toNat⟩

def fields (prevValue prevDelta : BitVec 64) (values : List (BitVec 64)) : List Field :=
  (deltasOfDeltas prevValue prevDelta values).map fieldOf

theorem flagOf_toNat (dd : BitVec 64) :
    (flagOf dd).toNat = if dd = 0 then 0 else 8 - dd.clz.toNat / 8 := by
  unfold flagOf
  split
  · rfl
  · rw [UInt8.toNat_ofNat', Nat.mod_eq_of_lt (by omega)]

theorem flagOf_le (dd : BitVec 64) : (flagOf dd).toNat ≤ 8 := by
  rw [flagOf_toNat]
  split <;> omega

theorem toNat_lt_of_flagOf (dd : BitVec 64) : dd.toNat < 256 ^ (flagOf dd).toNat := by
  rw [flagOf_toNat]
  split
  · rename_i zero
    simp [zero]
  · have bound : dd.toNat < 2 ^ (64 - dd.clz.toNat) := BitVec.toNat_lt_two_pow_sub_clz
    have wide : (2 : Nat) ^ (64 - dd.clz.toNat) ≤ 2 ^ (8 * (8 - dd.clz.toNat / 8)) :=
      Nat.pow_le_pow_right (by decide) (by omega)
    rw [Nat.pow_mul] at wide
    exact bound.trans_le wide

theorem lowNibble_flagOf (dd : BitVec 64) : lowNibble (flagOf dd) = flagOf dd :=
  lowNibble_of_lt (by have := flagOf_le dd; omega)

variable {limit : Nat}

theorem store_eq_append {out bytes result : List UInt8}
    (stored : store limit out bytes = some result) : result = out ++ bytes := by
  unfold store at stored
  split at stored
  · cases stored
  · exact (some.inj stored).symm

variable {curr : BitVec 64}

theorem step_even {state next : Encoder}
    (even : state.i % 2 = 0) (run : step limit state curr = some next) :
    next.i = state.i + 1 ∧ next.prevValue = curr ∧
      next.prevDelta = curr - state.prevValue ∧ next.out = state.out ∧
      next.dd1 = zigzag (curr - state.prevValue - state.prevDelta) ∧
      next.flag1 = flagOf next.dd1 := by
  unfold step at run
  split at run
  · cases run
  · simp only at run
    split at run
    · cases run
    · cases run
      exact ⟨rfl, rfl, rfl, rfl, rfl, rfl⟩

theorem step_odd {state next : Encoder}
    (odd : state.i % 2 = 1) (run : step limit state curr = some next) :
    next.i = state.i + 1 ∧ next.prevValue = curr ∧ next.prevDelta = curr - state.prevValue ∧
      next.out = state.out ++
        header state.flag1 (flagOf (zigzag (curr - state.prevValue - state.prevDelta))) ::
          (leBytes state.flag1.toNat state.dd1.toNat ++
            (fieldOf (zigzag (curr - state.prevValue - state.prevDelta))).bytes) := by
  have notEven : ¬ state.i % 2 = 0 := by omega
  unfold step at run
  split at run
  · cases run
  · simp only at run
    split at run
    · cases run
    · obtain ⟨out1, stored1, run⟩ := bind_eq_some_iff.mp run
      obtain ⟨out2, stored2, run⟩ := bind_eq_some_iff.mp run
      obtain ⟨out3, stored3, run⟩ := bind_eq_some_iff.mp run
      cases run
      refine ⟨rfl, rfl, rfl, ?_⟩
      change out3 = _
      rw [store_eq_append stored3, store_eq_append stored2, store_eq_append stored1]
      simp [fieldOf]

theorem encode_layout (values : List (BitVec 64)) :
    ∀ (state : Encoder) (out : List UInt8), state.i % 2 = 0 ->
      (encodeLoop limit state values).bind (encodeTail limit) = some out ->
        out = state.out ++ packPairs [] (fields state.prevValue state.prevDelta values) := by
  induction values using List.twoStepInduction with
  | nil =>
    intro state out even run
    have notOdd : ¬ state.i % 2 = 1 := by omega
    simp only [encodeLoop, Option.bind_some, encodeTail, if_neg notOdd] at run
    simpa [fields, deltasOfDeltas, packPairs] using (some.inj run).symm
  | singleton curr =>
    intro state out even run
    obtain ⟨last, loop, run⟩ := bind_eq_some_iff.mp run
    obtain ⟨next, first, loop⟩ := bind_eq_some_iff.mp loop
    cases loop
    obtain ⟨count, -, -, written, dd, flag⟩ := step_even even first
    have odd : last.i % 2 = 1 := by omega
    simp only [encodeTail, if_pos odd] at run
    obtain ⟨out1, stored1, stored2⟩ := bind_eq_some_iff.mp run
    rw [store_eq_append stored2, store_eq_append stored1, written, flag, dd]
    simp [fields, deltasOfDeltas, packPairs, fieldOf]
  | cons_cons curr1 curr2 rest ih _ =>
    intro state out even run
    obtain ⟨last, loop, run⟩ := bind_eq_some_iff.mp run
    obtain ⟨middle, first, loop⟩ := bind_eq_some_iff.mp loop
    obtain ⟨next, second, loop⟩ := bind_eq_some_iff.mp loop
    obtain ⟨count1, value1, delta1, written1, dd, flag⟩ := step_even even first
    obtain ⟨count2, value2, delta2, written2⟩ := step_odd (by omega) second
    have layout := ih next out (by omega) (by rw [loop]; exact run)
    rw [layout, written2, value2, delta2, value1, delta1, written1, flag, dd]
    simp [fields, deltasOfDeltas, packPairs, fieldOf]

theorem readDelta_field (dd : BitVec 64) (rest : List UInt8) :
    readDelta (flagOf dd).toNat ((fieldOf dd).bytes ++ rest) = some (unzigzag dd, rest) := by
  have bound := flagOf_le dd
  have fits := toNat_lt_of_flagOf dd
  unfold readDelta fieldOf
  by_cases none' : (flagOf dd).toNat = 0
  · rw [if_pos none']
    have zero : dd = 0 := by
      rw [none', pow_zero] at fits
      exact BitVec.eq_of_toNat_eq (by simpa using fits)
    simp [zero, flagOf, leBytes, unzigzag]
  · rw [if_neg none', if_neg (by rw [List.length_append, leBytes_length]; omega)]
    rw [List.take_left' (leBytes_length ..), List.drop_left' (leBytes_length ..), wordOf,
      leValue_leBytes_of_lt fits]
    simp

theorem decodeLoop_fields (values : List (BitVec 64)) :
    ∀ (prevValue prevDelta : BitVec 64) (rest : List UInt8),
      decodeLoop false values.length prevValue prevDelta
        (packPairs [] (fields prevValue prevDelta values) ++ rest) = some values := by
  -- the delta and the value that one field stands for
  have delta : ∀ curr prevValue prevDelta : BitVec 64,
      unzigzag (zigzag (curr - prevValue - prevDelta)) + prevDelta = curr - prevValue := by
    intro curr prevValue prevDelta
    rw [unzigzag_zigzag, BitVec.sub_add_cancel]
  have value : ∀ curr prevValue : BitVec 64, prevValue + (curr - prevValue) = curr := by
    intro curr prevValue
    rw [BitVec.add_comm, BitVec.sub_add_cancel]
  induction values using List.twoStepInduction with
  | nil => intro prevValue prevDelta rest; rfl
  | singleton curr =>
    intro prevValue prevDelta rest
    have read := readDelta_field (zigzag (curr - prevValue - prevDelta)) rest
    simp only [fields, deltasOfDeltas, map_cons, List.map_nil, packPairs,
      List.append_nil, cons_append, List.length_singleton, decodeLoop,
      lowNibble_header, show (fieldOf _).tag = flagOf _ from rfl, lowNibble_flagOf, read,
      bind, Option.bind, Bool.false_eq_true, if_false, delta, value, pure]
  | cons_cons curr1 curr2 later ih _ =>
    intro prevValue prevDelta rest
    have read1 := readDelta_field (zigzag (curr1 - prevValue - prevDelta))
      ((fieldOf (zigzag (curr2 - curr1 - (curr1 - prevValue)))).bytes ++
        (packPairs [] (fields curr2 (curr2 - curr1) later) ++ rest))
    have read2 := readDelta_field (zigzag (curr2 - curr1 - (curr1 - prevValue)))
      (packPairs [] (fields curr2 (curr2 - curr1) later) ++ rest)
    have small : (flagOf (zigzag (curr1 - prevValue - prevDelta))).toNat < 16 := by
      have := flagOf_le (zigzag (curr1 - prevValue - prevDelta))
      omega
    have next := ih curr2 (curr2 - curr1) rest
    unfold fields at read1 read2 next ⊢
    simp only [deltasOfDeltas, map_cons, packPairs, cons_append,
      append_assoc, length_cons, decodeLoop, lowNibble_header,
      highNibble_header small, show ∀ dd, (fieldOf dd).tag = flagOf dd from fun _ => rfl,
      lowNibble_flagOf, read1, read2, next, bind, Option.bind, Bool.false_eq_true, if_false,
      delta, value, pure]

/-- The first value is its own zig-zag difference, and the decoder takes it as
the difference from a previous delta of its negation. -/
theorem decodeLoop_first {flags : UInt8} {ip later : List UInt8} {first : BitVec 64}
    (read : readDelta (lowNibble flags).toNat ip = some (first, later)) (left : Nat)
    (prevValue prevDelta : BitVec 64) :
    decodeLoop true (left + 1) prevValue prevDelta (flags :: ip) =
      decodeLoop false (left + 1) first (-first) (flags :: ip) := by
  simp [decodeLoop, read, BitVec.add_right_neg]

theorem tsDecompressTimestampImp_append (input : List (BitVec 64)) (rest : List UInt8) :
    tsDecompressTimestampImp (tsCompressTimestampImp input ++ rest) input.length = some input := by
  cases input with
  | nil => rfl
  | cons first later =>
    unfold tsCompressTimestampImp
    simp only
    split
    · rename_i out run
      have layout := encode_layout (first :: later) _ _ (by rfl) run
      simp only [List.nil_append] at layout
      have decoded := decodeLoop_fields (first :: later) first (-first) rest
      rw [<- layout] at decoded
      have firstDelta : first - first - -first = first := by simp
      obtain ⟨high, later', opening⟩ := packPairs_cons [] (fieldOf (zigzag first))
        ((deltasOfDeltas first (first - first) later).map fieldOf)
      have split : out = header (flagOf (zigzag first)) high ::
          ((fieldOf (zigzag first)).bytes ++ later') := by
        rw [layout, fields, deltasOfDeltas, firstDelta, map_cons, opening]
        rfl
      have read : readDelta (lowNibble (header (flagOf (zigzag first)) high)).toNat
          ((fieldOf (zigzag first)).bytes ++ (later' ++ rest)) = some (first, later' ++ rest) := by
        rw [lowNibble_header, lowNibble_flagOf, readDelta_field, unzigzag_zigzag]
      rw [split, cons_append, append_assoc] at decoded
      simp only [tsDecompressTimestampImp, cons_append, length_cons]
      rw [if_neg (by omega), if_neg (by decide), if_pos trivial, split, cons_append,
        append_assoc, decodeLoop_first read, <- length_cons, decoded]
    · simp only [tsDecompressTimestampImp, cons_append, length_cons]
      rw [if_neg (by omega), if_pos trivial]
      exact decodeWords_encodeWords 8 (by decide) (first :: later) rest

/-- Compressing and decompressing gives every list of timestamps back. -/
theorem timestamp_roundTrip (input : List (BitVec 64)) :
    tsDecompressTimestampImp (tsCompressTimestampImp input) input.length = some input := by
  simpa using tsDecompressTimestampImp_append input []

end Luomi.TimestampRoundTrip
