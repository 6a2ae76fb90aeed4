import Luomi.Edb.ZipCodec

/-!
# What is read back of a column compressed with zlib

A stream that leaves room for the padding and the checksum is read back; a longer one
makes `compressZlib` write behind its buffer.  `compressZstd` passes no room for the
output, so it stores nothing but a checksum.
-/

namespace Luomi.Edb.ZipRoundTrip

open LittleEndian FloatCodec StreamCodec Compress Database OneStepBounds ZipCodec
open List (append_assoc length_drop length_take nil_append take_of_length_le)
open Option (bind_some map_some)

section Zip

variable {codec : CodecPair} {content : Bytes}

section Compress

variable {nDestData : Nat} {stream : DeflateStream codec}

theorem flushLoop_step (more : stream.nextIn ≠ [] ∧ stream.written.length < nDestData)
    (code : (stream.deflate .fullFlush).1 = .ok) (fuel : Nat) :
    flushLoop codec nDestData (fuel + 1) stream =
      flushLoop codec nDestData fuel (stream.deflate .fullFlush).2 := by
  rw [flushLoop, if_pos more]
  simp only [code, ne_eq, not_true_eq_false, if_false]

theorem flushLoop_stop (enough : ¬(stream.nextIn ≠ [] ∧ stream.written.length < nDestData))
    (fuel : Nat) : flushLoop codec nDestData (fuel + 1) stream = some (0, stream) := by
  rw [flushLoop, if_neg enough]

theorem finishLoop_end (code : (stream.deflate .finish).1 = .streamEnd) (fuel : Nat) :
    finishLoop codec (fuel + 1) stream = some (0, (stream.deflate .finish).2) := by
  rw [finishLoop]
  simp only [code, if_true]

theorem finishLoop_step (code : (stream.deflate .finish).1 = .ok) (fuel : Nat) :
    finishLoop codec (fuel + 1) stream = finishLoop codec fuel (stream.deflate .finish).2 := by
  rw [finishLoop]
  simp only [code, ne_eq, not_true_eq_false, reduceCtorEq, if_false]

theorem finishLoop_noRoom (noRoom : stream.availOut = 0) (fuel : Nat) :
    finishLoop codec (fuel + 1) stream = some (-2, (stream.deflate .finish).2) := by
  have code : (stream.deflate .finish).1 = .bufError := by
    rw [DeflateStream.deflate, noRoom]
    exact codec.deflate_noRoom _ _ _
  rw [finishLoop]
  simp only [code, ne_eq, reduceCtorEq, not_false_eq_true, if_false, if_true]

theorem flushLoop_ends (some' : content ≠ []) (below : (codec.flushed content).length < nDestData)
    (fuel : Nat) : ∃ state, codec.Flushed content state ∧
      flushLoop codec nDestData (fuel + 2) ⟨codec.deflateInit, content, nDestData, []⟩ =
        some (0, ⟨state, [], nDestData - (codec.flushed content).length, codec.flushed content⟩) := by
  obtain ⟨code, taken, produced, flushed⟩ := codec.flush_ends content nDestData some' below
  refine ⟨_, flushed, ?_⟩
  rw [@flushLoop_step codec nDestData ⟨codec.deflateInit, content, nDestData, []⟩
    ⟨some', Nat.zero_lt_of_lt below⟩ code, DeflateStream.deflate]
  simp only [taken, produced, List.drop_length, nil_append]
  exact flushLoop_stop (fun both => both.1 rfl) fuel

theorem flushLoop_fills (some' : content ≠ []) (positive : 0 < nDestData)
    (above : nDestData ≤ (codec.flushed content).length) (fuel : Nat) :
    ∃ stream, stream.availOut = 0 ∧
      flushLoop codec nDestData (fuel + 2) ⟨codec.deflateInit, content, nDestData, []⟩ =
        some (0, stream) := by
  obtain ⟨code, length⟩ := codec.flush_fills content nDestData some' positive above
  refine ⟨((⟨codec.deflateInit, content, nDestData, []⟩ : DeflateStream codec).deflate .fullFlush).2,
    ?_, ?_⟩
  · simp only [DeflateStream.deflate, length, Nat.sub_self]
  · rw [@flushLoop_step codec nDestData ⟨codec.deflateInit, content, nDestData, []⟩
      ⟨some', positive⟩ code]
    refine flushLoop_stop (fun both => ?_) fuel
    simp only [DeflateStream.deflate, nil_append, length] at both
    exact lt_irrefl _ both.2

end Compress

theorem zipCompress_fits {nDestData : Nat} (some' : content ≠ [])
    (fits : (codec.stream content).length ≤ nDestData) : zipCompress codec content nDestData =
      some (0, (codec.stream content).length, codec.stream content) := by
  have length := @CodecPair.length_stream codec content
  have closing := @CodecPair.finished_pos codec content
  obtain ⟨state, flushed, flush⟩ :=
    @flushLoop_ends codec content nDestData some' (by omega) (content.length + nDestData)
  obtain ⟨code, produced, ends⟩ := codec.finish_ends content state
    (nDestData - (codec.flushed content).length) flushed (by omega)
  have finish := @finishLoop_end codec
    ⟨state, [], nDestData - (codec.flushed content).length, codec.flushed content⟩ code
    (content.length + nDestData + 1)
  rw [zipCompress]
  simp only [flush, bind_some, ne_eq, not_true_eq_false, if_false]
  rw [finish, DeflateStream.deflate]
  simp only [bind_some, not_true_eq_false, if_false, ends, produced]
  rfl

theorem zipCompress_overflows {nDestData : Nat} (some' : content ≠ []) (positive : 0 < nDestData)
    (above : nDestData < (codec.stream content).length) :
    ∃ err written, zipCompress codec content nDestData = some (err, nDestData, written) := by
  have length := @CodecPair.length_stream codec content
  by_cases below : (codec.flushed content).length < nDestData
  · obtain ⟨state, flushed, flush⟩ :=
      @flushLoop_ends codec content nDestData some' below (content.length + nDestData)
    obtain ⟨code, produced⟩ := codec.finish_fills content state
      (nDestData - (codec.flushed content).length) flushed (by omega) (by omega)
    have step := @finishLoop_step codec
      ⟨state, [], nDestData - (codec.flushed content).length, codec.flushed content⟩ code
      (content.length + nDestData + 1)
    rw [zipCompress]
    simp only [flush, bind_some, ne_eq, not_true_eq_false, if_false]
    rw [step, finishLoop_noRoom (by simp only [DeflateStream.deflate, produced, Nat.sub_self])]
    exact ⟨_, _, rfl⟩
  · obtain ⟨stream, noRoom, flush⟩ := @flushLoop_fills codec content nDestData some' positive
      (not_lt.mp below) (content.length + nDestData)
    rw [zipCompress]
    simp only [flush, bind_some, ne_eq, not_true_eq_false, if_false]
    by_cases left : stream.nextIn = []
    · rw [if_neg (not_not.mpr left), finishLoop_noRoom noRoom]
      exact ⟨_, _, rfl⟩
    · rw [if_pos left]
      exact ⟨_, _, rfl⟩

section Decompress

variable {behindHead rest : Bytes} {nSrcData nDestData : Nat}

section

variable (long : (codec.stream content).length < nSrcData) (room : content.length ≤ nDestData)

include long room

theorem inflateLoop_reads (fuel : Nat) :
    ∀ {state : codec.Inflating} {taken made availOut : Nat}, codec.Reading content taken made state ->
      taken ≤ (codec.stream content).length -> made ≤ content.length ->
      content.length - made < fuel -> ∃ next, inflateLoop codec behindHead nSrcData nDestData fuel
            ⟨state, (codec.stream content).drop taken ++ rest, taken, availOut,
              content.take made⟩ = some (0, next) ∧
          next.written = content ∧ codec.inflateEnd next.state = .ok := by
  induction fuel with
  | zero => exact fun _ _ _ enough => absurd enough (Nat.not_lt_zero _)
  | succ fuel ih =>
    intro state taken made availOut reading inside within enough
    have written : (content.take made).length = made := by
      rw [length_take]
      exact Nat.min_eq_left within
    rw [inflateLoop]
    by_cases more : (content.take made).length < nDestData ∧ taken < nSrcData
    · have input : ((codec.stream content).drop taken ++ rest).take nSrcData =
          (codec.stream content).drop taken ++
            rest.take (nSrcData - ((codec.stream content).drop taken).length) := by
        rw [List.take_append, take_of_length_le]
        rw [length_drop]
        omega
      obtain ⟨answer, answered, outcome⟩ := CodecPair.inflate_stream reading
        (show 0 < nSrcData by omega)
        (rest.take (nSrcData - ((codec.stream content).drop taken).length))
      rw [if_pos more, InflateStream.inflate]
      simp only [input, answered]
      rcases outcome with ⟨code, produced, ends⟩ | ⟨code, left, produced, still, goesOn⟩
      · simp only [code]
        refine ⟨_, rfl, ?_, ends⟩
        simp only [produced, List.take_append_drop]
      · have behind : ((codec.stream content).drop taken ++ rest).drop answer.taken =
            (codec.stream content).drop (taken + answer.taken) ++ rest := by
          rw [List.drop_append_of_le_length, List.drop_drop]
          rw [length_drop]
          omega
        simp only [code, produced, behind, <- List.take_add]
        exact ih goesOn still left (by omega)
    · rw [if_neg more]
      have all : made = content.length := by omega
      refine ⟨_, rfl, ?_, codec.reading_end _ _ _ _ reading⟩
      simp only [all, List.take_length]

theorem zipDeCompress_reads :
    zipDeCompress codec behindHead (codec.stream content ++ rest) nSrcData nDestData =
      some (0, content.length, content) := by
  obtain ⟨next, reads, written, ends⟩ := @inflateLoop_reads codec content behindHead rest nSrcData
    nDestData long room (nSrcData + nDestData + 1) codec.inflateInit 0 0 0
    (codec.reading_init content) (Nat.zero_le _) (Nat.zero_le _) (by omega)
  rw [List.drop_zero, List.take_zero] at reads
  rw [zipDeCompress, reads]
  simp only [map_some, ends, written, ne_eq, not_true_eq_false, if_false]

end

theorem zipDeCompress_zero (memory : Bytes) (nSrcData : Nat) :
    ∃ err, zipDeCompress codec behindHead memory nSrcData 0 = some (err, 0, []) := by
  have stop : inflateLoop codec behindHead nSrcData 0 (nSrcData + 0 + 1)
      ⟨codec.inflateInit, memory, 0, 0, []⟩ = some (0, ⟨codec.inflateInit, memory, 0, 0, []⟩) := by
    rw [inflateLoop, if_neg fun both => Nat.not_lt_zero _ both.1]
  rw [zipDeCompress, stop]
  by_cases ends : codec.inflateEnd codec.inflateInit = .ok
  · exact ⟨0, by simp [ends]⟩
  · exact ⟨-4, by simp [ends]⟩

end Decompress

section Column

variable {machine : Machine} {stale : Nat -> UInt8} {maxColSize rows : Nat}

theorem zlibColumn_fits (some' : content ≠ []) (fits : Fits codec maxColSize rows content) :
    zlibColumn codec machine maxColSize rows stale content = some (taosCalcChecksumAppend machine
        (codec.stream content ++ padding stale (codec.stream content).length)) := by
  unfold Fits at fits
  have compressed := @zipCompress_fits codec content (maxColSize * rows + 4 + 100) some' (by omega)
  rw [zlibColumn, compressed]
  simp only [bind_some]
  rw [if_neg (not_lt.mpr fits), pOutput, Nat.add_sub_cancel_left]
  rfl

theorem zlibColumn_overflows (some' : content ≠ []) (over' : ¬ Fits codec maxColSize rows content) :
    zlibColumn codec machine maxColSize rows stale content = none := by
  unfold Fits at over'
  rw [zlibColumn]
  by_cases whole : (codec.stream content).length ≤ maxColSize * rows + 4 + 100
  · rw [zipCompress_fits some' whole]
    simp only [bind_some]
    rw [if_pos (not_le.mp over')]
  · obtain ⟨err, written, compressed⟩ := @zipCompress_overflows codec content
      (maxColSize * rows + 4 + 100) some' (by omega) (not_le.mp whole)
    rw [compressed]
    simp only [bind_some]
    rw [if_pos (by omega)]

variable {type : ColType}

theorem decompressZlib_stored {cacheSize : Nat} (behind behindHead : Bytes)
    (whole : content.length = rows * gColTypeSize type) (room : rows ≤ cacheSize) :
    decompressZlib codec behind behindHead type (taosCalcChecksumAppend machine
        (codec.stream content ++ padding stale (codec.stream content).length)) rows
        (gColTypeSize type * cacheSize) = some (0, content) := by
  have enough : content.length ≤ gColTypeSize type * cacheSize := by
    rw [whole, Nat.mul_comm]
    exact Nat.mul_le_mul_left _ room
  have long : (codec.stream content).length < (taosCalcChecksumAppend machine
      (codec.stream content ++ padding stale (codec.stream content).length)).length - 4 := by
    rw [stored_length]
    omega
  have split : taosCalcChecksumAppend machine
      (codec.stream content ++ padding stale (codec.stream content).length) ++ behind =
        codec.stream content ++ (padding stale (codec.stream content).length ++
          (leBytes 4 (machine.crc32c (codec.stream content ++
            padding stale (codec.stream content).length)).toNat ++ behind)) := by
    rw [taosCalcChecksumAppend, append_assoc, append_assoc]
  rw [decompressZlib, split, zipDeCompress_reads long enough, bind_some, checkedSize]
  rw [if_neg (not_lt.mpr enough), whole, Nat.mul_comm, if_neg (not_not.mpr rfl)]

theorem decompressZstd_fails {outSize : Nat} (behind behindHead pInput : Bytes)
    (positive : 0 < gColTypeSize type * rows) :
    decompressZstd codec behind behindHead type pInput rows outSize = some (-3, []) := by
  obtain ⟨err, nothing⟩ := @zipDeCompress_zero codec behindHead (pInput ++ behind)
    (pInput.length - 4)
  have within : ¬ outSize < ([] : Bytes).length := Nat.not_lt_zero _
  rw [decompressZstd, nothing, bind_some, checkedSize, if_neg within,
    if_pos (Nat.ne_of_lt positive)]

end Column

section Record

variable {column : (Nat -> UInt8) -> Bytes -> Option Bytes} {stale : Nat -> Nat -> UInt8}
  {inputs : List Bytes}

theorem storeColumns_some
    (each : ∀ input ∈ inputs, ∀ index, ∃ stored, column (stale index) input = some stored) :
    ∀ start, ∃ stored, storeColumns column stale start inputs = some stored := by
  induction inputs with
  | nil => exact fun start => ⟨[], rfl⟩
  | cons input inputs ih =>
    intro start
    obtain ⟨own, first⟩ := each input List.mem_cons_self start
    obtain ⟨others, rest⟩ :=
      ih (fun other member => each other (List.mem_cons_of_mem _ member)) (start + 1)
    exact ⟨own :: others, by rw [storeColumns, first, bind_some, rest, map_some]⟩

theorem storeColumns_each :
    ∀ {start : Nat} {stored : List Bytes}, storeColumns column stale start inputs = some stored ->
      ∀ col input, inputs[col]? = some input ->
        ∃ own, column (stale (start + col)) input = some own ∧ stored[col]? = some own := by
  induction inputs with
  | nil => exact fun _ col input found => by cases found
  | cons first inputs ih =>
    intro start stored run col input found
    obtain ⟨own, here, run⟩ := Option.bind_eq_some_iff.mp run
    obtain ⟨others, rest, rfl⟩ := Option.map_eq_some_iff.mp run
    cases col with
    | zero =>
      cases found
      exact ⟨own, here, rfl⟩
    | succ col =>
      obtain ⟨other, there, place⟩ := ih rest col input found
      rw [Nat.add_right_comm] at there
      exact ⟨other, there, place⟩

theorem readColumn_recorded {stored : List Bytes} {col : Nat} {own : Bytes}
    (place : stored[col]? = some own) :
    readColumn stored.flatten (stored.map List.length) col = own := by
  obtain ⟨inside, value⟩ := List.getElem?_eq_some_iff.mp place
  have length : (stored.map List.length).getD col 0 = own.length := by
    rw [List.getD_eq_getElem?_getD, List.getElem?_map, place, map_some, Option.getD_some]
  rw [readColumn, length, List.drop_sum_flatten, List.drop_eq_getElem_cons inside, value,
    List.flatten_cons, List.take_left]

end Record

variable {machine : Machine} {memory : Memory} {log : ZipLog}

theorem column_nonempty (log : FilledLog) {column : Sigma Content} (among : column ∈ log.columns) :
    column.2.bytes ≠ [] := by
  have whole := column.2.whole
  have rows := log.nonempty
  rw [log.height column among] at whole
  have positive : 0 < log.rows * gColTypeSize column.1 := by
    apply Nat.mul_pos rows
    cases column.1 <;> decide
  intro empty
  rw [empty, List.length_nil] at whole
  omega

theorem zlib_roundTrips_iff : RoundTrips codec machine .zlib memory log ↔
      ∀ column ∈ log.columns, Fits codec log.head.maxColSize log.rows column.2.bytes := by
  constructor
  · rintro ⟨totalSize, record, colLens, compressed, -⟩ column among
    obtain ⟨stored, run, -⟩ := Option.map_eq_some_iff.mp compressed
    obtain ⟨col, place⟩ := List.mem_iff_getElem?.mp
      (List.mem_map_of_mem (f := fun column : Sigma Content => column.2.bytes) among)
    obtain ⟨own, here, -⟩ := storeColumns_each run col _ place
    by_contra over'
    rw [zlibColumn_overflows (column_nonempty log.toFilledLog among) over'] at here
    cases here
  · intro fits
    have each : ∀ input ∈ log.columns.map (fun column => column.2.bytes), ∀ index,
        ∃ stored, zlibColumn codec machine log.head.maxColSize log.rows (memory.stale index) input =
          some stored := by
      intro input among index
      obtain ⟨column, member, rfl⟩ := List.mem_map.mp among
      exact ⟨_, zlibColumn_fits (column_nonempty log.toFilledLog member) (fits column member)⟩
    obtain ⟨stored, run⟩ := storeColumns_some each 0
    refine ⟨(stored.map List.length).sum, stored.flatten, stored.map List.length, ?_, ?_⟩
    · rw [ZipType.compress, compressZlib, run]
      rfl
    · intro col column place
      have among := List.mem_of_getElem? place
      have input : (log.columns.map fun column => column.2.bytes)[col]? = some column.2.bytes := by
        rw [List.getElem?_map, place, map_some]
      obtain ⟨own, here, there⟩ := storeColumns_each run col _ input
      have value := @zlibColumn_fits codec column.2.bytes machine (memory.stale (0 + col)) _ _
        (column_nonempty log.toFilledLog among) (fits column among)
      rw [here, Option.some.injEq] at value
      have whole := column.2.whole
      rw [log.height column among] at whole
      rw [readColumn_recorded there, value]
      exact decompressZlib_stored memory.behind memory.behindHead whole log.room

theorem zstd_not_roundTrips : ¬ RoundTrips codec machine .zstd memory log := by
  rintro ⟨totalSize, record, colLens, -, restored⟩
  obtain ⟨-, types⟩ := createDb_head log.created
  have first : ∃ column, log.columns[0]? = some column := by
    cases columns : log.columns with
    | nil =>
      have none' := log.types
      rw [columns, types] at none'
      cases none'
    | cons column rest => exact ⟨column, rfl⟩
  obtain ⟨column, place⟩ := first
  have positive : 0 < gColTypeSize column.1 * log.rows := by
    apply Nat.mul_pos _ log.nonempty
    cases column.1 <;> decide
  have read := restored 0 column place
  rw [ZipType.decompress, decompressZstd_fails _ _ _ positive] at read
  cases read

/-- The columns of a log are read back as they were if and only if they are compressed
with zlib and the stream of each leaves room for its padding and checksum. -/
theorem zip_roundTrips_iff (codec : CodecPair) (machine : Machine) (type : ZipType)
    (memory : Memory) (log : ZipLog) : RoundTrips codec machine type memory log ↔ type = .zlib ∧
        ∀ column ∈ log.columns, Fits codec log.head.maxColSize log.rows column.2.bytes := by
  cases type with
  | zlib => exact zlib_roundTrips_iff.trans (and_iff_right rfl).symm
  | zstd =>
    refine iff_of_false zstd_not_roundTrips ?_
    rintro ⟨other, -⟩
    cases other

end Zip

def stamp : Bytes := leBytes 8 1546300800000

def stampFlushed : Bytes :=
  [31, 139, 8, 0, 0, 0, 0, 0, 0, 3, 98, 216, 179, 149, 45, 131, 145, 129, 1, 0, 0, 0, 255, 255]

def stampFinished : Bytes := [3, 0, 0, 56, 224, 184, 8, 0, 0, 0]

def stampCodecFlushed (content : Bytes) : Bytes :=
  if content = stamp then stampFlushed else content.flatMap fun byte => [1, byte]

def stampCodecFinished (content : Bytes) : Bytes :=
  if content = stamp then stampFinished else [0]

/-- The content at the front of some input, and how long its stream is. -/
def unmarked : Bytes -> Option (Bytes × Nat)
  | 0 :: _ => some ([], 1)
  | 1 :: byte :: rest => (unmarked rest).map fun found => (byte :: found.1, found.2 + 2)
  | _ => none

def stampDecode (input : Bytes) : Option (Bytes × Nat) :=
  if (stampFlushed ++ stampFinished).isPrefixOf input then
    some (stamp, (stampFlushed ++ stampFinished).length)
  else unmarked input

/-- The compressor: the bytes of its stream that are due. -/
inductive StampDeflating where
  | fresh
  | flushing (content pending : Bytes)
  | finishing (pending : Bytes)

def StampDeflating.emit (due : Bytes) (room : Nat) (ends : Code)
    (next : Bytes -> StampDeflating) (taken : Nat) : Answer StampDeflating :=
  ⟨if due.length ≤ room then ends else .ok, next (due.drop room), taken, due.take room⟩

def StampDeflating.deflate (state : StampDeflating) (flush : Flush) (input : Bytes) (room : Nat) :
    Answer StampDeflating :=
  if room = 0 then ⟨.bufError, state, 0, []⟩
  else
    match state, flush with
    | .fresh, .fullFlush =>
      emit (stampCodecFlushed input) room .ok (.flushing input) input.length
    | .flushing content pending, .finish =>
      emit (pending ++ stampCodecFinished content) room .streamEnd .finishing 0
    | .finishing pending, .finish => emit pending room .streamEnd .finishing 0
    | _, _ => ⟨.streamError, state, 0, []⟩

inductive StampInflating where
  | fresh
  | due (content : Bytes)

def StampInflating.emit (content : Bytes) (room taken : Nat) : Answer StampInflating :=
  ⟨if content.length ≤ room then .streamEnd else .ok, .due (content.drop room), taken,
    content.take room⟩

def StampInflating.inflate (state : StampInflating) (input : Bytes) (room : Nat) :
    Answer StampInflating :=
  match state with
  | .due content => emit content room 0
  | .fresh =>
    match stampDecode input with
    | none => ⟨.dataError, .fresh, 0, []⟩
    | some found => emit found.1 room found.2

theorem unmarked_marked (content rest : Bytes) :
    unmarked ((content.flatMap fun byte => [1, byte]) ++ (0 :: rest)) =
      some (content, (content.flatMap fun byte => [1, byte]).length + 1) := by
  induction content with
  | nil => rfl
  | cons byte content ih =>
    rw [List.flatMap_cons, append_assoc, List.cons_append, List.cons_append,
      nil_append, unmarked, ih, map_some, List.length_append]
    simp only [List.length_cons, List.length_nil]
    rw [Nat.add_comm (0 + 1 + 1), Nat.add_right_comm]

theorem stampDecode_stream (content rest : Bytes) :
    stampDecode (stampCodecFlushed content ++ stampCodecFinished content ++ rest) =
      some (content, (stampCodecFlushed content ++ stampCodecFinished content).length) := by
  unfold stampCodecFlushed stampCodecFinished stampDecode
  by_cases same : content = stamp
  · rw [if_pos same, if_pos same, if_pos, same]
    rw [List.isPrefixOf_iff_prefix]
    exact List.prefix_append _ _
  · have other : ¬ (stampFlushed ++ stampFinished).isPrefixOf
        ((content.flatMap fun byte => [1, byte]) ++ [0] ++ rest) := by
      cases content with
      | nil => exact Bool.false_ne_true
      | cons byte content => exact Bool.false_ne_true
    rw [if_neg same, if_neg same, if_neg other, append_assoc, List.singleton_append,
      unmarked_marked, List.length_append, List.length_singleton]

theorem StampInflating.emit_spec (content : Bytes) (made room took : Nat) :
    (emit (content.drop made) room took).code = .streamEnd ∧
        (emit (content.drop made) room took).produced = content.drop made ∨
      (emit (content.drop made) room took).code = .ok ∧ made + room ≤ content.length ∧
        (emit (content.drop made) room took).produced = (content.drop made).take room ∧
        (emit (content.drop made) room took).state = .due (content.drop (made + room)) := by
  unfold emit
  by_cases fits : (content.drop made).length ≤ room
  · exact Or.inl ⟨if_pos fits, take_of_length_le fits⟩
  · refine Or.inr ⟨if_neg fits, ?_, rfl, by rw [List.drop_drop]⟩
    rw [length_drop] at fits
    omega

def stampCodec : CodecPair where
  Deflating := StampDeflating
  Inflating := StampInflating
  deflateInit := .fresh
  deflate := StampDeflating.deflate
  deflateEnd _ := .ok
  inflateInit := .fresh
  inflate := StampInflating.inflate
  inflateEnd _ := .ok
  flushed := stampCodecFlushed
  finished := stampCodecFinished
  Flushed content state := state = .flushing content []
  Reading content taken made state :=
    taken = 0 ∧ made = 0 ∧ state = .fresh ∨
      taken = (stampCodecFlushed content ++ stampCodecFinished content).length ∧
        state = .due (content.drop made)
  finished_some content := by
    unfold stampCodecFinished
    split
    · exact List.cons_ne_nil _ _
    · exact List.cons_ne_nil _ _
  deflate_noRoom state flush input := by simp only [StampDeflating.deflate, if_true]
  flush_ends content room some' below := by
    have positive : room ≠ 0 := Nat.ne_zero_of_lt below
    simp only [StampDeflating.deflate, if_neg positive, StampDeflating.emit, ite_self,
      take_of_length_le below.le, List.drop_eq_nil_of_le below.le, and_self]
  flush_fills content room some' positive above := by
    simp only [StampDeflating.deflate, if_neg (Nat.ne_of_gt positive), StampDeflating.emit, ite_self,
      length_take, Nat.min_eq_left above, and_self]
  finish_ends content state room flushed fits := by
    have positive : room ≠ 0 := by
      intro zero
      rw [zero, stampCodecFinished] at fits
      split at fits <;> exact absurd fits (by decide)
    rw [flushed]
    simp only [StampDeflating.deflate, if_neg positive, StampDeflating.emit, nil_append,
      if_pos fits, take_of_length_le fits, and_self]
  finish_fills content state room flushed positive above := by
    rw [flushed]
    simp only [StampDeflating.deflate, if_neg (Nat.ne_of_gt positive), StampDeflating.emit,
      nil_append, if_neg (not_le.mpr above), length_take, Nat.min_eq_left above.le, and_self]
  reading_init content := Or.inl ⟨rfl, rfl, rfl⟩
  reading_end _ _ _ _ _ := rfl
  inflate_spec content taken made state rest room reading positive := by
    rcases reading with ⟨rfl, rfl, rfl⟩ | ⟨rfl, rfl⟩
    · have first : StampInflating.inflate .fresh
          ((stampCodecFlushed content ++ stampCodecFinished content).drop 0 ++ rest) room =
          StampInflating.emit (content.drop 0) room
            (stampCodecFlushed content ++ stampCodecFinished content).length := by
        rw [List.drop_zero, StampInflating.inflate, stampDecode_stream]
        rfl
      rcases StampInflating.emit_spec content 0 room
        (stampCodecFlushed content ++ stampCodecFinished content).length with ends | goesOn
      · exact Or.inl (by rw [first]; exact ⟨ends.1, ends.2, rfl⟩)
      · refine Or.inr ?_
        rw [first]
        refine ⟨goesOn.1, goesOn.2.1, goesOn.2.2.1, ?_, Or.inr ⟨?_, goesOn.2.2.2⟩⟩
        · rw [Nat.zero_add]
          exact le_rfl
        · rw [Nat.zero_add]
          rfl
    · rcases StampInflating.emit_spec content made room 0 with ends | goesOn
      · exact Or.inl ⟨ends.1, ends.2, rfl⟩
      · exact Or.inr ⟨goesOn.1, goesOn.2.1, goesOn.2.2.1, le_rfl, Or.inr ⟨rfl, goesOn.2.2.2⟩⟩

def oneStamp : ZipLog where
  files := ⟨false, true, true, true⟩
  args := ⟨"", "db", 0, [], 16, .byCol, .zstd, 1, List.length_nil⟩
  head := {
    storeType := .byCol
    compressType := .zstd
    hoursPerFile := 1
    maxColSize := 8
    curRowCount := 0
    cacheSize := 16
    rowSize := 8
    dataPos := 80
    startTimestamp := 0
    endTimestamp := 0
    colCount := 1
    colType := [.timestamp] }
  created := by decide
  rows := 1
  nonempty := Nat.one_pos
  columns := [⟨.timestamp, 1, stamp, by decide⟩]
  types := rfl
  height := by
    intro column among
    rw [List.mem_singleton.mp among]
  room := by decide

/-- With zlib its timestamp is read back. -/
theorem oneStamp_restored :
    RoundTrips stampCodec ⟨clearingShifts, default, fun _ => 0⟩ .zlib ⟨fun _ _ => 0, [], []⟩
      oneStamp := by
  refine (zip_roundTrips_iff stampCodec _ .zlib _ oneStamp).mpr ⟨rfl, ?_⟩
  intro column among
  rw [List.mem_singleton.mp among]
  have length : (stampCodec.stream stamp).length = 34 := by decide
  unfold Fits
  show (stampCodec.stream stamp).length + (4 - (stampCodec.stream stamp).length % 4) + 4 ≤ _
  rw [length]
  decide

/-- With zstd it is not. -/
theorem oneStamp_lost : ¬∀ (codec : CodecPair) (machine : Machine) (type : ZipType)
    (memory : Memory) (log : ZipLog), RoundTrips codec machine type memory log :=
  fun all => zstd_not_roundTrips
    (all stampCodec ⟨clearingShifts, default, fun _ => 0⟩ .zstd ⟨fun _ _ => 0, [], []⟩ oneStamp)

end Luomi.Edb.ZipRoundTrip
