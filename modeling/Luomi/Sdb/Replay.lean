import Luomi.Sdb.Recovery

/-!
# Replaying records

A record is read back whatever stands behind it; marks and tails shorter than a
record head are skipped byte by byte, and a record that is cut off behind its
head ends the replay.  So a file of groups of records is replayed record by
record, and the size counts every byte read.
-/

namespace Luomi.Sdb.Replay

open LittleEndian StreamScan HashIndex Engine Recovery
open List (append_assoc drop_left' foldl_cons length_append mem_cons_self take_left take_left')

/-- A record: inserts and updates have a positive id, deletes a negative one. -/
structure Record where
  id : Int
  data : Bytes

section Replay

variable {Obj : Type} {args : TableArgs Obj}

/-- A record that is read as it was written. -/
structure Recordable (args : TableArgs Obj) (record : Record) : Prop where
  low : -2 ^ 63 < record.id
  high : record.id < 2 ^ 63
  fits : record.data.length ≤ args.maxRowSize
  keyed : Keyed args.keyType record.data

def recordBytes (args : TableArgs Obj) (record : Record) : Bytes :=
  rowBytes args.crc32c record.id record.data

def groupBytes (args : TableArgs Obj) (group : List Record) : Bytes :=
  group.flatMap (recordBytes args) ++ sdbEcommit

def applyRecord (args : TableArgs Obj) (replay : Replay Obj) (record : Record) : Replay Obj :=
  raiseId (applyRow args replay record.id (keyAt args.keyType record.data) record.data) record.id

theorem taosCheckChecksumWhole_append (crc32c : Bytes -> UInt32) (stream : Bytes) :
    taosCheckChecksumWhole crc32c (taosCalcChecksumAppend crc32c stream) = true := by
  have fits : (crc32c stream).toNat < 256 ^ sizeofTsCksum := (crc32c stream).toNat_lt
  have length : (taosCalcChecksumAppend crc32c stream).length = stream.length + 4 := by
    rw [taosCalcChecksumAppend, length_append, leBytes_length]
    rfl
  have enough : ¬ (taosCalcChecksumAppend crc32c stream).length < sizeofTsCksum := by
    rw [length]
    exact Nat.not_lt.mpr (Nat.le_add_left 4 _)
  have front : (taosCalcChecksumAppend crc32c stream).length - sizeofTsCksum = stream.length := by
    rw [length]
    rfl
  rw [taosCheckChecksumWhole, if_neg enough, front, taosCalcChecksumAppend, List.drop_left,
    take_left, leValue_leBytes_of_lt fits]
  exact decide_eq_true rfl

@[simp] theorem rowHead_length (id : Int) (rowSize : Nat) :
    (rowHead id rowSize).length = sizeofRowHead := by
  simp [rowHead, sdbDelimiter, sizeofRowHead]

section

variable (crc32c : Bytes -> UInt32) (id : Int) (data : Bytes)

@[simp] theorem rowBytes_length :
    (rowBytes crc32c id data).length = sizeofRowHead + data.length + sizeofTsCksum := by
  simp [rowBytes, taosCalcChecksumAppend, Nat.add_assoc]

def rowChecksum : Bytes :=
  leBytes sizeofTsCksum (crc32c (rowHead id data.length ++ data)).toNat

theorem rowBytes_eq : rowBytes crc32c id data =
      sdbDelimiter ++ (leBytes 4 data.length ++ (leBytes 8 (BitVec.ofInt 64 id).toNat ++
        (data ++ rowChecksum crc32c id data))) := by
  simp [rowBytes, taosCalcChecksumAppend, rowHead, rowChecksum]

end

variable {row : Bytes}

theorem takeWhile_append_of_stop (stops : 0 ∈ row) (more : Bytes) :
    (row ++ more).takeWhile (fun byte => byte ≠ 0) = row.takeWhile fun byte => byte ≠ 0 := by
  induction row with
  | nil => cases stops
  | cons byte row ih =>
    by_cases zero : byte = 0
    · simp [zero]
    · have later : 0 ∈ row := (List.mem_cons.mp stops).resolve_left (Ne.symm zero)
      simp only [List.cons_append, List.takeWhile_cons, ne_eq, zero, not_false_eq_true,
        decide_true, if_true, List.cons.injEq, true_and]
      exact ih later

theorem keyAt_append {keyType : KeyType} (keyed : Keyed keyType row)
    (more : Bytes) : keyAt keyType (row ++ more) = keyAt keyType row := by
  cases keyType with
  | string => exact takeWhile_append_of_stop keyed more
  | uint32 => exact List.take_append_of_le_length keyed
  | auto =>
    have enough : 8 ≤ row.length := keyed
    exact List.take_append_of_le_length (by omega)

theorem readRow_progresses (args : TableArgs Obj) : Progresses (readRow args) := by
  intro stream found size finds
  unfold readRow at finds
  split at finds
  · cases finds
  · rename_i some'
    refine ⟨?_, some'⟩
    split at finds
    · cases finds
      exact Nat.one_pos
    · simp only at finds
      split at finds
      · cases finds
        decide
      · split at finds
        · cases finds
        · split at finds <;> cases finds <;> exact Nat.add_pos_right _ (by decide)

theorem ofInt_toInt {id : Int} (low : -2 ^ 63 < id) (high : id < 2 ^ 63) :
    (BitVec.ofInt 64 id).toInt = id := by
  rw [BitVec.toInt_ofInt]
  exact Int.bmod_eq_of_le (by omega) (by omega)

variable {rest : Bytes}

theorem readRow_head {id : Int} {data : Bytes} (low : -2 ^ 63 < id) (high : id < 2 ^ 63)
    (fits : data.length ≤ args.maxRowSize) :
    readRow args (rowHead id data.length ++ rest) =
      let realSize := sizeofRowHead + data.length + sizeofTsCksum
      if (rowHead id data.length ++ rest).length < realSize then none
      else if taosCheckChecksumWhole args.crc32c
          ((rowHead id data.length ++ rest).take realSize) then
        some (.row id data.length (((rowHead id data.length ++ rest).take realSize).drop
          sizeofRowHead), realSize)
      else some (.skipped, realSize) := by
  have short := args.rowSizeInt
  have head : rowHead id data.length ++ rest = sdbDelimiter ++ (leBytes 4 data.length ++
      (leBytes 8 (BitVec.ofInt 64 id).toNat ++ rest)) := by
    simp [rowHead]
  have delimiter : (rowHead id data.length ++ rest).take 4 = sdbDelimiter := by
    rw [head]
    exact take_left' rfl
  have behind : (rowHead id data.length ++ rest).drop 4 = leBytes 4 data.length ++
      (leBytes 8 (BitVec.ofInt 64 id).toNat ++ rest) := by
    rw [head]
    exact drop_left' rfl
  have rowSize : (wordOf 32 (((rowHead id data.length ++ rest).drop 4).take 4)).toInt =
      data.length := by
    have front : ((rowHead id data.length ++ rest).drop 4).take 4 = leBytes 4 data.length := by
      rw [behind]
      exact take_left' (leBytes_length _ _)
    rw [front, wordOf, leValue_leBytes_of_lt (by omega), BitVec.toInt_ofNat']
    exact Int.bmod_eq_of_le (by omega) (by omega)
  have idBytes : (wordOf 64 (((rowHead id data.length ++ rest).drop 8).take 8)).toInt = id := by
    have front : ((rowHead id data.length ++ rest).drop 8).take 8 =
        leBytes 8 (BitVec.ofInt 64 id).toNat := by
      have split : (rowHead id data.length ++ rest).drop 8 =
          ((rowHead id data.length ++ rest).drop 4).drop 4 := by rw [List.drop_drop]
      rw [split, behind, drop_left' (leBytes_length _ _)]
      exact take_left' (leBytes_length _ _)
    rw [front, wordOf_leBytes 8 (by omega), ofInt_toInt low high]
  have nonempty : rowHead id data.length ++ rest ≠ [] := by
    rw [head]
    simp [sdbDelimiter]
  have whole : ¬ ((rowHead id data.length ++ rest).length < sizeofRowHead ∨
      (rowHead id data.length ++ rest).take 4 ≠ sdbDelimiter) := by
    rw [delimiter, length_append, rowHead_length]
    simp
  unfold readRow
  rw [if_neg nonempty, if_neg whole]
  simp only [rowSize, idBytes]
  rw [if_neg (by omega), Int.toNat_natCast]

variable {record : Record}

theorem readRow_record (recordable : Recordable args record) :
    Frames (readRow args) (recordBytes args record) (.row record.id record.data.length
        (record.data ++ rowChecksum args.crc32c record.id record.data)) := by
  intro rest
  have bytes : recordBytes args record ++ rest = rowHead record.id record.data.length ++
      (record.data ++ rowChecksum args.crc32c record.id record.data ++ rest) := by
    simp [recordBytes, rowBytes, taosCalcChecksumAppend, rowChecksum]
  have length : (recordBytes args record).length =
      sizeofRowHead + record.data.length + sizeofTsCksum := rowBytes_length _ _ _
  have front : (recordBytes args record ++ rest).take
      (sizeofRowHead + record.data.length + sizeofTsCksum) = recordBytes args record := by
    rw [<- length]
    exact take_left
  have buffer : (recordBytes args record).drop sizeofRowHead =
      record.data ++ rowChecksum args.crc32c record.id record.data := by
    have split : recordBytes args record = rowHead record.id record.data.length ++
        (record.data ++ rowChecksum args.crc32c record.id record.data) := by
      simp [recordBytes, rowBytes, taosCalcChecksumAppend, rowChecksum]
    rw [split]
    exact drop_left' (rowHead_length _ _)
  have sum : taosCheckChecksumWhole args.crc32c (recordBytes args record) = true :=
    taosCheckChecksumWhole_append _ _
  rw [bytes, readRow_head recordable.low recordable.high recordable.fits]
  simp only
  rw [<- bytes, front, if_neg (by rw [length_append]; omega), if_pos sum, buffer, length]

theorem readRow_short (some' : rest ≠ []) (short : rest.length < sizeofRowHead) :
    readRow args rest = some (.skipped, 1) := by
  rw [readRow, if_neg some', if_pos (Or.inl short)]

theorem readRow_noDelimiter {byte : UInt8} (other : byte ≠ 0x00) (rest : Bytes) :
    readRow args (byte :: rest) = some (.skipped, 1) := by
  rw [readRow, if_neg (List.cons_ne_nil _ _), if_pos]
  right
  intro same
  simp only [sdbDelimiter, List.take_succ_cons, List.cons.injEq] at same
  exact other same.1

theorem grow_grow (replay : Replay Obj) (size more : Nat) :
    grow (grow replay size) more = grow replay (size + more) := by
  simp [grow, Nat.add_assoc]

theorem grow_zero (replay : Replay Obj) : grow replay 0 = replay := rfl

theorem applyRecord_grow (replay : Replay Obj) (record : Record) (size : Nat) :
    applyRecord args (grow replay size) record = grow (applyRecord args replay record) size := by
  have rows : applyRow args (grow replay size) record.id (keyAt args.keyType record.data)
      record.data = grow (applyRow args replay record.id (keyAt args.keyType record.data)
        record.data) size := by
    have same : sdbGetRow (grow replay size).table (keyAt args.keyType record.data) =
        sdbGetRow replay.table (keyAt args.keyType record.data) := rfl
    unfold applyRow
    simp only [same]
    by_cases absent : (sdbGetRow replay.table (keyAt args.keyType record.data)).isNone
    · simp only [if_pos absent]
      by_cases negative : record.id < 0
      · simp only [if_pos negative]
      · simp only [if_neg negative]
        rfl
    · simp only [if_neg absent]
      by_cases negative : record.id < 0
      · simp only [if_pos negative]
        rfl
      · simp only [if_neg negative]
        rfl
  rw [applyRecord, rows]
  rfl

theorem foldl_applyRecord_grow (records : List Record) (replay : Replay Obj) (size : Nat) :
    records.foldl (applyRecord args) (grow replay size) =
      grow (records.foldl (applyRecord args) replay) size := by
  induction records generalizing replay with
  | nil => rfl
  | cons record records ih => rw [foldl_cons, foldl_cons, applyRecord_grow, ih]

theorem advance_record (recordable : Recordable args record)
    (replay : Replay Obj) (size : Nat) : advance args replay (.row record.id record.data.length
        (record.data ++ rowChecksum args.crc32c record.id record.data)) size =
      grow (applyRecord args replay record) size := by
  rw [advance, keyAt_append recordable.keyed, take_left, applyRecord]

theorem scan_records {records : List Record}
    (recordable : ∀ record ∈ records, Recordable args record) (rest : Bytes) (replay : Replay Obj) :
    scan (readRow args) (advance args) (records.flatMap (recordBytes args) ++ rest) replay =
      scan (readRow args) (advance args) rest (grow (records.foldl (applyRecord args) replay)
          (records.flatMap (recordBytes args)).length) := by
  induction records generalizing replay with
  | nil => rfl
  | cons record records ih =>
    have first := recordable record mem_cons_self
    have later : ∀ other ∈ records, Recordable args other := fun other member =>
      recordable other (List.mem_cons_of_mem _ member)
    rw [List.flatMap_cons, append_assoc,
      scan_frame (readRow_progresses args) (readRow_record first), advance_record first, ih later,
      foldl_applyRecord_grow, grow_grow, foldl_cons, length_append]

theorem scan_bytes {bytes : Bytes} (others : ∀ byte ∈ bytes, byte ≠ 0x00) (rest : Bytes)
    (replay : Replay Obj) : scan (readRow args) (advance args) (bytes ++ rest) replay =
      scan (readRow args) (advance args) rest (grow replay bytes.length) := by
  induction bytes generalizing replay with
  | nil => rfl
  | cons byte bytes ih =>
    rw [List.cons_append, scan_step (readRow_progresses args)
      (readRow_noDelimiter (others byte mem_cons_self) _), List.drop_succ_cons,
      List.drop_zero, ih fun other member => others other (List.mem_cons_of_mem _ member),
      List.length_cons, advance, grow_grow, Nat.add_comm]

theorem sdbEcommit_ne_zero : ∀ byte ∈ sdbEcommit, byte ≠ 0x00 := by
  simp [sdbEcommit]

theorem scan_short (short : rest.length < sizeofRowHead) (replay : Replay Obj) :
    scan (readRow args) (advance args) rest replay = grow replay rest.length := by
  induction rest generalizing replay with
  | nil => exact scan_stop rfl replay
  | cons byte rest ih =>
    have less : rest.length < sizeofRowHead := Nat.lt_of_succ_lt short
    rw [scan_step (readRow_progresses args) (readRow_short (List.cons_ne_nil _ _) short),
      List.drop_succ_cons, List.drop_zero, ih less, advance, grow_grow, List.length_cons,
      Nat.add_comm]

theorem scan_torn (recordable : Recordable args record) {length : Nat}
    (head : sizeofRowHead ≤ length) (torn : length < (recordBytes args record).length)
    (replay : Replay Obj) :
    scan (readRow args) (advance args) ((recordBytes args record).take length) replay = replay := by
  refine scan_stop ?_ replay
  have bytes : (recordBytes args record).take length =
      rowHead record.id record.data.length ++ (record.data ++
        rowChecksum args.crc32c record.id record.data).take (length - sizeofRowHead) := by
    have split : recordBytes args record = rowHead record.id record.data.length ++
        (record.data ++ rowChecksum args.crc32c record.id record.data) := by
      simp [recordBytes, rowBytes, taosCalcChecksumAppend, rowChecksum]
    rw [split, List.take_append, rowHead_length, List.take_of_length_le]
    rw [rowHead_length]
    exact head
  have size : (recordBytes args record).length =
      sizeofRowHead + record.data.length + sizeofTsCksum := rowBytes_length _ _ _
  rw [bytes, readRow_head recordable.low recordable.high recordable.fits, <- bytes]
  simp only
  rw [if_pos]
  rw [List.length_take]
  omega

theorem scan_groups {groups : List (List Record)}
    (recordable : ∀ group ∈ groups, ∀ record ∈ group, Recordable args record)
    (rest : Bytes) (replay : Replay Obj) :
    scan (readRow args) (advance args) (groups.flatMap (groupBytes args) ++ rest) replay =
      scan (readRow args) (advance args) rest (grow (groups.flatten.foldl (applyRecord args) replay)
          (groups.flatMap (groupBytes args)).length) := by
  induction groups generalizing replay with
  | nil => rfl
  | cons group groups ih =>
    have first := recordable group mem_cons_self
    have later : ∀ other ∈ groups, ∀ record ∈ other, Recordable args record :=
      fun other member => recordable other (List.mem_cons_of_mem _ member)
    rw [List.flatMap_cons, groupBytes, append_assoc, append_assoc, scan_records first,
      scan_bytes sdbEcommit_ne_zero, ih later, List.flatten_cons, List.foldl_append,
      foldl_applyRecord_grow, foldl_applyRecord_grow, grow_grow, grow_grow, length_append,
      length_append, Nat.add_assoc]

end Replay

end Luomi.Sdb.Replay
