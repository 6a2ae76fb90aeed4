import Luomi.Vnode.MeterObjFile

/-!
# The records of the meter object file

A meter is restored from its record: the check sum is right, and every field, the schema
and the SQL text are read back.  The length of a record fits into the index.
-/

namespace Luomi.Vnode.MeterObjRecords

open LittleEndian
open Luomi.Vnode.CommitFile (Bytes crc32c)
open Luomi.Vnode.MeterObjFile

/-- The fields of a meter say how long its name, its schema and its SQL text are, and the
record fits into the buffer. -/
structure Sized (pObj : SMeterObj) : Prop where
  idLength : pObj.saved.meterId.length = tsdbMeterIdLen
  numOfColumns : pObj.saved.numOfColumns.toNat = pObj.schema.length
  sqlLen : pObj.saved.sqlLen.toNat = pObj.pSql.length
  columns : pObj.schema.length ≤ tsdbMaxColumns
  sqlLength : pObj.pSql.length ≤ tsdbMaxSavedSqlLen

theorem takeWord_leBytes {width size : Nat} (enough : width ≤ 8 * size) (word : BitVec width)
    (rest : Bytes) : takeWord width size (leBytes size word.toNat ++ rest) = (word, rest) := by
  unfold takeWord
  rw [List.take_left' (leBytes_length ..), List.drop_left' (leBytes_length ..),
    wordOf_leBytes size enough]

theorem readSaved_savedBytes {saved : SavedObj} (idLength : saved.meterId.length = tsdbMeterIdLen)
    (rest : Bytes) : readSaved (savedBytes saved ++ rest) = (saved, rest) := by
  unfold readSaved savedBytes
  simp only [List.append_assoc, takeWord_leBytes (show 64 ≤ 8 * 8 by decide),
    takeWord_leBytes (show 32 ≤ 8 * 4 by decide), takeWord_leBytes (show 16 ≤ 8 * 2 by decide),
    takeWord_leBytes (show 8 ≤ 8 * 1 by decide), List.take_left' idLength, List.drop_left' idLength]

theorem readSchema_columnBytes (schema : List SColumn) (rest : Bytes) :
    readSchema schema.length (schema.flatMap columnBytes ++ rest) = (schema, rest) := by
  induction schema with
  | nil => rfl
  | cons column schema ih =>
    rw [List.length_cons, List.flatMap_cons, List.append_assoc]
    generalize schema.flatMap columnBytes ++ rest = buffer at ih ⊢
    unfold readSchema columnBytes
    simp only [List.append_assoc, takeWord_leBytes (show 16 ≤ 8 * 2 by decide),
      takeWord_leBytes (show 8 ≤ 8 * 1 by decide)]
    rw [ih]

theorem length_columnBytes (schema : List SColumn) :
    (schema.flatMap columnBytes).length = 5 * schema.length := by
  induction schema with
  | nil => rfl
  | cons column schema ih =>
    rw [List.flatMap_cons, List.length_append, ih, List.length_cons]
    simp only [columnBytes, List.length_append, leBytes_length]
    ring

variable {pObj : SMeterObj}

theorem length_recordBytes (sized : Sized pObj) :
    (recordBytes pObj).length = 193 + 5 * pObj.schema.length + pObj.pSql.length := by
  have idLength := sized.idLength
  unfold tsdbMeterIdLen at idLength
  simp only [recordBytes, objBytes, savedBytes, List.length_append, leBytes_length,
    length_columnBytes, idLength]
  ring

theorem headerLength_recordBytes (sized : Sized pObj) :
    headerLength (recordBytes pObj).length = (recordBytes pObj).length := by
  have length := length_recordBytes sized
  have columns := sized.columns
  have sqlLength := sized.sqlLength
  unfold tsdbMaxColumns at columns
  unfold tsdbMaxSavedSqlLen at sqlLength
  unfold headerLength
  rw [Int.bmod_eq_of_le (by omega) (by omega)]

theorem recordBytes_checked (pObj : SMeterObj) : taosCheckChecksumWhole (recordBytes pObj) = true :=
    by
  have length : (recordBytes pObj).length = (objBytes pObj).length + 4 := by
    rw [recordBytes, List.length_append, leBytes_length]
  unfold taosCheckChecksumWhole
  rw [length, Nat.add_sub_cancel, recordBytes, List.take_left, List.drop_left,
    wordOf_leBytes 4 (by decide)]
  simp

theorem take_recordBytes (pObj : SMeterObj) :
    (recordBytes pObj).take ((recordBytes pObj).length - 4) = objBytes pObj := by
  have length : (recordBytes pObj).length = (objBytes pObj).length + 4 := by
    rw [recordBytes, List.length_append, leBytes_length]
  rw [length, Nat.add_sub_cancel, recordBytes, List.take_left]

/-- A meter as it is when it is opened: there are no rows in its cache. -/
structure Opened (pVnode : SVnodeObj) (saved : SavedObj) : Prop where
  vnode : saved.vnode = pVnode.vnode
  cache : vnodeAllocateCacheInfo pVnode saved = saved
  lastKey : saved.lastKey = saved.lastKeyOnFile

theorem vnodeRestoreMeterObj_objBytes {pVnode : SVnodeObj} (sized : Sized pObj)
    (opened : Opened pVnode pObj.saved) (inside : pObj.saved.sid.toNat < pVnode.maxSessions) :
    vnodeRestoreMeterObj (objBytes pObj) pVnode =
      if Named pObj.saved then setMeter pObj.saved.sid.toNat (some pObj) pVnode else pVnode := by
  unfold vnodeRestoreMeterObj objBytes
  rw [List.append_assoc, readSaved_savedBytes sized.idLength]
  dsimp only
  rw [if_neg (not_not.mpr opened.vnode), if_neg (by omega)]
  by_cases named : Named pObj.saved
  · rw [if_neg (not_not.mpr named), if_pos named, sized.numOfColumns, readSchema_columnBytes]
    dsimp only
    have same : { pObj.saved with lastKey := pObj.saved.lastKeyOnFile } = pObj.saved := by
      rw [<- opened.lastKey]
    rw [opened.cache, sized.sqlLen, List.take_length, same]
  · rw [if_pos named, if_neg named]

end Luomi.Vnode.MeterObjRecords
