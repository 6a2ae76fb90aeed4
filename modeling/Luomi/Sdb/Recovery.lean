import Luomi.Base.StreamScan
import Luomi.Sdb.Engine

/-!
# Opening a table of the simple database engine

Opening a file looks backwards for the last mark, cuts the file behind it and
replays the records, resynchronising byte by byte on the delimiter.  Where many
records were no inserts the file is replaced by a snapshot of the rows.
-/

namespace Luomi.Sdb.Recovery

open LittleEndian StreamScan HashIndex Engine

section Recovery

variable {Obj : Type} (args : TableArgs Obj)

/-- The loop of `sdbOpenSdbFile` that looks for the last mark, down to offset 1. -/
def lastCommit (file : Bytes) : Nat -> Option Nat
  | 0 => none
  | offset + 1 =>
    if (file.drop (offset + 1)).take sdbEcommit.length = sdbEcommit then some (offset + 1)
    else lastCommit file offset

/-- `ftruncate` behind the last mark. -/
def truncated (file : Bytes) : Bytes :=
  match lastCommit file (file.length - sdbEcommit.length) with
  | some offset => file.take (offset + sdbEcommit.length)
  | none => file

/-- `sdbOpenSdbFile`: the header and the file; the size is that of the header and
its mark. -/
def sdbOpenSdbFile (file : Bytes) : Option (Bytes × Bytes) :=
  if file = [] then
    let header := headerBytes args.crc32c args.version
    some (header, header ++ sdbEcommit)
  else
    let file := truncated file
    let header := file.take sizeofHeader
    if file.length < sizeofHeader then none
    else if taosCheckChecksumWhole args.crc32c header then some (header, file)
    else none

inductive Found where
  | skipped
  /-- The buffer has the data and the checksum behind it. -/
  | row (id : Int) (rowSize : Nat) (buffer : Bytes)

/-- One turn of the replay loop: what it reads and how far it goes; `none` at the
end of the file and where a row is cut off. -/
def readRow (rest : Bytes) : Option (Found × Nat) :=
  if rest = [] then none
  else if rest.length < sizeofRowHead ∨ rest.take 4 ≠ sdbDelimiter then some (.skipped, 1)
  else
    let rowSize := (wordOf 32 ((rest.drop 4).take 4)).toInt
    let id := (wordOf 64 ((rest.drop 8).take 8)).toInt
    if rowSize < 0 ∨ args.maxRowSize < rowSize then some (.skipped, sizeofRowHead)
    else
      let realSize := sizeofRowHead + rowSize.toNat + sizeofTsCksum
      if rest.length < realSize then none
      else if taosCheckChecksumWhole args.crc32c (rest.take realSize) then
        some (.row id rowSize.toNat ((rest.take realSize).drop sizeofRowHead), realSize)
      else some (.skipped, realSize)

/-- The table and `numOfDels` during a replay. -/
structure Replay (Obj : Type) where
  table : SdbTable Obj
  numOfDels : Nat

section

variable (replay : Replay Obj)

/-- What the replay does with a row; decoding stands for `SDB_TYPE_RESET` too. -/
def applyRow (id : Int) (key data : Bytes) : Replay Obj :=
  let table := replay.table
  let obj := args.appTool.decode data
  if (sdbGetRow table key).isNone then
    if id < 0 then replay
    else { replay with table := { table with
      index := sdbAddIndex table.index ⟨objKey args obj, id, obj⟩
      autoIndex := if args.keyType = .auto then table.autoIndex + 1 else table.autoIndex
      numOfRows := table.numOfRows + 1 } }
  else if id < 0 then
    { table := { table with
        index := sdbDeleteIndex table.index key, numOfRows := table.numOfRows - 1 }
      numOfDels := replay.numOfDels + 2 }
  else
    { table := { table with
        index := setIndex table.index key fun entry => { entry with row := obj } }
      numOfDels := replay.numOfDels + 1 }

/-- `if (pTable->id < abs(rowHead->id)) pTable->id = abs(rowHead->id)`. -/
def raiseId (id : Int) : Replay Obj :=
  { replay with table := { replay.table with id := max replay.table.id |id| } }

/-- `pTable->size += size`. -/
def grow (size : Nat) : Replay Obj :=
  { replay with table := { replay.table with size := replay.table.size + size } }

def advance (found : Found) (size : Nat) : Replay Obj :=
  match found with
  | .skipped => grow replay size
  | .row id rowSize buffer =>
    grow (raiseId (applyRow args replay id (keyAt args.keyType buffer) (buffer.take rowSize)) id)
      size

end

def snapshotRows (table : SdbTable Obj) : Bytes :=
  (sdbFetchRows args.keyType args.maxRows table.index).flatMap fun entry =>
    rowBytes args.crc32c entry.id (args.appTool.encode entry.row) ++ sdbEcommit

def sdbSaveSnapShot (table : SdbTable Obj) : SdbTable Obj :=
  let file := table.header ++ sdbEcommit ++ snapshotRows args table
  { table with
    file := file
    size := file.length
    numOfRows := (sdbFetchRows args.keyType args.maxRows table.index).length }

def emptyTable (header file : Bytes) : SdbTable Obj where
  header := header
  index := []
  autoIndex := 0
  numOfRows := 0
  id := 0
  size := sizeofHeader + sdbEcommit.length
  file := file

/-- The loop of `sdbInitTableByFile`. -/
def replayFile (header file : Bytes) : Replay Obj :=
  scan (readRow args) (advance args) (file.drop (sizeofHeader + sdbEcommit.length))
    ⟨emptyTable header file, 0⟩

/-- `sdbInitTableByFile` on the table `sdbOpenTable` has just created. -/
def sdbOpenTable (file : Bytes) : Option (SdbTable Obj) := do
  let (header, file) <- sdbOpenSdbFile args file
  let replay : Replay Obj := replayFile args header file
  return if replay.numOfDels > args.maxRows / 4 then sdbSaveSnapShot args replay.table
    else replay.table

/-- `sdbCloseTable` and `sdbOpenTable`. -/
def reopen (table : SdbTable Obj) : Option (SdbTable Obj) := sdbOpenTable args table.file

end Recovery

end Luomi.Sdb.Recovery
