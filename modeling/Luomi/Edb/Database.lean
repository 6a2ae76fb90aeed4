import Luomi.Edb.Compress

/-!
# The embedded database: creation and writing (`db.c`)

A database caches rows in a log and flushes it to the files of the hour range
its first row falls in.  The log is kept as the list of rows in its slots; where
the bytes of a slot lie in the mapped file is the subject of another module.

A descriptor of the database is identified with the file index it was opened
for, and with `none` while it still has its initial value 0.  `none` as the
result of an operation means that the process does not survive it.
-/

namespace Luomi.Edb.Database

open Compress

inductive StoreType where
  | byRow
  | byCol
  deriving DecidableEq

inductive CompressType where
  | none
  | zlib
  | taosOneStep
  | taosTwoStep
  | zstd
  deriving DecidableEq

/-- `LOG_HEAD`; `colType` includes the timestamp column. -/
structure LogHead where
  storeType : StoreType
  compressType : CompressType
  hoursPerFile : Nat
  maxColSize : Nat
  curRowCount : Nat
  cacheSize : Nat
  rowSize : Nat
  dataPos : Nat
  startTimestamp : Int
  endTimestamp : Int
  colCount : Nat
  colType : List ColType
  deriving DecidableEq

def sizeofLogHead : Nat := 80

def sizeofColType : Nat := 4

def maxColCount : Nat := 32

/-- The arguments of `create_db`; the array of column types has `colCount`
elements. -/
structure CreateArgs where
  root : String
  name : String
  colCount : UInt8
  colType : List ColType
  cacheSize : UInt16
  storeType : StoreType
  compressType : CompressType
  hoursPerFile : UInt8
  columns : colType.length = colCount.toNat

/-- What `create_db` finds in the file system: the log file, and whether
creating it, allocating it and checking its size succeed. -/
structure FileSystem where
  logExists : Bool
  opens : Bool
  allocates : Bool
  sizeMatches : Bool

/-- The loop over the columns: `rowSize` and `maxColSize`. -/
def rowSizes (columns : List ColType) : Nat × Nat :=
  columns.foldl
    (fun sizes type =>
      ((sizes.1 + gColTypeSize type) % 65536,
        if sizes.2 < gColTypeSize type then gColTypeSize type else sizes.2)) (8, 8)

/-- `sizeof(LOG_HEAD) + rowSize * cacheSize`, in `create_db` and `close_db`. -/
def mappingSize (head : LogHead) : Nat := sizeofLogHead + head.rowSize * head.cacheSize

/-- `create_db`: an error code or the head it writes. -/
def createDb (files : FileSystem) (args : CreateArgs) : Except Int LogHead :=
  if args.root.utf8ByteSize + args.name.utf8ByteSize > 100 then .error (-1)
  else if args.colCount.toNat + 1 > maxColCount then .error (-2)
  else if files.logExists then .error (-3)
  else if !files.opens then .error (-4)
  else
    let (rowSize, maxColSize) := rowSizes args.colType
    let dataPos := sizeofLogHead + args.colCount.toNat * sizeofColType
    if !files.allocates then .error (-5)
    else if !files.sizeMatches then .error (-6)
    else .ok {
      storeType :=
        if args.compressType = .taosOneStep ∨ args.compressType = .taosTwoStep then .byCol
        else args.storeType
      compressType := args.compressType
      hoursPerFile := args.hoursPerFile.toNat
      maxColSize := maxColSize
      curRowCount := 0
      cacheSize := args.cacheSize.toNat
      rowSize := rowSize
      dataPos := dataPos
      startTimestamp := 0
      endTimestamp := 0
      colCount := args.colCount.toNat + 1
      colType := .timestamp :: args.colType }

section Rows

variable {α : Type}

/-- A row: the clock at which it was put, and its columns. -/
structure Row (α : Type) where
  timestamp : Int
  data : α
  deriving DecidableEq

/-- A flushed block: the fields of its `INDEX` entry a reader uses, and its
rows. -/
structure Block (α : Type) where
  rowCount : Nat
  startTimestamp : Int
  endTimestamp : Int
  rows : List (Row α)
  deriving DecidableEq

/-- `DB`.  `fd` stands for `indexFd` and `recordFd`, which are opened together;
`opened` lists the files created so far, `written` the blocks appended, each
with the descriptor it went to. -/
structure Db (α : Type) where
  head : LogHead
  logData : List (Row α)
  curFileIndex : Int
  fd : Option Int
  opened : List Int
  written : List (Option Int × Block α)

def openDb (head : LogHead) : Db α :=
  { head := head, logData := [], curFileIndex := 0, fd := none, opened := [], written := [] }

/-- The compression functions.  `totalSize` is the number of bytes written for a
log, which is positive, or `none` where a codec ends the process; `restored` is
what decompression makes of the rows of a block. -/
structure Codec (α : Type) where
  totalSize : CompressType -> List (Row α) -> Option Nat
  positive : ∀ {type : CompressType} {rows : List (Row α)} {size : Nat},
    totalSize type rows = some size -> 0 < size
  restored : CompressType -> List (Row α) -> List (Row α)

/-- Copies the rows, as `compressNone` does, with the size of a column of
timestamps and its checksum. -/
def copyCodec : Codec α where
  totalSize _ rows := some (8 * rows.length + 4)
  positive := by
    intro type rows size written
    cases written
    exact Nat.succ_pos _
  restored _ rows := rows

/-- `gCompress[compressType]`; `compressTaosTwoStep` returns 0 at once. -/
def gCompress (codec : Codec α) (type : CompressType) (rows : List (Row α)) : Option Nat :=
  if type = .taosTwoStep then some 0 else codec.totalSize type rows

def gMillisecondOfHour : Int := 3600000

/-- `t / (hoursPerFile * gMillisecondOfHour)`; division by zero ends the
process. -/
def fileIndex (head : LogHead) (timestamp : Int) : Option Int :=
  if head.hoursPerFile = 0 then none
  else some (timestamp.tdiv (head.hoursPerFile * gMillisecondOfHour))

/-- `*((int64_t*)pLogData)`. -/
def firstTimestamp (db : Db α) : Int := (db.logData.head?.map Row.timestamp).getD 0

/-- The part of `saveToFile` that chooses the files. -/
def reopen (db : Db α) (index : Int) : Db α :=
  if db.curFileIndex ≠ index then
    { db with
      curFileIndex := index
      fd := some index
      opened := if index ∈ db.opened then db.opened else db.opened ++ [index] }
  else db

def logRows (db : Db α) : List (Row α) := db.logData.take db.head.curRowCount

def logBlock (db : Db α) : Block α :=
  { rowCount := db.head.curRowCount
    startTimestamp := db.head.startTimestamp
    endTimestamp := db.head.endTimestamp
    rows := logRows db }

/-- What `saveToFile` does once the codec has written something. -/
def appendBlock (db : Db α) : Db α :=
  { db with
    written := db.written ++ [(db.fd, logBlock db)]
    head := { db.head with endTimestamp := 0, startTimestamp := 0, curRowCount := 0 } }

def saveToFile (codec : Codec α) (db : Db α) : Option (Db α) := do
  let index <- fileIndex db.head (firstTimestamp db)
  let db := reopen db index
  let len <- gCompress codec db.head.compressType (logRows db)
  return if 0 < len then appendBlock db else db

/-- `put_db` up to the point where the row is stored: the log is flushed if it is
full or belongs to another file. -/
def flushBefore (codec : Codec α) (db : Db α) (st : Int) : Option (Db α) :=
  if db.head.curRowCount > 0 then
    if db.head.curRowCount ≥ db.head.cacheSize then saveToFile codec db
    else do
      let expectFileIndex <- fileIndex db.head st
      let curFileIndex <- fileIndex db.head db.head.startTimestamp
      if curFileIndex ≠ expectFileIndex then saveToFile codec db else some db
  else some db

/-- The row goes to slot `curRowCount`, which is an `unsigned short`. -/
def storeRow (db : Db α) (row : Row α) : Db α :=
  let slot := db.head.curRowCount
  { db with
    logData := db.logData.take slot ++ row :: db.logData.drop (slot + 1)
    head := { db.head with
      startTimestamp := if slot = 0 then row.timestamp else db.head.startTimestamp
      endTimestamp := row.timestamp
      curRowCount := (slot + 1) % 65536 } }

def flushAfter (codec : Codec α) (db : Db α) : Option (Db α) :=
  if db.head.curRowCount ≥ db.head.cacheSize then saveToFile codec db else some db

/-- `put_db` of a row at the clock `st`. -/
def putDb (codec : Codec α) (db : Db α) (row : Row α) : Option (Db α) := do
  let db <- flushBefore codec db row.timestamp
  flushAfter codec (storeRow db row)

/-- A sequence of `put_db` calls. -/
def putAll (codec : Codec α) : Db α -> List (Row α) -> Option (Db α)
  | db, [] => some db
  | db, row :: rows => do
      let db <- putDb codec db row
      putAll codec db rows

end Rows

end Luomi.Edb.Database
