import Luomi.Sdb.HashIndex

/-!
# The simple database engine (`sdbEngine.c`): tables and their files

A table is an index of rows in memory and a file to which every change is
appended: records with a head and a checksum, and a mark behind each operation.

`none` as the result of an operation means that the process does not survive it
or that C leaves its result open.  Failures of `malloc`, `write` and the memory
pool of the index are not modelled.
-/

namespace Luomi.Sdb.Engine

open LittleEndian HashIndex

section

variable (keyType : KeyType) (row : Bytes)

/-- The key at the start of a row: up to the terminating zero, or four bytes. -/
def keyAt : Bytes :=
  match keyType with
  | .string => row.takeWhile fun byte => byte ≠ 0
  | .uint32 => row.take 4
  | .auto => row.take 4

def keySize : Nat :=
  match keyType with
  | .string => (row.takeWhile fun byte => byte ≠ 0).length + 1
  | .uint32 => 4
  | .auto => 8

def Keyed : Prop :=
  match keyType with
  | .string => 0 ∈ row
  | .uint32 => 4 ≤ row.length
  | .auto => 8 ≤ row.length

end

/-- What an application does with the rows of a table. -/
structure AppTool (Obj : Type) (keyType : KeyType) (maxRowSize : Nat) where
  encode : Obj -> Bytes
  decode : Bytes -> Obj
  decode_encode : ∀ obj, decode (encode obj) = obj
  fits : ∀ obj, (encode obj).length ≤ maxRowSize
  keyed : ∀ obj, Keyed keyType (encode obj)
  decodeKey : ∀ row, Keyed keyType row -> row.length ≤ maxRowSize ->
    keyAt keyType (encode (decode row)) = keyAt keyType row
  setAutoKey : UInt32 -> Obj -> Obj
  autoKey : keyType = .auto -> ∀ key obj,
    keyAt keyType (encode (setAutoKey key obj)) = leBytes 4 key.toNat

/-- The arguments of `sdbOpenTable`, with the version of the software and the
checksum function. -/
structure TableArgs (Obj : Type) where
  keyType : KeyType
  maxRows : Nat
  maxRowSize : Nat
  appTool : AppTool Obj keyType maxRowSize
  version : Bytes
  crc32c : Bytes -> UInt32
  maxRowsPos : 0 < maxRows
  rowSizeInt : maxRowSize < 2 ^ 31
  versionSize : version.length = 8

def sdbDelimiter : Bytes := [0x00, 0x0F, 0xF0, 0xFF]

/-- `SDB_ENDCOMMIT` in memory. -/
def sdbEcommit : Bytes := [0xAF, 0xAA, 0xFF, 0xAF]

def sizeofRowHead : Nat := 16

def sizeofHeader : Nat := 24

def sizeofTsCksum : Nat := 4

section File

variable (crc32c : Bytes -> UInt32)

def taosCalcChecksumAppend (stream : Bytes) : Bytes :=
  stream ++ leBytes sizeofTsCksum (crc32c stream).toNat

def taosCheckChecksumWhole (stream : Bytes) : Bool :=
  if stream.length < sizeofTsCksum then false
  else leValue (stream.drop (stream.length - sizeofTsCksum)) =
    (crc32c (stream.take (stream.length - sizeofTsCksum))).toNat

/-- `SSdbHeader` with its checksum: version, file version, reserved bytes and the
unused field `checkSum`, all but the first zero. -/
def headerBytes (version : Bytes) : Bytes :=
  taosCalcChecksumAppend crc32c (version ++ List.replicate 12 0)

def rowHead (id : Int) (rowSize : Nat) : Bytes :=
  sdbDelimiter ++ leBytes 4 rowSize ++ leBytes 8 (BitVec.ofInt 64 id).toNat

def rowBytes (id : Int) (data : Bytes) : Bytes :=
  taosCalcChecksumAppend crc32c (rowHead id data.length ++ data)

end File

/-- `SSdbTable` and the content of its file; the file is written at its end. -/
structure SdbTable (Obj : Type) where
  header : Bytes
  index : List (Entry Obj)
  autoIndex : UInt32
  numOfRows : Int
  id : Int
  size : Nat
  file : Bytes

section Operations

variable {Obj : Type} (args : TableArgs Obj)

def objKey (obj : Obj) : Bytes := keyAt args.keyType (args.appTool.encode obj)

section

variable (table : SdbTable Obj)

def sdbGetRow (key : Bytes) : Option Obj :=
  (sdbGetIndex table.index key).map Entry.row

def sdbGetId : Int := table.id

def sdbGetNumOfRows : Int := table.numOfRows

def sdbFinishCommit : Option (SdbTable Obj) :=
  if table.file.length = table.size then
    some { table with file := table.file ++ sdbEcommit, size := table.size + sdbEcommit.length }
  else none

end

structure KeyedRow (args : TableArgs Obj) where
  bytes : Bytes
  keyed : Keyed args.keyType bytes

/-- The bytes of an encoded row: its key is in it and it has the size of a row. -/
structure EncodedRow (args : TableArgs Obj) extends KeyedRow args where
  fits : bytes.length ≤ args.maxRowSize

/-- The argument `row` of `sdbInsertRow` and `sdbUpdateRow`: the object itself or
an encoded row. -/
inductive RowArg (args : TableArgs Obj) where
  | object (obj : Obj)
  | encoded (row : EncodedRow args)

def RowArg.obj {args : TableArgs Obj} : RowArg args -> Obj
  | .object obj => obj
  | .encoded row => args.appTool.decode row.bytes

def RowArg.bytes {args : TableArgs Obj} : RowArg args -> Bytes
  | .object obj => args.appTool.encode obj
  | .encoded row => row.bytes

/-- `pTable->id++`; the last id has no successor. -/
def nextId (table : SdbTable Obj) : Option Int :=
  if table.id + 1 < 2 ^ 63 then some (table.id + 1) else none

/-- `write(pTable->fd, rowHead, real_size)` at the end of the file. -/
def writeRow (table : SdbTable Obj) (id : Int) (data : Bytes) : SdbTable Obj :=
  { table with
    file := table.file ++ rowBytes args.crc32c id data
    size := table.size + (sizeofRowHead + data.length + sizeofTsCksum) }

/-- The same behind `lseek(pTable->fd, pTable->size, SEEK_SET)`. -/
def writeRowAtSize (table : SdbTable Obj) (id : Int) (data : Bytes) : SdbTable Obj :=
  let bytes := rowBytes args.crc32c id data
  { table with
    file := table.file.take table.size ++ bytes ++ table.file.drop (table.size + bytes.length)
    size := table.size + (sizeofRowHead + data.length + sizeofTsCksum) }

/-- The test at the head of `sdbInsertRow`. -/
def InsertRefused {args : TableArgs Obj} (table : SdbTable Obj) (row : RowArg args) : Prop :=
  (args.keyType ≠ .auto ∨ leValue (row.bytes.take 8) ≠ 0) ∧
    (sdbGetRow table (keyAt args.keyType row.bytes)).isSome

instance {args : TableArgs Obj} (table : SdbTable Obj) (row : RowArg args) :
    Decidable (InsertRefused table row) := by
  unfold InsertRefused
  infer_instance

/-- `++pTable->autoIndex` for a table with auto keys. -/
def nextAutoIndex (table : SdbTable Obj) : UInt32 :=
  if args.keyType = .auto then table.autoIndex + 1 else table.autoIndex

def insertedObj {args : TableArgs Obj} (table : SdbTable Obj) (row : RowArg args) : Obj :=
  if args.keyType = .auto then args.appTool.setAutoKey (nextAutoIndex args table) row.obj
  else row.obj

def sdbInsertRow (table : SdbTable Obj) (row : RowArg args) : Option (Int × SdbTable Obj) :=
  if InsertRefused table row then some (-1, table)
  else do
    let id <- nextId table
    let obj := insertedObj table row
    let table := { table with
      id := id
      autoIndex := nextAutoIndex args table
      index := sdbAddIndex table.index ⟨objKey args obj, id, obj⟩ }
    let table <- sdbFinishCommit (writeRow args table id (args.appTool.encode obj))
    return (id, { table with numOfRows := table.numOfRows + 1 })

def sdbDeleteRow (table : SdbTable Obj) (row : KeyedRow args) : Option (Int × SdbTable Obj) :=
  let key := keyAt args.keyType row.bytes
  if (sdbGetIndex table.index key).isNone then some (-1, table)
  else do
    let id <- nextId table
    let data := row.bytes.take (keySize args.keyType row.bytes)
    let table <- sdbFinishCommit (writeRow args { table with id := id } (-id) data)
    return (0, { table with
      numOfRows := table.numOfRows - 1, index := sdbDeleteIndex table.index key })

/-- `sdbUpdateRow`.  An object that is its own argument has been changed by the
caller; an encoded row becomes the row of its key. -/
def sdbUpdateRow (table : SdbTable Obj) (row : RowArg args) : Option (Int × SdbTable Obj) :=
  let key := keyAt args.keyType row.bytes
  if (sdbGetIndex table.index key).isNone then some (-1, table)
  else do
    let id <- nextId table
    let index := setIndex table.index key fun entry => { entry with id := id, row := row.obj }
    let table := { table with id := id, index := index }
    let table <- sdbFinishCommit (writeRow args table id row.bytes)
    return (0, table)

/-- The loop of `sdbBatchUpdateRow`: the rows the application walks through, as it
leaves them. -/
def batchRows (table : SdbTable Obj) : List Obj -> Option (SdbTable Obj)
  | [] => some table
  | obj :: later =>
    if (sdbGetIndex table.index (objKey args obj)).isNone then none
    else do
      let id <- nextId table
      let index := setIndex table.index (objKey args obj) fun entry =>
        { entry with id := id, row := obj }
      let table := { table with id := id, index := index }
      batchRows (writeRowAtSize args table id (args.appTool.encode obj)) later

/-- `sdbBatchUpdateRow`: the instruction has the key of the first row. -/
def sdbBatchUpdateRow (table : SdbTable Obj) (first : Obj) (later : List Obj) :
    Option (Int × SdbTable Obj) :=
  if (sdbGetIndex table.index (objKey args first)).isNone then some (-1, table)
  else do
    let table <- batchRows args table (first :: later)
    let table <- sdbFinishCommit table
    return (0, table)

inductive Op (args : TableArgs Obj) where
  | insert (row : RowArg args)
  | delete (row : KeyedRow args)
  | update (row : RowArg args)
  | batchUpdate (first : Obj) (later : List Obj)

def runOp (table : SdbTable Obj) : Op args -> Option (Int × SdbTable Obj)
  | .insert row => sdbInsertRow args table row
  | .delete row => sdbDeleteRow args table row
  | .update row => sdbUpdateRow args table row
  | .batchUpdate first later => sdbBatchUpdateRow args table first later

def runOps : SdbTable Obj -> List (Op args) -> Option (SdbTable Obj)
  | table, [] => some table
  | table, op :: ops => do
      let result <- runOp args table op
      runOps result.2 ops

end Operations

end Luomi.Sdb.Engine
