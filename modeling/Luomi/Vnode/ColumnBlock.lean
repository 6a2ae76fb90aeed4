import Luomi.Base.LittleEndian

/-!
# The columns of a block (`vnodeFile.c`)

A block is written at the end of the data file or the last file: a record for each column with
their checksum, and then each column, packed or not, with its own checksum.  It is read back by
column, for a list of requested columns; both lists are sorted by `colId`.

The checksum, the codecs and the statistics of a column are given.  A buffer that a read does
not fill is zero behind what was read.  The storage counters of the vnode are left out, as is
memory that is not there.
-/

namespace Luomi.Vnode.ColumnBlock

open LittleEndian

abbrev Bytes := List UInt8

def sizeofChecksum : Nat := 4

def sizeofField : Nat := 64

def extraBytes : Nat := 2

structure Statistics where
  numOfNullPoints : BitVec 32
  sum : BitVec 64
  max : BitVec 64
  min : BitVec 64
  wsum : BitVec 64

/-- The checksum and the codecs; they are given a type, an algorithm and the number of points. -/
structure Codec where
  taosCalcChecksum : Bytes -> BitVec 32
  pCompFunc : Nat -> Nat -> Bytes -> Nat -> Bytes
  pDecompFunc : Nat -> Nat -> Bytes -> Nat -> Bytes
  getStatistics : Bytes -> Bytes -> Nat -> Nat -> Nat -> Statistics
  lossless : ∀ type algorithm data points bytes, 0 < algorithm -> algorithm ≤ 2 ->
    data.length = points * bytes ->
    pDecompFunc type algorithm (pCompFunc type algorithm data points) points = data
  bounded : ∀ type algorithm data points, 0 < algorithm -> algorithm ≤ 2 ->
    (pCompFunc type algorithm data points).length ≤ data.length + extraBytes
  nonempty : ∀ type algorithm data points, 0 < algorithm -> algorithm ≤ 2 ->
    data ≠ [] -> pCompFunc type algorithm data points ≠ []

structure SColumn where
  colId : Nat
  type : Nat
  bytes : Nat

/-- A meter, inside the limits of the configuration; its first column is the timestamp. -/
structure SMeterObj where
  schema : List SColumn
  sversion : Int
  pointsPerFileBlock : Nat
  timestamp : schema.head?.map SColumn.colId = some 0
  sorted : schema.Pairwise fun column later => column.colId < later.colId
  ids : ∀ column ∈ schema, column.colId < 32768
  types : ∀ column ∈ schema, column.type < 128
  sizes : ∀ column ∈ schema, 0 < column.bytes
  bytesPerPoint : (schema.map SColumn.bytes).sum ≤ 4096
  rowsInFileBlock : pointsPerFileBlock ≤ 500000

structure Points (pObj : SMeterObj) where
  points : Nat
  data : List Bytes
  some' : 0 < points
  most : points ≤ pObj.pointsPerFileBlock
  length : data.length = pObj.schema.length
  sizes : ∀ pair ∈ pObj.schema.zip data, pair.2.length = points * pair.1.bytes

def Points.columns {pObj : SMeterObj} (block : Points pObj) : List (SColumn × Bytes) :=
  pObj.schema.zip block.data

/-- The files of a vnode; the temporary one becomes the last file. -/
structure SVnodeObj where
  compression : Nat
  dfd : Bytes
  lfd : Bytes
  tfd : Option Bytes
  levels : compression ≤ 2

structure SCompBlock where
  last : Bool
  offset : Nat
  algorithm : Nat
  numOfPoints : Nat
  sversion : Int
  len : Nat
  numOfCols : Nat
  keyFirst : BitVec 64
  keyLast : BitVec 64

/-- `SField`; the offset has 24 bits of the word of the type. -/
structure SField where
  colId : BitVec 16
  bytes : BitVec 16
  numOfNullPoints : BitVec 32
  type : BitVec 8
  offset : BitVec 24
  len : BitVec 32
  sum : BitVec 64
  max : BitVec 64
  min : BitVec 64
  wsum : BitVec 64

def SField.toBytes (field : SField) : Bytes :=
  leBytes 2 field.colId.toNat ++ (leBytes 2 field.bytes.toNat
    ++ (leBytes 4 field.numOfNullPoints.toNat ++ (leBytes 1 field.type.toNat
    ++ (leBytes 3 field.offset.toNat ++ (leBytes 4 field.len.toNat
    ++ (leBytes 8 field.sum.toNat ++ (leBytes 8 field.max.toNat
    ++ (leBytes 8 field.min.toNat ++ (leBytes 8 field.wsum.toNat
    ++ List.replicate 16 0)))))))))

def wordAt (width position size : Nat) (bytes : Bytes) : BitVec width :=
  wordOf width ((bytes.drop position).take size)

def SField.ofBytes (bytes : Bytes) : SField where
  colId := wordAt 16 0 2 bytes
  bytes := wordAt 16 2 2 bytes
  numOfNullPoints := wordAt 32 4 4 bytes
  type := wordAt 8 8 1 bytes
  offset := wordAt 24 9 3 bytes
  len := wordAt 32 12 4 bytes
  sum := wordAt 64 16 8 bytes
  max := wordAt 64 24 8 bytes
  min := wordAt 64 32 8 bytes
  wsum := wordAt 64 40 8 bytes

def taosCalcChecksumAppend (codec : Codec) (stream : Bytes) : Bytes :=
  stream ++ leBytes sizeofChecksum (codec.taosCalcChecksum stream).toNat

def stored (codec : Codec) (compression points : Nat) (column : SColumn × Bytes) : Bytes :=
  if compression ≠ 0 then codec.pCompFunc column.1.type compression column.2 points else column.2

def fieldOf (codec : Codec) (compression points : Nat) (key : Bytes) (offset : Nat)
    (column : SColumn × Bytes) : SField :=
  let statistics := codec.getStatistics key column.2 column.1.bytes points column.1.type
  { colId := BitVec.ofNat 16 column.1.colId
    bytes := BitVec.ofNat 16 column.1.bytes
    numOfNullPoints := statistics.numOfNullPoints
    type := BitVec.ofNat 8 column.1.type
    offset := BitVec.ofNat 24 offset
    len := BitVec.ofNat 32 (stored codec compression points column).length
    sum := statistics.sum
    max := statistics.max
    min := statistics.min
    wsum := statistics.wsum }

def fieldsFrom (codec : Codec) (compression points : Nat) (key : Bytes) :
    Nat -> List (SColumn × Bytes) -> List SField
  | _, [] => []
  | offset, column :: columns =>
    fieldOf codec compression points key offset column
      :: fieldsFrom codec compression points key
        (offset + (stored codec compression points column).length + sizeofChecksum) columns

def fieldsSize (numOfCols : Nat) : Nat := sizeofField * numOfCols + sizeofChecksum

def blockBytes (codec : Codec) (compression points : Nat) (columns : List (SColumn × Bytes)) :
    Bytes :=
  let key := (columns.head?.map Prod.snd).getD []
  taosCalcChecksumAppend codec
      ((fieldsFrom codec compression points key (fieldsSize columns.length) columns).flatMap
        SField.toBytes)
    ++ columns.flatMap fun column =>
      taosCalcChecksumAppend codec (stored codec compression points column)

def vnodeWriteBlockToFile (codec : Codec) (tsFileBlockMinPercent : Rat) (pVnode : SVnodeObj)
    (pObj : SMeterObj) (last : Bool) (data : List Bytes) (points : Nat) :
    SCompBlock × SVnodeObj :=
  let columns := pObj.schema.zip data
  let key := (columns.head?.map Prod.snd).getD []
  let written := blockBytes codec pVnode.compression points columns
  let last := last && decide ((points : Rat) < pObj.pointsPerFileBlock * tsFileBlockMinPercent)
  let dfd := if last then pVnode.tfd.getD pVnode.lfd else pVnode.dfd
  ({ last := last
     offset := dfd.length
     algorithm := pVnode.compression
     numOfPoints := points
     sversion := pObj.sversion
     len := written.length
     numOfCols := pObj.schema.length
     keyFirst := wordAt 64 0 8 key
     keyLast := wordAt 64 ((points - 1) * 8) 8 key },
    if last then
      match pVnode.tfd with
      | some tfd => { pVnode with tfd := some (tfd ++ written) }
      | none => { pVnode with lfd := pVnode.lfd ++ written }
    else { pVnode with dfd := pVnode.dfd ++ written })

structure Descriptor where
  file : Bytes
  pos : Nat

def lseek (fd : Descriptor) (offset : Int) : Descriptor :=
  if offset < 0 then fd else { fd with pos := offset.toNat }

def readFd (fd : Descriptor) (size : Nat) : Bytes × Nat × Descriptor :=
  let bytes := (fd.file.drop fd.pos).take size
  (bytes ++ List.replicate (size - bytes.length) 0, bytes.length,
    { fd with pos := fd.pos + bytes.length })

def taosCheckChecksumWhole (codec : Codec) (stream : Bytes) : Bool :=
  sizeofChecksum ≤ stream.length ∧
    wordOf 32 (stream.drop (stream.length - sizeofChecksum)) =
      codec.taosCalcChecksum (stream.take (stream.length - sizeofChecksum))

def parseFields : Nat -> Bytes -> List SField
  | 0, _ => []
  | numOfCols + 1, bytes =>
    SField.ofBytes (bytes.take sizeofField) :: parseFields numOfCols (bytes.drop sizeofField)

def readFields (codec : Codec) (fd : Descriptor) (pBlock : SCompBlock) :
    Option (List SField) -> Option (List SField) × Descriptor
  | some fields => (some fields, fd)
  | none =>
    let (stream, _, fd) := readFd (lseek fd pBlock.offset) (fieldsSize pBlock.numOfCols)
    if taosCheckChecksumWhole codec stream then (some (parseFields pBlock.numOfCols stream), fd)
    else (none, fd)

/-- `vnodeReadColumnToMem`; without data, only the records of the columns are read. -/
def vnodeReadColumnToMem (codec : Codec) (fd : Descriptor) (pBlock : SCompBlock)
    (fields : Option (List SField)) (col : Nat) (data : Bool) :
    Option (List SField × Bytes) × Descriptor :=
  match readFields codec fd pBlock fields with
  | (none, fd) => (none, fd)
  | (some tfields, fd) =>
    if data then
      match tfields[col]? with
      | none => (none, fd)
      | some field =>
        let fd := lseek fd (pBlock.offset + field.offset.toInt)
        let (temp, len, fd) := readFd fd field.len.toInt.toNat
        let (chksum, _, fd) := readFd fd sizeofChecksum
        if wordOf 32 chksum ≠ codec.taosCalcChecksum temp then (none, fd)
        else if len = 0 then (none, fd)
        else if pBlock.algorithm ≠ 0 then
          (some (tfields, codec.pDecompFunc field.type.toNat pBlock.algorithm temp
            pBlock.numOfPoints), fd)
        else (some (tfields, temp), fd)
    else (some (tfields, []), fd)

structure SColumnFilter where
  colIdx : Nat
  colId : Nat
  type : Nat
  bytes : Nat

def nullMark (type : Nat) : Bytes :=
  match type with
  | 1 => [0x02]
  | 2 => [0x80]
  | 3 => leBytes 2 0x8000
  | 4 => leBytes 4 0x80000000
  | 5 | 9 => leBytes 8 0x8000000000000000
  | 6 => leBytes 4 0x7FF00000
  | 7 => leBytes 8 0x7FFFFF0000000000
  | 8 => [0xFF]
  | 10 => leBytes 4 0xFFFFFFFF
  | _ => leBytes 4 0x80000000

def nullStep (type bytes : Nat) : Nat :=
  if type = 8 ∨ type = 10 then bytes else (nullMark type).length

def setNullN (type bytes : Nat) : Nat -> Bytes -> Bytes
  | 0, val => val
  | numOfElems + 1, val =>
    nullMark type ++ ((val.take (nullStep type bytes)).drop (nullMark type).length
      ++ setNullN type bytes numOfElems (val.drop (nullStep type bytes)))

def fill (buffer values : Bytes) : Bytes := values ++ buffer.drop values.length

/-- The loops of `vnodeReadCompBlockToMem`: from a column on, for the remaining requested columns
and their buffers. -/
def readColumns (codec : Codec) (pBlock : SCompBlock) (fields : List SField) :
    Nat -> List SField -> List (SColumnFilter × Bytes) -> Descriptor -> Option (List Bytes)
  | _, [], requests, _ =>
    some (requests.map fun request =>
      setNullN request.1.type request.1.bytes pBlock.numOfPoints request.2)
  | _, _ :: _, [], _ => some []
  | col, field :: rest, request :: requests, fd =>
    if field.colId.toInt < request.1.colId then
      readColumns codec pBlock fields (col + 1) rest (request :: requests) fd
    else if field.colId.toInt = request.1.colId then
      match vnodeReadColumnToMem codec fd pBlock (some fields) col true with
      | (none, _) => none
      | (some (_, values), fd) =>
        (readColumns codec pBlock fields (col + 1) rest requests fd).map
          (fill request.2 values :: ·)
    else
      (readColumns codec pBlock fields col (field :: rest) requests fd).map
        (setNullN request.1.type request.1.bytes pBlock.numOfPoints request.2 :: ·)
  termination_by _ rest requests => rest.length + requests.length

def vnodeReadCompBlockToMem (codec : Codec) (dfd lfd : Bytes) (pBlock : SCompBlock)
    (colList : List (SColumnFilter × Bytes)) : Option (List Bytes) :=
  let fd : Descriptor := ⟨if pBlock.last then lfd else dfd, 0⟩
  -- the timestamp is loaded in any case
  let extra := colList.head?.any fun request => request.1.colIdx ≠ 0
  match vnodeReadColumnToMem codec fd pBlock none 0 extra with
  | (none, _) => none
  | (some (fields, _), fd) =>
    let col := if extra then 1 else 0
    readColumns codec pBlock fields col (fields.drop col) colList fd

end Luomi.Vnode.ColumnBlock
