import Luomi.Base.LittleEndian
import Luomi.Util.IntHash

/-!
# Rows of one INSERT statement on their way to the vnodes

`doParseInsertStatement` collects the rows of a clause in the data block of its
table, found through an integer hash by the table's uid; `tscMergeTableDataBlocks`
sorts every block, drops rows of equal time stamps and appends the blocks to one
message for each vgroup, again through an integer hash.  `none` stands for an
error code, a failed assertion or a read outside the hash array.
-/

namespace Luomi.Client.InsertRouting

open LittleEndian Util.IntHash

/-- The bytes of one row; the first column is the time stamp. -/
abbrev Row : Type := List UInt8

def tsKey (row : Row) : Int :=
  (wordOf 64 (row.take 8)).toInt

/-- `SMeterMeta` as far as an insertion reads it, with the meter's full name. -/
structure Table where
  name : String
  sid : BitVec 32
  sversion : BitVec 32
  uid : BitVec 64
  vgid : BitVec 32
  rowSize : Nat
  deriving DecidableEq

structure SShellSubmitBlock where
  sid : BitVec 32
  sversion : BitVec 32
  uid : BitVec 64
  numOfRows : BitVec 16
  payLoad : List UInt8

/-- `STableDataBlocks`; the data is one submit block for a table, and the blocks
behind the message head for a vnode. -/
structure STableDataBlocks (Data : Type) where
  meterId : String
  vgid : BitVec 64
  size : Nat
  prevTS : Int
  ordered : Bool
  numOfMeters : Nat
  rowSize : Nat
  pData : Data

/-- The blocks in the order of their creation, and the hash that finds them. -/
structure SDataBlockList (Data : Type) where
  hash : IHashObj Nat
  pData : List (STableDataBlocks Data)

section Blocks

variable {Data : Type}

def tscCreateDataBlockEx (rowSize startOffset : Nat) (name : String) (cleared : Data) :
    STableDataBlocks Data :=
  { meterId := name
    vgid := 0
    size := startOffset
    prevTS := -(2 ^ 63)
    ordered := true
    numOfMeters := 0
    rowSize := rowSize
    pData := cleared }

/-- The place of the id's block, which is created when there is none.  The hash
takes an `int32_t`. -/
def tscGetDataBlockFromList (blocks : SDataBlockList Data) (id : BitVec 64)
    (startOffset rowSize : Nat) (tableId : String) (cleared : Data) :
    Option (SDataBlockList Data × Nat) := do
  let key := id.truncate 32
  match <- taosGetIntHashData blocks.hash key with
  | some place => some (blocks, place)
  | none =>
    let place := blocks.pData.length
    let hash <- taosAddIntHash blocks.hash key place
    let dataBuf := tscCreateDataBlockEx rowSize startOffset tableId cleared
    some ({ hash := hash, pData := blocks.pData ++ [dataBuf] }, place)

end Blocks

def submitBlockSize : Nat := 18

def clearedBlock : SShellSubmitBlock :=
  { sid := 0, sversion := 0, uid := 0, numOfRows := 0, payLoad := [] }

/-- One parsed row at the end of the block; out of order, the time stamps are no
longer followed. -/
def tsParseOneRowData (dataBuf : STableDataBlocks SShellSubmitBlock) (row : Row) :
    STableDataBlocks SShellSubmitBlock :=
  let k := tsKey row
  { dataBuf with
    ordered := dataBuf.ordered && decide (dataBuf.prevTS < k)
    prevTS := if dataBuf.ordered then k else dataBuf.prevTS
    size := dataBuf.size + row.length
    pData := { dataBuf.pData with payLoad := dataBuf.pData.payLoad ++ row } }

/-- The rows behind VALUES; their number is an `int16_t`. -/
def tsParseValues (dataBuf : STableDataBlocks SShellSubmitBlock) (rows : List Row) :
    Option (STableDataBlocks SShellSubmitBlock × BitVec 16) :=
  let numOfRows := BitVec.ofNat 16 rows.length
  if numOfRows.toInt ≤ 0 then none
  else some (rows.foldl tsParseOneRowData dataBuf, numOfRows)

def tsSetBlockInfo (pBlocks : SShellSubmitBlock) (pMeterMeta : Table)
    (numOfRows : BitVec 16) : SShellSubmitBlock :=
  { pBlocks with
    sid := pMeterMeta.sid
    uid := pMeterMeta.uid
    sversion := pMeterMeta.sversion
    numOfRows := pBlocks.numOfRows + numOfRows }

/-- One `table VALUES (..) (..)` of the statement. -/
structure Clause where
  table : Table
  rows : List Row

def fillBlock (dataBuf : STableDataBlocks SShellSubmitBlock) (clause : Clause) :
    Option (STableDataBlocks SShellSubmitBlock) := do
  let (dataBuf, numOfRows) <- tsParseValues dataBuf clause.rows
  some
    { dataBuf with
      pData := tsSetBlockInfo dataBuf.pData clause.table numOfRows
      vgid := clause.table.vgid.signExtend 64
      numOfMeters := 1 }

def doParseInsertStatement (blocks : SDataBlockList SShellSubmitBlock) (clause : Clause) :
    Option (SDataBlockList SShellSubmitBlock) := do
  let (blocks, place) <- tscGetDataBlockFromList blocks clause.table.uid submitBlockSize
    clause.table.rowSize clause.table.name clearedBlock
  let dataBuf <- blocks.pData[place]?
  let dataBuf <- fillBlock dataBuf clause
  some { blocks with pData := blocks.pData.set place dataBuf }

def tsParseInsertStatement (clauses : List Clause) :
    Option (SDataBlockList SShellSubmitBlock) :=
  clauses.foldlM doParseInsertStatement { hash := taosInitIntHash Nat 128, pData := [] }

/-- `qsort` with `rowDataCompar`: it orders the rows by time stamp and promises
nothing about the order of equal ones. -/
structure Qsort where
  sort : List Row -> List Row
  perm : ∀ rows, (sort rows).Perm rows
  sorted : ∀ rows, (sort rows).Pairwise fun before after => tsKey before ≤ tsKey after

/-- The first `count` rows of a payload. -/
def rowsIn (rowSize : Nat) : Nat -> List UInt8 -> List Row
  | 0, _ => []
  | count + 1, payLoad => payLoad.take rowSize :: rowsIn rowSize count (payLoad.drop rowSize)

/-- The loop over the sorted rows: `i` is the last row kept, `j` the row looked at,
and `left` rows are still to be looked at. -/
def removeDuplicates : (left : Nat) -> List Row -> Nat -> Nat -> List Row × Nat
  | 0, rows, i, _ => (rows, i)
  | left + 1, rows, i, j =>
    if tsKey (rows.getD i []) = tsKey (rows.getD j []) then
      removeDuplicates left rows i (j + 1)
    else
      let nextPos := i + 1
      let rows := if nextPos ≠ j then rows.set nextPos (rows.getD j []) else rows
      removeDuplicates left rows nextPos (j + 1)

def sortRemoveDuplicates (qsort : Qsort) (dataBuf : STableDataBlocks SShellSubmitBlock) :
    Option (STableDataBlocks SShellSubmitBlock) :=
  let pBlocks := dataBuf.pData
  if pBlocks.numOfRows.toInt * dataBuf.rowSize + submitBlockSize ≠ dataBuf.size then none
  else if dataBuf.ordered then some dataBuf
  else
    let numOfRows := pBlocks.numOfRows.toInt.toNat
    let rows := qsort.sort (rowsIn dataBuf.rowSize numOfRows pBlocks.payLoad)
    let (rows, i) := removeDuplicates (numOfRows - 1) rows 0 1
    some
      { dataBuf with
        ordered := true
        size := submitBlockSize + dataBuf.rowSize * (i + 1)
        pData :=
          { pBlocks with numOfRows := BitVec.ofNat 16 (i + 1), payLoad := rows.flatten } }

def htonl (word : BitVec 32) : BitVec 32 := wordOf 32 (leBytes 4 word.toNat).reverse

def htobe64 (word : BitVec 64) : BitVec 64 := wordOf 64 (leBytes 8 word.toNat).reverse

def htons (word : BitVec 16) : BitVec 16 := wordOf 16 (leBytes 2 word.toNat).reverse

/-- The header in network byte order; `memcpy` takes the block's size only. -/
def networkBlock (dataBuf : STableDataBlocks SShellSubmitBlock) : SShellSubmitBlock :=
  { sid := htonl dataBuf.pData.sid
    uid := htobe64 dataBuf.pData.uid
    sversion := htonl dataBuf.pData.sversion
    numOfRows := htons dataBuf.pData.numOfRows
    payLoad := dataBuf.pData.payLoad.take (dataBuf.size - submitBlockSize) }

def appendBlock (qsort : Qsort) (dataBuf : STableDataBlocks (List SShellSubmitBlock))
    (pOneTableBlock : STableDataBlocks SShellSubmitBlock) :
    Option (STableDataBlocks (List SShellSubmitBlock)) := do
  let pOneTableBlock <- sortRemoveDuplicates qsort pOneTableBlock
  some
    { dataBuf with
      pData := dataBuf.pData ++ [networkBlock pOneTableBlock]
      size := dataBuf.size + pOneTableBlock.size
      numOfMeters := dataBuf.numOfMeters + 1 }

section

variable (qsort : Qsort) (tsInsertHeadSize : Nat)

def mergeTableBlock (blocks : SDataBlockList (List SShellSubmitBlock))
    (pOneTableBlock : STableDataBlocks SShellSubmitBlock) :
    Option (SDataBlockList (List SShellSubmitBlock)) := do
  let (blocks, place) <- tscGetDataBlockFromList blocks pOneTableBlock.vgid tsInsertHeadSize 0
    pOneTableBlock.meterId []
  let dataBuf <- blocks.pData[place]?
  let dataBuf <- appendBlock qsort dataBuf pOneTableBlock
  some { blocks with pData := blocks.pData.set place dataBuf }

def tscMergeTableDataBlocks (pTableDataBlockList : List (STableDataBlocks SShellSubmitBlock)) :
    Option (SDataBlockList (List SShellSubmitBlock)) :=
  pTableDataBlockList.foldlM (mergeTableBlock qsort tsInsertHeadSize)
    { hash := taosInitIntHash Nat 8, pData := [] }

def insertMessages (clauses : List Clause) :
    Option (List (STableDataBlocks (List SShellSubmitBlock))) := do
  let tables <- tsParseInsertStatement clauses
  let vnodes <- tscMergeTableDataBlocks qsort tsInsertHeadSize tables.pData
  some vnodes.pData

end

end Luomi.Client.InsertRouting
