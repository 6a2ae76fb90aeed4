import Luomi.Edb.Database

/-!
# Queries of the embedded database (`query.c`)

A query is a cursor over files, blocks and rows; the log comes last in ascending
order and first in descending order.  Blocks are found through the index file of
an hour range, whose size is divided by the size of a bare `INDEX` although its
entries are longer: the entries behind the end read as zeros.

The descriptors of a query are identified with the file index they were opened
for.  `indexPos` is the entry at which the next `read` starts, which matters
when `lseek` to a negative position fails and leaves it where it was.
-/

namespace Luomi.Edb.Cursor

open Database

inductive BlockType where
  | none
  | left
  | right
  | equal
  | leftCross
  | contained
  | containing
  | rightCross

def BlockType.toNat : BlockType -> Nat
  | .none => 0
  | .left => 1
  | .right => 2
  | .equal => 3
  | .leftCross => 4
  | .contained => 5
  | .containing => 6
  | .rightCross => 7

def getBlockType (dataStart dataEnd targetStart targetEnd : Int) : BlockType :=
  if dataStart > dataEnd ∨ targetStart > targetEnd then .none
  else if dataStart = targetStart ∨ dataEnd = targetEnd then .none
  else if dataEnd < targetStart then .left
  else if dataStart > targetEnd then .right
  else if dataEnd ≤ targetEnd then
    if dataStart < targetStart then .leftCross else .contained
  else if dataStart ≤ targetStart then .containing
  else .rightCross

inductive Order where
  | asc
  | desc
  deriving DecidableEq

/-- `ORDER_ASC` and `ORDER_DESC` as the numbers added to an index. -/
def Order.step : Order -> Int
  | .asc => 1
  | .desc => -1

def Order.past (order : Order) (index finish : Int) : Bool :=
  match order with
  | .asc => index > finish
  | .desc => index < finish

variable {α : Type}

structure Query (α : Type) where
  startTimestamp : Int
  endTimestamp : Int
  order : Order
  logChecked : Bool
  startFileIndex : Int
  endFileIndex : Int
  curFileIndex : Int
  startBlockIndex : Int
  endBlockIndex : Int
  curBlockIndex : Int
  rowCount : Nat
  startDataIndex : Int
  endDataIndex : Int
  curDataIndex : Int
  indexFd : Option Int
  indexPos : Nat
  buf : List (Row α)

/-- `open_query` once both times are parsed; division by zero ends the process. -/
def openQuery (db : Db α) (startTime endTime : Int) (order : Order) : Option (Query α) := do
  let endTimestamp := if endTime > startTime then endTime else startTime
  let startTimestamp := if startTime < endTime then startTime else endTime
  let endFile <- fileIndex db.head endTimestamp
  let startFile <- fileIndex db.head startTimestamp
  return {
    startTimestamp := startTimestamp
    endTimestamp := endTimestamp
    order := order
    logChecked := false
    startFileIndex := if order = .asc then startFile else endFile
    endFileIndex := if order = .asc then endFile else startFile
    curFileIndex := -1
    startBlockIndex := 0
    endBlockIndex := 0
    curBlockIndex := -1
    rowCount := 0
    startDataIndex := 0
    endDataIndex := 0
    curDataIndex := -1
    indexFd := none
    indexPos := 0
    buf := [] }

/-- The loop of `binary_search`; fuel bounds the number of halvings by the number
of rows. -/
def searchLoop (data : List Int) (key : Int) (isStart : Bool) :
    Nat -> Int -> Int -> Int -> Int -> Int
  | 0, _, _, start, finish => if isStart then start else finish
  | fuel + 1, low, high, start, finish =>
    if low ≤ high then
      let center := (low + high).tdiv 2
      let value := data.getD center.toNat 0
      if value = key then center
      else if value > key then searchLoop data key isStart fuel low (center - 1) center finish
      else searchLoop data key isStart fuel (center + 1) high start center
    else if isStart then start else finish

/-- `binary_search`.  Its variables `start` and `end` have no initial value: they
hold whatever `uninit` is. -/
def binarySearch (uninit : Int) (data : List Int) (key : Int) (count : Nat) (isStart : Bool) :
    Int :=
  searchLoop data key isStart count 0 (count - 1) uninit uninit

def timestamps (rows : List (Row α)) : List Int := rows.map Row.timestamp

/-- The lower and the upper index of the rows of a block; the types that do not
pass leave the indexes as they are. -/
def dataWindow (uninit : Int) (query : Query α) (type : BlockType) : Int × Int :=
  let search := fun key isStart =>
    binarySearch uninit (timestamps query.buf) key query.rowCount isStart
  let last : Int := query.rowCount - 1
  match type with
  | .equal | .contained => (0, last)
  | .leftCross => (search query.startTimestamp true, last)
  | .rightCross => (0, search query.endTimestamp false)
  | .containing => (search query.startTimestamp true, search query.endTimestamp false)
  | .none | .left | .right =>
    if query.order = .asc then (query.startDataIndex, query.endDataIndex)
    else (query.endDataIndex, query.startDataIndex)

def setDataIndex (uninit : Int) (query : Query α) (type : BlockType) : Query α :=
  let indexes := dataWindow uninit query type
  let startIndex := if query.order = .asc then indexes.1 else indexes.2
  let endIndex := if query.order = .asc then indexes.2 else indexes.1
  { query with
    startDataIndex := startIndex, endDataIndex := endIndex, curDataIndex := startIndex }

/-- `curBlockIndex += order`. -/
def stepBlock (query : Query α) : Query α :=
  { query with curBlockIndex := query.curBlockIndex + query.order.step }

/-- `curFileIndex += order`. -/
def stepFile (query : Query α) : Query α :=
  { query with curFileIndex := query.curFileIndex + query.order.step }

/-- `curFileIndex = startFileIndex`. -/
def atFirstFile (query : Query α) : Query α :=
  { query with curFileIndex := query.startFileIndex }

def indexFile (db : Db α) (file : Int) : List (Block α) :=
  (db.written.filter fun entry => entry.1 = some file).map Prod.snd

def sizeofIndex : Nat := 40

/-- The entry the next `read` starts at: `lseek` to a negative position fails. -/
def readAt (query : Query α) : Nat :=
  if 0 ≤ query.curBlockIndex then query.curBlockIndex.toNat else query.indexPos

/-- `check_block`: its return code and the query.  An entry of zeros has columns
of length 0, which fail the checksum test. -/
def checkBlock (uninit : Int) (codec : Codec α) (db : Db α) (query : Query α) :
    Int × Query α :=
  match query.indexFd with
  | none => (-1, query)
  | some file =>
    let pos := readAt query
    match (indexFile db file)[pos]? with
    | none =>
      let type := getBlockType 0 0 query.startTimestamp query.endTimestamp
      (if type.toNat < BlockType.equal.toNat then -1 else -3, { query with indexPos := pos })
    | some block =>
      let query := { query with indexPos := pos + 1 }
      let type := getBlockType block.startTimestamp block.endTimestamp
        query.startTimestamp query.endTimestamp
      if type.toNat < BlockType.equal.toNat then (-1, query)
      else
        let rows := codec.restored db.head.compressType block.rows
        let query := { query with
          buf := rows ++ query.buf.drop rows.length, rowCount := block.rowCount }
        (0, setDataIndex uninit query type)

def checkLog (uninit : Int) (db : Db α) (query : Query α) : Int × Query α :=
  let query := { query with logChecked := true }
  let type := getBlockType db.head.startTimestamp db.head.endTimestamp
    query.startTimestamp query.endTimestamp
  if type.toNat < BlockType.equal.toNat then (-1, query)
  else
    let query := { query with buf := db.logData, rowCount := db.head.curRowCount }
    (0, setDataIndex uninit query type)

def resetBlocks (query : Query α) : Query α :=
  { query with startBlockIndex := -1, endBlockIndex := -1, curBlockIndex := -1 }

/-- The loop of `searchBlockIndex`; fuel counts the entries up to
`endBlockIndex`. -/
def searchBlocks (uninit : Int) (codec : Codec α) (db : Db α) :
    Nat -> Query α -> Int × Query α
  | 0, query => (-1, resetBlocks query)
  | fuel + 1, query =>
    if query.order.past query.curBlockIndex query.endBlockIndex then
      (-1, resetBlocks query)
    else
      let result := checkBlock uninit codec db query
      if result.1 = 0 then (0, result.2)
      else searchBlocks uninit codec db fuel (stepBlock result.2)

def distance (order : Order) (index finish : Int) : Nat :=
  ((finish - index) * order.step + 1).toNat

def searchBlockIndex (uninit : Int) (codec : Codec α) (db : Db α) (query : Query α) :
    Int × Query α :=
  searchBlocks uninit codec db
    (distance query.order query.curBlockIndex query.endBlockIndex) query

/-- The file of the log's first row; `open_query` has divided by the same number
before. -/
def logFile (db : Db α) : Int :=
  db.head.startTimestamp.tdiv (db.head.hoursPerFile * gMillisecondOfHour)

/-- `st_size / sizeof(INDEX) - 1`. -/
def lastEntry (db : Db α) (file : Int) : Int :=
  ((indexFile db file).length * (sizeofIndex + 4 * db.head.colCount) / sizeofIndex : Nat) - 1

def enterFile (db : Db α) (query : Query α) : Query α :=
  let last := lastEntry db query.curFileIndex
  let startIndex := if query.order = .asc then 0 else last
  { query with
    startBlockIndex := startIndex
    endBlockIndex := if query.order = .asc then last else 0
    curBlockIndex := startIndex
    indexFd := some query.curFileIndex
    indexPos := 0 }

def visited (db : Db α) : Db α := { db with curFileIndex := logFile db }

/-- `checkFile`.  It assigns the file index of the database handle.  Where the
file does not exist but would be the one of the log, the search goes on with the
descriptors the query has. -/
def checkFile (uninit : Int) (codec : Codec α) (db : Db α) (query : Query α) :
    Int × Db α × Query α :=
  let db := visited db
  if query.curFileIndex ∉ db.opened ∧ query.curFileIndex ≠ db.curFileIndex then
    (-1, db, resetBlocks query)
  else
    let result := searchBlockIndex uninit codec db
      (if query.curFileIndex ∈ db.opened then enterFile db query else resetBlocks query)
    (if result.1 = 0 then 0 else -1, db, result.2)

/-- The loop of `searchFileIndex`; fuel counts the files up to `endFileIndex`. -/
def searchFiles (uninit : Int) (codec : Codec α) :
    Nat -> Db α -> Query α -> Int × Db α × Query α
  | 0, db, query => (-1, db, query)
  | fuel + 1, db, query =>
    if query.order.past query.curFileIndex query.endFileIndex then (-1, db, query)
    else
      let result := checkFile uninit codec db query
      if result.1 = 0 then (0, result.2)
      else searchFiles uninit codec fuel result.2.1 (stepFile result.2.2)

def searchFileIndex (uninit : Int) (codec : Codec α) (db : Db α) (query : Query α) :
    Int × Db α × Query α :=
  searchFiles uninit codec (distance query.order query.curFileIndex query.endFileIndex) db query

/-- `check_log` if it is still due in the given order. -/
def dueLog (uninit : Int) (order : Order) (db : Db α) (query : Query α) : Int × Query α :=
  if query.order = order ∧ query.logChecked = false then checkLog uninit db query
  else (-1, query)

def firstFile (uninit : Int) (codec : Codec α) (db : Db α) (query : Query α) :
    Int × Db α × Query α :=
  if query.curDataIndex = -1 ∧ query.curFileIndex = -1 then
    searchFileIndex uninit codec db (atFirstFile query)
  else (-1, db, query)

def leaveRows (query : Query α) : Query α :=
  { query with curDataIndex := -1, startDataIndex := -1, endDataIndex := -1 }

def nextBlock (uninit : Int) (codec : Codec α) (db : Db α) (query : Query α) :
    Int × Db α × Query α :=
  if query.curDataIndex ≠ -1 ∧ query.curDataIndex = query.endDataIndex then
    let query := leaveRows query
    if query.curFileIndex = -1 then
      searchFileIndex uninit codec db (atFirstFile query)
    else
      let result := searchBlockIndex uninit codec db (stepBlock query)
      if result.1 = 0 then (0, db, result.2)
      else searchFileIndex uninit codec db (stepFile result.2)
  else (-1, db, query)

def toRow (query : Query α) (index : Int) : Query α := { query with curDataIndex := index }

/-- The end of `move_next`: the next row of the buffer or the log. -/
def nextRow (uninit : Int) (db : Db α) (query : Query α) : Int × Query α :=
  if query.curDataIndex ≠ -1 then
    (0, toRow query (query.curDataIndex + query.order.step))
  else
    let log := dueLog uninit .asc db query
    if log.1 = 0 then (0, log.2) else (-1, log.2)

def moveNext (uninit : Int) (codec : Codec α) (db : Db α) (query : Query α) :
    Int × Db α × Query α :=
  let log := dueLog uninit .desc db query
  if log.1 = 0 then (0, db, log.2)
  else
    let first := firstFile uninit codec db log.2
    if first.1 = 0 then (0, first.2)
    else
      let next := nextBlock uninit codec first.2.1 first.2.2
      if next.1 = 0 then (0, next.2)
      else
        let row := nextRow uninit next.2.1 next.2.2
        (row.1, next.2.1, row.2)

/-- The row `fetch_col` gives the columns of, if the index lies in the buffer. -/
def fetch (query : Query α) : Option (Row α) :=
  if 0 ≤ query.curDataIndex then query.buf[query.curDataIndex.toNat]? else none

end Luomi.Edb.Cursor
