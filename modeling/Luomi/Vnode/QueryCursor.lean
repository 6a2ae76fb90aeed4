import Luomi.Vnode.Import
import Luomi.Vnode.QueryBlocks

/-!
# The cursor of a query on one meter

A query reads the rows of a meter block by block: the blocks of its files, which
stand in the files one after the other, and the blocks of its cache, which stand
in a ring.  The cursor is a file, or -1 for the cache, a slot and a position, and
it moves to newer or to older rows.

The meter is at rest: no row comes in and no block leaves the cache during the
query.  A row is its key.  An assertion that fails, an access outside a block or
a missing block is `none`.
-/

namespace Luomi.Vnode.QueryCursor

open QueryBlocks

structure SQueryFileInfo where
  fileID : Int
  blocks : List (List Int)

structure SCacheInfo where
  maxBlocks : Nat
  numOfBlocks : Nat
  currentSlot : Nat
  cacheBlocks : Nat -> List Int

def getFirstCacheSlot (pCache : SCacheInfo) : Nat :=
  (pCache.currentSlot + pCache.maxBlocks + 1 - pCache.numOfBlocks) % pCache.maxBlocks

def SCacheInfo.blocks (pCache : SCacheInfo) : List (List Int) :=
  (List.range pCache.numOfBlocks).map fun i =>
    pCache.cacheBlocks ((getFirstCacheSlot pCache + i) % pCache.maxBlocks)

structure SMeterData where
  pHeaderFiles : List SQueryFileInfo
  pCache : SCacheInfo
  /-- The time one file spans. -/
  delta : Int

def blocksIn (files : List SQueryFileInfo) : List (List Int) :=
  files.flatMap SQueryFileInfo.blocks

def SMeterData.blocks (meter : SMeterData) : List (List Int) :=
  blocksIn meter.pHeaderFiles ++ meter.pCache.blocks

structure SMeterObj extends SMeterData where
  ordered : pHeaderFiles.Pairwise fun before after => before.fileID < after.fileID
  numbered : ∀ file ∈ pHeaderFiles, 0 ≤ file.fileID
  deltaPos : 0 < delta
  inFile : ∀ file ∈ pHeaderFiles, ∀ key ∈ file.blocks.flatten, key / delta = file.fileID
  room : pCache.numOfBlocks ≤ pCache.maxBlocks
  inRing : pCache.currentSlot < pCache.maxBlocks
  some_ : ∀ block ∈ toSMeterData.blocks, block ≠ []
  increasing : toSMeterData.blocks.flatten.Pairwise (· < ·)
  positive : ∀ key ∈ toSMeterData.blocks.flatten, 0 < key

structure SPositionInfo where
  fileId : Int
  slot : Int
  pos : Int
  deriving DecidableEq

/-- `pQuery->over`; with no flag it is `QUERY_NOT_COMPLETED`. -/
structure QueryStatus where
  resbufFull : Bool := false
  completed : Bool := false
  noDataToCheck : Bool := false
  deriving DecidableEq

/-- One block the query has looked at, from a position on; `applied` is false
where the block was turned down by the statistics of its columns. -/
structure Access where
  position : SPositionInfo
  rows : List Int
  applied : Bool
  deriving DecidableEq

/-- A query with its runtime environment; `loaded` says that the data of the
current block are there, `keysLoaded` that its keys are. -/
structure SQuery where
  order : QueryOrder
  skey : Int
  ekey : Int
  lastKey : Int
  cursor : SPositionInfo
  status : QueryStatus := {}
  hasFilters : Bool
  isTopBottomQuery : Bool
  requireTimestamp : Bool
  isIntervalQuery : Bool
  checkBufferInLoop : Bool
  pointsToRead : Int
  pointsOffset : Int
  loaded : Bool := true
  keysLoaded : Bool := true
  startPos : SPositionInfo
  endPos : SPositionInfo
  nextPos : SPositionInfo
  accessed : List Access := []
  deriving DecidableEq

def setFull (status : QueryStatus) : QueryStatus := { status with resbufFull := true }

def setCompleted (status : QueryStatus) : QueryStatus := { status with completed := true }

def setNoData (status : QueryStatus) : QueryStatus := { status with noDataToCheck := true }

/-- `GET_FORWARD_DIRECTION_FACTOR`. -/
def step (order : QueryOrder) : Int :=
  match order with
  | .asc => 1
  | .desc => -1

def IS_DISK_DATA_BLOCK (query : SQuery) : Bool := 0 ≤ query.cursor.fileId

def keyFirst (block : List Int) : Int := block.headD 0

def keyLast (block : List Int) : Int := block.getLastD 0

def numOfPoints (block : List Int) : Int := block.length

def keyAt (block : List Int) (pos : Int) : Option Int :=
  if 0 ≤ pos then block[pos.toNat]? else none

def firstPos (order : QueryOrder) (block : List Int) : Int :=
  match order with
  | .asc => 0
  | .desc => numOfPoints block - 1

def searchFn (block : List Int) (key : Int) (order : QueryOrder) : Option Int :=
  Import.vnodeBinarySearchKey (fun pos => block.getD pos.toNat 0) block.length key
    (decide (order = .asc))

section

variable (meter : SMeterData)

def blocksOf (fileId : Int) : List (List Int) :=
  ((meter.pHeaderFiles.find? fun file => file.fileID = fileId).map SQueryFileInfo.blocks).getD []

def getDiskDataBlock (fileId slot : Int) : Option (List Int) :=
  if 0 ≤ fileId ∧ 0 ≤ slot then (blocksOf meter fileId)[slot.toNat]? else none

def getCacheDataBlock (slot : Int) : Option (List Int) :=
  if 0 ≤ slot ∧ slot < meter.pCache.maxBlocks then
    let block := meter.pCache.cacheBlocks slot.toNat
    if block = [] then none else some block
  else none

def getGenericDataBlock (position : SPositionInfo) : Option (List Int) :=
  if 0 ≤ position.fileId then getDiskDataBlock meter position.fileId position.slot
  else getCacheDataBlock meter position.slot

end

def headerFileDown (files : List SQueryFileInfo) (fid : Int) : Nat -> Option Nat
  | 0 => none
  | i + 1 =>
    match files[i]? with
    | none => none
    | some file => if file.fileID ≤ fid then some i else headerFileDown files fid i

def vnodeGetVnodeHeaderFileIdx (files : List SQueryFileInfo) (fid : Int) (order : QueryOrder) :
    Option Nat :=
  match order with
  | .asc => files.findIdx? fun file => fid ≤ file.fileID
  | .desc => headerFileDown files fid files.length

def getNextDataFileCompInfo (meter : SMeterData) (order : QueryOrder) : Nat -> Int -> Option Int
  | 0, _ => none
  | fuel + 1, fileId =>
    match vnodeGetVnodeHeaderFileIdx meter.pHeaderFiles (fileId + step order) order with
    | none => some (-1)
    | some fid =>
      match meter.pHeaderFiles[fid]? with
      | none => none
      | some file =>
        if file.blocks ≠ [] then some file.fileID
        else if order = .desc ∧ fid = 0 then some (-1)
        else getNextDataFileCompInfo meter order fuel file.fileID

def nextFile (meter : SMeterData) (order : QueryOrder) (fileId : Int) : Option Int :=
  getNextDataFileCompInfo meter order (meter.pHeaderFiles.length + 1) fileId

def compBlock (block : List Int) : SCompBlock where
  keyFirst := keyFirst block
  keyLast := keyLast block
  offset := 0
  last := false

def binarySearchForBlock (blocks : List (List Int)) (key : Int) (order : QueryOrder) :
    Option Nat :=
  binarySearchForBlockImpl (blocks.map compBlock) blocks.length key order

def qualifiedFile (meter : SMeterData) (order : QueryOrder) (key : Int) :
    Nat -> Int -> Option (Option (Int × Nat))
  | 0, _ => none
  | fuel + 1, fileId =>
    match nextFile meter order fileId with
    | none => none
    | some fileId =>
      if fileId < 0 then some none
      else
        match binarySearchForBlock (blocksOf meter fileId) key order with
        | none => none
        | some blkIdx =>
          match (blocksOf meter fileId)[blkIdx]? with
          | none => none
          | some block =>
            let reached : Bool :=
              match order with
              | .asc => key ≤ keyLast block
              | .desc => keyFirst block ≤ key
            if reached then some (some (fileId, blkIdx))
            else qualifiedFile meter order key fuel fileId

def getFileIdFromKey (meter : SMeterData) (key : Int) : Int := key.tdiv meter.delta

/-- The first row from `lastKey` on in the files; `some (query, false)` if there is none. -/
def getQualifiedDataBlock (meter : SMeterData) (query : SQuery) : Option (SQuery × Bool) :=
  match qualifiedFile meter query.order query.lastKey (meter.pHeaderFiles.length + 1)
      (getFileIdFromKey meter query.lastKey - step query.order) with
  | none => none
  | some none => some ({ query with cursor := ⟨-1, -1, query.cursor.pos⟩ }, false)
  | some (some (fileId, blkIdx)) =>
    match getDiskDataBlock meter fileId blkIdx with
    | none => none
    | some block =>
      match searchFn block query.lastKey query.order with
      | none => none
      | some pos =>
        if 0 ≤ pos then
          some ({ query with
            cursor := ⟨fileId, blkIdx, pos⟩
            loaded := true
            keysLoaded := true }, true)
        else none

def cacheSearch (pCache : SCacheInfo) (order : QueryOrder) (skey : Int) :
    Nat -> Nat -> Nat -> Option Nat
  | 0, _, _ => none
  | fuel + 1, firstSlot, lastSlot =>
    let count := (lastSlot + 1 + pCache.maxBlocks - firstSlot) % pCache.maxBlocks
    let numOfBlocks := if count = 0 then pCache.maxBlocks else count
    let midSlot := (firstSlot + numOfBlocks / 2) % pCache.maxBlocks
    let block := pCache.cacheBlocks midSlot
    if numOfBlocks = 1 then some midSlot
    else if skey > keyLast block then
      if numOfBlocks = 2 then some midSlot
      else
        let nextSlot := (midSlot + 1) % pCache.maxBlocks
        if order = .desc ∧ skey < keyFirst (pCache.cacheBlocks nextSlot) then some midSlot
        else cacheSearch pCache order skey fuel nextSlot lastSlot
    else if skey < keyFirst block then
      let prevSlot := (midSlot + pCache.maxBlocks - 1) % pCache.maxBlocks
      if order = .asc ∧ skey > keyLast (pCache.cacheBlocks prevSlot) then some midSlot
      else cacheSearch pCache order skey fuel firstSlot prevSlot
    else some midSlot

def binarySearchInCacheBlk (pCache : SCacheInfo) (order : QueryOrder) (skey : Int) : Option Nat :=
  cacheSearch pCache order skey (pCache.maxBlocks + 1) (getFirstCacheSlot pCache)
    pCache.currentSlot

section

variable (meter : SMeterData) (query : SQuery)

def getQueryStartPositionInCache : Option (SQuery × Int) :=
  let query := { query with cursor := { query.cursor with fileId := -1 } }
  if meter.pCache.numOfBlocks = 0 then
    some ({ query with status := setNoData query.status }, -1)
  else if (query.order = .asc ∧ query.skey ≤ query.lastKey) ∨
      (query.order = .desc ∧ query.lastKey ≤ query.skey) then
    match binarySearchInCacheBlk meter.pCache query.order query.lastKey with
    | none => none
    | some slot =>
      let block := meter.pCache.cacheBlocks slot
      match searchFn block query.lastKey query.order with
      | none => none
      | some pos =>
        let query := { query with cursor := ⟨-1, slot, pos⟩ }
        if pos = -1 then some (query, -1)
        else
          match keyAt block pos with
          | none => none
          | some nextKey =>
            if (query.order = .asc ∧ nextKey < query.lastKey) ∨
                (query.order = .desc ∧ query.lastKey < nextKey) then some (query, -1)
            else some ({ query with loaded := true, keysLoaded := true }, nextKey)
  else none

def getFirstDataBlockInCache : Option SQuery :=
  if query.cursor.fileId = -1 ∧ query.order = .asc then
    match getQueryStartPositionInCache meter query with
    | none => none
    | some (query, nextTimestamp) =>
      if nextTimestamp < 0 then some { query with status := setNoData query.status }
      else if nextTimestamp > query.ekey then some { query with status := setCompleted query.status }
      else some query
  else none

def getTimestampInDiskBlock : Option (SQuery × Int) :=
  match getDiskDataBlock meter query.cursor.fileId query.cursor.slot with
  | none => none
  | some block =>
    match keyAt block query.cursor.pos with
    | none => none
    | some key => some ({ query with loaded := true, keysLoaded := true }, key)

def moveToNextBlockInCache : Option SQuery :=
  if query.order = .asc ∧ query.cursor.slot = meter.pCache.currentSlot then
    some { query with status := setNoData query.status }
  else if query.order = .desc ∧ query.cursor.slot = getFirstCacheSlot meter.pCache then
    match getQualifiedDataBlock meter query with
    | none => none
    | some (query, false) => some { query with status := setNoData query.status }
    | some (query, true) =>
      match getTimestampInDiskBlock meter query with
      | none => none
      | some (query, key) =>
        if query.startPos.fileId < 0 then
          if key < query.ekey then some { query with status := setCompleted query.status }
          else some query
        else none
  else
    let slot := (query.cursor.slot + step query.order + meter.pCache.maxBlocks) %
      meter.pCache.maxBlocks
    match getCacheDataBlock meter slot with
    | none => none
    | some block =>
      let pos := firstPos query.order block
      match keyAt block pos with
      | none => none
      | some startkey =>
        some { query with
          cursor := ⟨query.cursor.fileId, slot, pos⟩
          status := if startkey < 0 then setCompleted query.status else query.status
          loaded := true
          keysLoaded := true }

end

/-- What the functions ask of a block that is wholly in the range. -/
inductive Demand where
  | notNeeded
  | discarded
  | needed

/-- `DISK_DATA_LOADED` and `DISK_DATA_DISCARDED`. -/
inductive LoadStatus where
  | loaded
  | discarded
  deriving DecidableEq

/-- The functions of a query: what they ask of a block after the accesses so far,
the rows that pass the filters, and the results they add when they see rows. -/
structure Functions where
  demand : List Access -> List Int -> Demand
  passes : Int -> Bool
  numOfRes : List Access -> List Int -> Nat

section

variable (query : SQuery) (block : List Int)

def needPrimaryTimestampCol : Bool :=
  (keyFirst block ≤ query.lastKey ∧ query.lastKey ≤ keyLast block) ∨
    (keyFirst block ≤ query.ekey ∧ query.ekey ≤ keyLast block) ∨
    query.requireTimestamp

/-- The block lies wholly between `lastKey` and `ekey`. -/
def isCovered : Bool :=
  match query.order with
  | .asc => query.lastKey ≤ keyFirst block ∧ keyLast block ≤ query.ekey
  | .desc => query.ekey ≤ keyFirst block ∧ keyLast block ≤ query.lastKey

def loadAll : Option (SQuery × LoadStatus) :=
  let loadTS := needPrimaryTimestampCol query block
  let query := { query with loaded := true, keysLoaded := loadTS }
  let inOrder := (query.order = .asc ∧ query.skey ≤ query.lastKey) ∨
    (query.order = .desc ∧ query.ekey ≤ query.lastKey)
  if loadTS then
    match searchFn block query.lastKey query.order with
    | none => none
    | some pos =>
      if inOrder then
        some ({ query with cursor := { query.cursor with pos := pos } }, .loaded)
      else none
  else if inOrder then some (query, .loaded)
  else none

end

def LoadDatablockOnDemand (functions : Functions) (query : SQuery) (block : List Int)
    (slotIdx : Int) : Option (SQuery × LoadStatus) :=
  let query := { query with
    cursor := ⟨query.cursor.fileId, slotIdx, firstPos query.order block⟩
    loaded := false
    keysLoaded := false }
  if isCovered query block then
    match functions.demand query.accessed block with
    | .notNeeded => some (query, .loaded)
    | .discarded => some (query, .discarded)
    | .needed => loadAll query block
  else loadAll query block

/-- In the order from new to old the first position is read off the block at
the slot that was left. -/
def moveInFiles (meter : SMeterData) (query : SQuery) : Option (Option SPositionInfo) :=
  let cursor := query.cursor
  let blocks := blocksOf meter cursor.fileId
  if (query.order = .asc ∧ cursor.slot = blocks.length - 1) ∨
      (query.order = .desc ∧ cursor.slot = 0) then
    match nextFile meter query.order cursor.fileId with
    | none => none
    | some fileId =>
      if fileId < 0 then some none
      else
        let blocks := blocksOf meter fileId
        match query.order with
        | .asc => some (some ⟨fileId, 0, 0⟩)
        | .desc =>
          match getDiskDataBlock meter fileId cursor.slot with
          | none => none
          | some old => some (some ⟨fileId, blocks.length - 1, numOfPoints old - 1⟩)
  else
    let slot := cursor.slot + step query.order
    match getDiskDataBlock meter cursor.fileId slot with
    | none => none
    | some block => some (some ⟨cursor.fileId, slot, firstPos query.order block⟩)

def moveToNextBlock (meter : SMeterData) (functions : Functions) (loadData : Bool)
    (query : SQuery) : Option (SQuery × LoadStatus) :=
  let query := { query with loaded := false, keysLoaded := false }
  if 0 ≤ query.cursor.fileId then
    match moveInFiles meter query with
    | none => none
    | some none =>
      let query := { query with cursor := { query.cursor with fileId := -1 } }
      match query.order with
      | .asc => (getFirstDataBlockInCache meter query).map fun query => (query, .loaded)
      | .desc => some ({ query with status := setNoData query.status }, .loaded)
    | some (some cursor) =>
      let query := { query with cursor := cursor }
      match getDiskDataBlock meter cursor.fileId cursor.slot with
      | none => none
      | some block =>
        if loadData then LoadDatablockOnDemand functions query block cursor.slot
        else some (query, .loaded)
  else (moveToNextBlockInCache meter query).map fun query => (query, .loaded)

end Luomi.Vnode.QueryCursor
