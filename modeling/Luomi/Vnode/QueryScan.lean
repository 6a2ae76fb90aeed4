import Luomi.Vnode.QueryCursor

/-!
# The scan of one meter

`doScanAllDataBlocks` applies the functions of a query to one block after the
other until the range ends, the data end or the buffer for the results is full.
In the last case the next position is kept, and the scan is resumed from there
with an empty buffer.
-/

namespace Luomi.Vnode.QueryScan

open QueryBlocks QueryCursor

section

variable (query : SQuery)

def primaryKey (block : List Int) (pos : Int) : Option Int :=
  if query.keysLoaded then keyAt block pos else none

def getForwardStepsInBlock (block : List Int) : Option Int :=
  if query.keysLoaded then
    match searchFn block query.ekey query.order with
    | none => none
    | some endPos =>
      if 0 ≤ endPos then
        let forwardStep :=
          match query.order with
          | .asc => endPos - query.cursor.pos
          | .desc => query.cursor.pos - endPos
        if 0 ≤ forwardStep then
          (keyAt block endPos).map fun key =>
            if key = query.ekey then forwardStep + 1 else forwardStep
        else none
      else some 0
  else none

def reviseForwardSteps (forwardStep : Int) : Int :=
  if query.checkBufferInLoop ∧ query.hasFilters = false ∧ query.isTopBottomQuery = false then
    if query.pointsOffset ≤ forwardStep then query.pointsOffset else forwardStep
  else forwardStep

/-- Its assertions. -/
def validateQueryRangeAndData (block : List Int) : Bool :=
  let inRange (startKey : Int) : Bool :=
    match query.order with
    | .asc => query.lastKey ≤ startKey ∧ startKey ≤ query.ekey ∧ query.skey ≤ query.lastKey
    | .desc => startKey ≤ query.lastKey ∧ query.ekey ≤ startKey ∧ query.lastKey ≤ query.skey
  if query.loaded ∧ needPrimaryTimestampCol query block then
    match primaryKey query block query.cursor.pos with
    | none => false
    | some startKey => inRange startKey
  else
    let ends : Bool :=
      match query.order with
      | .asc => keyLast block ≤ query.ekey
      | .desc => query.ekey ≤ keyLast block
    ends && inRange (keyFirst block)

/-- The rows from the position on that lie in the range, and the new `lastKey`. -/
def forwardSteps (block : List Int) : Option (Int × Int) :=
  let within : Bool :=
    match query.order with
    | .asc => query.ekey < keyLast block
    | .desc => keyFirst block < query.ekey
  if within then
    match getForwardStepsInBlock query block with
    | none => none
    | some forwardStep =>
      match primaryKey query block query.cursor.pos with
      | none => none
      | some startKey =>
        if forwardStep = 0 then
          let beyond : Bool :=
            match query.order with
            | .asc => query.ekey < startKey
            | .desc => startKey < query.ekey
          if beyond then some (0, query.lastKey) else none
        else
          (primaryKey query block
            (query.cursor.pos + (forwardStep - 1) * step query.order)).map fun key =>
              (forwardStep, key + step query.order)
  else
    let forwardStep :=
      match query.order with
      | .asc => numOfPoints block - query.cursor.pos
      | .desc => query.cursor.pos + 1
    let lastKey :=
      match query.order with
      | .asc => keyLast block + step query.order
      | .desc => keyFirst block + step query.order
    if 0 < forwardStep then some (forwardStep, lastKey) else none

end

def rowsFrom (order : QueryOrder) (block : List Int) (pos : Int) : List Int :=
  match order with
  | .asc => block.drop pos.toNat
  | .desc => (block.take (pos + 1).toNat).reverse

/-- The loop of `applyAllFunctions_Filter`: how many rows it goes through, and
whether it stops because the buffer is full. -/
def filteredSteps (passes : Int -> Bool) (pointsOffset : Int) : List Int -> Int -> Nat × Bool
  | [], _ => (0, false)
  | row :: rest, numOfRes =>
    if passes row then
      if pointsOffset ≤ numOfRes + 1 then (1, true)
      else
        let (steps, full) := filteredSteps passes pointsOffset rest (numOfRes + 1)
        (steps + 1, full)
    else
      let (steps, full) := filteredSteps passes pointsOffset rest numOfRes
      (steps + 1, full)

section

variable (functions : Functions) (query : SQuery) (block : List Int)

/-- With the number of rows the functions have seen, and the new `lastKey`. -/
def applyAllFunctions (newForwardStep lastKey : Int) : Option (Int × Int × Nat) :=
  let rows := (rowsFrom query.order block query.cursor.pos).take newForwardStep.toNat
  if query.hasFilters then
    if query.checkBufferInLoop then
      let (steps, full) := filteredSteps functions.passes query.pointsOffset rows 0
      let seen := (rows.take steps).filter functions.passes
      let numOfRes := functions.numOfRes query.accessed seen
      if full then
        (primaryKey query block (query.cursor.pos + (steps - 1) * step query.order)).map
          fun key => (steps, key + step query.order, numOfRes)
      else some (newForwardStep, lastKey, numOfRes)
    else
      some (newForwardStep, lastKey,
        functions.numOfRes query.accessed (rows.filter functions.passes))
  else some (newForwardStep, lastKey, functions.numOfRes query.accessed rows)

def applyFunctionsOnBlock : Option (SQuery × Int) :=
  if validateQueryRangeAndData query block then
    match forwardSteps query block with
    | none => none
    | some (forwardStep, lastKey) =>
      let newForwardStep := reviseForwardSteps query forwardStep
      if newForwardStep ≤ forwardStep ∧ 0 ≤ newForwardStep then
        let limited :=
          if newForwardStep < forwardStep ∧ 0 < newForwardStep then
            (primaryKey query block
              (query.cursor.pos + (newForwardStep - 1) * step query.order)).map fun key =>
                key + step query.order
          else some lastKey
        match limited with
        | none => none
        | some lastKey =>
          match applyAllFunctions functions query block newForwardStep lastKey with
          | none => none
          | some (steps, lastKey, numOfRes) =>
            let pointsOffset :=
              if 0 < numOfRes ∧ query.checkBufferInLoop then query.pointsOffset - numOfRes
              else query.pointsOffset
            some ({ query with
              lastKey := lastKey
              pointsOffset := pointsOffset
              status :=
                if 0 < numOfRes ∧ query.checkBufferInLoop ∧ pointsOffset = 0 then
                  setFull query.status
                else query.status
              accessed := query.accessed ++ [{
                position := query.cursor
                rows := (rowsFrom query.order block query.cursor.pos).take steps.toNat
                applied := true }] }, steps)
      else none
  else none

def handleBlock (blockLoadStatus : LoadStatus) : Option (SQuery × Int) :=
  if 0 ≤ query.cursor.fileId ∧ blockLoadStatus = .discarded then
    some ({ query with
      accessed := query.accessed ++ [{
        position := query.cursor
        rows := rowsFrom query.order block query.cursor.pos
        applied := false }] }, numOfPoints block)
  else applyFunctionsOnBlock functions query block

end

def savePointPosition (fileId slot pos : Int) : Option SPositionInfo :=
  if -1 ≤ fileId ∧ -1 ≤ slot ∧ -1 ≤ pos then some ⟨fileId, slot, pos⟩ else none

def queryCompleteInBlock (query : SQuery) (block : List Int) (forwardStep : Int) :
    Option (SQuery × Bool) :=
  if query.status.resbufFull then
    let room : Bool :=
      match query.order with
      | .asc => forwardStep + query.cursor.pos ≤ numOfPoints block
      | .desc => 0 ≤ query.cursor.pos - forwardStep + 1
    if query.checkBufferInLoop ∧ query.status = setFull {} ∧ query.pointsOffset = 0 ∧ room then
      let complete : Bool :=
        match query.order with
        | .asc => query.ekey < query.lastKey
        | .desc => query.lastKey < query.ekey
      some (if complete then { query with status := setCompleted query.status } else query, true)
    else none
  else
    let complete : Bool :=
      match query.order with
      | .asc => query.ekey ≤ keyLast block
      | .desc => keyFirst block ≤ query.ekey
    some (if complete then { query with status := setCompleted query.status } else query, complete)

/-- The position after the last access, which is kept for a scan that goes on. -/
def saveNextPosition (meter : SMeterData) (functions : Functions) (query : SQuery)
    (block : List Int) (accessPos : Int) : Option SQuery :=
  if query.isIntervalQuery ∨ (query.status.resbufFull ∧ query.checkBufferInLoop) then
    let nextPos := accessPos + step query.order
    if numOfPoints block ≤ nextPos ∨ nextPos < 0 then
      match moveToNextBlock meter functions false query with
      | none => none
      | some (query, _) =>
        (savePointPosition query.cursor.fileId query.cursor.slot query.cursor.pos).map
          fun position => { query with nextPos := position }
    else
      (savePointPosition query.cursor.fileId query.cursor.slot nextPos).map
        fun position => { query with nextPos := position }
  else some query

/-- `false` if the next block begins behind the range. -/
def checkQueryRangeAgainstNextBlock (query : SQuery) (block : List Int) :
    Option (SQuery × Bool) :=
  let beyond : Bool :=
    match query.order with
    | .asc => query.ekey < keyFirst block
    | .desc => keyLast block < query.ekey
  if beyond then
    (savePointPosition query.cursor.fileId query.cursor.slot (firstPos query.order block)).map
      fun position =>
        ({ query with nextPos := position, status := setCompleted query.status }, false)
  else some (query, true)

def scanNextBlock (meter : SMeterData) (functions : Functions) (query : SQuery) :
    Option (SQuery × Option LoadStatus) :=
  match moveToNextBlock meter functions true query with
  | none => none
  | some (query, blockLoadStatus) =>
    if query.status.noDataToCheck ∨ query.status.completed then
      (savePointPosition query.cursor.fileId query.cursor.slot query.cursor.pos).map
        fun position =>
          ({ query with nextPos := position, status := setCompleted query.status }, none)
    else
      match getGenericDataBlock meter query.cursor with
      | none => none
      | some nextBlock =>
        match checkQueryRangeAgainstNextBlock query nextBlock with
        | none => none
        | some (query, true) => some (query, some blockLoadStatus)
        | some (query, false) => some (query, none)

/-- One round of the loop: `(query, none)` if it ends the scan, and else the
load status of the next block. -/
def scanBlock (meter : SMeterData) (functions : Functions) (query : SQuery)
    (blockLoadStatus : LoadStatus) : Option (SQuery × Option LoadStatus) :=
  match getGenericDataBlock meter query.cursor with
  | none => none
  | some block =>
    match handleBlock functions query block blockLoadStatus with
    | none => none
    | some (query, forwardStep) =>
      let accessPos := query.cursor.pos + (forwardStep - 1) * step query.order
      match savePointPosition query.cursor.fileId query.cursor.slot accessPos with
      | none => none
      | some endPos =>
        match queryCompleteInBlock { query with endPos := endPos } block forwardStep with
        | none => none
        | some (query, true) =>
          (saveNextPosition meter functions query block accessPos).map
            fun query => (query, none)
        | some (query, false) => scanNextBlock meter functions query

def scanLoop (meter : SMeterData) (functions : Functions) :
    Nat -> SQuery -> LoadStatus -> Option SQuery
  | 0, _, _ => none
  | fuel + 1, query, blockLoadStatus =>
    match scanBlock meter functions query blockLoadStatus with
    | none => none
    | some (query, none) => some query
    | some (query, some blockLoadStatus) => scanLoop meter functions fuel query blockLoadStatus

section

variable (meter : SMeterData)

def doScanAllDataBlocks (functions : Functions) (query : SQuery) : Option SQuery :=
  if query.cursor.slot = query.startPos.slot then
    scanLoop meter functions meter.blocks.length query .loaded
  else none

def loadRequiredBlockIntoMem (query : SQuery) (position : SPositionInfo) : Option (SQuery × Int) :=
  let query := { query with cursor := position }
  if position.fileId = -1 then
    if meter.pCache.numOfBlocks = 0 then
      some ({ query with status := setNoData query.status }, -1)
    else
      match getCacheDataBlock meter position.slot with
      | none => none
      | some block =>
        some ({ query with loaded := true, keysLoaded := true },
          (keyAt block position.pos).getD (-1))
  else
    match vnodeGetVnodeHeaderFileIdx meter.pHeaderFiles position.fileId query.order with
    | none => none
    | some fid =>
      match meter.pHeaderFiles[fid]? with
      | none => none
      | some file =>
        getTimestampInDiskBlock meter
          { query with cursor := { position with fileId := file.fileID } }

def vnodeScanAllData (functions : Functions) (query : SQuery) : Option SQuery :=
  doScanAllDataBlocks meter functions { query with status := {}, startPos := query.cursor }

def prepareNextScan (query : SQuery) : Option SQuery :=
  match loadRequiredBlockIntoMem meter query query.nextPos with
  | none => none
  | some (query, nextTimestamp) =>
    if 0 < nextTimestamp ∨ (nextTimestamp < 0 ∧ query.status.noDataToCheck) then
      some { query with pointsOffset := query.pointsToRead }
    else none

end

def Suspended (query : SQuery) : Prop :=
  query.status.resbufFull = true ∧ query.status.completed = false ∧
    query.status.noDataToCheck = false

instance (query : SQuery) : Decidable (Suspended query) :=
  inferInstanceAs (Decidable (_ ∧ _ ∧ _))

end Luomi.Vnode.QueryScan
