import Luomi.Vnode.CacheRuns
import Luomi.Vnode.CommitLog
import Luomi.Vnode.CommitWindow

/-!
# Inserting rows (`vnodeInsertPoints` in `vnodeMeter.c`)

A message with rows is checked, written to the commit log, checked once more and put
into the cache row by row.  Where its first time stamp is 0 the rows get their time
stamps here, before they are logged.  The replay calls the same function with the
records of the log.

The statistics are left out, and so are the timer that starts a commit and the message
that asks for a newer schema.  Keys do not overflow.
-/

namespace Luomi.Vnode.InsertPoints

open Cache CommitWindow

def tsdbCodeActionInProgress : Int := 1

def tsdbCodeWrongMsgSize : Int := 11

def tsdbCodeNotActiveSession : Int := 20

def tsdbCodeBatchSizeTooBig : Int := 104

def tsdbCodeTimestampOutOfRange : Int := 105

def tsdbCodeInvalidCommitLog : Int := 109

def tsdbActionInsert : BitVec 8 := 0#8

/-- `TSDB_DATA_SOURCE_*`. -/
inductive Source where
  | meter
  | vnode
  | shell
  | queue
  | log
  deriving DecidableEq

@[ext] structure Point (Data : Type) where
  key : Int
  data : Data
  deriving DecidableEq

/-- `SSubmitMsg`, and what the memory holds at the places of rows around it. -/
structure SSubmitMsg (Data : Type) where
  numOfRows : BitVec 16
  payLoad : Int -> Point Data

structure LogRecord (Data : Type) where
  sid : Nat
  sversion : BitVec 32
  contLen : Int
  numOfRows : BitVec 16
  rows : List (Point Data)

/-- `SVnodeCfg`, and `pVnode->maxFiles`. -/
structure SVnodeCfg extends CacheRuns.SVnodeCfg where
  blocksPerMeter : Nat
  rowsInFileBlock : Int
  precision : Precision
  daysPerFile : Int
  maxFiles : Int

/-- `SVnodeObj`: the log has the versions of the meters, the cache the rest of them;
`records` is what the log has been told. -/
structure SVnodeObj (Data : Type) where
  cfg : SVnodeCfg
  logOpen : Bool
  log : CommitLog.SVnodeObj
  records : List (LogRecord Data)
  cache : Cache.SVnodeObj (Point Data)
  firstKey : Int
  lastKey : Int
  version : BitVec 64

section Insert

variable {Data : Type}

/-- `numOfPoints` is a `short`. -/
def SSubmitMsg.numOfPoints (msg : SSubmitMsg Data) : Int := msg.numOfRows.toInt

/-- `expectedLen`: the row count is in front of the rows. -/
def expectedLen (pObj : SMeterObj) (numOfPoints : Int) : Int :=
  numOfPoints * pObj.bytesPerPoint + 2

/-- The number of the file a key is in, an `int`. -/
def fileIdOf (cfg : SVnodeCfg) (key : Int) : Int :=
  (BitVec.ofInt 32 ((key.tdiv cfg.daysPerFile).tdiv (tsMsPerDay cfg.precision))).toInt

def ValidTimestamp (precision : Precision) (key curKey : Int) : Prop :=
  0 ≤ key ∧ key ≤ curKey + 36500 * tsMsPerDay precision

instance (precision : Precision) (key curKey : Int) : Decidable (ValidTimestamp precision key curKey) :=
  inferInstanceAs (Decidable (_ ∧ _))

def OutOfFiles (cfg : SVnodeCfg) (cfile fileId : Int) : Prop :=
  fileId ≤ cfile - cfg.maxFiles ∨ cfile + 1 < fileId

instance (cfg : SVnodeCfg) (cfile fileId : Int) : Decidable (OutOfFiles cfg cfile fileId) :=
  inferInstanceAs (Decidable (_ ∨ _))

def TooBig (cfg : SVnodeCfg) (pObj : SMeterObj) (numOfPoints : Int) : Prop :=
  ((cfg.blocksPerMeter : Int) - 2) * pObj.pointsPerBlock ≤ numOfPoints

instance (cfg : SVnodeCfg) (pObj : SMeterObj) (numOfPoints : Int) :
    Decidable (TooBig cfg pObj numOfPoints) :=
  inferInstanceAs (Decidable (_ ≤ _))

def Full (cache : Cache.SVnodeObj (Point Data)) (pObj : SMeterObj) (numOfPoints : Int) : Prop :=
  pObj.freePoints.toInt < numOfPoints ∨ pObj.freePoints.toInt < pObj.pointsPerBlock * 2 ∨
    (cache.totalBlocks : Int) - 2 < cache.pool.notFreeSlots

instance (cache : Cache.SVnodeObj (Point Data)) (pObj : SMeterObj) (numOfPoints : Int) :
    Decidable (Full cache pObj numOfPoints) :=
  inferInstanceAs (Decidable (_ ∨ _))

def stampRows : Nat -> Int -> Int -> (Int -> Point Data) -> (Int -> Point Data) × Int
  | 0, _, tsKey, payLoad => (payLoad, tsKey)
  | left + 1, i, tsKey, payLoad =>
    stampRows left (i + 1) (tsKey + 1)
      (Function.update payLoad i { payLoad i with key := tsKey })

/-- The message and `tsKey` once the time stamp is the same for all vnodes. -/
def stamped (cont : SSubmitMsg Data) (tsKey : Int) : SSubmitMsg Data × Int :=
  if (cont.payLoad 0).key = 0 then
    let (payLoad, tsKey) := stampRows cont.numOfPoints.toNat 0 tsKey cont.payLoad
    ({ cont with payLoad := payLoad }, tsKey)
  else (cont, tsKey)

def contBytes (byteOf : SSubmitMsg Data -> Nat -> UInt8) (cont : SSubmitMsg Data) (contLen : Int) :
    CommitLog.Bytes :=
  (List.range contLen.toNat).map (byteOf cont)

def recordOf (meter : CommitLog.SMeterObj) (sid : Nat) (cont : SSubmitMsg Data) (contLen : Int) :
    LogRecord Data where
  sid := sid
  sversion := meter.sversion
  contLen := contLen
  numOfRows := cont.numOfRows
  rows := (List.range cont.numOfPoints.toNat).map fun i : Nat => cont.payLoad i

/-- The part of `vnodeInsertPoints` that writes the log. -/
def writeLog (byteOf : SSubmitMsg Data -> Nat -> UInt8) (vnode : SVnodeObj Data) (sid : Nat)
    (cont : SSubmitMsg Data) (contLen : Int) (sversion : BitVec 32) :
    Option (Int × SVnodeObj Data) :=
  if vnode.logOpen then do
    let meter <- vnode.log.meterList sid
    let (code, log) <- CommitLog.vnodeWriteToCommitLog vnode.log
      ⟨meter, tsdbActionInsert, contBytes byteOf cont contLen, sversion⟩
    let wrote : Bool := code = 0 ∧ vnode.log.pWrite.isSome
    return (code, { vnode with
      log := log
      records := if wrote then vnode.records ++ [recordOf meter sid cont contLen]
        else vnode.records })
  else some (tsdbCodeInvalidCommitLog, vnode)

def insertRows (precision : Precision) (deleting : Bool) (sid : Nat) (tsKey : Int)
    (payLoad : Int -> Point Data) :
    Nat -> Int -> Int -> Cache.SVnodeObj (Point Data) ->
      Option (Int × Int × Cache.SVnodeObj (Point Data))
  | 0, _, points, cache => some (0, points, cache)
  | left + 1, i, points, cache =>
    -- meter will be dropped, abort current insertion
    if deleting then some (tsdbCodeNotActiveSession, points, cache)
    else do
      let pObj <- cache.meterList sid
      if (payLoad i).key ≤ pObj.lastKey then
        insertRows precision deleting sid tsKey payLoad left (i + 1) points cache
      else if ¬ ValidTimestamp precision (payLoad i).key tsKey then
        return (tsdbCodeTimestampOutOfRange, points, cache)
      else
        let (code, cache) <- vnodeInsertPointToCache cache sid (payLoad i)
        if code < 0 then return (tsdbCodeActionInProgress, points, cache)
        else
          let pObj <- cache.meterList sid
          insertRows precision deleting sid tsKey payLoad left (i + 1) (points + 1)
            (setMeter cache sid { pObj with lastKey := (payLoad i).key })

def countRows (vnode : SVnodeObj Data) (cache : Cache.SVnodeObj (Point Data))
    (firstKey lastKey : Int) : SVnodeObj Data :=
  { vnode with
    cache := cache
    lastKey := if vnode.lastKey < lastKey then lastKey else vnode.lastKey
    firstKey := if firstKey < vnode.firstKey then firstKey else vnode.firstKey
    version := vnode.version + 1 }

/-- What `vnodeInsertPoints` does once the log is written: its code, what it leaves in
`numOfInsertPoints` if anything, and the vnode. -/
def insertLogged (vnode : SVnodeObj Data) (sid : Nat) (cont : SSubmitMsg Data)
    (tsKey cfile : Int) (sversion : BitVec 32) : Option (Int × Option Int × SVnodeObj Data) := do
  let meter <- vnode.log.meterList sid
  if meter.sversion.toInt < sversion.toInt then
    return (tsdbCodeActionInProgress, none, vnode)
  else
    let firstKey := (cont.payLoad 0).key
    let lastKey := (cont.payLoad (cont.numOfPoints - 1)).key
    if OutOfFiles vnode.cfg cfile (fileIdOf vnode.cfg firstKey) ∨
        OutOfFiles vnode.cfg cfile (fileIdOf vnode.cfg lastKey) then
      return (tsdbCodeTimestampOutOfRange, none, vnode)
    else
      let (code, points, cache) <- insertRows vnode.cfg.precision meter.deleting sid tsKey
        cont.payLoad cont.numOfPoints.toNat 0 0 vnode.cache
      let pObj <- cache.meterList sid
      return (code, some points, countRows vnode cache firstKey pObj.lastKey)

/-- `vnodeInsertPoints` at the time `clock`. -/
def vnodeInsertPoints (byteOf : SSubmitMsg Data -> Nat -> UInt8) (clock : Int)
    (vnode : SVnodeObj Data) (sid : Nat) (cont : SSubmitMsg Data) (contLen : Int)
    (source : Source) (sversion : BitVec 32) : Option (Int × Option Int × SVnodeObj Data) := do
  let pObj <- vnode.cache.meterList sid
  if expectedLen pObj cont.numOfPoints ≠ contLen then
    return (tsdbCodeWrongMsgSize, some 0, vnode)
  else
    let cfile := fileIdOf vnode.cfg clock
    let (cont, tsKey) := stamped cont clock
    if TooBig vnode.cfg pObj cont.numOfPoints then
      return (tsdbCodeBatchSizeTooBig, none, vnode)
    else if Full vnode.cache pObj cont.numOfPoints then
      return (tsdbCodeActionInProgress, none, vnode)
    else if vnode.log.commitLog ∧ source ≠ .log then
      let (code, vnode) <- writeLog byteOf vnode sid cont contLen sversion
      if code ≠ 0 then return (code, none, vnode)
      else insertLogged vnode sid cont tsKey cfile sversion
    else insertLogged vnode sid cont tsKey cfile sversion

/-- The message the replay reads from a record; behind the rows is what the buffer
holds. -/
def recordMsg (beyond : Int -> Point Data) (record : LogRecord Data) : SSubmitMsg Data where
  numOfRows := record.numOfRows
  payLoad := fun i => if 0 ≤ i then record.rows[i.toNat]?.getD (beyond i) else beyond i

/-- The call of `vnodeRestoreDataFromLog` for a record. -/
def replayRecord (byteOf : SSubmitMsg Data -> Nat -> UInt8) (clock : Int)
    (beyond : Int -> Point Data) (vnode : SVnodeObj Data) (record : LogRecord Data) :
    Option (SVnodeObj Data) :=
  (vnodeInsertPoints byteOf clock vnode record.sid (recordMsg beyond record) record.contLen .log
    record.sversion).map fun result => result.2.2

def replayRecords (byteOf : SSubmitMsg Data -> Nat -> UInt8) (clock : Int)
    (beyond : Nat -> Int -> Point Data) :
    Nat -> List (LogRecord Data) -> SVnodeObj Data -> Option (SVnodeObj Data)
  | _, [], vnode => some vnode
  | number, record :: records, vnode => do
      let vnode <- replayRecord byteOf clock (beyond number) vnode record
      replayRecords byteOf clock beyond (number + 1) records vnode

structure Call (Data : Type) where
  sid : Nat
  cont : SSubmitMsg Data
  contLen : Int
  source : Source
  sversion : BitVec 32
  notLog : source ≠ .log

def applyCall (byteOf : SSubmitMsg Data -> Nat -> UInt8) (clock : Int) (vnode : SVnodeObj Data)
    (call : Call Data) : Option (SVnodeObj Data) :=
  (vnodeInsertPoints byteOf clock vnode call.sid call.cont call.contLen call.source
    call.sversion).map fun result => result.2.2

def applyCalls (byteOf : SSubmitMsg Data -> Nat -> UInt8) (clock : Int) :
    List (Call Data) -> SVnodeObj Data -> Option (SVnodeObj Data)
  | [], vnode => some vnode
  | call :: calls, vnode => do
      let vnode <- applyCall byteOf clock vnode call
      applyCalls byteOf clock calls vnode

structure SMeterCfg where
  sid : Nat
  sversion : BitVec 32
  numOfColumns : Nat
  bytesPerPoint : Nat
  lastKeyOnFile : Int
  deleting : Bool

/-- What a vnode is opened with; the rows are what the memory of the pool holds. -/
structure Setup (Data : Type) where
  cfg : SVnodeCfg
  meters : List SMeterCfg
  inside : ∀ meter ∈ meters, meter.sid < cfg.maxSessions
  distinct : (meters.map SMeterCfg.sid).Nodup
  firstKey : Int
  lastKey : Int
  version : BitVec 64
  rows : Nat -> Int -> Point Data

def openMeters (cfg : SVnodeCfg) :
    List SMeterCfg -> Cache.SVnodeObj (Point Data) -> Cache.SVnodeObj (Point Data)
  | [], cache => cache
  | meter :: meters, cache =>
    openMeters cfg meters (vnodeAllocateCacheInfo cache meter.sid meter.numOfColumns
      meter.bytesPerPoint meter.lastKeyOnFile cfg.rowsInFileBlock cfg.blocksPerMeter)

def logMeter (meters : List SMeterCfg) (sid : Nat) : Option CommitLog.SMeterObj :=
  (meters.find? fun meter => meter.sid = sid).map fun meter =>
    ⟨BitVec.ofNat 32 meter.sid, meter.sversion, meter.deleting⟩

/-- `pVnode->mappingSize`: half as much again as the cache. -/
def mappingSize (cfg : SVnodeCfg) : Nat := (cfg.cacheBlockSize * cfg.totalBlocks * 3 / 2).toNat

def freshVnode (setup : Setup Data) : Option (SVnodeObj Data) := do
  let log <- CommitLog.vnodeOpenCommitLog
    { maxSessions := setup.cfg.maxSessions
      commitLog := true
      meterList := logMeter setup.meters
      mappingSize := mappingSize setup.cfg
      pMem := []
      pWrite := none } none setup.version
  return {
    cfg := setup.cfg
    logOpen := true
    log := log
    records := []
    cache := openMeters setup.cfg setup.meters
      (CacheRuns.vnodeOpenCachePool setup.cfg.toSVnodeCfg setup.rows)
    firstKey := setup.firstKey
    lastKey := setup.lastKey
    version := setup.version }

end Insert

end Luomi.Vnode.InsertPoints
