import Luomi.Vnode.CommitFile
import Mathlib.Data.BitVec

/-!
# The meter object file (`vnodeMeter.c`)

The file of a vnode has an index with the offset and the length of a record for each
session.  A record is the memory of a `SMeterObj` up to `reserved`, its schema, its SQL
text and a check sum.  A record is written at the end of the file or over an older one;
the offset of a meter without a name is negative.

The packing of the structs is left out, and so are the texts and numbers in the first 512
bytes of the file.  Whether a meter may be deleted or updated, and whether there is memory
for its cache, comes from outside.  Offsets do not overflow.
-/

namespace Luomi.Vnode.MeterObjFile

open LittleEndian MemoryCells
open Luomi.Vnode.CommitFile (Bytes crc32c tsdbFileHeaderLen sizeofChksum)

def tsdbMeterIdLen : Nat := 117

def tsdbMaxColumns : Nat := 256

def tsdbMaxSavedSqlLen : Nat := 4096

structure SColumn where
  colId : BitVec 16
  bytes : BitVec 16
  type : BitVec 8

/-- The fields of `SMeterObj` up to `reserved`. -/
structure SavedObj where
  uid : BitVec 64
  meterId : Bytes
  sid : BitVec 32
  vnode : BitVec 16
  numOfColumns : BitVec 16
  bytesPerPoint : BitVec 16
  maxBytes : BitVec 16
  pointsPerBlock : BitVec 32
  pointsPerFileBlock : BitVec 32
  freePoints : BitVec 32
  lastKey : BitVec 64
  lastKeyOnFile : BitVec 64
  timeStamp : BitVec 64
  commitCount : BitVec 64
  sversion : BitVec 32
  sqlLen : BitVec 16
  algorithms : BitVec 8
  status : BitVec 8

structure SMeterObj where
  saved : SavedObj
  schema : List SColumn
  pSql : Bytes

def savedBytes (saved : SavedObj) : Bytes :=
  leBytes 8 saved.uid.toNat ++ saved.meterId ++ leBytes 4 saved.sid.toNat ++
    leBytes 2 saved.vnode.toNat ++ leBytes 2 saved.numOfColumns.toNat ++
    leBytes 2 saved.bytesPerPoint.toNat ++ leBytes 2 saved.maxBytes.toNat ++
    leBytes 4 saved.pointsPerBlock.toNat ++ leBytes 4 saved.pointsPerFileBlock.toNat ++
    leBytes 4 saved.freePoints.toNat ++ leBytes 8 saved.lastKey.toNat ++
    leBytes 8 saved.lastKeyOnFile.toNat ++ leBytes 8 saved.timeStamp.toNat ++
    leBytes 8 saved.commitCount.toNat ++ leBytes 4 saved.sversion.toNat ++
    leBytes 2 saved.sqlLen.toNat ++ leBytes 1 saved.algorithms.toNat ++
    leBytes 1 saved.status.toNat

def takeWord (width size : Nat) (buffer : Bytes) : BitVec width × Bytes :=
  (wordOf width (buffer.take size), buffer.drop size)

def readSaved (buffer : Bytes) : SavedObj × Bytes :=
  let (uid, buffer) := takeWord 64 8 buffer
  let (meterId, buffer) := (buffer.take tsdbMeterIdLen, buffer.drop tsdbMeterIdLen)
  let (sid, buffer) := takeWord 32 4 buffer
  let (vnode, buffer) := takeWord 16 2 buffer
  let (numOfColumns, buffer) := takeWord 16 2 buffer
  let (bytesPerPoint, buffer) := takeWord 16 2 buffer
  let (maxBytes, buffer) := takeWord 16 2 buffer
  let (pointsPerBlock, buffer) := takeWord 32 4 buffer
  let (pointsPerFileBlock, buffer) := takeWord 32 4 buffer
  let (freePoints, buffer) := takeWord 32 4 buffer
  let (lastKey, buffer) := takeWord 64 8 buffer
  let (lastKeyOnFile, buffer) := takeWord 64 8 buffer
  let (timeStamp, buffer) := takeWord 64 8 buffer
  let (commitCount, buffer) := takeWord 64 8 buffer
  let (sversion, buffer) := takeWord 32 4 buffer
  let (sqlLen, buffer) := takeWord 16 2 buffer
  let (algorithms, buffer) := takeWord 8 1 buffer
  let (status, buffer) := takeWord 8 1 buffer
  (⟨uid, meterId, sid, vnode, numOfColumns, bytesPerPoint, maxBytes, pointsPerBlock,
    pointsPerFileBlock, freePoints, lastKey, lastKeyOnFile, timeStamp, commitCount, sversion,
    sqlLen, algorithms, status⟩, buffer)

def columnBytes (column : SColumn) : Bytes :=
  leBytes 2 column.colId.toNat ++ leBytes 2 column.bytes.toNat ++ leBytes 1 column.type.toNat

def readSchema : Nat -> Bytes -> List SColumn × Bytes
  | 0, buffer => ([], buffer)
  | count + 1, buffer =>
    let (colId, buffer) := takeWord 16 2 buffer
    let (bytes, buffer) := takeWord 16 2 buffer
    let (type, buffer) := takeWord 8 1 buffer
    let (schema, buffer) := readSchema count buffer
    (⟨colId, bytes, type⟩ :: schema, buffer)

def objBytes (pObj : SMeterObj) : Bytes :=
  savedBytes pObj.saved ++ pObj.schema.flatMap columnBytes ++ pObj.pSql

/-- `taosCalcChecksumAppend` on the buffer. -/
def recordBytes (pObj : SMeterObj) : Bytes :=
  objBytes pObj ++ leBytes 4 (crc32c 0 (objBytes pObj)).toNat

def taosCheckChecksumWhole (stream : Bytes) : Bool :=
  ¬ stream.length < 4 ∧
    wordOf 32 (stream.drop (stream.length - 4)) = crc32c 0 (stream.take (stream.length - 4))

def Named (saved : SavedObj) : Prop := saved.meterId.head? ≠ some 0

instance (saved : SavedObj) : Decidable (Named saved) := inferInstanceAs (Decidable (_ ≠ _))

structure SMeterObjHeader where
  offset : Int
  length : Int

structure ObjFile where
  index : Nat -> SMeterObjHeader
  cells : Int -> UInt8
  size : Int

/-- `SVnodeObj`, with what its configuration says of the cache. -/
structure SVnodeObj where
  vnode : BitVec 16
  maxSessions : Nat
  cacheBlockSize : Int
  blocksPerMeter : Int
  rowsInFileBlock : BitVec 32
  meterList : Nat -> Option SMeterObj
  meterIndex : Nat -> SMeterObjHeader
  file : ObjFile

/-- The bytes of the index, with a check sum that is not calculated. -/
def indexEnd (maxSessions : Nat) : Int := tsdbFileHeaderLen + 8 * maxSessions + sizeofChksum

def vnodeCreateMeterObjFile (maxSessions : Nat) : ObjFile :=
  ⟨fun _ => ⟨0, 0⟩, fun _ => 0, indexEnd maxSessions⟩

def ObjFile.write (file : ObjFile) (offset : Int) (record : Bytes) : ObjFile :=
  { file with
    cells := writeCells file.cells offset record
    size := max file.size (offset + record.length) }

def headerLength (length : Int) : Int := length.bmod 65536

/-- The offset `vnodeSaveMeterObjToFile` notes, and where it writes. -/
def saveTo (header : SMeterObjHeader) (newLength size : Int) (saved : SavedObj) : Int × Int :=
  -- new, append to the end of the file
  if header.offset = 0 ∨ header.length < newLength then (size, size)
  -- deleted meter
  else if header.offset < 0 then (-header.offset, -header.offset)
  -- meter exists, overwrite it
  else (if Named saved then header.offset else -header.offset, header.offset)

def vnodeSaveMeterObjToFile (pObj : SMeterObj) (pVnode : SVnodeObj) : SVnodeObj :=
  let sid := pObj.saved.sid.toNat
  let record := recordBytes pObj
  let target := saveTo (pVnode.meterIndex sid) record.length pVnode.file.size pObj.saved
  let header : SMeterObjHeader := ⟨target.1, headerLength record.length⟩
  { pVnode with
    meterIndex := Function.update pVnode.meterIndex sid header
    file := { pVnode.file.write target.2 record with
      index := Function.update pVnode.file.index sid header } }

/-- The offset `vnodeSaveAllMeterObjToFile` notes, and where it writes: it appends where the old
record is longer, and notes what `fseek` returns. -/
def saveAllTo (header : SMeterObjHeader) (newLength size : Int) : Int × Int :=
  if header.offset = 0 ∨ newLength < header.length then (0, size)
  else if header.offset < 0 then (-header.offset, -header.offset)
  else (header.offset, header.offset)

/-- One turn of `vnodeSaveAllMeterObjToFile`. -/
def saveMeterOfAll (pVnode : SVnodeObj) (sid : Nat) : SVnodeObj :=
  match pVnode.meterList sid with
  | none => pVnode
  | some pObj =>
    let record := recordBytes pObj
    let target := saveAllTo (pVnode.meterIndex sid) record.length pVnode.file.size
    { pVnode with
      meterIndex := Function.update pVnode.meterIndex sid ⟨target.1, headerLength record.length⟩
      file := pVnode.file.write target.2 record }

def vnodeSaveAllMeterObjToFile (pVnode : SVnodeObj) : SVnodeObj :=
  let pVnode := (List.range pVnode.maxSessions).foldl saveMeterOfAll pVnode
  { pVnode with file := { pVnode.file with index := pVnode.meterIndex } }

def vnodeAllocateCacheInfo (pVnode : SVnodeObj) (saved : SavedObj) : SavedObj :=
  let points := Cache.pointsPerBlock pVnode.cacheBlockSize saved.numOfColumns.toNat
    saved.bytesPerPoint.toNat saved.pointsPerFileBlock.toInt
  { saved with
    pointsPerBlock := BitVec.ofInt 32 points
    freePoints := BitVec.ofInt 32 (points * pVnode.blocksPerMeter) }

/-- `SCreateMsg`; there are no more columns and there is no longer text than a record has room
for. -/
structure SCreateMsg where
  uid : BitVec 64
  meterId : Bytes
  sid : BitVec 32
  timeStamp : BitVec 64
  sversion : BitVec 32
  schema : List SColumn
  sql : Bytes
  idLength : meterId.length = tsdbMeterIdLen
  columns : schema.length ≤ tsdbMaxColumns
  sqlLength : sql.length ≤ tsdbMaxSavedSqlLen

/-- The meter `vnodeProcessCreateMeterMsg` makes of a message. -/
def meterOf (pVnode : SVnodeObj) (pCreate : SCreateMsg) : SMeterObj where
  saved :=
    { uid := pCreate.uid
      meterId := pCreate.meterId
      sid := pCreate.sid
      vnode := pVnode.vnode
      numOfColumns := BitVec.ofNat 16 pCreate.schema.length
      bytesPerPoint := (pCreate.schema.map (·.bytes)).sum
      maxBytes := pCreate.schema.foldl
        (fun most column => if most.toInt < column.bytes.toInt then column.bytes else most) 0
      pointsPerBlock := 0
      pointsPerFileBlock := pVnode.rowsInFileBlock
      freePoints := 0
      lastKey := 0
      lastKeyOnFile := 0
      timeStamp := pCreate.timeStamp
      commitCount := 0
      sversion := pCreate.sversion
      sqlLen := BitVec.ofNat 16 pCreate.sql.length
      algorithms := 0
      status := 0 }
  schema := pCreate.schema
  pSql := pCreate.sql

def setMeter (sid : Nat) (pObj : Option SMeterObj) (pVnode : SVnodeObj) : SVnodeObj :=
  { pVnode with meterList := Function.update pVnode.meterList sid pObj }

def strcpy (dst src : Bytes) : Bytes :=
  let text := src.takeWhile (· ≠ 0)
  (text ++ 0 :: dst.drop (text.length + 1)).take dst.length

/-- `vnodeUpdateMeter`, where nothing makes it try again. -/
def vnodeUpdateMeter (pNew : SMeterObj) (ready : Bool) (pVnode : SVnodeObj) : SVnodeObj :=
  match pVnode.meterList pNew.saved.sid.toNat with
  | none => pVnode
  | some pObj =>
    if ready then
      let saved := { pObj.saved with
        meterId := strcpy pObj.saved.meterId pNew.saved.meterId
        numOfColumns := pNew.saved.numOfColumns
        timeStamp := pNew.saved.timeStamp
        bytesPerPoint := pNew.saved.bytesPerPoint
        maxBytes := pNew.saved.maxBytes }
      let saved := { vnodeAllocateCacheInfo pVnode saved with sversion := pNew.saved.sversion }
      let pObj := { pObj with saved := saved, schema := pNew.schema }
      vnodeSaveMeterObjToFile pObj (setMeter pNew.saved.sid.toNat (some pObj) pVnode)
    else pVnode

/-- `vnodeRemoveMeterObj`; the name is cleared by `vnodeFreeMeterObj`, after the record is
written. -/
def vnodeRemoveMeterObj (sid : Nat) (safe : Bool) (now : BitVec 64) (pVnode : SVnodeObj) :
    SVnodeObj :=
  match pVnode.meterList sid with
  | none => pVnode
  | some pObj =>
    if safe then
      let pObj := { pObj with saved := { pObj.saved with timeStamp := now } }
      setMeter sid none (vnodeSaveMeterObjToFile pObj pVnode)
    else pVnode

/-- What comes from outside when a meter is created: an old meter may be removed now, an old
meter is ready for an update, there is memory for the cache. -/
structure Outside where
  safe : Bool
  now : BitVec 64
  ready : Bool
  allocated : Bool

def vnodeCreateMeterObj (pNew : SMeterObj) (outside : Outside) (pVnode : SVnodeObj) : SVnodeObj :=
  let sid := pNew.saved.sid.toNat
  let create (pVnode : SVnodeObj) : SVnodeObj :=
    if outside.allocated then
      let pNew := { pNew with saved := vnodeAllocateCacheInfo pVnode pNew.saved }
      vnodeSaveMeterObjToFile pNew (setMeter sid (some pNew) pVnode)
    else pVnode
  match pVnode.meterList sid with
  | none => create pVnode
  | some pObj =>
    if pObj.saved.uid = pNew.saved.uid then
      if pObj.saved.sversion = pNew.saved.sversion then pVnode
      else vnodeUpdateMeter pNew outside.ready pVnode
    else create (vnodeRemoveMeterObj sid outside.safe outside.now pVnode)

def vnodeProcessCreateMeterMsg (pCreate : SCreateMsg) (outside : Outside) (pVnode : SVnodeObj) :
    SVnodeObj :=
  if pVnode.maxSessions ≤ pCreate.sid.toNat then pVnode
  else if pCreate.schema = [] then pVnode
  else vnodeCreateMeterObj (meterOf pVnode pCreate) outside pVnode

/-- `vnodeCloseStreamCallback`: the SQL text of a stream is dropped. -/
def vnodeCloseStreamCallback (sid : Nat) (pVnode : SVnodeObj) : SVnodeObj :=
  match pVnode.meterList sid with
  | none => pVnode
  | some pObj =>
    if pObj.saved.sqlLen = 0 then pVnode
    else
      let pObj := { pObj with saved := { pObj.saved with sqlLen := 0 }, pSql := [] }
      vnodeSaveMeterObjToFile pObj (setMeter sid (some pObj) pVnode)

def vnodeRestoreMeterObj (buffer : Bytes) (pVnode : SVnodeObj) : SVnodeObj :=
  let (saved, rest) := readSaved buffer
  if saved.vnode ≠ pVnode.vnode then pVnode
  else if pVnode.maxSessions ≤ saved.sid.toNat then pVnode
  else if ¬ Named saved then pVnode
  else
    let (schema, rest) := readSchema saved.numOfColumns.toNat rest
    let saved := vnodeAllocateCacheInfo pVnode saved
    let pObj : SMeterObj :=
      { saved := { saved with lastKey := saved.lastKeyOnFile }
        schema := schema
        pSql := rest.take saved.sqlLen.toNat }
    setMeter saved.sid.toNat (some pObj) pVnode

/-- The loop of `vnodeOpenMetersVnode` over the index; it ends where a record is behind the end
of the file. -/
def openMeters : List Nat -> SVnodeObj -> SVnodeObj
  | [], pVnode => pVnode
  | sid :: sids, pVnode =>
    let ⟨offset, length⟩ := pVnode.meterIndex sid
    if offset ≤ 0 ∨ length ≤ 0 then openMeters sids pVnode
    else if pVnode.file.size < offset + length then pVnode
    else
      let buffer := readCells pVnode.file.cells offset length
      if taosCheckChecksumWhole buffer then
        openMeters sids (vnodeRestoreMeterObj (buffer.take (buffer.length - 4)) pVnode)
      else openMeters sids pVnode

/-- `vnodeCloseMetersVnode`, and then `vnodeOpenMetersVnode`. -/
def vnodeOpenMetersVnode (pVnode : SVnodeObj) : SVnodeObj :=
  openMeters (List.range pVnode.maxSessions)
    { pVnode with meterList := fun _ => none, meterIndex := pVnode.file.index }

inductive Event where
  | create (pCreate : SCreateMsg) (outside : Outside)
  | update (pNew : SCreateMsg) (ready : Bool)
  | remove (sid : Nat) (safe : Bool) (now : BitVec 64)
  | closeStream (sid : Nat)
  | saveAll
  | reopen

def step (pVnode : SVnodeObj) : Event -> SVnodeObj
  | .create pCreate outside => vnodeProcessCreateMeterMsg pCreate outside pVnode
  | .update pNew ready => vnodeUpdateMeter (meterOf pVnode pNew) ready pVnode
  | .remove sid safe now => vnodeRemoveMeterObj sid safe now pVnode
  | .closeStream sid => vnodeCloseStreamCallback sid pVnode
  | .saveAll => vnodeSaveAllMeterObjToFile pVnode
  | .reopen => vnodeOpenMetersVnode pVnode

def newVnode (vnode : BitVec 16) (maxSessions : Nat) (cacheBlockSize blocksPerMeter : Int)
    (rowsInFileBlock : BitVec 32) : SVnodeObj :=
  ⟨vnode, maxSessions, cacheBlockSize, blocksPerMeter, rowsInFileBlock, fun _ => none,
    fun _ => ⟨0, 0⟩, vnodeCreateMeterObjFile maxSessions⟩

def run (pVnode : SVnodeObj) (events : List Event) : SVnodeObj := events.foldl step pVnode

end Luomi.Vnode.MeterObjFile
