import Luomi.Base.LittleEndian
import Luomi.Vnode.Import

/-!
# Committing rows to the files of a window (`vnodeCommitMultiToFile` in `vnodeFile.c`)

The head file of a window has an offset for each session, and at the offset a
`SCompInfo`, the blocks of the meter and their check sum.  The blocks themselves are in
the data file, except for a short last one, which is in the last file.  A commit appends
blocks to these and writes a new head file; a commit from session 0 on writes a new last
file too.

A file is modelled by what starts at its offsets: the records of the head file, the
blocks of the other two.  The columns of a block are not packed; how many bytes they
take is a parameter.  The ring of the cache is unrolled: slots count from the oldest
block.  Which files there are is left out (`CommitWindow`), and so are the commit log,
the threads and the buffers.  Offsets do not overflow.
-/

namespace Luomi.Vnode.CommitFile

open LittleEndian
open Function (update)

abbrev Bytes := List UInt8

/-- One bit of the check sum; the polynomial is `POLY`. -/
def crcBit (crc : BitVec 32) : BitVec 32 :=
  if crc.getLsbD 0 then (crc >>> 1) ^^^ 0x82f63b78#32 else crc >>> 1

def crcByte (crc : BitVec 32) (byte : UInt8) : BitVec 32 :=
  (crcBit ∘ crcBit ∘ crcBit ∘ crcBit ∘ crcBit ∘ crcBit ∘ crcBit ∘ crcBit)
    (crc ^^^ BitVec.ofNat 32 byte.toNat)

/-- `crc32c`, which `taosCalcChecksum` calls. -/
def crc32c (crci : BitVec 32) (stream : Bytes) : BitVec 32 :=
  stream.foldl crcByte (crci ^^^ 0xffffffff#32) ^^^ 0xffffffff#32

def numBytes (size : Nat) (value : Int) : Bytes :=
  leBytes size (BitVec.ofInt (8 * size) value).toNat

structure SCompBlock where
  last : Bool
  offset : Int
  algorithm : Int
  numOfPoints : Int
  sversion : Int
  len : Int
  numOfCols : Int
  keyFirst : Int
  keyLast : Int
  deriving DecidableEq

/-- The memory of a block: `last` and `algorithm` are the low bits of their words. -/
def blockBytes (block : SCompBlock) : Bytes :=
  numBytes 8 (2 * block.offset + if block.last then 1 else 0) ++
    numBytes 4 (256 * block.numOfPoints + block.algorithm % 256) ++ numBytes 4 block.sversion ++
    numBytes 4 block.len ++ numBytes 2 block.numOfCols ++ numBytes 18 0 ++
    numBytes 8 block.keyFirst ++ numBytes 8 block.keyLast

structure SCompInfo where
  uid : BitVec 64
  last : Bool
  numOfBlocks : Int
  delimiter : BitVec 32
  checksum : BitVec 32
  deriving DecidableEq

def infoBytes (info : SCompInfo) : Bytes :=
  leBytes 8 info.uid.toNat ++ numBytes 8 (2 * info.numOfBlocks + if info.last then 1 else 0) ++
    leBytes 4 info.delimiter.toNat

/-- `taosCheckChecksumWhole` on a `SCompInfo`. -/
def InfoChecked (info : SCompInfo) : Prop := info.checksum = crc32c 0 (infoBytes info)

instance (info : SCompInfo) : Decidable (InfoChecked info) := inferInstanceAs (Decidable (_ = _))

/-- `taosCalcChecksum` on blocks. -/
def blocksChecksum (chksum : BitVec 32) (blocks : List SCompBlock) : BitVec 32 :=
  crc32c chksum (blocks.flatMap blockBytes)

def sizeofCompHeader : Int := 8

def sizeofCompInfo : Int := 24

def sizeofCompBlock : Int := 56

def sizeofChksum : Int := 4

def tsdbFileHeaderLen : Int := 512

def tsdbVnodeDelimiter : BitVec 32 := 0xF00AFA0F#32

inductive HeadRecord where
  | compInfo (info : SCompInfo)
  | compBlock (block : SCompBlock)
  | chksum (sum : BitVec 32)
  deriving DecidableEq

/-- A head file: the offsets of the sessions with their check sum, and the records. -/
structure HeadFile where
  totalStorage : Int
  compInfoOffset : Nat -> Int
  checksum : BitVec 32
  records : Int -> Option HeadRecord

/-- The memory of the `SCompHeader`s. -/
def headerBytes (maxSessions : Nat) (compInfoOffset : Nat -> Int) : Bytes :=
  (List.range maxSessions).flatMap fun sid => numBytes 8 (compInfoOffset sid)

/-- `taosCheckChecksumWhole` on the `SCompHeader`s. -/
def HeaderChecked (maxSessions : Nat) (head : HeadFile) : Prop :=
  head.checksum = crc32c 0 (headerBytes maxSessions head.compInfoOffset)

instance (maxSessions : Nat) (head : HeadFile) : Decidable (HeaderChecked maxSessions head) :=
  inferInstanceAs (Decidable (_ = _))

def tmsize (maxSessions : Nat) : Int := sizeofCompHeader * maxSessions + sizeofChksum

def readBlocks (records : Int -> Option HeadRecord) : Nat -> Int -> Option (List SCompBlock)
  | 0, _ => some []
  | count + 1, offset =>
    match records offset with
    | some (.compBlock block) =>
      (readBlocks records count (offset + sizeofCompBlock)).map (block :: ·)
    | _ => none

def writeBlocks : List SCompBlock -> Int -> (Int -> Option HeadRecord) -> Int -> Option HeadRecord
  | [], _, records => records
  | block :: blocks, offset, records =>
    writeBlocks blocks (offset + sizeofCompBlock)
      (update records offset (some (.compBlock block)))

structure DataFile (Row : Type) where
  size : Int
  blocks : Int -> Option (List Row)

structure SFiles (Row : Type) where
  head : HeadFile
  data : DataFile Row
  last : DataFile Row

section Files

variable {Row : Type}

def emptyFile : DataFile Row := ⟨tsdbFileHeaderLen, fun _ => none⟩

def DataFile.append (file : DataFile Row) (rows : Option (List Row)) (len : Int) : DataFile Row :=
  { size := file.size + len, blocks := update file.blocks file.size rows }

def readRows (file : DataFile Row) (block : SCompBlock) : Option (List Row) :=
  (file.blocks block.offset).bind fun rows =>
    if (rows.length : Int) = block.numOfPoints then some rows else none

end Files

/-- `SCacheInfo`: the blocks from the oldest to the current one. -/
structure SCacheInfo (Row : Type) where
  blocks : List (List Row)
  commitSlot : Nat
  commitPoint : Nat

structure SMeterObj (Row : Type) where
  uid : BitVec 64
  sversion : Int
  numOfColumns : Nat
  bytesPerPoint : Nat
  pointsPerBlock : Nat
  pointsPerFileBlock : Nat
  deleting : Bool
  lastKey : Int
  lastKeyOnFile : Int
  pCache : Option (SCacheInfo Row)

/-- `SVnodeObj`; the files are those of the windows. -/
structure SVnodeObj (Row : Type) where
  maxSessions : Nat
  compression : Int
  firstKey : Int
  lastKey : Int
  meterList : Nat -> Option (SMeterObj Row)
  files : Int -> SFiles Row

structure Window where
  commitFileId : Int
  commitFirstKey : Int
  commitLastKey : Int

/-- What the rows and the settings are: the key of a row, the bytes the columns of some
rows take, and `tsFileBlockMinPercent` in thousandths, at most one. -/
structure Settings (Row : Type) where
  key : Row -> Int
  columnLen : List Row -> Nat
  minPerMille : Nat
  atMostOne : minPerMille ≤ 1000

/-- `SMeterInfo`: what a commit notes of a meter, with its new blocks for the temporary
head. -/
structure SMeterInfo where
  oldCompBlockOffset : Int
  oldNumOfBlocks : Int
  newBlocks : List SCompBlock
  compInfoOffset : Int
  finalNumOfBlocks : Int
  committedPoints : Nat
  commitSlot : Nat
  commitPos : Nat
  last : Bool
  changed : Bool
  lastBlock : SCompBlock

/-- The notes after `memset`. -/
def noMeterInfo : SMeterInfo where
  oldCompBlockOffset := 0
  oldNumOfBlocks := 0
  newBlocks := []
  compInfoOffset := 0
  finalNumOfBlocks := 0
  committedPoints := 0
  commitSlot := 0
  commitPos := 0
  last := false
  changed := false
  lastBlock := ⟨false, 0, 0, 0, 0, 0, 0, 0, 0⟩

structure SQuery where
  slot : Nat
  pos : Nat
  isOver : Bool
  keyIsMet : Bool

section Query

variable {Row : Type} (settings : Settings Row)

def vnodeUpdateQuerySlotPos (pInfo : SCacheInfo Row) (pQuery : SQuery) : SQuery :=
  if pQuery.slot + 1 = pInfo.blocks.length then { pQuery with isOver := true }
  else { pQuery with slot := pQuery.slot + 1, pos := 0 }

/-- `vnodeSetCommitQuery`, and the first key where it is small; `none` where it looks behind
the rows of a block. -/
def vnodeSetCommitQuery (pObj : SMeterObj Row) (pInfo : SCacheInfo Row) (skey : Int) :
    Option (SQuery × Option Int) :=
  let pQuery : SQuery := ⟨pInfo.commitSlot, pInfo.commitPoint, false, false⟩
  if pInfo.blocks = [] then some ({ pQuery with isOver := true }, none)
  else do
    let pCacheBlock <- pInfo.blocks[pInfo.commitSlot]?
    if pInfo.commitSlot + 1 = pInfo.blocks.length ∧ pInfo.commitPoint = pCacheBlock.length then
      return ({ pQuery with isOver := true }, none)
    else
      let pQuery := if pQuery.pos = pObj.pointsPerBlock then
          { pQuery with slot := pQuery.slot + 1, pos := 0 }
        else pQuery
      let pCacheBlock <- pInfo.blocks[pQuery.slot]?
      let row <- pCacheBlock[pQuery.pos]?
      if settings.key row < skey then
        return ({ pQuery with isOver := true }, some (settings.key row))
      else return (pQuery, none)

def keyAt (rows : List Row) (place : Int) : Int := (rows[place.toNat]?.map settings.key).getD 0

/-- `vnodeQueryFromCache` from the oldest row to the newest: the rows it reads. -/
def vnodeQueryFromCache (pObj : SMeterObj Row) (pInfo : SCacheInfo Row) (ekey : Int)
    (pointsToRead : Nat) (pQuery : SQuery) : Option (List Row × SQuery) :=
  if pQuery.isOver then some ([], pQuery)
  else if pInfo.blocks = [] then some ([], { pQuery with isOver := true })
  else do
    let pCacheBlock <- pInfo.blocks[pQuery.slot]?
    let maxReads : Int := pCacheBlock.length - pQuery.pos
    if maxReads ≤ 0 then return ([], vnodeUpdateQuerySlotPos pInfo pQuery)
    else
      let endkey := keyAt settings pCacheBlock (pCacheBlock.length - 1)
      let keyList := keyAt settings (pCacheBlock.drop pQuery.pos)
      let lastPos <- if endkey < ekey then some (-1)
        else (Import.vnodeBinarySearchKey keyList maxReads ekey false)
      let found := if endkey < ekey then maxReads else if 0 ≤ lastPos then lastPos + 1 else 0
      let numOfReads := if (pointsToRead : Int) < found then (pointsToRead : Int) else found
      let met : Bool := ¬ (pointsToRead : Int) < found ∧ (0 ≤ lastPos ∨ found = 0)
      let rows := (pCacheBlock.drop pQuery.pos).take numOfReads.toNat
      let pQuery : SQuery := { pQuery with
        pos := pQuery.pos + numOfReads.toNat
        isOver := met
        keyIsMet := pQuery.keyIsMet || met }
      if (pObj.pointsPerBlock ≤ pQuery.pos ∨ numOfReads = 0) ∧ pQuery.isOver = false then
        return (rows, vnodeUpdateQuerySlotPos pInfo pQuery)
      else return (rows, pQuery)

def turns (pInfo : SCacheInfo Row) : Nat := pInfo.blocks.flatten.length + pInfo.blocks.length + 1

def fillBlock (pObj : SMeterObj Row) (pInfo : SCacheInfo Row) (ekey : Int) :
    Nat -> List Row -> SQuery -> Option (List Row × SQuery)
  | 0, _, _ => none
  | fuel + 1, buffer, pQuery =>
    if buffer.length < pObj.pointsPerFileBlock then do
      let (rows, pQuery) <- vnodeQueryFromCache settings pObj pInfo ekey
        (pObj.pointsPerFileBlock - buffer.length) pQuery
      if pQuery.isOver then return (buffer ++ rows, pQuery)
      else fillBlock pObj pInfo ekey fuel (buffer ++ rows) pQuery
    else some (buffer, pQuery)

/-- The files a commit has open; `tfd` is the temporary last file. -/
structure OpenFiles (Row : Type) where
  dfd : DataFile Row
  lfd : DataFile Row
  tfd : Option (DataFile Row)

/-- The end of `vnodeOpenCommitFiles`: a temporary last file is opened unless `noTempLast`. -/
def openLast (files : SFiles Row) (noTempLast : Nat) : OpenFiles Row where
  dfd := files.data
  lfd := files.last
  tfd := if noTempLast = 0 then some emptyFile else none

def blockLen (pObj : SMeterObj Row) (rows : List Row) : Int :=
  80 * pObj.numOfColumns + sizeofChksum + settings.columnLen rows

def Few (pObj : SMeterObj Row) (points : Nat) : Prop :=
  points * 1000 < pObj.pointsPerFileBlock * settings.minPerMille

instance (pObj : SMeterObj Row) (points : Nat) : Decidable (Few settings pObj points) :=
  inferInstanceAs (Decidable (_ < _))

def vnodeWriteBlockToFile (compression : Int) (pObj : SMeterObj Row) (rows : List Row)
    (files : OpenFiles Row) : SCompBlock × OpenFiles Row :=
  let len := blockLen settings pObj rows
  let block (last : Bool) (file : DataFile Row) : SCompBlock :=
    { last := last
      offset := file.size
      algorithm := compression
      numOfPoints := rows.length
      sversion := pObj.sversion
      len := len
      numOfCols := pObj.numOfColumns
      keyFirst := keyAt settings rows 0
      keyLast := keyAt settings rows (rows.length - 1) }
  if Few settings pObj rows.length then
    match files.tfd with
    | some tfd => (block true tfd, { files with tfd := some (tfd.append (some rows) len) })
    | none => (block true files.lfd, { files with lfd := files.lfd.append (some rows) len })
  else (block false files.dfd, { files with dfd := files.dfd.append (some rows) len })

/-- What the loop over the blocks of a meter carries. -/
structure Writer (Row : Type) where
  files : OpenFiles Row
  pQuery : SQuery
  pMeter : SMeterInfo
  lastKeyOnFile : Int
  totalStorage : Int

def writeBlock (compression : Int) (pObj : SMeterObj Row) (pointsReadLast : Nat) (rows : List Row)
    (pQuery : SQuery) (writer : Writer Row) : Writer Row :=
  let (pCompBlock, files) := vnodeWriteBlockToFile settings compression pObj rows writer.files
  { files := files
    pQuery := pQuery
    pMeter := { writer.pMeter with
      last := pCompBlock.last
      newBlocks := writer.pMeter.newBlocks ++ [pCompBlock]
      committedPoints := writer.pMeter.committedPoints + (rows.length - pointsReadLast) }
    lastKeyOnFile := if writer.lastKeyOnFile < pCompBlock.keyLast then pCompBlock.keyLast
      else writer.lastKeyOnFile
    totalStorage := writer.totalStorage + (rows.length - pointsReadLast) * pObj.bytesPerPoint }

def commitBlocks (compression : Int) (pObj : SMeterObj Row) (pInfo : SCacheInfo Row) (ekey : Int) :
    Nat -> List Row -> Writer Row -> Option (Writer Row)
  | 0, _, _ => none
  | fuel + 1, lastRows, writer =>
    if writer.pQuery.isOver then some writer
    else do
      let (rows, pQuery) <- fillBlock settings pObj pInfo ekey (turns pInfo) lastRows writer.pQuery
      if rows = [] then return { writer with pQuery := pQuery }
      else
        let writer := writeBlock settings compression pObj lastRows.length rows pQuery writer
        if rows.length < pObj.pointsPerFileBlock ∨ pQuery.keyIsMet then return writer
        else commitBlocks compression pObj pInfo ekey fuel [] writer

/-- The last block of a meter is taken off its list: it is copied to the data file, where its
schema is an old one, or read back to be merged with the new rows. -/
def takeLastBlock (pObj : SMeterObj Row) (writer : Writer Row) :
    Option (List Row × Writer Row) :=
  let pMeter := writer.pMeter
  let lastBlock := pMeter.lastBlock
  if pMeter.last then
    let taken := { pMeter with
      changed := true, last := false, oldNumOfBlocks := pMeter.oldNumOfBlocks - 1 }
    if lastBlock.sversion ≠ pObj.sversion then
      let pCompBlock := { lastBlock with last := false, offset := writer.files.dfd.size }
      let dfd := writer.files.dfd.append (writer.files.lfd.blocks lastBlock.offset) lastBlock.len
      some ([], { writer with
        files := { writer.files with dfd := dfd }
        pMeter := { taken with newBlocks := pMeter.newBlocks ++ [pCompBlock] } })
    else do
      let rows <- readRows writer.files.lfd lastBlock
      return (rows, { writer with
        pQuery := { writer.pQuery with isOver := false }
        pMeter := taken
        totalStorage := writer.totalStorage - rows.length * pObj.bytesPerPoint })
  else some ([], writer)

def nextKeyOf (lastKey lastKeyOnFile commitLastKey : Int) : Int :=
  if commitLastKey < lastKey then commitLastKey + 1
  else if lastKeyOnFile < lastKey then lastKeyOnFile + 1
  else 0

structure Turn (Row : Type) where
  firstKey : Int
  meterList : Nat -> Option (SMeterObj Row)
  files : OpenFiles Row
  meterInfo : Nat -> SMeterInfo
  totalStorage : Int

def commitMeter (compression : Int) (window : Window) (sid : Nat) (turn : Turn Row) :
    Option (Turn Row) :=
  match turn.meterList sid with
  | none => some turn
  | some pObj =>
    match pObj.pCache with
    | none => some turn
    | some pInfo => do
        let (pQuery, small) <- vnodeSetCommitQuery settings pObj pInfo window.commitFirstKey
        let firstKey := match small with
          | some key => if key < turn.firstKey then key else turn.firstKey
          | none => turn.firstKey
        let writer : Writer Row :=
          { files := turn.files
            pQuery := pQuery
            pMeter := turn.meterInfo sid
            lastKeyOnFile := pObj.lastKeyOnFile
            totalStorage := turn.totalStorage }
        let (lastRows, writer) <- takeLastBlock pObj writer
        let writer <- commitBlocks settings compression pObj pInfo window.commitLastKey
          (turns pInfo + 1) lastRows writer
        let pMeter := if 0 < writer.pMeter.committedPoints then { writer.pMeter with
            commitSlot := writer.pQuery.slot, commitPos := writer.pQuery.pos }
          else writer.pMeter
        let nextKey := nextKeyOf pObj.lastKey writer.lastKeyOnFile window.commitLastKey
        return {
          firstKey := if nextKey < firstKey ∧ 1 < nextKey then nextKey else firstKey
          meterList := update turn.meterList sid
            (some { pObj with lastKeyOnFile := writer.lastKeyOnFile })
          files := writer.files
          meterInfo := update turn.meterInfo sid pMeter
          totalStorage := writer.totalStorage }

def commitMeters (compression : Int) (window : Window) :
    List Nat -> Turn Row -> Option (Turn Row)
  | [], turn => some turn
  | sid :: sids, turn => do
      let turn <- commitMeter settings compression window sid turn
      commitMeters compression window sids turn

/-- What the old head file says of a meter; `none` where it is broken. -/
def readMeterInfo (head : HeadFile) (pObj : SMeterObj Row) (sid : Nat) : Option SMeterInfo :=
  -- meter is going to be deleted, abort
  if pObj.deleting then some noMeterInfo
  else
    let compInfoOffset := head.compInfoOffset sid
    if 0 < compInfoOffset then
      match head.records compInfoOffset with
      | some (.compInfo compInfo) =>
        if ¬ InfoChecked compInfo then none
        else if pObj.uid = compInfo.uid then
          let pMeter := { noMeterInfo with
            oldNumOfBlocks := compInfo.numOfBlocks
            oldCompBlockOffset := compInfoOffset + sizeofCompInfo
            last := compInfo.last }
          if compInfo.last then
            match head.records (compInfoOffset + sizeofCompInfo +
                sizeofCompBlock * (compInfo.numOfBlocks - 1)) with
            | some (.compBlock lastBlock) => some { pMeter with lastBlock := lastBlock }
            | _ => none
          else some pMeter
        else some noMeterInfo
      | _ => none
    else some noMeterInfo

def readMeterInfos (head : HeadFile) (meterList : Nat -> Option (SMeterObj Row)) :
    List Nat -> (Nat -> SMeterInfo) -> Option (Nat -> SMeterInfo)
  | [], meterInfo => some meterInfo
  | sid :: sids, meterInfo =>
    match meterList sid with
    | none => readMeterInfos head meterList sids meterInfo
    | some pObj => do
        let pMeter <- readMeterInfo head pObj sid
        readMeterInfos head meterList sids (update meterInfo sid pMeter)

structure Layout where
  compInfoOffset : Int
  offsets : Nat -> Int
  meterInfo : Nat -> SMeterInfo

def sizeOfList (finalNumOfBlocks : Int) : Int :=
  sizeofCompInfo + finalNumOfBlocks * sizeofCompBlock + sizeofChksum

def layOutMeter (pObj : Option (SMeterObj Row)) (sid : Nat) (layout : Layout) : Layout :=
  match pObj with
  | none => { layout with offsets := update layout.offsets sid 0 }
  | some _ =>
    let pMeter := layout.meterInfo sid
    let finalNumOfBlocks := pMeter.oldNumOfBlocks + pMeter.newBlocks.length
    let meterInfo := update layout.meterInfo sid { pMeter with
      compInfoOffset := layout.compInfoOffset, finalNumOfBlocks := finalNumOfBlocks }
    if 0 < finalNumOfBlocks then
      { compInfoOffset := layout.compInfoOffset + sizeOfList finalNumOfBlocks
        offsets := update layout.offsets sid layout.compInfoOffset
        meterInfo := meterInfo }
    else { layout with meterInfo := meterInfo }

def layOut (meterList : Nat -> Option (SMeterObj Row)) : List Nat -> Layout -> Layout
  | [], layout => layout
  | sid :: sids, layout => layOut meterList sids (layOutMeter (meterList sid) sid layout)

/-- `taosCalcChecksumAppend` on a `SCompInfo`. -/
def checkedInfo (uid : BitVec 64) (last : Bool) (numOfBlocks : Int) : SCompInfo :=
  let compInfo : SCompInfo := ⟨uid, last, numOfBlocks, tsdbVnodeDelimiter, 0⟩
  { compInfo with checksum := crc32c 0 (infoBytes compInfo) }

/-- The old blocks of a meter and their check sum: of a changed list it is calculated, of
another one read from the old head file. -/
def oldBlocks (head : HeadFile) (pMeter : SMeterInfo) : Option (List SCompBlock × BitVec 32) :=
  if pMeter.oldNumOfBlocks = 0 then some ([], 0)
  else do
    let blocks <- readBlocks head.records pMeter.oldNumOfBlocks.toNat pMeter.oldCompBlockOffset
    if pMeter.changed then return (blocks, blocksChecksum 0 blocks)
    else
      match head.records (pMeter.oldCompBlockOffset + sizeofCompBlock * pMeter.oldNumOfBlocks) with
      | some (.chksum sum) => return (blocks, sum)
      | _ => none

/-- The `SCompInfo` of a meter, its blocks and their check sum are written. -/
def writeMeter (head : HeadFile) (uid : BitVec 64) (pMeter : SMeterInfo)
    (records : Int -> Option HeadRecord) : Option (Int -> Option HeadRecord) := do
  let (old, chksum) <- oldBlocks head pMeter
  let chksum := if pMeter.newBlocks = [] then chksum else blocksChecksum chksum pMeter.newBlocks
  let blocks := old ++ pMeter.newBlocks
  let start := pMeter.compInfoOffset + sizeofCompInfo
  let records := update records pMeter.compInfoOffset
    (some (.compInfo (checkedInfo uid pMeter.last pMeter.finalNumOfBlocks)))
  let records := writeBlocks blocks start records
  return update records (start + sizeofCompBlock * blocks.length) (some (.chksum chksum))

def writeMeters (head : HeadFile) (meterList : Nat -> Option (SMeterObj Row))
    (meterInfo : Nat -> SMeterInfo) :
    List Nat -> (Int -> Option HeadRecord) -> Option (Int -> Option HeadRecord)
  | [], records => some records
  | sid :: sids, records =>
    match meterList sid with
    | none => writeMeters head meterList meterInfo sids records
    | some pObj =>
      if (meterInfo sid).finalNumOfBlocks ≤ 0 then
        writeMeters head meterList meterInfo sids records
      else do
        let records <- writeMeter head pObj.uid (meterInfo sid) records
        writeMeters head meterList meterInfo sids records

/-- `vnodeCloseCommitFiles`: the new head file and the temporary last file replace the old
ones. -/
def vnodeCloseCommitFiles (files : OpenFiles Row) (head : HeadFile) : SFiles Row where
  head := head
  data := files.dfd
  last := files.tfd.getD files.lfd

/-- `vnodeUpdateCommitInfo` for the meters of a commit. -/
def updateCommitInfos (meterInfo : Nat -> SMeterInfo) (ssid esid : Nat)
    (meterList : Nat -> Option (SMeterObj Row)) (sid : Nat) : Option (SMeterObj Row) :=
  (meterList sid).map fun pObj =>
    let pMeter := meterInfo sid
    if ssid ≤ sid ∧ sid ≤ esid ∧ 0 < pMeter.finalNumOfBlocks ∧ 0 < pMeter.committedPoints then
      { pObj with pCache := pObj.pCache.map fun pInfo =>
          { pInfo with commitSlot := pMeter.commitSlot, commitPoint := pMeter.commitPos } }
    else pObj

/-- What `vnodeCommitMultiToFile` does to the files of one window. -/
def commitWindow (ssid esid : Nat) (window : Window) (pVnode : SVnodeObj Row) :
    Option (SVnodeObj Row) := do
  let files := pVnode.files window.commitFileId
  let head := files.head
  if ¬ HeaderChecked pVnode.maxSessions head then none
  else
    let meterInfo <- readMeterInfos head pVnode.meterList (List.range pVnode.maxSessions)
      fun _ => noMeterInfo
    let turn <- commitMeters settings pVnode.compression window (List.range' ssid (esid + 1 - ssid))
      { firstKey := pVnode.firstKey
        meterList := pVnode.meterList
        files := openLast files ssid
        meterInfo := meterInfo
        totalStorage := head.totalStorage }
    let layout := layOut turn.meterList (List.range pVnode.maxSessions)
      { compInfoOffset := tsdbFileHeaderLen + tmsize pVnode.maxSessions
        offsets := head.compInfoOffset
        meterInfo := turn.meterInfo }
    let records <- writeMeters head turn.meterList layout.meterInfo (List.range pVnode.maxSessions)
      fun _ => none
    let newHead : HeadFile :=
      { totalStorage := turn.totalStorage
        compInfoOffset := layout.offsets
        checksum := crc32c 0 (headerBytes pVnode.maxSessions layout.offsets)
        records := records }
    return { pVnode with
      firstKey := turn.firstKey
      meterList := updateCommitInfos layout.meterInfo ssid esid turn.meterList
      files := update pVnode.files window.commitFileId
        (vnodeCloseCommitFiles turn.files newHead) }

def nextWindow (delta : Int) (window : Window) : Window :=
  ⟨window.commitFileId + 1, window.commitLastKey + 1, window.commitLastKey + delta⟩

def commitWindows (ssid esid : Nat) (delta : Int) :
    Nat -> Window -> SVnodeObj Row -> Option (SVnodeObj Row)
  | 0, _, _ => none
  | fuel + 1, window, pVnode => do
      let pVnode <- commitWindow settings ssid esid window pVnode
      if window.commitLastKey < pVnode.lastKey then
        commitWindows ssid esid delta fuel (nextWindow delta window) pVnode
      else return pVnode

def vnodeCommitMultiToFile (ssid esid : Nat) (delta : Int) (fuel : Nat) (window : Window)
    (pVnode : SVnodeObj Row) : Option (SVnodeObj Row) :=
  if pVnode.lastKey = 0 then some pVnode
  else commitWindows settings ssid esid delta fuel window
    { pVnode with firstKey := pVnode.lastKey + 1 }

end Query

end Luomi.Vnode.CommitFile
