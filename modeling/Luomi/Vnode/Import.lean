import Luomi.Base.MemoryCells
import Luomi.Vnode.Cache

/-!
# Importing rows (`vnodeImport.c`)

Rows that are older than the last one of a meter go into its cache or, where they are
older than what is committed, into its files.  In the cache they are spliced in: the
rows behind the place are copied out, and payload and copy are written back from there
on.  The files are not modelled.
-/

namespace Luomi.Vnode.Import

open MemoryCells Cache
open Function (update)

def actionInProgress : Int := 1

structure SImportInfo where
  firstKey : Int
  lastKey : Int
  importedRows : Int
  commit : Int
  slot : Int
  pos : Int
  key : Int

section Import

variable {Row : Type}

/-- Rows that are copied stay inside the memory of their block. -/
def RowsInBlock (vnode : SVnodeObj Row) (pObj : SMeterObj) (pos points : Int) : Prop :=
  0 ≤ pos ∧ 0 ≤ points ∧ pos + points ≤ pObj.pointsPerBlock ∧
    sizeofCacheBlock + 8 * pObj.numOfColumns + pObj.pointsPerBlock * pObj.bytesPerPoint ≤
      vnode.cacheBlockSize

instance (vnode : SVnodeObj Row) (pObj : SMeterObj) (pos points : Int) :
    Decidable (RowsInBlock vnode pObj pos points) :=
  inferInstanceAs (Decidable (_ ∧ _))

def putRows (vnode : SVnodeObj Row) (index : Nat) (pos : Int) (list : List Row) : SVnodeObj Row :=
  { vnode with pool := { vnode.pool with
    pMem := update vnode.pool.pMem index
      { vnode.pool.pMem index with numOfPoints := short (list.length + pos) }
    rows := update vnode.pool.rows index
      (writeCells (vnode.pool.rows index) pos list) } }

def copyOut (vnode : SVnodeObj Row) (pObj : SMeterObj) (pInfo : SCacheInfo) :
    Nat -> Int -> Int -> Option (List Row)
  | 0, _, _ => none
  | fuel + 1, slot, pos => do
      let index <- pInfo.cacheBlocks slot
      let points := (vnode.pool.pMem index).numOfPoints - pos
      if RowsInBlock vnode pObj pos points then
        let copied := readCells (vnode.pool.rows index) pos points
        if slot = pInfo.currentSlot then return copied
        else
          let rest <- copyOut vnode pObj pInfo fuel ((slot + 1).tmod pInfo.maxBlocks) 0
          return copied ++ rest
      else none

def writeBack (pObj : SMeterObj) (pInfo : SCacheInfo) :
    Nat -> Int -> Int -> List Row -> SVnodeObj Row -> Option (List Row × SVnodeObj Row)
  | 0, _, _, _, _ => none
  | fuel + 1, slot, pos, buffer, vnode => do
      let index <- pInfo.cacheBlocks slot
      let points := if pObj.pointsPerBlock - pos < buffer.length then pObj.pointsPerBlock - pos
        else buffer.length
      if RowsInBlock vnode pObj pos points then
        let vnode := putRows vnode index pos (buffer.take points.toNat)
        let rest := buffer.drop points.toNat
        if slot = pInfo.currentSlot then return (rest, vnode)
        else writeBack pObj pInfo fuel ((slot + 1).tmod pInfo.maxBlocks) 0 rest vnode
      else none

/-- New blocks take what is left; whether all of it found a block. -/
def writeNew (sid : Nat) :
    Nat -> Int -> List Row -> SVnodeObj Row -> Option (Bool × Int × SVnodeObj Row)
  | 0, _, _, _ => none
  | _ + 1, commit, [], vnode => some (true, commit, vnode)
  | fuel + 1, _, row :: buffer, vnode => do
      let (commit, vnode) <- vnodeAllocateCacheBlock vnode sid
      if commit < 0 then return (false, commit, vnode)
      else
        let (pObj, pInfo) <- cacheOf vnode sid
        let index <- pInfo.cacheBlocks pInfo.currentSlot
        let rest := row :: buffer
        let points := if pObj.pointsPerBlock < rest.length then pObj.pointsPerBlock
          else rest.length
        if RowsInBlock vnode pObj 0 points then
          writeNew sid fuel commit (rest.drop points.toNat)
            (putRows vnode index 0 (rest.take points.toNat))
        else none

def subFreePoints (vnode : SVnodeObj Row) (sid : Nat) (rows : Int) : Option (SVnodeObj Row) := do
  let pObj <- vnode.meterList sid
  return setMeter vnode sid { pObj with freePoints := pObj.freePoints - BitVec.ofInt 32 rows }

def CacheFull (pObj : SMeterObj) (rows : Int) : Prop :=
  pObj.freePoints.toInt < rows ∨ pObj.freePoints.toInt < pObj.pointsPerBlock * 2

instance (pObj : SMeterObj) (rows : Int) : Decidable (CacheFull pObj rows) :=
  inferInstanceAs (Decidable (_ ∨ _))

def vnodeImportToCache (vnode : SVnodeObj Row) (sid : Nat) (pImport : SImportInfo)
    (payload : List Row) : Option (Int × SImportInfo × SVnodeObj Row) := do
  let (pObj, pInfo) <- cacheOf vnode sid
  if CacheFull pObj payload.length then
    return (actionInProgress, { pImport with importedRows := 0, commit := 1 }, vnode)
  else
    let overwritten <- copyOut vnode pObj pInfo pInfo.maxBlocks.toNat pImport.slot pImport.pos
    -- the buffer has room for one block more than is not committed
    if (pInfo.unCommittedBlocks + 1) * pObj.pointsPerBlock < overwritten.length then none
    else
      let buffer := payload ++ overwritten
      let (buffer, vnode) <-
        writeBack pObj pInfo pInfo.maxBlocks.toNat pImport.slot pImport.pos buffer vnode
      let (whole, commit, vnode) <- writeNew sid (buffer.length + 1) pImport.commit buffer vnode
      let pImport := { pImport with commit := commit }
      if whole then
        let vnode <- subFreePoints vnode sid payload.length
        return (0, pImport, vnode)
      else return (-1, pImport, vnode)

/-- `vnodeBinarySearchKey`; the keys are those of the places of a block. -/
def binarySearchDesc (keyList : Int -> Int) (key : Int) : Nat -> Int -> Int -> Option Int
  | 0, _, _ => none
  | fuel + 1, firstPos, lastPos =>
    if keyList lastPos ≤ key then some lastPos
    else if key = keyList firstPos then some firstPos
    else if key < keyList firstPos then some (firstPos - 1)
    else
      let midPos := (lastPos - firstPos + 1) / 2 + firstPos
      if key < keyList midPos then binarySearchDesc keyList key fuel firstPos (midPos - 1)
      else if keyList midPos < key then binarySearchDesc keyList key fuel (midPos + 1) lastPos
      else some midPos

def binarySearchAsc (keyList : Int -> Int) (num key : Int) : Nat -> Int -> Int -> Option Int
  | 0, _, _ => none
  | fuel + 1, firstPos, lastPos =>
    if key ≤ keyList firstPos then some firstPos
    else if key = keyList lastPos then some lastPos
    else if keyList lastPos < key then
      if num ≤ lastPos + 1 then some (-1) else some (lastPos + 1)
    else
      let midPos := (lastPos - firstPos + 1) / 2 + firstPos
      if key < keyList midPos then binarySearchAsc keyList num key fuel firstPos (midPos - 1)
      else if keyList midPos < key then
        binarySearchAsc keyList num key fuel (midPos + 1) lastPos
      else some midPos

def vnodeBinarySearchKey (keyList : Int -> Int) (num key : Int) (asc : Bool) : Option Int :=
  if num ≤ 0 then some (-1)
  else if asc then binarySearchAsc keyList num key (num.toNat + 1) 0 (num - 1)
  else binarySearchDesc keyList key (num.toNat + 1) 0 (num - 1)

end Import

end Luomi.Vnode.Import
