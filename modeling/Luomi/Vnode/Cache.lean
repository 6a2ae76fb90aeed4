import Luomi.Base.RingWindow

/-!
# The cache of a vnode (`vnodeCache.c`)

The meters of a vnode share a pool of blocks.  Each meter has a ring of pointers to
the blocks it has; blocks whose points are all committed may be taken from any
meter, the oldest first.  The rows a block holds are memory of their own behind its
head; taking a block clears the head only.

What starts a commit (timers, the commit thread, the count of the points) is left
out, and so are the trace messages.
-/

namespace Luomi.Vnode.Cache

open Function (update)

/-- `SCacheBlock`; the meter is its session. -/
structure SCacheBlock where
  notFree : Bool
  numOfPoints : Int
  slot : Int
  index : Nat
  blockId : Int
  pMeterObj : Option Nat
  deriving DecidableEq

/-- A block after `memset`. -/
def zeroBlock : SCacheBlock := ⟨false, 0, 0, 0, 0, none⟩

def sizeofCacheBlock : Int := 32

/-- `SCacheInfo`; the pointers are places in the pool. -/
structure SCacheInfo where
  blocks : Int
  maxBlocks : Int
  numOfBlocks : Int
  unCommittedBlocks : Int
  currentSlot : Int
  commitSlot : Int
  commitPoint : Int
  cacheBlocks : Int -> Option Nat

structure SMeterObj where
  numOfColumns : Nat
  bytesPerPoint : Nat
  lastKey : Int
  lastKeyOnFile : Int
  pointsPerBlock : Int
  freePoints : BitVec 32
  pCache : Option SCacheInfo

@[ext] structure SCachePool (Row : Type) where
  pMem : Nat -> SCacheBlock
  rows : Nat -> Int -> Row
  freeSlot : Nat
  notFreeSlots : Int
  threshold : Int

/-- `SVnodeObj`: `cacheBlockSize`, `totalBlocks` and `maxSessions` are from `cfg`. -/
@[ext] structure SVnodeObj (Row : Type) where
  cacheBlockSize : Int
  totalBlocks : Nat
  maxSessions : Nat
  meterList : Nat -> Option SMeterObj
  pool : SCachePool Row

section Cache

variable {Row : Type}

def short (value : Int) : Int := (BitVec.ofInt 16 value).toInt

def cacheAt (meterList : Nat -> Option SMeterObj) (sid : Nat) :
    Option (SMeterObj × SCacheInfo) := do
  let pObj <- meterList sid
  let pInfo <- pObj.pCache
  return (pObj, pInfo)

def cacheOf (vnode : SVnodeObj Row) (sid : Nat) : Option (SMeterObj × SCacheInfo) :=
  cacheAt vnode.meterList sid

def setMeter (vnode : SVnodeObj Row) (sid : Nat) (pObj : SMeterObj) : SVnodeObj Row :=
  { vnode with meterList := update vnode.meterList sid (some pObj) }

/-- `pObj->pointsPerBlock`: the size is unsigned, the quotient an `int`. -/
def pointsPerBlock (cacheBlockSize : Int) (numOfColumns bytesPerPoint : Nat)
    (pointsPerFileBlock : Int) : Int :=
  let size := BitVec.ofInt 64 (cacheBlockSize - sizeofCacheBlock - 8 * numOfColumns)
  let points := (BitVec.ofNat 32 (size.toNat / bytesPerPoint)).toInt
  if pointsPerFileBlock < points then pointsPerFileBlock else points

def vnodeAllocateCacheInfo (vnode : SVnodeObj Row) (sid : Nat) (numOfColumns bytesPerPoint : Nat)
    (lastKeyOnFile pointsPerFileBlock : Int) (blocksPerMeter : Nat) : SVnodeObj Row :=
  let points := pointsPerBlock vnode.cacheBlockSize numOfColumns bytesPerPoint pointsPerFileBlock
  setMeter vnode sid
    { numOfColumns := numOfColumns
      bytesPerPoint := bytesPerPoint
      lastKey := lastKeyOnFile
      lastKeyOnFile := lastKeyOnFile
      pointsPerBlock := points
      freePoints := BitVec.ofInt 32 (points * blocksPerMeter)
      pCache := some
        { blocks := 0
          maxBlocks := blocksPerMeter
          numOfBlocks := 0
          unCommittedBlocks := 0
          currentSlot := -1
          commitSlot := 0
          commitPoint := 0
          cacheBlocks := fun _ => none } }

/-- `vnodeFreeCacheBlock`; `none` where it follows a pointer to no meter. -/
def vnodeFreeCacheBlock (vnode : SVnodeObj Row) (pCacheBlock : Option Nat) :
    Option (SVnodeObj Row) :=
  match pCacheBlock with
  | none => some vnode
  | some index => do
      let block := vnode.pool.pMem index
      let sid <- block.pMeterObj
      let (pObj, pInfo) <- cacheOf vnode sid
      return { vnode with
        meterList := update vnode.meterList sid
          (some { pObj with pCache := some { pInfo with numOfBlocks := pInfo.numOfBlocks - 1 } })
        pool := { vnode.pool with
          pMem := update vnode.pool.pMem index zeroBlock
          notFreeSlots := vnode.pool.notFreeSlots - if block.notFree then 1 else 0 } }

/-- The loop of `vnodeFreeCacheInfo`. -/
def freeRing (pInfo : SCacheInfo) : Nat -> Int -> SVnodeObj Row -> Option (SVnodeObj Row)
  | 0, _, vnode => some vnode
  | count + 1, slot, vnode => do
      let vnode <- vnodeFreeCacheBlock vnode (pInfo.cacheBlocks slot)
      freeRing pInfo count ((slot - 1 + pInfo.maxBlocks).tmod pInfo.maxBlocks) vnode

def vnodeFreeCacheInfo (vnode : SVnodeObj Row) (sid : Nat) : Option (SVnodeObj Row) :=
  match cacheOf vnode sid with
  | none => some vnode
  | some (_, pInfo) => do
      let vnode <- freeRing pInfo pInfo.numOfBlocks.toNat pInfo.currentSlot vnode
      let pObj <- vnode.meterList sid
      return setMeter vnode sid { pObj with pCache := none }

def commitStart (pObj : SMeterObj) (pInfo : SCacheInfo) : Int :=
  if pInfo.commitPoint = pObj.pointsPerBlock then (pInfo.commitSlot + 1).tmod pInfo.maxBlocks
  else pInfo.commitSlot

/-- One turn of the loop in `vnodeUpdateCommitInfo` that marks a block as committed. -/
def commitBlock (vnode : SVnodeObj Row) (sid : Nat) (tslot : Int) : Option (SVnodeObj Row) := do
  let (pObj, pInfo) <- cacheOf vnode sid
  let index <- pInfo.cacheBlocks tslot
  -- assert(pBlock->notFree)
  if (vnode.pool.pMem index).notFree then
    return { vnode with
      meterList := update vnode.meterList sid (some { pObj with
        pCache := some { pInfo with unCommittedBlocks := pInfo.unCommittedBlocks - 1 } })
      pool := { vnode.pool with
        pMem := update vnode.pool.pMem index
          { vnode.pool.pMem index with notFree := false }
        notFreeSlots := vnode.pool.notFreeSlots - 1 } }
  else none

/-- The loop of `vnodeUpdateCommitInfo`, with the number of slots it has passed. -/
def commitLoop (sid : Nat) (maxBlocks pointsPerBlock slot pos : Int) :
    Nat -> Int -> Int -> SVnodeObj Row -> Option (SVnodeObj Row × Int)
  | 0, _, _, _ => none
  | fuel + 1, tslot, slots, vnode =>
    if tslot ≠ slot ∨ pos = pointsPerBlock then do
      let vnode <- commitBlock vnode sid tslot
      if tslot = slot then return (vnode, slots + 1)
      else
        commitLoop sid maxBlocks pointsPerBlock slot pos fuel ((tslot + 1).tmod maxBlocks)
          (slots + 1) vnode
    else some (vnode, slots)

/-- `vnodeUpdateCommitInfo`.  Each turn commits a block of the ring, so more turns than
the ring has slots end at the assertion. -/
def vnodeUpdateCommitInfo (vnode : SVnodeObj Row) (sid : Nat) (slot pos : Int) :
    Option (SVnodeObj Row) := do
  let (pObj, pInfo) <- cacheOf vnode sid
  let (vnode, slots) <- commitLoop sid pInfo.maxBlocks pObj.pointsPerBlock slot pos
    (pInfo.maxBlocks.toNat + 1) (commitStart pObj pInfo) 0 vnode
  let (pObj, pInfo) <- cacheOf vnode sid
  return setMeter vnode sid { pObj with
    freePoints := pObj.freePoints + BitVec.ofInt 32 (pObj.pointsPerBlock * slots)
    pCache := some { pInfo with commitSlot := slot, commitPoint := pos } }

def firstSlot (pInfo : SCacheInfo) : Int :=
  (pInfo.currentSlot - pInfo.numOfBlocks + 1 + pInfo.maxBlocks).tmod pInfo.maxBlocks

/-- `pPool->freeSlot = (pPool->freeSlot + 1) % totalBlocks`. -/
def nextFreeSlot (vnode : SVnodeObj Row) : SVnodeObj Row :=
  { vnode with pool := { vnode.pool with
    freeSlot := (vnode.pool.freeSlot + 1) % vnode.totalBlocks } }

inductive Search (Row : Type) where
  | found (index : Nat) (vnode : SVnodeObj Row)
  | tooSlow (vnode : SVnodeObj Row)

/-- The search loop of `vnodeAllocateCacheBlock` with fuel for its turns. -/
def findBlock : Nat -> Int -> SVnodeObj Row -> Option (Search Row)
  | 0, _, _ => none
  | fuel + 1, skipped, vnode =>
    let pCacheBlock := vnode.pool.pMem vnode.pool.freeSlot
    if pCacheBlock.blockId = 0 then some (.found vnode.pool.freeSlot vnode)
    else if pCacheBlock.notFree then
      if vnode.pool.threshold < skipped + 1 then some (.tooSlow (nextFreeSlot vnode))
      else findBlock fuel (skipped + 1) (nextFreeSlot vnode)
    else do
      let sid <- pCacheBlock.pMeterObj
      let (_, pRelInfo) <- cacheOf vnode sid
      match pRelInfo.cacheBlocks (firstSlot pRelInfo) with
      | some index =>
        let place := (vnode.pool.pMem index).index
        let vnode <- vnodeFreeCacheBlock
          { vnode with pool := { vnode.pool with freeSlot := place } } (some index)
        return .found index vnode
      | none => findBlock fuel (skipped + 1) (nextFreeSlot vnode)

section

variable (vnode : SVnodeObj Row)

def countBlock (sid index : Nat) (pObj : SMeterObj) (pInfo : SCacheInfo) : SVnodeObj Row :=
  let current := (pInfo.currentSlot + 1).tmod pInfo.maxBlocks
  { vnode with
    meterList := update vnode.meterList sid (some { pObj with
      pCache := some { pInfo with
        numOfBlocks := pInfo.numOfBlocks + 1
        blocks := pInfo.blocks + 1
        unCommittedBlocks := pInfo.unCommittedBlocks + 1
        currentSlot := current } })
    pool := { vnode.pool with
      freeSlot := (vnode.pool.freeSlot + 1) % vnode.totalBlocks
      notFreeSlots := vnode.pool.notFreeSlots + 1
      pMem := update vnode.pool.pMem index { vnode.pool.pMem index with
        pMeterObj := some sid
        notFree := true
        index := vnode.pool.freeSlot
        blockId := pInfo.blocks + 1
        slot := current } } }

def freeOldest (pInfo : SCacheInfo) : Option (SVnodeObj Row) :=
  if pInfo.maxBlocks < pInfo.numOfBlocks then
    vnodeFreeCacheBlock vnode (pInfo.cacheBlocks pInfo.currentSlot)
  else some vnode

/-- `pInfo->cacheBlocks[pInfo->currentSlot] = pPool->pMem[index]`. -/
def linkBlock (sid index : Nat) : Option (SVnodeObj Row) := do
  let (pObj, pInfo) <- cacheOf vnode sid
  return setMeter vnode sid { pObj with pCache := some { pInfo with
    cacheBlocks := update pInfo.cacheBlocks pInfo.currentSlot (some index) } }

/-- The end of `vnodeAllocateCacheBlock` with the block the search has found. -/
def takeBlock (sid index : Nat) : Option (SVnodeObj Row) := do
  let (pObj, pInfo) <- cacheOf vnode sid
  let place := vnode.pool.freeSlot
  let vnode := countBlock vnode sid index pObj pInfo
  let (_, pInfo) <- cacheOf vnode sid
  let vnode <- freeOldest vnode pInfo
  linkBlock vnode sid place

/-- `vnodeAllocateCacheBlock`: -1, or whether a commit was started. -/
def vnodeAllocateCacheBlock (sid : Nat) : Option (Int × SVnodeObj Row) :=
  match cacheOf vnode sid with
  | none => some (-1, vnode)
  | some (_, pInfo) =>
    if pInfo.maxBlocks - 1 ≤ pInfo.unCommittedBlocks then some (-1, vnode)
    else do
      match <- findBlock (vnode.pool.threshold.toNat + 1) 0 vnode with
      | .tooSlow vnode => return (-1, vnode)
      | .found index vnode =>
        let vnode <- takeBlock vnode sid index
        let (_, pInfo) <- cacheOf vnode sid
        let commit : Bool := vnode.pool.threshold < vnode.pool.notFreeSlots ∨
          pInfo.maxBlocks / 2 ≤ pInfo.unCommittedBlocks
        return (if commit then 1 else 0, vnode)

/-- A row at a place stays inside the memory of its block, clear of the head and of
the other columns. -/
def InBlock (pObj : SMeterObj) (pos : Int) : Prop :=
  0 ≤ pos ∧ pos < pObj.pointsPerBlock ∧
    sizeofCacheBlock + 8 * pObj.numOfColumns + pObj.pointsPerBlock * pObj.bytesPerPoint ≤
      vnode.cacheBlockSize

end

instance (vnode : SVnodeObj Row) (pObj : SMeterObj) (pos : Int) :
    Decidable (InBlock vnode pObj pos) :=
  inferInstanceAs (Decidable (_ ∧ _))

/-- A row is copied behind the points of a block; `none` where it overwrites memory it
has no business with. -/
def writePoint (vnode : SVnodeObj Row) (sid : Nat) (row : Row) : Option (SVnodeObj Row) := do
  let (pObj, pInfo) <- cacheOf vnode sid
  let index <- pInfo.cacheBlocks pInfo.currentSlot
  let block := vnode.pool.pMem index
  if InBlock vnode pObj block.numOfPoints then
    return { vnode with
      meterList := update vnode.meterList sid
        (some { pObj with freePoints := pObj.freePoints - 1 })
      pool := { vnode.pool with
        pMem := update vnode.pool.pMem index
          { block with numOfPoints := short (block.numOfPoints + 1) }
        rows := update vnode.pool.rows index
          (update (vnode.pool.rows index) block.numOfPoints row) } }
  else none

def allocateIf (needed : Bool) (vnode : SVnodeObj Row) (sid : Nat) :
    Option (Int × SVnodeObj Row) :=
  if needed then vnodeAllocateCacheBlock vnode sid else some (0, vnode)

def currentFull (vnode : SVnodeObj Row) (sid : Nat) : Option Bool := do
  let (pObj, pInfo) <- cacheOf vnode sid
  let index <- pInfo.cacheBlocks pInfo.currentSlot
  return pObj.pointsPerBlock ≤ (vnode.pool.pMem index).numOfPoints

def vnodeInsertPointToCache (vnode : SVnodeObj Row) (sid : Nat) (row : Row) :
    Option (Int × SVnodeObj Row) := do
  let (_, pInfo) <- cacheOf vnode sid
  let (code, vnode) <- allocateIf (pInfo.numOfBlocks = 0) vnode sid
  if code < 0 then return (-1, vnode)
  let (_, pInfo) <- cacheOf vnode sid
  if pInfo.currentSlot < 0 then return (-1, vnode)
  let full <- currentFull vnode sid
  let (code, vnode) <- allocateIf full vnode sid
  if code < 0 then return (-1, vnode)
  let vnode <- writePoint vnode sid row
  return (0, vnode)

end Cache

end Luomi.Vnode.Cache
