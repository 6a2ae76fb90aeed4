import Luomi.Vnode.Cache

/-!
# Who has the blocks of the pool

A meter has the blocks of a window of numbers, in the slots of these numbers; the
newest of them are not free.  Every block in use is in the window of its meter.
-/

namespace Luomi.Vnode.CachePool

open RingWindow Cache
open Function (update update_of_ne update_self)

/-- The numbers of the blocks a meter has, and how many of the last are not free. -/
structure Window where
  lo : Int
  hi : Int
  held : Int

def Window.Has (window : Window) (number : Int) : Prop := window.lo < number ∧ number ≤ window.hi

def windowOf (pInfo : SCacheInfo) : Window :=
  ⟨pInfo.blocks - pInfo.numOfBlocks, pInfo.blocks, pInfo.unCommittedBlocks⟩

section Pool

variable {Row : Type}

def taken (pMem : Nat -> SCacheBlock) (index : Nat) : Int := if (pMem index).notFree then 1 else 0

structure BlockOf (block : SCacheBlock) (sid : Nat) (window : Window) (size number : Int)
    (index : Nat) : Prop where
  owner : block.pMeterObj = some sid
  numbered : block.blockId = number
  slotted : block.slot = slotOf size number
  placed : block.index = index
  notFree : block.notFree = true ↔ window.hi - window.held < number

structure Sound (pInfo : SCacheInfo) (window : Window) : Prop where
  held : 0 ≤ window.held
  within : window.held ≤ window.hi - window.lo
  start : 0 ≤ window.lo
  count : pInfo.numOfBlocks = window.hi - window.lo
  ring : window.hi - window.lo ≤ pInfo.maxBlocks

structure Pooled (vnode : SVnodeObj Row) (windows : Nat -> Window) : Prop where
  freeSlot : vnode.pool.freeSlot < vnode.totalBlocks
  sessions : ∀ sid, (cacheOf vnode sid).isSome -> sid < vnode.maxSessions
  absent : ∀ sid, cacheOf vnode sid = none -> (windows sid).held = 0
  sound : ∀ sid pObj pInfo, cacheOf vnode sid = some (pObj, pInfo) -> Sound pInfo (windows sid)
  live : ∀ sid pObj pInfo, cacheOf vnode sid = some (pObj, pInfo) ->
    ∀ number, (windows sid).Has number -> ∃ index < vnode.totalBlocks,
      pInfo.cacheBlocks (slotOf pInfo.maxBlocks number) = some index ∧
      BlockOf (vnode.pool.pMem index) sid (windows sid) pInfo.maxBlocks number index
  owned : ∀ index < vnode.totalBlocks, (vnode.pool.pMem index).blockId ≠ 0 ->
    ∃ sid pObj pInfo, cacheOf vnode sid = some (pObj, pInfo) ∧
      (windows sid).Has (vnode.pool.pMem index).blockId ∧
      pInfo.cacheBlocks (slotOf pInfo.maxBlocks (vnode.pool.pMem index).blockId) = some index
  empty : ∀ index < vnode.totalBlocks, (vnode.pool.pMem index).blockId = 0 ->
    vnode.pool.pMem index = zeroBlock
  blocks : vnode.pool.notFreeSlots =
    ∑ index ∈ Finset.range vnode.totalBlocks, taken vnode.pool.pMem index
  meters : vnode.pool.notFreeSlots =
    ∑ sid ∈ Finset.range vnode.maxSessions, (windows sid).held

@[simp] theorem cacheAt_update_same (meterList : Nat -> Option SMeterObj) (sid : Nat)
    (pObj : SMeterObj) : cacheAt (update meterList sid (some pObj)) sid =
      pObj.pCache.map fun pInfo => (pObj, pInfo) := by
  unfold cacheAt
  rw [update_self]
  cases cache : pObj.pCache with
  | none => simp [cache]
  | some pInfo => simp [cache]

variable {meterList : Nat -> Option SMeterObj} {other : Nat}

theorem cacheAt_update_ne {sid : Nat} (ne : other ≠ sid) (pObj : Option SMeterObj) :
    cacheAt (update meterList sid pObj) other = cacheAt meterList other := by
  unfold cacheAt
  rw [update_of_ne ne]

theorem cacheAt_some {sid : Nat} {pObj : SMeterObj}
    {pInfo : SCacheInfo} (cache : cacheAt meterList sid = some (pObj, pInfo)) :
    meterList sid = some pObj ∧ pObj.pCache = some pInfo := by
  unfold cacheAt at cache
  obtain ⟨found, isFound, rest⟩ := Option.bind_eq_some_iff.mp cache
  obtain ⟨info, isInfo, both⟩ := Option.bind_eq_some_iff.mp rest
  cases both
  exact ⟨isFound, isInfo⟩

section Lemmas

variable {vnode : SVnodeObj Row} {windows : Nat -> Window} {sid : Nat} {pObj : SMeterObj}
  {pInfo : SCacheInfo} {index : Nat} {number : Int}

section

variable (pooled : Pooled vnode windows) (cache : cacheOf vnode sid = some (pObj, pInfo))
  (has : (windows sid).Has number)

include pooled cache has

theorem Pooled.blockAt (slot : pInfo.cacheBlocks (slotOf pInfo.maxBlocks number) = some index) :
    index < vnode.totalBlocks ∧
      BlockOf (vnode.pool.pMem index) sid (windows sid) pInfo.maxBlocks number index := by
  obtain ⟨found, inside, isFound, block⟩ := pooled.live sid pObj pInfo cache number has
  rw [slot] at isFound
  cases isFound
  exact ⟨inside, block⟩

theorem Pooled.number_pos : 0 < number := by
  have start := (pooled.sound sid pObj pInfo cache).start
  have above := has.1
  omega

end

end Lemmas

section Change

variable {vnode next : SVnodeObj Row} {windows : Nat -> Window} {sid : Nat}
  {pObj pObj' : SMeterObj} {pInfo pInfo' : SCacheInfo} {index : Nat} {number : Int}
  {block : SCacheBlock} {window : Window}

structure Change (vnode next : SVnodeObj Row) (windows : Nat -> Window) (sid : Nat)
    (pInfo : SCacheInfo) (pObj' : SMeterObj) (pInfo' : SCacheInfo) (index : Nat) (number : Int)
    (block : SCacheBlock) (window : Window) : Prop where
  total : next.totalBlocks = vnode.totalBlocks
  sessions : next.maxSessions = vnode.maxSessions
  meterList : next.meterList = update vnode.meterList sid (some pObj')
  cache : pObj'.pCache = some pInfo'
  pMem : next.pool.pMem = update vnode.pool.pMem index block
  freeSlot : next.pool.freeSlot < vnode.totalBlocks
  size : pInfo'.maxBlocks = pInfo.maxBlocks
  inside : index < vnode.totalBlocks
  mine : (vnode.pool.pMem index).blockId = 0 ∨ (vnode.pool.pMem index).pMeterObj = some sid
  sound : Sound pInfo' window
  has : ∀ other, other ≠ number -> (window.Has other ↔ (windows sid).Has other)
  kept : ∀ other, other ≠ number -> window.Has other ->
    pInfo'.cacheBlocks (slotOf pInfo.maxBlocks other) =
        pInfo.cacheBlocks (slotOf pInfo.maxBlocks other) ∧
      pInfo.cacheBlocks (slotOf pInfo.maxBlocks other) ≠ some index ∧
      (window.hi - window.held < other ↔ (windows sid).hi - (windows sid).held < other)
  old : (windows sid).Has number -> pInfo.cacheBlocks (slotOf pInfo.maxBlocks number) = some index
  new : window.Has number -> pInfo'.cacheBlocks (slotOf pInfo.maxBlocks number) = some index ∧
    BlockOf block sid window pInfo.maxBlocks number index
  used : block.blockId ≠ 0 -> block.blockId = number ∧ window.Has number
  unused : block.blockId = 0 -> block = zeroBlock
  notFreeSlots : next.pool.notFreeSlots = vnode.pool.notFreeSlots -
    taken vnode.pool.pMem index + if block.notFree then 1 else 0
  heldDiff : window.held = (windows sid).held - taken vnode.pool.pMem index +
    if block.notFree then 1 else 0

section

variable (change : Change vnode next windows sid pInfo pObj' pInfo' index number block window)
include change

theorem Change.cacheSame : cacheOf next sid = some (pObj', pInfo') := by
  unfold cacheOf
  rw [change.meterList, cacheAt_update_same, change.cache]
  rfl

theorem Change.cacheOther (ne : other ≠ sid) : cacheOf next other = cacheOf vnode other := by
  unfold cacheOf
  rw [change.meterList, cacheAt_update_ne ne]

theorem Change.elsewhere (pooled : Pooled vnode windows) {place : Nat}
    {otherObj : SMeterObj} {otherInfo : SCacheInfo} {otherNumber : Int} (ne : other ≠ sid)
    (cache : cacheOf vnode other = some (otherObj, otherInfo))
    (has : (windows other).Has otherNumber)
    (slot : otherInfo.cacheBlocks (slotOf otherInfo.maxBlocks otherNumber) = some place) :
    place ≠ index := by
  rintro rfl
  have otherBlock := (pooled.blockAt cache has slot).2
  rcases change.mine with free | mine
  · have positive := pooled.number_pos cache has
    rw [<- otherBlock.numbered, free] at positive
    exact lt_irrefl _ positive
  · exact ne (Option.some.inj (otherBlock.owner.symm.trans mine))

end

theorem Pooled.change (pooled : Pooled vnode windows)
    (cache : cacheOf vnode sid = some (pObj, pInfo))
    (change : Change vnode next windows sid pInfo pObj' pInfo' index number block window) :
    Pooled next (update windows sid window) := by
  have cacheSame := change.cacheSame
  refine ⟨?_, ?_, ?_, ?_, ?_, ?_, ?_, ?_, ?_⟩
  · rw [change.total]
    exact change.freeSlot
  · intro other isSome
    rw [change.sessions]
    by_cases same : other = sid
    · rw [same]
      exact pooled.sessions sid (by rw [cache]; rfl)
    · rw [change.cacheOther same] at isSome
      exact pooled.sessions other isSome
  · intro other none'
    by_cases same : other = sid
    · rw [same, cacheSame] at none'
      cases none'
    · rw [change.cacheOther same] at none'
      rw [update_of_ne same]
      exact pooled.absent other none'
  · intro other otherObj otherInfo otherCache
    by_cases same : other = sid
    · subst same
      rw [cacheSame] at otherCache
      cases otherCache
      rw [update_self]
      exact change.sound
    · rw [change.cacheOther same] at otherCache
      rw [update_of_ne same]
      exact pooled.sound other otherObj otherInfo otherCache
  · intro other otherObj otherInfo otherCache otherNumber has
    rw [change.total, change.pMem]
    by_cases same : other = sid
    · subst same
      rw [cacheSame] at otherCache
      cases otherCache
      rw [update_self] at has ⊢
      rw [change.size]
      by_cases isNumber : otherNumber = number
      · subst isNumber
        obtain ⟨slot, isBlock⟩ := change.new has
        refine ⟨index, change.inside, slot, ?_⟩
        rw [update_self]
        exact isBlock
      · obtain ⟨slot, notIndex, notFree⟩ := change.kept otherNumber isNumber has
        obtain ⟨place, inside, isPlace, isBlock⟩ := pooled.live other pObj pInfo cache otherNumber
          ((change.has otherNumber isNumber).mp has)
        refine ⟨place, inside, slot.trans isPlace, ?_⟩
        have ne : place ≠ index := by
          rintro rfl
          exact notIndex isPlace
        rw [update_of_ne ne]
        exact ⟨isBlock.owner, isBlock.numbered, isBlock.slotted, isBlock.placed,
          isBlock.notFree.trans notFree.symm⟩
    · rw [change.cacheOther same] at otherCache
      rw [update_of_ne same] at has ⊢
      obtain ⟨place, inside, isPlace, isBlock⟩ :=
        pooled.live other otherObj otherInfo otherCache otherNumber has
      refine ⟨place, inside, isPlace, ?_⟩
      rw [update_of_ne (change.elsewhere pooled same otherCache has isPlace)]
      exact isBlock
  · intro place inside used
    rw [change.total] at inside
    rw [change.pMem] at used ⊢
    by_cases same : place = index
    · subst same
      rw [update_self] at used ⊢
      obtain ⟨isNumber, has⟩ := change.used used
      refine ⟨sid, pObj', pInfo', cacheSame, ?_, ?_⟩
      · rw [update_self, isNumber]
        exact has
      · rw [isNumber, change.size]
        exact (change.new has).1
    · rw [update_of_ne same] at used ⊢
      obtain ⟨other, otherObj, otherInfo, otherCache, has, slot⟩ := pooled.owned place inside used
      by_cases isSid : other = sid
      · subst isSid
        rw [cache] at otherCache
        cases otherCache
        have isOther : (vnode.pool.pMem place).blockId ≠ number := by
          intro isNumber
          rw [isNumber] at has slot
          exact same (Option.some.inj (slot.symm.trans (change.old has)))
        have hasNow := (change.has _ isOther).mpr has
        refine ⟨other, pObj', pInfo', cacheSame, ?_, ?_⟩
        · rw [update_self]
          exact hasNow
        · rw [change.size]
          exact (change.kept _ isOther hasNow).1.trans slot
      · refine ⟨other, otherObj, otherInfo, ?_, ?_, slot⟩
        · rw [change.cacheOther isSid]
          exact otherCache
        · rw [update_of_ne isSid]
          exact has
  · intro place inside unused
    rw [change.total] at inside
    rw [change.pMem] at unused ⊢
    by_cases same : place = index
    · subst same
      rw [update_self] at unused ⊢
      exact change.unused unused
    · rw [update_of_ne same] at unused ⊢
      exact pooled.empty place inside unused
  · have table : taken next.pool.pMem =
        update (taken vnode.pool.pMem) index (if block.notFree then 1 else 0) := by
      funext place
      unfold taken
      rw [change.pMem]
      by_cases same : place = index
      · subst same
        rw [update_self, update_self]
      · rw [update_of_ne same, update_of_ne same]
    rw [change.total, table, sum_update _ _ _ change.inside, change.notFreeSlots, pooled.blocks]
  · have table : (fun other => (update windows sid window other).held) =
        update (fun other => (windows other).held) sid window.held := by
      funext other
      by_cases same : other = sid
      · subst same
        rw [update_self, update_self]
      · rw [update_of_ne same, update_of_ne same]
    have inside := pooled.sessions sid (by rw [cache]; rfl)
    rw [change.sessions, table, sum_update _ _ _ inside, change.notFreeSlots, pooled.meters,
      change.heldDiff]
    ring

end Change

end Pool

end Luomi.Vnode.CachePool
