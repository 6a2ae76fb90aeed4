import Luomi.Vnode.CacheSteps

/-!
# What holds of a cache between two operations

The counters of a meter say which blocks of the pool it has, where in its ring they
are and how far they are committed.
-/

namespace Luomi.Vnode.CacheSteady

open RingWindow Cache CachePool CacheSteps

section Steady

variable {Row : Type}

def windowsOf (vnode : SVnodeObj Row) (sid : Nat) : Window :=
  ((cacheOf vnode sid).map fun cache => windowOf cache.2).getD ⟨0, 0, 0⟩

structure Fits (cacheBlockSize : Int) (pObj : SMeterObj) : Prop where
  some' : 0 < pObj.pointsPerBlock
  counted : pObj.pointsPerBlock ≤ 32767
  inside : sizeofCacheBlock + 8 * pObj.numOfColumns + pObj.pointsPerBlock * pObj.bytesPerPoint ≤
    cacheBlockSize

structure Placed (pObj : SMeterObj) (pInfo : SCacheInfo) : Prop where
  begun : 0 ≤ pInfo.blocks
  current : pInfo.currentSlot =
    if pInfo.blocks = 0 then -1 else slotOf pInfo.maxBlocks pInfo.blocks
  commit : pInfo.commitSlot = slotOf pInfo.maxBlocks (pInfo.blocks - pInfo.unCommittedBlocks +
    if pInfo.commitPoint = pObj.pointsPerBlock then 0 else 1)
  done : pInfo.unCommittedBlocks = 0 -> pInfo.commitPoint = pObj.pointsPerBlock ∨ pInfo.blocks = 0
  spare : pInfo.unCommittedBlocks < pInfo.maxBlocks ∨ pInfo.blocks = 0

structure Steady (vnode : SVnodeObj Row) : Prop where
  pooled : Pooled vnode (windowsOf vnode)
  fits : ∀ sid pObj pInfo, cacheOf vnode sid = some (pObj, pInfo) -> Fits vnode.cacheBlockSize pObj
  slots : ∀ sid pObj pInfo, cacheOf vnode sid = some (pObj, pInfo) -> Placed pObj pInfo
  points : ∀ sid pObj pInfo, cacheOf vnode sid = some (pObj, pInfo) ->
    ∀ index < vnode.totalBlocks, (vnode.pool.pMem index).pMeterObj = some sid ->
      0 ≤ (vnode.pool.pMem index).numOfPoints ∧
        (vnode.pool.pMem index).numOfPoints ≤ pObj.pointsPerBlock

section Lemmas

variable {vnode next : SVnodeObj Row} {sid index : Nat} {pObj pObj' : SMeterObj}
  {pInfo pInfo' : SCacheInfo} {number : Int}

theorem windowsOf_some (cache : cacheOf vnode sid = some (pObj, pInfo)) :
    windowsOf vnode sid = windowOf pInfo := by
  unfold windowsOf
  rw [cache]
  rfl

theorem windowsOf_update
    (isList : next.meterList = Function.update vnode.meterList sid (some pObj'))
    (cache : pObj'.pCache = some pInfo') :
    windowsOf next = Function.update (windowsOf vnode) sid (windowOf pInfo') := by
  funext other
  unfold windowsOf cacheOf
  rw [isList]
  by_cases same : other = sid
  · rw [same, cacheAt_update_same, cache, Function.update_self]
    rfl
  · rw [cacheAt_update_ne same, Function.update_of_ne same]

theorem Steady.sound (steady : Steady vnode) (cache : cacheOf vnode sid = some (pObj, pInfo)) :
    Sound pInfo (windowOf pInfo) := by
  have sound := steady.pooled.sound sid pObj pInfo cache
  rwa [windowsOf_some cache] at sound

theorem Steady.update (steady : Steady vnode) (cache : cacheOf vnode sid = some (pObj, pInfo))
    {block : SCacheBlock} (size : next.cacheBlockSize = vnode.cacheBlockSize)
    (total : next.totalBlocks = vnode.totalBlocks)
    (isList : next.meterList = Function.update vnode.meterList sid (some pObj'))
    (cache' : pObj'.pCache = some pInfo')
    (pMem : next.pool.pMem = Function.update vnode.pool.pMem index block)
    (same : pObj'.pointsPerBlock = pObj.pointsPerBlock)
    (fits : Fits vnode.cacheBlockSize pObj') (placed : Placed pObj' pInfo')
    (points : block.pMeterObj = none ∨ block.pMeterObj = some sid ∧
      0 ≤ block.numOfPoints ∧ block.numOfPoints ≤ pObj.pointsPerBlock)
    (pooled : Pooled next (Function.update (windowsOf vnode) sid (windowOf pInfo'))) :
    Steady next := by
  have cacheSame : cacheOf next sid = some (pObj', pInfo') := by
    unfold cacheOf
    rw [isList, cacheAt_update_same, cache']
    rfl
  have elsewhere : ∀ other, other ≠ sid -> cacheOf next other = cacheOf vnode other := by
    intro other ne
    unfold cacheOf
    rw [isList, cacheAt_update_ne ne]
  refine ⟨?_, ?_, ?_, ?_⟩
  · rw [windowsOf_update isList cache']
    exact pooled
  · intro other otherObj otherInfo otherCache
    rw [size]
    by_cases isSid : other = sid
    · rw [isSid, cacheSame] at otherCache
      cases otherCache
      exact fits
    · rw [elsewhere other isSid] at otherCache
      exact steady.fits other otherObj otherInfo otherCache
  · intro other otherObj otherInfo otherCache
    by_cases isSid : other = sid
    · rw [isSid, cacheSame] at otherCache
      cases otherCache
      exact placed
    · rw [elsewhere other isSid] at otherCache
      exact steady.slots other otherObj otherInfo otherCache
  · intro other otherObj otherInfo otherCache place inside owner
    rw [total] at inside
    rw [pMem] at owner ⊢
    by_cases isIndex : place = index
    · rw [isIndex, Function.update_self] at owner ⊢
      rcases points with nobody | ⟨mine, range⟩
      · rw [nobody] at owner
        cases owner
      · rw [mine] at owner
        cases owner
        rw [cacheSame] at otherCache
        cases otherCache
        rw [same]
        exact range
    · rw [Function.update_of_ne isIndex] at owner ⊢
      by_cases isSid : other = sid
      · subst isSid
        rw [cacheSame] at otherCache
        cases otherCache
        rw [same]
        exact steady.points other pObj pInfo cache place inside owner
      · rw [elsewhere other isSid] at otherCache
        exact steady.points other otherObj otherInfo otherCache place inside owner

theorem Steady.moved (steady : Steady vnode) {place : Nat} (inside : place < vnode.totalBlocks) :
    Steady { vnode with pool := { vnode.pool with freeSlot := place } } :=
  ⟨pooled_congr steady.pooled rfl rfl rfl rfl inside fun _ => rfl, steady.fits, steady.slots,
    steady.points⟩

section

variable (placed : Placed pObj pInfo) (positive : 0 < pInfo.maxBlocks)

include placed positive

theorem Placed.following :
    (pInfo.currentSlot + 1).tmod pInfo.maxBlocks = slotOf pInfo.maxBlocks (pInfo.blocks + 1) := by
  rw [placed.current]
  split
  · next none' =>
    rw [none']
    exact (Int.zero_tmod _).trans slotOf_one.symm
  · have nonneg := slotOf_nonneg positive pInfo.blocks
    rw [Int.tmod_eq_emod_of_nonneg (by omega), slotOf_next]

theorem Placed.oldest (some' : 0 < pInfo.blocks) (ring : pInfo.numOfBlocks ≤ pInfo.maxBlocks) :
    firstSlot pInfo = slotOf pInfo.maxBlocks ((windowOf pInfo).lo + 1) := by
  have shift : slotOf pInfo.maxBlocks pInfo.blocks - pInfo.numOfBlocks + 1 + pInfo.maxBlocks =
      slotOf pInfo.maxBlocks pInfo.blocks - (pInfo.numOfBlocks - 1) + pInfo.maxBlocks := by ring
  have number : pInfo.blocks - (pInfo.numOfBlocks - 1) = (windowOf pInfo).lo + 1 := by
    show _ = pInfo.blocks - pInfo.numOfBlocks + 1
    ring
  unfold firstSlot
  rw [placed.current, if_neg (by omega), shift, slotOf_back positive (by omega), number]

theorem Placed.start : commitStart pObj pInfo =
      slotOf pInfo.maxBlocks (pInfo.blocks - pInfo.unCommittedBlocks + 1) := by
  have commit := placed.commit
  unfold commitStart
  by_cases full : pInfo.commitPoint = pObj.pointsPerBlock
  · rw [if_pos full] at commit ⊢
    have nonneg := slotOf_nonneg positive (pInfo.blocks - pInfo.unCommittedBlocks + 0)
    rw [commit, Int.tmod_eq_emod_of_nonneg (by omega), slotOf_next, Int.add_zero]
  · rw [if_neg full] at commit ⊢
    exact commit

end

end Lemmas

end Steady

end Luomi.Vnode.CacheSteady
