import Luomi.Vnode.CacheSteady

/-!
# Taking a block from the pool

The search of `vnodeAllocateCacheBlock` ends, and it takes a block from a meter only
where the block is free.
-/

namespace Luomi.Vnode.CacheAllocate

open RingWindow Cache CachePool CacheSteps CacheSteady
open Function (update update_of_ne update_self)

section Allocate

variable {Row : Type}

def forget (cache : SMeterObj × SCacheInfo) : SMeterObj × SCacheInfo :=
  ({ cache.1 with pCache := none }, { cache.2 with numOfBlocks := 0 })

structure Untouched (vnode next : SVnodeObj Row) : Prop where
  cacheBlockSize : next.cacheBlockSize = vnode.cacheBlockSize
  totalBlocks : next.totalBlocks = vnode.totalBlocks
  maxSessions : next.maxSessions = vnode.maxSessions
  threshold : next.pool.threshold = vnode.pool.threshold
  rows : next.pool.rows = vnode.pool.rows
  held : ∀ index, (vnode.pool.pMem index).notFree = true ->
    next.pool.pMem index = vnode.pool.pMem index
  free : ∀ index sid, (next.pool.pMem index).pMeterObj = some sid ->
    (next.pool.pMem index).notFree = false -> next.pool.pMem index = vnode.pool.pMem index

theorem Untouched.refl (vnode : SVnodeObj Row) : Untouched vnode vnode :=
  ⟨rfl, rfl, rfl, rfl, rfl, fun _ _ => rfl, fun _ _ _ _ => rfl⟩

variable {first third : SVnodeObj Row}

theorem Untouched.trans {second : SVnodeObj Row} (left : Untouched first second)
    (right : Untouched second third) : Untouched first third := by
  refine ⟨right.cacheBlockSize.trans left.cacheBlockSize, right.totalBlocks.trans left.totalBlocks,
    right.maxSessions.trans left.maxSessions, right.threshold.trans left.threshold,
    right.rows.trans left.rows, ?_, ?_⟩
  · intro index notFree
    have same := left.held index notFree
    rw [right.held index (by rw [same]; exact notFree), same]
  · intro index sid owner isFree
    have same := right.free index sid owner isFree
    rw [same] at owner isFree ⊢
    exact left.free index sid owner isFree

structure Searched (vnode next : SVnodeObj Row) : Prop where
  steady : Steady next
  untouched : Untouched vnode next
  meters : ∀ sid, (cacheOf next sid).map forget = (cacheOf vnode sid).map forget

variable {vnode next : SVnodeObj Row} {sid index : Nat} {pObj : SMeterObj} {pInfo : SCacheInfo}

theorem Searched.trans (left : Searched vnode next)
    (right : Searched next third) : Searched vnode third :=
  ⟨right.steady, left.untouched.trans right.untouched,
    fun sid => (right.meters sid).trans (left.meters sid)⟩

theorem searched_moved (steady : Steady vnode) {place : Nat} (inside : place < vnode.totalBlocks) :
    Searched vnode { vnode with pool := { vnode.pool with freeSlot := place } } :=
  ⟨steady.moved inside, ⟨rfl, rfl, rfl, rfl, rfl, fun _ _ => rfl, fun _ _ _ _ => rfl⟩, fun _ => rfl⟩

theorem searched_freed (steady : Steady vnode) (cache : cacheOf vnode sid = some (pObj, pInfo))
    (free : pInfo.unCommittedBlocks < pInfo.numOfBlocks) : ∃ index < vnode.totalBlocks,
      pInfo.cacheBlocks (firstSlot pInfo) = some index ∧
      (vnode.pool.pMem index).index = index ∧ (vnode.pool.pMem index).pMeterObj = some sid ∧
      vnodeFreeCacheBlock vnode (some index) = some (freed vnode index sid pObj pInfo) ∧
      (vnode.pool.pMem index).notFree = false ∧
      Searched vnode (freed vnode index sid pObj pInfo) := by
  have sound := steady.sound cache
  have window := windowsOf_some cache
  have held : 0 ≤ pInfo.unCommittedBlocks := sound.held
  have start : 0 ≤ pInfo.blocks - pInfo.numOfBlocks := sound.start
  have ring : pInfo.blocks - (pInfo.blocks - pInfo.numOfBlocks) ≤ pInfo.maxBlocks := sound.ring
  have has : (windowsOf vnode sid).Has ((windowOf pInfo).lo + 1) := by
    rw [window]
    constructor
    · omega
    · show pInfo.blocks - pInfo.numOfBlocks + 1 ≤ pInfo.blocks
      omega
  obtain ⟨index, inside, slot, block⟩ := steady.pooled.live sid pObj pInfo cache _ has
  have placed := steady.slots sid pObj pInfo cache
  have oldest := placed.oldest (by omega) (by omega) (by omega)
  have without : Without (windowsOf vnode sid) ((windowOf pInfo).lo + 1)
      (windowOf { pInfo with numOfBlocks := pInfo.numOfBlocks - 1 }) := by
    have less := @without_oldest (windowOf pInfo) held
      (by show pInfo.unCommittedBlocks < pInfo.blocks - (pInfo.blocks - pInfo.numOfBlocks); omega)
    have lower : pInfo.blocks - (pInfo.numOfBlocks - 1) = pInfo.blocks - pInfo.numOfBlocks + 1 := by
      ring
    rw [window]
    unfold windowOf at less ⊢
    rw [lower]
    exact less
  obtain ⟨run, pooled⟩ := pooled_freed steady.pooled cache has slot without
  have notFree : (vnode.pool.pMem index).notFree = false := by
    rw [Bool.eq_false_iff]
    intro isHeld
    have above : (windowsOf vnode sid).hi - (windowsOf vnode sid).held < _ :=
      block.notFree.mp isHeld
    rw [window] at above
    have above' : pInfo.blocks - pInfo.unCommittedBlocks < pInfo.blocks - pInfo.numOfBlocks + 1 :=
      above
    omega
  refine ⟨index, inside, oldest ▸ slot, block.placed, block.owner, run, notFree, ?_, ?_, ?_⟩
  · have fits := steady.fits sid pObj pInfo cache
    exact steady.update cache rfl rfl rfl rfl rfl rfl ⟨fits.some', fits.counted, fits.inside⟩
      ⟨placed.begun, placed.current, placed.commit, placed.done, placed.spare⟩ (Or.inl rfl) pooled
  · refine ⟨rfl, rfl, rfl, rfl, rfl, ?_, ?_⟩
    · intro place isHeld
      have ne : place ≠ index := by
        intro same
        rw [same, notFree] at isHeld
        cases isHeld
      exact update_of_ne ne _ _
    · intro place other isOwner _
      have ne : place ≠ index := by
        intro same
        rw [same] at isOwner
        rw [show (freed vnode index sid pObj pInfo).pool.pMem index = zeroBlock from
          update_self _ _ _] at isOwner
        cases isOwner
      exact update_of_ne ne _ _
  · intro other
    by_cases same : other = sid
    · subst same
      rw [freed_cache, cache]
      rfl
    · exact congrArg (Option.map forget) (cacheAt_update_ne same _)

theorem findBlock_searched (steady : Steady vnode) {fuel : Nat} {skipped : Int}
    (some' : 0 < fuel) (enough : vnode.pool.threshold < skipped + fuel) :
    ∃ next, Searched vnode next ∧ (findBlock fuel skipped vnode = some (.tooSlow next) ∨
      findBlock fuel skipped vnode = some (.found next.pool.freeSlot next) ∧
        (next.pool.pMem next.pool.freeSlot).blockId = 0) := by
  induction fuel generalizing vnode skipped with
  | zero => exact absurd some' (lt_irrefl 0)
  | succ fuel ih =>
    have inside := steady.pooled.freeSlot
    have turn : Searched vnode (nextFreeSlot vnode) := searched_moved steady
      (Nat.mod_lt _ (Nat.lt_of_le_of_lt (Nat.zero_le _) inside))
    unfold findBlock
    by_cases unused : (vnode.pool.pMem vnode.pool.freeSlot).blockId = 0
    · refine ⟨vnode, ⟨steady, Untouched.refl vnode, fun _ => rfl⟩, Or.inr ⟨?_, unused⟩⟩
      simp only [if_pos unused]
    simp only [if_neg unused]
    cases isFree : (vnode.pool.pMem vnode.pool.freeSlot).notFree with
    | true =>
      simp only [if_true]
      by_cases slow : vnode.pool.threshold < skipped + 1
      · rw [if_pos slow]
        exact ⟨nextFreeSlot vnode, turn, Or.inl rfl⟩
      · rw [if_neg slow]
        have more : 0 < fuel := by omega
        have rest : (nextFreeSlot vnode).pool.threshold < skipped + 1 + fuel := by
          show vnode.pool.threshold < _
          omega
        obtain ⟨next, searched, ends⟩ := ih turn.steady more rest
        exact ⟨next, turn.trans searched, ends⟩
    | false =>
      obtain ⟨sid, pObj, pInfo, cache, has, slot⟩ := steady.pooled.owned _ inside unused
      have block := (steady.pooled.blockAt cache has slot).2
      have moved : ∀ place < vnode.totalBlocks, Searched vnode
          { vnode with pool := { vnode.pool with freeSlot := place } } :=
        fun place => searched_moved steady
      have free : pInfo.unCommittedBlocks < pInfo.numOfBlocks := by
        have notAbove := mt block.notFree.mpr (by rw [isFree]; exact Bool.false_ne_true)
        have above := has.1
        rw [windowsOf_some cache] at notAbove above
        have notHeld : ¬ pInfo.blocks - pInfo.unCommittedBlocks <
          (vnode.pool.pMem vnode.pool.freeSlot).blockId := notAbove
        have live : pInfo.blocks - pInfo.numOfBlocks <
          (vnode.pool.pMem vnode.pool.freeSlot).blockId := above
        omega
      obtain ⟨index, oldInside, oldSlot, place, owner, -⟩ := searched_freed steady cache free
      obtain ⟨again, -, againSlot, -, -, run, -, searched⟩ :=
        searched_freed (moved index oldInside).steady cache free
      have same : again = index := Option.some.inj (againSlot.symm.trans oldSlot)
      rw [same] at run searched
      refine ⟨_, (moved index oldInside).trans searched, Or.inr ⟨?_, ?_⟩⟩
      · simp only [Bool.false_eq_true, if_false, block.owner, cache, Option.bind_eq_bind,
          Option.bind_some, oldSlot, place, run]
        rfl
      · show (update vnode.pool.pMem index zeroBlock index).blockId = 0
        rw [update_self]
        rfl

structure Taken (vnode next : SVnodeObj Row) (sid : Nat) (pObj : SMeterObj) (pInfo : SCacheInfo)
    (index : Nat) : Prop where
  steady : Steady next
  untouched : Untouched vnode next
  others : ∀ other, other ≠ sid -> (cacheOf next other).map forget = (cacheOf vnode other).map forget
  mine : (cacheOf next sid).map forget = some (forget (pObj, pushedInfo pInfo index))
  inside : index < vnode.totalBlocks
  fresh : (vnode.pool.pMem index).notFree = false
  block : next.pool.pMem index = pushedBlock zeroBlock sid index pInfo

theorem Taken.after {pObj' : SMeterObj} {pInfo' : SCacheInfo}
    (searched : Searched first vnode) (taken : Taken vnode next sid pObj pInfo index)
    (same : forget (pObj, pInfo) = forget (pObj', pInfo')) :
    Taken first next sid pObj' pInfo' index := by
  have sameBlock : pushedBlock zeroBlock sid index pInfo = pushedBlock zeroBlock sid index pInfo' :=
    congrArg (fun cache => pushedBlock zeroBlock sid index cache.2) same
  have sameInfo : forget (pObj, pushedInfo pInfo index) = forget (pObj', pushedInfo pInfo' index) :=
    congrArg (fun cache : SMeterObj × SCacheInfo => forget (cache.1, pushedInfo cache.2 index)) same
  have fresh : (first.pool.pMem index).notFree = false := by
    rw [Bool.eq_false_iff]
    intro isHeld
    have same := taken.fresh
    rw [searched.untouched.held index isHeld, isHeld] at same
    cases same
  exact ⟨taken.steady, searched.untouched.trans taken.untouched,
    fun other ne => (taken.others other ne).trans (searched.meters other), sameInfo ▸ taken.mine,
    searched.untouched.totalBlocks ▸ taken.inside, fresh, sameBlock ▸ taken.block⟩

section

variable (steady : Steady vnode) (cache : cacheOf vnode sid = some (pObj, pInfo))
  (unused : (vnode.pool.pMem vnode.pool.freeSlot).blockId = 0)
  (spare : pInfo.unCommittedBlocks < pInfo.maxBlocks - 1)

include steady cache unused spare

theorem taken_pushed (room : pInfo.numOfBlocks < pInfo.maxBlocks) :
    Taken vnode (pushed vnode sid pObj pInfo) sid pObj pInfo vnode.pool.freeSlot := by
  have inside := steady.pooled.freeSlot
  have window := windowsOf_some cache
  have sound := steady.sound cache
  have held : 0 ≤ pInfo.unCommittedBlocks := sound.held
  have fits := steady.fits sid pObj pInfo cache
  have placed := steady.slots sid pObj pInfo cache
  have begun := placed.begun
  have current := placed.following (by omega)
  have zero := steady.pooled.empty _ inside unused
  have isBlock : (pushed vnode sid pObj pInfo).pool.pMem vnode.pool.freeSlot =
      pushedBlock zeroBlock sid vnode.pool.freeSlot pInfo := by
    rw [<- zero]
    exact update_self _ _ _
  have pooled := pooled_pushed steady.pooled cache unused (by rw [window]; rfl) room current
  have windowNow : windowOf (pushedInfo pInfo vnode.pool.freeSlot) =
      ⟨(windowsOf vnode sid).lo, (windowsOf vnode sid).hi + 1, (windowsOf vnode sid).held + 1⟩ := by
    rw [window]
    unfold windowOf pushedInfo
    have lower : pInfo.blocks + 1 - (pInfo.numOfBlocks + 1) = pInfo.blocks - pInfo.numOfBlocks := by
      ring
    rw [lower]
  have placedNow : Placed { pObj with pCache := some (pushedInfo pInfo vnode.pool.freeSlot) }
      (pushedInfo pInfo vnode.pool.freeSlot) := by
    refine ⟨?_, ?_, ?_, ?_, ?_⟩
    · show 0 ≤ pInfo.blocks + 1
      omega
    · show (pInfo.currentSlot + 1).tmod pInfo.maxBlocks =
        if pInfo.blocks + 1 = 0 then -1 else slotOf pInfo.maxBlocks (pInfo.blocks + 1)
      rw [if_neg (by omega), current]
    · have number : pInfo.blocks + 1 - (pInfo.unCommittedBlocks + 1) =
          pInfo.blocks - pInfo.unCommittedBlocks := by ring
      show pInfo.commitSlot = slotOf pInfo.maxBlocks
        (pInfo.blocks + 1 - (pInfo.unCommittedBlocks + 1) + _)
      rw [number]
      exact placed.commit
    · intro none'
      have isZero : pInfo.unCommittedBlocks + 1 = 0 := none'
      omega
    · left
      show pInfo.unCommittedBlocks + 1 < pInfo.maxBlocks
      omega
  refine ⟨?_, ⟨rfl, rfl, rfl, rfl, rfl, ?_, ?_⟩, ?_, ?_, inside, by rw [zero]; rfl, isBlock⟩
  · refine steady.update cache rfl rfl rfl rfl rfl rfl ⟨fits.some', fits.counted, fits.inside⟩
      placedNow (Or.inr ⟨rfl, ?_, ?_⟩) (windowNow ▸ pooled)
    · rw [zero]
      exact le_rfl
    · rw [zero]
      exact le_of_lt fits.some'
  · intro place notFree
    have ne : place ≠ vnode.pool.freeSlot := by
      intro same
      rw [same, zero] at notFree
      cases notFree
    exact update_of_ne ne _ _
  · intro place other isOwner isFree
    have ne : place ≠ vnode.pool.freeSlot := by
      intro same
      rw [same, isBlock] at isFree
      cases isFree
    exact update_of_ne ne _ _
  · intro other ne
    exact congrArg (Option.map forget) (cacheAt_update_ne ne _)
  · exact congrArg (Option.map forget) (cacheAt_update_same _ _ _)

theorem takeBlock_taken : ∃ next index, takeBlock vnode sid vnode.pool.freeSlot = some next ∧
      Taken vnode next sid pObj pInfo index := by
  have sound := steady.sound cache
  have count : pInfo.blocks - (pInfo.blocks - pInfo.numOfBlocks) ≤ pInfo.maxBlocks := sound.ring
  by_cases room : pInfo.numOfBlocks < pInfo.maxBlocks
  · exact ⟨_, _, takeBlock_room cache room, taken_pushed steady cache unused spare room⟩
  · have full : pInfo.numOfBlocks = pInfo.maxBlocks := by omega
    obtain ⟨index, inside, slot, -, owner, run, notFree, searched⟩ :=
      searched_freed steady cache (by omega)
    have oldest : firstSlot pInfo = (pInfo.currentSlot + 1).tmod pInfo.maxBlocks := by
      unfold firstSlot
      rw [full]
      congr 1
      ring
    have ne : index ≠ vnode.pool.freeSlot := by
      intro same
      rw [same, steady.pooled.empty _ steady.pooled.freeSlot unused] at owner
      cases owner
    refine ⟨_, vnode.pool.freeSlot, takeBlock_full cache full (oldest ▸ slot) owner ne, ?_⟩
    have unusedNow : (update vnode.pool.pMem index zeroBlock vnode.pool.freeSlot).blockId = 0 := by
      rw [update_of_ne ne.symm]
      exact unused
    have taken := taken_pushed searched.steady freed_cache unusedNow spare
      (show pInfo.numOfBlocks - 1 < pInfo.maxBlocks by omega)
    exact Taken.after searched taken rfl

end

theorem vnodeAllocateCacheBlock_spec (steady : Steady vnode)
    (cache : cacheOf vnode sid = some (pObj, pInfo)) :
    ∃ code next, vnodeAllocateCacheBlock vnode sid = some (code, next) ∧
      ((code < 0 ∧ Searched vnode next) ∨ (0 ≤ code ∧ ∃ index,
        Taken vnode next sid pObj pInfo index)) := by
  unfold vnodeAllocateCacheBlock
  simp only [cache]
  by_cases busy : pInfo.maxBlocks - 1 ≤ pInfo.unCommittedBlocks
  · rw [if_pos busy]
    exact ⟨-1, vnode, rfl, Or.inl ⟨by decide, steady, Untouched.refl vnode, fun _ => rfl⟩⟩
  rw [if_neg busy]
  obtain ⟨found, searched, ends⟩ := @findBlock_searched _ _ steady _ 0
    (Nat.succ_pos vnode.pool.threshold.toNat) (by omega)
  rcases ends with slow | ⟨isFound, unused⟩
  · refine ⟨-1, found, ?_, Or.inl ⟨by decide, searched⟩⟩
    rw [slow]
    rfl
  · have same := searched.meters sid
    rw [cache] at same
    obtain ⟨⟨foundObj, foundInfo⟩, foundCache, sameMeter⟩ := Option.map_eq_some_iff.mp same
    have size : foundInfo.maxBlocks = pInfo.maxBlocks :=
      congrArg (fun cache => cache.2.maxBlocks) sameMeter
    have count : foundInfo.unCommittedBlocks = pInfo.unCommittedBlocks :=
      congrArg (fun cache => cache.2.unCommittedBlocks) sameMeter
    obtain ⟨next, index, run, taken⟩ :=
      takeBlock_taken searched.steady foundCache unused (by omega)
    obtain ⟨⟨lastObj, lastInfo⟩, lastCache, -⟩ := Option.map_eq_some_iff.mp taken.mine
    let commit : Bool := next.pool.threshold < next.pool.notFreeSlots ∨
      lastInfo.maxBlocks / 2 ≤ lastInfo.unCommittedBlocks
    refine ⟨if commit then 1 else 0, next, ?_, Or.inr ⟨?_, index,
      Taken.after searched taken sameMeter⟩⟩
    · rw [isFound]
      simp only [Option.bind_eq_bind, Option.bind_some, run, lastCache]
      rfl
    · split
      · exact Int.one_nonneg
      · exact le_rfl

end Allocate

end Luomi.Vnode.CacheAllocate
