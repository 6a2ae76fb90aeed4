import Luomi.Vnode.CachePool

/-!
# What the operations of the cache do to the pool
-/

namespace Luomi.Vnode.CacheSteps

open RingWindow Cache CachePool
open Function (update update_idem update_of_ne update_self)
open Option (bind_eq_bind bind_some isSome_map)

section Steps

variable {Row : Type} {vnode : SVnodeObj Row} {windows : Nat -> Window} {sid : Nat}
  {pObj : SMeterObj} {pInfo : SCacheInfo} {index : Nat} {number : Int}
  {window : Window}

theorem taken_of_block {size : Int}
    (block : BlockOf (vnode.pool.pMem index) sid window size number index) :
    taken vnode.pool.pMem index = if window.hi - window.held < number then 1 else 0 := by
  unfold taken
  by_cases notFree : window.hi - window.held < number
  · rw [if_pos (block.notFree.mpr notFree), if_pos notFree]
  · rw [if_neg (fun isTaken => notFree (block.notFree.mp isTaken)), if_neg notFree]

/-- What `vnodeFreeCacheBlock` makes of a vnode. -/
def freed (vnode : SVnodeObj Row) (index sid : Nat) (pObj : SMeterObj) (pInfo : SCacheInfo) :
    SVnodeObj Row :=
  { vnode with
    meterList := update vnode.meterList sid
      (some { pObj with pCache := some { pInfo with numOfBlocks := pInfo.numOfBlocks - 1 } })
    pool := { vnode.pool with
      pMem := update vnode.pool.pMem index zeroBlock
      notFreeSlots := vnode.pool.notFreeSlots - taken vnode.pool.pMem index } }

theorem vnodeFreeCacheBlock_eq (owner : (vnode.pool.pMem index).pMeterObj = some sid)
    (cache : cacheOf vnode sid = some (pObj, pInfo)) :
    vnodeFreeCacheBlock vnode (some index) = some (freed vnode index sid pObj pInfo) := by
  unfold vnodeFreeCacheBlock
  simp only [owner, bind_eq_bind, bind_some, cache]
  rfl

structure Without (window : Window) (number : Int) (less : Window) : Prop where
  has : ∀ other, less.Has other ↔ window.Has other ∧ other ≠ number
  notFree : ∀ other, less.Has other ->
    (less.hi - less.held < other ↔ window.hi - window.held < other)
  heldLess : less.held = window.held - if window.hi - window.held < number then 1 else 0
  count : less.hi - less.lo = window.hi - window.lo - 1
  start : window.lo ≤ less.lo
  held : 0 ≤ less.held
  within : less.held ≤ less.hi - less.lo

theorem without_oldest {window : Window} (held : 0 ≤ window.held)
    (free : window.held < window.hi - window.lo) :
    Without window (window.lo + 1) ⟨window.lo + 1, window.hi, window.held⟩ := by
  refine ⟨?_, fun _ _ => Iff.rfl, ?_, ?_, ?_, held, ?_⟩
  · intro other
    unfold Window.Has
    simp only
    omega
  · rw [if_neg (by omega), Int.sub_zero]
  all_goals
    simp only
    omega

theorem without_newest (held : 0 ≤ window.held)
    (within : window.held ≤ window.hi - window.lo) (some' : window.lo < window.hi) :
    Without window window.hi
      ⟨window.lo, window.hi - 1, window.held - if 0 < window.held then 1 else 0⟩ := by
  refine ⟨?_, ?_, ?_, ?_, le_rfl, ?_, ?_⟩
  · intro other
    unfold Window.Has
    simp only
    omega
  · intro other has
    have below : other ≤ window.hi - 1 := has.2
    simp only
    split <;> omega
  · have same : (0 < window.held) ↔ window.hi - window.held < window.hi := by omega
    simp only [same]
  · simp only
    omega
  · simp only
    split <;> omega
  · simp only
    split <;> omega

theorem pooled_freed (pooled : Pooled vnode windows)
    (cache : cacheOf vnode sid = some (pObj, pInfo)) (has : (windows sid).Has number)
    (slot : pInfo.cacheBlocks (slotOf pInfo.maxBlocks number) = some index) {less : Window}
    (without : Without (windows sid) number less) :
    vnodeFreeCacheBlock vnode (some index) = some (freed vnode index sid pObj pInfo) ∧
      Pooled (freed vnode index sid pObj pInfo) (update windows sid less) := by
  obtain ⟨inside, block⟩ := pooled.blockAt cache has slot
  have sound := pooled.sound sid pObj pInfo cache
  have change : Change vnode (freed vnode index sid pObj pInfo) windows sid pInfo
      { pObj with pCache := some { pInfo with numOfBlocks := pInfo.numOfBlocks - 1 } }
      { pInfo with numOfBlocks := pInfo.numOfBlocks - 1 } index number zeroBlock less := by
    refine ⟨rfl, rfl, rfl, rfl, rfl, pooled.freeSlot, rfl, inside, Or.inr block.owner, ?_, ?_, ?_,
      ?_, ?_, ?_, fun _ => rfl, ?_, ?_⟩
    · have count := without.count
      have ring := sound.ring
      refine ⟨without.held, without.within, le_trans sound.start without.start, ?_, ?_⟩
      · rw [count, <- sound.count]
      · show _ ≤ pInfo.maxBlocks
        omega
    · intro other ne
      rw [without.has]
      exact ⟨And.left, fun both => ⟨both, ne⟩⟩
    · intro other ne hasOther
      refine ⟨rfl, ?_, without.notFree other hasOther⟩
      intro same
      have otherBlock := (pooled.blockAt cache ((without.has other).mp hasOther).1 same).2
      exact ne (otherBlock.numbered.symm.trans block.numbered)
    · exact fun _ => slot
    · exact fun hasNumber => absurd rfl ((without.has number).mp hasNumber).2
    · exact fun used => absurd rfl used
    · show vnode.pool.notFreeSlots - taken vnode.pool.pMem index = _
      simp [zeroBlock]
    · rw [without.heldLess, taken_of_block block]
      simp [zeroBlock]
  exact ⟨vnodeFreeCacheBlock_eq block.owner cache, pooled.change cache change⟩

def pushedInfo (pInfo : SCacheInfo) (index : Nat) : SCacheInfo :=
  let current := (pInfo.currentSlot + 1).tmod pInfo.maxBlocks
  { pInfo with
    numOfBlocks := pInfo.numOfBlocks + 1
    blocks := pInfo.blocks + 1
    unCommittedBlocks := pInfo.unCommittedBlocks + 1
    currentSlot := current
    cacheBlocks := update pInfo.cacheBlocks current (some index) }

def pushedBlock (block : SCacheBlock) (sid index : Nat) (pInfo : SCacheInfo) : SCacheBlock :=
  { block with
    pMeterObj := some sid
    notFree := true
    index := index
    blockId := pInfo.blocks + 1
    slot := (pInfo.currentSlot + 1).tmod pInfo.maxBlocks }

/-- What taking the block at `freeSlot` makes of a vnode. -/
def pushed (vnode : SVnodeObj Row) (sid : Nat) (pObj : SMeterObj) (pInfo : SCacheInfo) :
    SVnodeObj Row :=
  let index := vnode.pool.freeSlot
  { vnode with
    meterList := update vnode.meterList sid
      (some { pObj with pCache := some (pushedInfo pInfo index) })
    pool := { vnode.pool with
      freeSlot := (index + 1) % vnode.totalBlocks
      notFreeSlots := vnode.pool.notFreeSlots + 1
      pMem := update vnode.pool.pMem index
        (pushedBlock (vnode.pool.pMem index) sid index pInfo) } }

theorem pooled_pushed (pooled : Pooled vnode windows)
    (cache : cacheOf vnode sid = some (pObj, pInfo))
    (free : (vnode.pool.pMem vnode.pool.freeSlot).blockId = 0)
    (newest : (windows sid).hi = pInfo.blocks) (room : pInfo.numOfBlocks < pInfo.maxBlocks)
    (current : (pInfo.currentSlot + 1).tmod pInfo.maxBlocks =
      slotOf pInfo.maxBlocks (pInfo.blocks + 1)) :
    Pooled (pushed vnode sid pObj pInfo) (update windows sid
      ⟨(windows sid).lo, (windows sid).hi + 1, (windows sid).held + 1⟩) := by
  have sound := pooled.sound sid pObj pInfo cache
  have count := sound.count
  have within := sound.within
  have zero := pooled.empty _ pooled.freeSlot free
  have notTaken : taken vnode.pool.pMem vnode.pool.freeSlot = 0 := by
    unfold taken
    rw [zero]
    rfl
  have change : Change vnode (pushed vnode sid pObj pInfo) windows sid pInfo
      { pObj with pCache := some (pushedInfo pInfo vnode.pool.freeSlot) }
      (pushedInfo pInfo vnode.pool.freeSlot) vnode.pool.freeSlot (pInfo.blocks + 1)
      (pushedBlock (vnode.pool.pMem vnode.pool.freeSlot) sid vnode.pool.freeSlot pInfo)
      ⟨(windows sid).lo, (windows sid).hi + 1, (windows sid).held + 1⟩ := by
    refine ⟨rfl, rfl, rfl, rfl, rfl, ?_, rfl, pooled.freeSlot, Or.inl free, ?_, ?_, ?_, ?_, ?_, ?_,
      ?_, ?_, ?_⟩
    · exact Nat.mod_lt _ (Nat.lt_of_le_of_lt (Nat.zero_le _) pooled.freeSlot)
    · have held := sound.held
      refine ⟨?_, ?_, sound.start, ?_, ?_⟩
      · show 0 ≤ (windows sid).held + 1
        omega
      · show (windows sid).held + 1 ≤ (windows sid).hi + 1 - (windows sid).lo
        omega
      · show pInfo.numOfBlocks + 1 = (windows sid).hi + 1 - (windows sid).lo
        omega
      · show (windows sid).hi + 1 - (windows sid).lo ≤ pInfo.maxBlocks
        omega
    · intro other ne
      unfold Window.Has
      simp only
      omega
    · intro other ne has
      have above : (windows sid).lo < other := has.1
      have below : other ≤ (windows sid).hi + 1 := has.2
      have hasOld : (windows sid).Has other := ⟨above, by omega⟩
      refine ⟨?_, ?_, ?_⟩
      · show update pInfo.cacheBlocks _ _ _ = _
        rw [current]
        refine update_of_ne (fun same => ?_) _ _
        have isNew := slotOf_injective (by omega) (by omega) same
        exact ne isNew
      · intro isFree
        have block := (pooled.blockAt cache hasOld isFree).2
        have positive := pooled.number_pos cache hasOld
        rw [<- block.numbered, free] at positive
        exact lt_irrefl _ positive
      · show (windows sid).hi + 1 - ((windows sid).held + 1) < other ↔ _
        omega
    · intro has
      have below := has.2
      omega
    · intro _
      refine ⟨?_, rfl, rfl, current, rfl, ?_⟩
      · show update pInfo.cacheBlocks _ _ _ = _
        rw [current, update_self]
      · have held := sound.held
        show true = true ↔ (windows sid).hi + 1 - ((windows sid).held + 1) < pInfo.blocks + 1
        simp only [true_iff]
        omega
    · intro _
      have start := sound.start
      have held := sound.held
      refine ⟨rfl, ?_, ?_⟩
      · show (windows sid).lo < pInfo.blocks + 1
        omega
      · show pInfo.blocks + 1 ≤ (windows sid).hi + 1
        omega
    · intro isZero
      have start := sound.start
      have held := sound.held
      have number : pInfo.blocks + 1 = 0 := isZero
      omega
    · rw [notTaken]
      simp [pushed, pushedBlock]
    · rw [notTaken]
      simp [pushedBlock]
  exact pooled.change cache change

def countedInfo (pInfo : SCacheInfo) : SCacheInfo :=
  { pInfo with
    numOfBlocks := pInfo.numOfBlocks + 1
    blocks := pInfo.blocks + 1
    unCommittedBlocks := pInfo.unCommittedBlocks + 1
    currentSlot := (pInfo.currentSlot + 1).tmod pInfo.maxBlocks }

theorem countBlock_cache : cacheOf (countBlock vnode sid index pObj pInfo) sid =
    some ({ pObj with pCache := some (countedInfo pInfo) }, countedInfo pInfo) :=
  cacheAt_update_same _ _ _

theorem freed_cache : cacheOf (freed vnode index sid pObj pInfo) sid =
    some ({ pObj with pCache := some { pInfo with numOfBlocks := pInfo.numOfBlocks - 1 } },
      { pInfo with numOfBlocks := pInfo.numOfBlocks - 1 }) :=
  cacheAt_update_same _ _ _

theorem takeBlock_room (cache : cacheOf vnode sid = some (pObj, pInfo))
    (room : pInfo.numOfBlocks < pInfo.maxBlocks) :
    takeBlock vnode sid vnode.pool.freeSlot = some (pushed vnode sid pObj pInfo) := by
  have roomy : freeOldest (countBlock vnode sid vnode.pool.freeSlot pObj pInfo)
      (countedInfo pInfo) = some (countBlock vnode sid vnode.pool.freeSlot pObj pInfo) := by
    apply if_neg
    show ¬ pInfo.maxBlocks < pInfo.numOfBlocks + 1
    omega
  unfold takeBlock
  simp only [cache, bind_eq_bind, bind_some, countBlock_cache, roomy, linkBlock]
  unfold setMeter countBlock pushed
  rw [update_idem]
  rfl

theorem takeBlock_full (cache : cacheOf vnode sid = some (pObj, pInfo))
    (full : pInfo.numOfBlocks = pInfo.maxBlocks)
    (oldest : pInfo.cacheBlocks ((pInfo.currentSlot + 1).tmod pInfo.maxBlocks) = some index)
    (owner : (vnode.pool.pMem index).pMeterObj = some sid) (ne : index ≠ vnode.pool.freeSlot) :
    takeBlock vnode sid vnode.pool.freeSlot =
      some (pushed (freed vnode index sid pObj pInfo) sid
        { pObj with pCache := some { pInfo with numOfBlocks := pInfo.numOfBlocks - 1 } }
        { pInfo with numOfBlocks := pInfo.numOfBlocks - 1 }) := by
  have same : (countBlock vnode sid vnode.pool.freeSlot pObj pInfo).pool.pMem index =
      vnode.pool.pMem index := update_of_ne ne _ _
  have ownerNow : ((countBlock vnode sid vnode.pool.freeSlot pObj pInfo).pool.pMem index).pMeterObj =
      some sid := by
    rw [same]
    exact owner
  have takenSame : taken (countBlock vnode sid vnode.pool.freeSlot pObj pInfo).pool.pMem index =
      taken vnode.pool.pMem index := by
    unfold taken
    rw [same]
  have crowded : freeOldest (countBlock vnode sid vnode.pool.freeSlot pObj pInfo)
      (countedInfo pInfo) = some (freed (countBlock vnode sid vnode.pool.freeSlot pObj pInfo) index
        sid { pObj with pCache := some (countedInfo pInfo) } (countedInfo pInfo)) := by
    apply (if_pos (show pInfo.maxBlocks < pInfo.numOfBlocks + 1 by omega)).trans
    show vnodeFreeCacheBlock _ (pInfo.cacheBlocks ((pInfo.currentSlot + 1).tmod pInfo.maxBlocks)) = _
    rw [oldest]
    exact vnodeFreeCacheBlock_eq ownerNow countBlock_cache
  have other : update vnode.pool.pMem index zeroBlock vnode.pool.freeSlot =
      vnode.pool.pMem vnode.pool.freeSlot := update_of_ne ne.symm _ _
  unfold takeBlock
  simp only [cache, bind_eq_bind, bind_some, countBlock_cache, crowded, linkBlock, freed_cache]
  apply congrArg some
  refine SVnodeObj.ext rfl rfl rfl ?_ (SCachePool.ext ?_ rfl rfl ?_ rfl)
  · have swap : pInfo.numOfBlocks + 1 - 1 = pInfo.numOfBlocks - 1 + 1 := by omega
    unfold setMeter freed countBlock pushed countedInfo pushedInfo
    simp only [update_idem, swap]
  · unfold setMeter freed countBlock pushed pushedBlock
    simp only [other]
    exact Function.update_comm ne.symm _ _ _
  · unfold setMeter pushed
    show vnode.pool.notFreeSlots + 1 - taken _ index = vnode.pool.notFreeSlots - taken _ index + 1
    omega

/-- What the loop of `vnodeUpdateCommitInfo` makes of a vnode in one turn. -/
def committed (vnode : SVnodeObj Row) (sid index : Nat) (pObj : SMeterObj) (pInfo : SCacheInfo) :
    SVnodeObj Row :=
  { vnode with
    meterList := update vnode.meterList sid (some { pObj with
      pCache := some { pInfo with unCommittedBlocks := pInfo.unCommittedBlocks - 1 } })
    pool := { vnode.pool with
      pMem := update vnode.pool.pMem index { vnode.pool.pMem index with notFree := false }
      notFreeSlots := vnode.pool.notFreeSlots - 1 } }

theorem pooled_committed (pooled : Pooled vnode windows)
    (cache : cacheOf vnode sid = some (pObj, pInfo)) (some' : 0 < (windows sid).held)
    (isFirst : number = (windows sid).hi - (windows sid).held + 1)
    (slot : pInfo.cacheBlocks (slotOf pInfo.maxBlocks number) = some index) :
    commitBlock vnode sid (slotOf pInfo.maxBlocks number) =
        some (committed vnode sid index pObj pInfo) ∧
      Pooled (committed vnode sid index pObj pInfo) (update windows sid
        ⟨(windows sid).lo, (windows sid).hi, (windows sid).held - 1⟩) := by
  have sound := pooled.sound sid pObj pInfo cache
  have within := sound.within
  have has : (windows sid).Has number := by
    constructor
    · omega
    · omega
  obtain ⟨inside, block⟩ := pooled.blockAt cache has slot
  have notFree : (vnode.pool.pMem index).notFree = true := block.notFree.mpr (by omega)
  have isTaken : taken vnode.pool.pMem index = 1 := if_pos notFree
  have change : Change vnode (committed vnode sid index pObj pInfo) windows sid pInfo
      { pObj with pCache := some { pInfo with unCommittedBlocks := pInfo.unCommittedBlocks - 1 } }
      { pInfo with unCommittedBlocks := pInfo.unCommittedBlocks - 1 } index number
      { vnode.pool.pMem index with notFree := false }
      ⟨(windows sid).lo, (windows sid).hi, (windows sid).held - 1⟩ := by
    refine ⟨rfl, rfl, rfl, rfl, rfl, pooled.freeSlot, rfl, inside, Or.inr block.owner, ?_,
      fun _ _ => Iff.rfl, ?_, fun _ => slot, ?_, ?_, ?_, ?_, ?_⟩
    · refine ⟨?_, ?_, sound.start, sound.count, sound.ring⟩
      · show 0 ≤ (windows sid).held - 1
        omega
      · show (windows sid).held - 1 ≤ (windows sid).hi - (windows sid).lo
        omega
    · intro other ne hasOther
      refine ⟨rfl, ?_, ?_⟩
      · intro same
        have otherBlock := (pooled.blockAt cache hasOther same).2
        exact ne (otherBlock.numbered.symm.trans block.numbered)
      · show (windows sid).hi - ((windows sid).held - 1) < other ↔ _
        omega
    · intro _
      refine ⟨slot, block.owner, block.numbered, block.slotted, block.placed, ?_⟩
      show false = true ↔ (windows sid).hi - ((windows sid).held - 1) < number
      simp only [Bool.false_eq_true, false_iff]
      omega
    · exact fun _ => ⟨block.numbered, has⟩
    · intro unused
      have positive := pooled.number_pos cache has
      have zero : (vnode.pool.pMem index).blockId = 0 := unused
      rw [block.numbered] at zero
      omega
    all_goals
      rw [isTaken]
      exact (Int.add_zero _).symm
  refine ⟨?_, pooled.change cache change⟩
  unfold commitBlock
  simp only [cache, slot, bind_eq_bind, bind_some]
  rw [if_pos notFree]
  rfl

variable {next : SVnodeObj Row}

theorem pooled_written (pooled : Pooled vnode windows)
    (cache : cacheOf vnode sid = some (pObj, pInfo)) (has : (windows sid).Has number)
    (slot : pInfo.cacheBlocks (slotOf pInfo.maxBlocks number) = some index) {freePoints : BitVec 32}
    {numOfPoints : Int} {rows : Nat -> Int -> Row}
    (isNext : next = { vnode with
      meterList := update vnode.meterList sid (some { pObj with freePoints := freePoints })
      pool := { vnode.pool with
        pMem := update vnode.pool.pMem index
          { vnode.pool.pMem index with numOfPoints := numOfPoints }
        rows := rows } }) :
    Pooled next windows := by
  have sound := pooled.sound sid pObj pInfo cache
  obtain ⟨inside, block⟩ := pooled.blockAt cache has slot
  have change : Change vnode next windows sid pInfo { pObj with freePoints := freePoints } pInfo
      index number { vnode.pool.pMem index with numOfPoints := numOfPoints } (windows sid) := by
    rw [isNext]
    refine ⟨rfl, rfl, rfl, (cacheAt_some cache).2, rfl, pooled.freeSlot, rfl, inside,
      Or.inr block.owner, sound, fun _ _ => Iff.rfl, ?_, fun _ => slot, ?_, ?_, ?_, ?_, ?_⟩
    · intro other ne hasOther
      refine ⟨rfl, ?_, Iff.rfl⟩
      intro same
      have otherBlock := (pooled.blockAt cache hasOther same).2
      exact ne (otherBlock.numbered.symm.trans block.numbered)
    · exact fun _ => ⟨slot, block.owner, block.numbered, block.slotted, block.placed, block.notFree⟩
    · exact fun _ => ⟨block.numbered, has⟩
    · intro unused
      have positive := pooled.number_pos cache has
      have zero : (vnode.pool.pMem index).blockId = 0 := unused
      rw [block.numbered] at zero
      omega
    · exact (Int.sub_add_cancel _ _).symm
    · exact (Int.sub_add_cancel _ _).symm
  have after := pooled.change cache change
  rwa [Function.update_eq_self] at after

def ringOf (cache : SMeterObj × SCacheInfo) : Int × Int × (Int -> Option Nat) :=
  (cache.2.numOfBlocks, cache.2.maxBlocks, cache.2.cacheBlocks)

theorem ringOf_some {meterList meterList' : Nat -> Option SMeterObj}
    (agree : (cacheAt meterList' sid).map ringOf = (cacheAt meterList sid).map ringOf)
    (cache : cacheAt meterList' sid = some (pObj, pInfo)) :
    ∃ pObj' pInfo', cacheAt meterList sid = some (pObj', pInfo') ∧
      pInfo'.numOfBlocks = pInfo.numOfBlocks ∧ pInfo'.maxBlocks = pInfo.maxBlocks ∧
      pInfo'.cacheBlocks = pInfo.cacheBlocks := by
  rw [cache] at agree
  obtain ⟨⟨pObj', pInfo'⟩, isSome, same⟩ := Option.map_eq_some_iff.mp agree.symm
  simp only [ringOf, Prod.mk.injEq] at same
  exact ⟨pObj', pInfo', isSome, same⟩

theorem pooled_congr (pooled : Pooled vnode windows)
    (total : next.totalBlocks = vnode.totalBlocks) (sessions : next.maxSessions = vnode.maxSessions)
    (pMem : next.pool.pMem = vnode.pool.pMem)
    (notFreeSlots : next.pool.notFreeSlots = vnode.pool.notFreeSlots)
    (freeSlot : next.pool.freeSlot < next.totalBlocks)
    (agree : ∀ sid, (cacheOf next sid).map ringOf = (cacheOf vnode sid).map ringOf) :
    Pooled next windows := by
  refine ⟨freeSlot, ?_, ?_, ?_, ?_, ?_, ?_, ?_, ?_⟩
  · intro sid isSome
    rw [sessions]
    apply pooled.sessions
    have same := congrArg Option.isSome (agree sid)
    rw [isSome_map, isSome_map] at same
    rw [<- same]
    exact isSome
  · intro sid none'
    apply pooled.absent
    have same := agree sid
    rw [none'] at same
    exact Option.map_eq_none_iff.mp same.symm
  · intro sid pObj pInfo cache
    obtain ⟨pObj', pInfo', isSome, count, size, -⟩ := ringOf_some (agree sid) cache
    have sound := pooled.sound sid pObj' pInfo' isSome
    exact ⟨sound.held, sound.within, sound.start, count ▸ sound.count, size ▸ sound.ring⟩
  · intro sid pObj pInfo cache number has
    obtain ⟨pObj', pInfo', isSome, -, size, ring⟩ := ringOf_some (agree sid) cache
    rw [total, pMem, <- size, <- ring]
    exact pooled.live sid pObj' pInfo' isSome number has
  · intro index inside used
    rw [total] at inside
    rw [pMem] at used ⊢
    obtain ⟨sid, pObj, pInfo, cache, has, slot⟩ := pooled.owned index inside used
    obtain ⟨pObj', pInfo', isSome, -, size, ring⟩ := ringOf_some (agree sid).symm cache
    exact ⟨sid, pObj', pInfo', isSome, has, by rw [size, ring]; exact slot⟩
  · rw [total, pMem]
    exact pooled.empty
  · rw [total, pMem, notFreeSlots]
    exact pooled.blocks
  · rw [sessions, notFreeSlots]
    exact pooled.meters

theorem pooled_swapped {next : SVnodeObj Row} (pooled : Pooled vnode windows)
    (inside : sid < vnode.maxSessions) (held : (windows sid).held = 0)
    (none' : ∀ number, cacheOf vnode sid ≠ none -> ¬ (windows sid).Has number)
    {meter : Option SMeterObj}
    (isNext : next = { vnode with meterList := update vnode.meterList sid meter })
    (start : ∀ pObj pInfo, cacheOf next sid = some (pObj, pInfo) ->
      pInfo.numOfBlocks = 0 ∧ 0 ≤ pInfo.maxBlocks) :
    Pooled next (update windows sid ⟨0, 0, 0⟩) := by
  have elsewhere : ∀ other, other ≠ sid -> cacheOf next other = cacheOf vnode other := by
    intro other ne
    rw [isNext]
    exact cacheAt_update_ne ne _
  have total : next.totalBlocks = vnode.totalBlocks := by rw [isNext]
  have pool : next.pool = vnode.pool := by rw [isNext]
  refine ⟨?_, ?_, ?_, ?_, ?_, ?_, ?_, ?_, ?_⟩
  · rw [total, pool]
    exact pooled.freeSlot
  · intro other isSome
    rw [show next.maxSessions = vnode.maxSessions by rw [isNext]]
    by_cases same : other = sid
    · rw [same]
      exact inside
    · rw [elsewhere other same] at isSome
      exact pooled.sessions other isSome
  · intro other isNone
    by_cases same : other = sid
    · rw [same, update_self]
    · rw [elsewhere other same] at isNone
      rw [update_of_ne same]
      exact pooled.absent other isNone
  · intro other pObj pInfo cache
    by_cases same : other = sid
    · subst same
      obtain ⟨count, size⟩ := start pObj pInfo cache
      rw [update_self]
      exact ⟨le_rfl, le_rfl, le_rfl, count, size⟩
    · rw [elsewhere other same] at cache
      rw [update_of_ne same]
      exact pooled.sound other pObj pInfo cache
  · intro other pObj pInfo cache number has
    by_cases same : other = sid
    · subst same
      rw [update_self] at has
      exact absurd (lt_of_lt_of_le has.1 has.2) (lt_irrefl _)
    · rw [elsewhere other same] at cache
      rw [update_of_ne same] at has ⊢
      rw [total, pool]
      exact pooled.live other pObj pInfo cache number has
  · intro index inside used
    rw [total] at inside
    rw [pool] at used ⊢
    obtain ⟨other, pObj, pInfo, cache, has, slot⟩ := pooled.owned index inside used
    have ne : other ≠ sid := by
      intro same
      subst same
      exact none' _ (by rw [cache]; exact Option.some_ne_none _) has
    refine ⟨other, pObj, pInfo, ?_, ?_, slot⟩
    · rw [elsewhere other ne]
      exact cache
    · rw [update_of_ne ne]
      exact has
  · rw [total, pool]
    exact pooled.empty
  · rw [total, pool]
    exact pooled.blocks
  · have table : (fun other => (update windows sid ⟨0, 0, 0⟩ other).held) =
        fun other => (windows other).held := by
      funext other
      by_cases same : other = sid
      · rw [same, update_self, held]
      · rw [update_of_ne same]
    rw [pool, show next.maxSessions = vnode.maxSessions by rw [isNext], table]
    exact pooled.meters

end Steps

end Luomi.Vnode.CacheSteps
