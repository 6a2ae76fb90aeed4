import Luomi.Vnode.CacheAllocate

/-!
# Inserting, committing and dropping

Each operation of the cache ends and keeps what holds between two operations.
-/

namespace Luomi.Vnode.CacheOperations

open RingWindow Cache CachePool CacheSteps CacheSteady CacheAllocate
open Function (update update_eq_self update_idem update_of_ne update_self)
open Option (bind_eq_bind bind_some)

section Operations

variable {Row : Type} {vnode next : SVnodeObj Row} {sid index : Nat} {pObj : SMeterObj}
  {pInfo : SCacheInfo}

def firstHeld (pInfo : SCacheInfo) : Int := pInfo.blocks - pInfo.unCommittedBlocks + 1

/-- A position a commit can reach: its slot is one of an uncommitted block, its place is not
behind the points of the block. -/
structure CommitPosition (vnode : SVnodeObj Row) (sid : Nat) (slot pos : Int) (pObj : SMeterObj)
    (pInfo : SCacheInfo) (index : Nat) : Prop where
  cache : cacheOf vnode sid = some (pObj, pInfo)
  lower : 0 ≤ slot
  upper : slot < pInfo.maxBlocks
  held : (slot - commitStart pObj pInfo) % pInfo.maxBlocks < pInfo.unCommittedBlocks
  block : pInfo.cacheBlocks slot = some index
  start : 0 ≤ pos
  inside : pos ≤ (vnode.pool.pMem index).numOfPoints

def uncommitted (pInfo : SCacheInfo) (turns : Int) : SCacheInfo :=
  { pInfo with unCommittedBlocks := pInfo.unCommittedBlocks - turns }

/-- A vnode some turns of the loop of `vnodeUpdateCommitInfo` later. -/
structure Committing (vnode next : SVnodeObj Row) (sid : Nat) (pObj : SMeterObj)
    (pInfo : SCacheInfo) (turns : Int) : Prop where
  cacheBlockSize : next.cacheBlockSize = vnode.cacheBlockSize
  totalBlocks : next.totalBlocks = vnode.totalBlocks
  rows : next.pool.rows = vnode.pool.rows
  mine : cacheOf next sid =
    some ({ pObj with pCache := some (uncommitted pInfo turns) }, uncommitted pInfo turns)
  others : ∀ other, other ≠ sid -> cacheOf next other = cacheOf vnode other
  heads : ∀ index, ∃ notFree,
    next.pool.pMem index = { vnode.pool.pMem index with notFree := notFree }
  pooled : Pooled next (windowsOf next)

theorem Committing.start (steady : Steady vnode)
    (cache : cacheOf vnode sid = some (pObj, pInfo)) : Committing vnode vnode sid pObj pInfo 0 := by
  refine ⟨rfl, rfl, rfl, ?_, fun _ _ => rfl, fun index => ⟨_, rfl⟩, steady.pooled⟩
  have info : uncommitted pInfo 0 = pInfo := by
    unfold uncommitted
    rw [Int.sub_zero]
  have meter : { pObj with pCache := some pInfo } = pObj := by
    rw [<- (cacheAt_some cache).2]
  rw [info, meter]
  exact cache

variable {turns : Int}

theorem Committing.turn (committing : Committing vnode next sid pObj pInfo turns)
    (more : turns < pInfo.unCommittedBlocks) :
    ∃ last, commitBlock next sid (slotOf pInfo.maxBlocks (firstHeld pInfo + turns)) = some last ∧
      Committing vnode last sid pObj pInfo (turns + 1) := by
  have window := windowsOf_some committing.mine
  have sound := committing.pooled.sound sid _ _ committing.mine
  rw [window] at sound
  have within : pInfo.unCommittedBlocks - turns ≤ pInfo.blocks - (pInfo.blocks - pInfo.numOfBlocks) :=
    sound.within
  have has : (windowsOf next sid).Has (firstHeld pInfo + turns) := by
    rw [window]
    unfold firstHeld
    constructor
    · show pInfo.blocks - pInfo.numOfBlocks < _
      omega
    · show _ ≤ pInfo.blocks
      omega
  obtain ⟨index, inside, slot, -⟩ := committing.pooled.live sid _ _ committing.mine _ has
  have isFirst : firstHeld pInfo + turns =
      (windowsOf next sid).hi - (windowsOf next sid).held + 1 := by
    rw [window]
    show pInfo.blocks - pInfo.unCommittedBlocks + 1 + turns =
      pInfo.blocks - (pInfo.unCommittedBlocks - turns) + 1
    ring
  have some' : 0 < (windowsOf next sid).held := by
    rw [window]
    show 0 < pInfo.unCommittedBlocks - turns
    omega
  obtain ⟨run, pooled⟩ := pooled_committed committing.pooled committing.mine some' isFirst slot
  have count : uncommitted (uncommitted pInfo turns) 1 = uncommitted pInfo (turns + 1) := by
    unfold uncommitted
    rw [Int.sub_sub]
  refine ⟨_, run, committing.cacheBlockSize, committing.totalBlocks, committing.rows, ?_, ?_, ?_, ?_⟩
  · rw [<- count]
    exact cacheAt_update_same _ _ _
  · intro other ne
    exact (cacheAt_update_ne ne _).trans (committing.others other ne)
  · intro place
    obtain ⟨notFree, same⟩ := committing.heads place
    by_cases isIndex : place = index
    · refine ⟨false, ?_⟩
      rw [isIndex] at same ⊢
      show update next.pool.pMem index _ index = _
      rw [update_self, same]
    · refine ⟨notFree, ?_⟩
      rw [<- same]
      exact update_of_ne isIndex _ _
  · rw [windowsOf_update rfl rfl]
    rw [window] at pooled
    exact pooled

theorem commitLoop_committing {slot pos turns last : Int} {fuel : Nat}
    (committing : Committing vnode next sid pObj pInfo turns) (nonneg : 0 ≤ turns)
    (order : turns ≤ last) (held : last < pInfo.unCommittedBlocks)
    (spare : pInfo.unCommittedBlocks < pInfo.maxBlocks)
    (isSlot : slot = slotOf pInfo.maxBlocks (firstHeld pInfo + last)) (enough : last < turns + fuel) :
    ∃ final, commitLoop sid pInfo.maxBlocks pObj.pointsPerBlock slot pos fuel
        (slotOf pInfo.maxBlocks (firstHeld pInfo + turns)) turns next =
          some (final, last + if pos = pObj.pointsPerBlock then 1 else 0) ∧
      Committing vnode final sid pObj pInfo (last + if pos = pObj.pointsPerBlock then 1 else 0) := by
  induction fuel generalizing next turns with
  | zero => omega
  | succ fuel ih =>
    have positive : 0 < pInfo.maxBlocks := by omega
    have sameIff : slotOf pInfo.maxBlocks (firstHeld pInfo + turns) = slot ↔ turns = last := by
      constructor
      · intro same
        have numbers := slotOf_injective (by omega) (by omega) (same.trans isSlot)
        omega
      · intro same
        rw [isSlot, same]
    have following : (slotOf pInfo.maxBlocks (firstHeld pInfo + turns) + 1).tmod pInfo.maxBlocks =
        slotOf pInfo.maxBlocks (firstHeld pInfo + (turns + 1)) := by
      have lower := slotOf_nonneg positive (firstHeld pInfo + turns)
      rw [Int.tmod_eq_emod_of_nonneg (by omega), slotOf_next, Int.add_assoc]
    unfold commitLoop
    by_cases isLast : turns = last
    · subst isLast
      have same := sameIff.mpr rfl
      by_cases full : pos = pObj.pointsPerBlock
      · obtain ⟨final, run, after⟩ := committing.turn held
        refine ⟨final, ?_, ?_⟩
        · rw [if_pos (Or.inr full), run, if_pos full]
          simp only [bind_eq_bind, bind_some]
          rw [if_pos same]
          rfl
        · rw [if_pos full]
          exact after
      · refine ⟨next, ?_, ?_⟩
        · rw [if_neg (not_or.mpr ⟨not_not.mpr same, full⟩), if_neg full, Int.add_zero]
        · rw [if_neg full, Int.add_zero]
          exact committing
    · have notSame := mt sameIff.mp isLast
      obtain ⟨after, run, afterCommitting⟩ := committing.turn (by omega)
      obtain ⟨final, loop, isFinal⟩ := ih afterCommitting (by omega) (by omega) (by omega)
      refine ⟨final, ?_, isFinal⟩
      rw [if_pos (Or.inl notSame), run]
      simp only [bind_eq_bind, bind_some]
      rw [if_neg notSame, following]
      exact loop

def commitTurns (pObj : SMeterObj) (pInfo : SCacheInfo) (slot pos : Int) : Int :=
  (slot - commitStart pObj pInfo) % pInfo.maxBlocks + if pos = pObj.pointsPerBlock then 1 else 0

def committedMeter (pObj : SMeterObj) (pInfo : SCacheInfo) (slot pos : Int) :
    SMeterObj × SCacheInfo :=
  let turns := commitTurns pObj pInfo slot pos
  let info := { uncommitted pInfo turns with commitSlot := slot, commitPoint := pos }
  ({ pObj with
    freePoints := pObj.freePoints + BitVec.ofInt 32 (pObj.pointsPerBlock * turns)
    pCache := some info }, info)

structure CommittedTo (vnode next : SVnodeObj Row) (sid : Nat) (slot pos : Int) (pObj : SMeterObj)
    (pInfo : SCacheInfo) : Prop where
  steady : Steady next
  cacheBlockSize : next.cacheBlockSize = vnode.cacheBlockSize
  totalBlocks : next.totalBlocks = vnode.totalBlocks
  rows : next.pool.rows = vnode.pool.rows
  mine : cacheOf next sid = some (committedMeter pObj pInfo slot pos)
  others : ∀ other, other ≠ sid -> cacheOf next other = cacheOf vnode other
  heads : ∀ index, ∃ notFree,
    next.pool.pMem index = { vnode.pool.pMem index with notFree := notFree }

variable {pos slot : Int}

theorem placed_committed (placed : Placed pObj pInfo)
    (nonneg : 0 ≤ (slot - commitStart pObj pInfo) % pInfo.maxBlocks)
    (held : (slot - commitStart pObj pInfo) % pInfo.maxBlocks < pInfo.unCommittedBlocks)
    (spare : pInfo.unCommittedBlocks < pInfo.maxBlocks)
    (isSlot : slot = slotOf pInfo.maxBlocks (firstHeld pInfo +
      (slot - commitStart pObj pInfo) % pInfo.maxBlocks)) :
    Placed (committedMeter pObj pInfo slot pos).1 (committedMeter pObj pInfo slot pos).2 := by
  have turns : commitTurns pObj pInfo slot pos = (slot - commitStart pObj pInfo) % pInfo.maxBlocks +
    if pos = pObj.pointsPerBlock then 1 else 0 := rfl
  refine ⟨placed.begun, placed.current, ?_, ?_, ?_⟩
  · show slot = slotOf pInfo.maxBlocks (pInfo.blocks -
      (pInfo.unCommittedBlocks - commitTurns pObj pInfo slot pos) +
        if pos = pObj.pointsPerBlock then 0 else 1)
    have number : pInfo.blocks - (pInfo.unCommittedBlocks - commitTurns pObj pInfo slot pos) +
        (if pos = pObj.pointsPerBlock then 0 else 1) =
          firstHeld pInfo + (slot - commitStart pObj pInfo) % pInfo.maxBlocks := by
      rw [turns]
      unfold firstHeld
      split <;> ring
    rw [number]
    exact isSlot
  · intro none'
    have isZero : pInfo.unCommittedBlocks - commitTurns pObj pInfo slot pos = 0 := none'
    left
    show pos = pObj.pointsPerBlock
    by_contra notFull
    rw [if_neg notFull] at turns
    omega
  · left
    show pInfo.unCommittedBlocks - commitTurns pObj pInfo slot pos < pInfo.maxBlocks
    rw [turns]
    split <;> omega

theorem Committing.steady (steady : Steady vnode) (cache : cacheOf vnode sid = some (pObj, pInfo))
    (committing : Committing vnode next sid pObj pInfo (commitTurns pObj pInfo slot pos))
    (placed : Placed (committedMeter pObj pInfo slot pos).1 (committedMeter pObj pInfo slot pos).2) :
    Steady (setMeter next sid (committedMeter pObj pInfo slot pos).1) := by
  have fits := steady.fits sid pObj pInfo cache
  have mine : cacheOf (setMeter next sid (committedMeter pObj pInfo slot pos).1) sid =
    some (committedMeter pObj pInfo slot pos) := cacheAt_update_same _ _ _
  have others : ∀ other, other ≠ sid ->
      cacheOf (setMeter next sid (committedMeter pObj pInfo slot pos).1) other =
        cacheOf next other := fun other ne => cacheAt_update_ne ne _
  have windows : windowsOf (setMeter next sid (committedMeter pObj pInfo slot pos).1) =
      windowsOf next := by
    rw [windowsOf_update rfl rfl]
    have same := windowsOf_some committing.mine
    exact Function.update_eq_self_iff.mpr same.symm
  refine ⟨?_, ?_, ?_, ?_⟩
  · rw [windows]
    refine pooled_congr committing.pooled rfl rfl rfl rfl committing.pooled.freeSlot ?_
    intro other
    by_cases same : other = sid
    · rw [same, mine, committing.mine]
      rfl
    · rw [others other same]
  · intro other otherObj otherInfo otherCache
    show Fits next.cacheBlockSize otherObj
    rw [committing.cacheBlockSize]
    by_cases same : other = sid
    · rw [same, mine] at otherCache
      cases otherCache
      exact ⟨fits.some', fits.counted, fits.inside⟩
    · rw [others other same, committing.others other same] at otherCache
      exact steady.fits other otherObj otherInfo otherCache
  · intro other otherObj otherInfo otherCache
    by_cases same : other = sid
    · rw [same, mine] at otherCache
      cases otherCache
      exact placed
    · rw [others other same, committing.others other same] at otherCache
      exact steady.slots other otherObj otherInfo otherCache
  · intro other otherObj otherInfo otherCache place inside owner
    have insideThen : place < vnode.totalBlocks := committing.totalBlocks ▸ inside
    obtain ⟨notFree, head⟩ := committing.heads place
    have sameOwner : (vnode.pool.pMem place).pMeterObj = some other :=
      (congrArg SCacheBlock.pMeterObj head).symm.trans owner
    have samePoints : (next.pool.pMem place).numOfPoints = (vnode.pool.pMem place).numOfPoints := by
      rw [head]
    show 0 ≤ (next.pool.pMem place).numOfPoints ∧
      (next.pool.pMem place).numOfPoints ≤ otherObj.pointsPerBlock
    rw [samePoints]
    by_cases same : other = sid
    · rw [same, mine] at otherCache
      cases otherCache
      exact steady.points sid pObj pInfo cache place insideThen (same ▸ sameOwner)
    · rw [others other same, committing.others other same] at otherCache
      exact steady.points other otherObj otherInfo otherCache place insideThen sameOwner

theorem vnodeUpdateCommitInfo_committed (steady : Steady vnode)
    (position : CommitPosition vnode sid slot pos pObj pInfo index) :
    ∃ next, vnodeUpdateCommitInfo vnode sid slot pos = some next ∧
      CommittedTo vnode next sid slot pos pObj pInfo := by
  have cache := position.cache
  have positive : 0 < pInfo.maxBlocks := lt_of_le_of_lt position.lower position.upper
  have placed := steady.slots sid pObj pInfo cache
  have start := placed.start positive
  have sound := steady.sound cache
  have within : pInfo.unCommittedBlocks ≤ pInfo.blocks - (pInfo.blocks - pInfo.numOfBlocks) :=
    sound.within
  have lowest : 0 ≤ pInfo.blocks - pInfo.numOfBlocks := sound.start
  have held := position.held
  have nonneg : 0 ≤ (slot - commitStart pObj pInfo) % pInfo.maxBlocks :=
    Int.emod_nonneg _ (ne_of_gt positive)
  have spare : pInfo.unCommittedBlocks < pInfo.maxBlocks := by
    rcases placed.spare with less | none'
    · exact less
    · omega
  have isSlot : slot = slotOf pInfo.maxBlocks (firstHeld pInfo +
      (slot - commitStart pObj pInfo) % pInfo.maxBlocks) := by
    rw [start]
    exact slotOf_of_sub position.lower position.upper
  have first : commitStart pObj pInfo = slotOf pInfo.maxBlocks (firstHeld pInfo + 0) := by
    rw [start, Int.add_zero]
    rfl
  obtain ⟨final, run, committing⟩ := @commitLoop_committing _ _ _ _ _ _ _ pos _ _
    (pInfo.maxBlocks.toNat + 1) (Committing.start steady cache) le_rfl nonneg held spare isSlot
    (by omega)
  rw [<- first] at run
  have total : (slot - commitStart pObj pInfo) % pInfo.maxBlocks +
      (if pos = pObj.pointsPerBlock then 1 else 0) = commitTurns pObj pInfo slot pos := rfl
  rw [total] at run committing
  refine ⟨setMeter final sid (committedMeter pObj pInfo slot pos).1, ?_,
    committing.steady steady cache (placed_committed placed nonneg held spare isSlot),
    committing.cacheBlockSize, committing.totalBlocks, committing.rows,
    cacheAt_update_same _ _ _, ?_, committing.heads⟩
  · unfold vnodeUpdateCommitInfo
    simp only [cache, bind_eq_bind, bind_some, run, committing.mine]
    rfl
  · exact fun other ne => (cacheAt_update_ne ne _).trans (committing.others other ne)

theorem currentBlock (steady : Steady vnode) (cache : cacheOf vnode sid = some (pObj, pInfo))
    (some' : 0 < pInfo.numOfBlocks) :
    ∃ index < vnode.totalBlocks, pInfo.cacheBlocks pInfo.currentSlot = some index ∧
      pInfo.currentSlot = slotOf pInfo.maxBlocks pInfo.blocks ∧
      BlockOf (vnode.pool.pMem index) sid (windowOf pInfo) pInfo.maxBlocks pInfo.blocks index := by
  have lowest : 0 ≤ pInfo.blocks - pInfo.numOfBlocks := (steady.sound cache).start
  have has : (windowsOf vnode sid).Has pInfo.blocks := by
    rw [windowsOf_some cache]
    constructor
    · show pInfo.blocks - pInfo.numOfBlocks < pInfo.blocks
      omega
    · exact le_rfl
  have current := (steady.slots sid pObj pInfo cache).current
  rw [if_neg (by omega)] at current
  obtain ⟨index, inside, slot, block⟩ := steady.pooled.live sid pObj pInfo cache _ has
  rw [windowsOf_some cache] at block
  exact ⟨index, inside, current ▸ slot, current, block⟩

/-- What `writePoint` makes of a vnode. -/
def written (vnode : SVnodeObj Row) (sid index : Nat) (row : Row) (pObj : SMeterObj) :
    SVnodeObj Row :=
  let block := vnode.pool.pMem index
  { vnode with
    meterList := update vnode.meterList sid
      (some { pObj with freePoints := pObj.freePoints - 1 })
    pool := { vnode.pool with
      pMem := update vnode.pool.pMem index
        { block with numOfPoints := block.numOfPoints + 1 }
      rows := update vnode.pool.rows index
        (update (vnode.pool.rows index) block.numOfPoints row) } }

structure Written (vnode next : SVnodeObj Row) (sid : Nat) (row : Row) (pObj : SMeterObj)
    (pInfo : SCacheInfo) (index : Nat) : Prop where
  steady : Steady next
  cacheBlockSize : next.cacheBlockSize = vnode.cacheBlockSize
  totalBlocks : next.totalBlocks = vnode.totalBlocks
  slot : pInfo.cacheBlocks pInfo.currentSlot = some index
  mine : cacheOf next sid = some ({ pObj with freePoints := pObj.freePoints - 1 }, pInfo)
  others : ∀ other, other ≠ sid -> cacheOf next other = cacheOf vnode other
  heads : next.pool.pMem = update vnode.pool.pMem index
    { vnode.pool.pMem index with numOfPoints := (vnode.pool.pMem index).numOfPoints + 1 }
  rows : next.pool.rows = update vnode.pool.rows index
    (update (vnode.pool.rows index) (vnode.pool.pMem index).numOfPoints row)

theorem short_eq {value : Int} (lower : 0 ≤ value) (upper : value ≤ 32767) : short value = value :=
    by
  unfold short
  rw [BitVec.toInt_ofInt]
  apply Int.bmod_eq_of_le <;> omega

theorem writePoint_written (steady : Steady vnode)
    (cache : cacheOf vnode sid = some (pObj, pInfo)) (some' : 0 < pInfo.numOfBlocks) (row : Row)
    (room : ∀ index, pInfo.cacheBlocks pInfo.currentSlot = some index ->
      (vnode.pool.pMem index).numOfPoints < pObj.pointsPerBlock) :
    ∃ next index, writePoint vnode sid row = some next ∧
      Written vnode next sid row pObj pInfo index := by
  obtain ⟨index, inside, slot, isSlot, block⟩ := currentBlock steady cache some'
  have fits := steady.fits sid pObj pInfo cache
  have placed := steady.slots sid pObj pInfo cache
  have counted := fits.counted
  have less := room index slot
  have lower := (steady.points sid pObj pInfo cache index inside block.owner).1
  have isShort : short ((vnode.pool.pMem index).numOfPoints + 1) =
      (vnode.pool.pMem index).numOfPoints + 1 := short_eq (by omega) (by omega)
  have inBlock : InBlock vnode pObj (vnode.pool.pMem index).numOfPoints :=
    ⟨lower, less, fits.inside⟩
  have has : (windowsOf vnode sid).Has pInfo.blocks := by
    rw [windowsOf_some cache]
    constructor
    · show pInfo.blocks - pInfo.numOfBlocks < pInfo.blocks
      omega
    · exact le_rfl
  have isCache := (cacheAt_some cache).2
  have mine : ∀ meterList, cacheAt (update meterList sid
      (some { pObj with freePoints := pObj.freePoints - 1 })) sid =
        some ({ pObj with freePoints := pObj.freePoints - 1 }, pInfo) := by
    intro meterList
    rw [cacheAt_update_same]
    show Option.map _ pObj.pCache = _
    rw [isCache]
    rfl
  refine ⟨written vnode sid index row pObj, index, ?_, ?_, rfl, rfl, slot, mine _, ?_, rfl, rfl⟩
  · unfold writePoint
    simp only [cache, bind_eq_bind, bind_some, slot]
    rw [if_pos inBlock, isShort]
    rfl
  · have pooled : Pooled (written vnode sid index row pObj) (windowsOf vnode) :=
      pooled_written steady.pooled cache has (isSlot ▸ slot) rfl
    refine steady.update cache rfl rfl rfl isCache rfl rfl ⟨fits.some', fits.counted, fits.inside⟩
      ⟨placed.begun, placed.current, placed.commit, placed.done, placed.spare⟩
      (Or.inr ⟨block.owner, ?_, ?_⟩) ?_
    · show 0 ≤ (vnode.pool.pMem index).numOfPoints + 1
      omega
    · show (vnode.pool.pMem index).numOfPoints + 1 ≤ pObj.pointsPerBlock
      omega
    · rw [<- windowsOf_some cache, update_eq_self]
      exact pooled
  · exact fun other ne => cacheAt_update_ne ne _

def NeedsBlock (vnode : SVnodeObj Row) (pObj : SMeterObj) (pInfo : SCacheInfo) : Prop :=
  0 < pInfo.numOfBlocks -> ∃ index, pInfo.cacheBlocks pInfo.currentSlot = some index ∧
    pObj.pointsPerBlock ≤ (vnode.pool.pMem index).numOfPoints

inductive Inserted (vnode next : SVnodeObj Row) (sid : Nat) (row : Row) (pObj : SMeterObj)
    (pInfo : SCacheInfo) : Prop where
  | refused (searched : Searched vnode next)
  | filled (index : Nat) (written : Written vnode next sid row pObj pInfo index)
  | grown (mid : SVnodeObj Row) (midObj : SMeterObj) (midInfo : SCacheInfo) (index : Nat)
      (needs : NeedsBlock vnode pObj pInfo) (taken : Taken vnode mid sid pObj pInfo index)
      (cache : cacheOf mid sid = some (midObj, midInfo))
      (written : Written mid next sid row midObj midInfo index)

theorem taken_written {mid : SVnodeObj Row} (taken : Taken vnode mid sid pObj pInfo index)
    (steady : Steady vnode) (cache : cacheOf vnode sid = some (pObj, pInfo)) (row : Row) :
    ∃ midObj midInfo next, cacheOf mid sid = some (midObj, midInfo) ∧
      0 < midInfo.numOfBlocks ∧ 0 ≤ midInfo.currentSlot ∧ currentFull mid sid = some false ∧
      writePoint mid sid row = some next ∧ Written mid next sid row midObj midInfo index := by
  obtain ⟨⟨midObj, midInfo⟩, midCache, same⟩ := Option.map_eq_some_iff.mp taken.mine
  have points : midObj.pointsPerBlock = pObj.pointsPerBlock :=
    congrArg (fun cache => cache.1.pointsPerBlock) same
  have held : midInfo.unCommittedBlocks = pInfo.unCommittedBlocks + 1 :=
    congrArg (fun cache => cache.2.unCommittedBlocks) same
  have isCurrent : midInfo.currentSlot = (pInfo.currentSlot + 1).tmod pInfo.maxBlocks :=
    congrArg (fun cache => cache.2.currentSlot) same
  have isRing : midInfo.cacheBlocks = update pInfo.cacheBlocks
      ((pInfo.currentSlot + 1).tmod pInfo.maxBlocks) (some index) :=
    congrArg (fun cache => cache.2.cacheBlocks) same
  have slot : midInfo.cacheBlocks midInfo.currentSlot = some index := by
    rw [isRing, isCurrent, update_self]
  have sound := taken.steady.sound midCache
  have within : midInfo.unCommittedBlocks ≤ midInfo.blocks - (midInfo.blocks - midInfo.numOfBlocks) :=
    sound.within
  have before : 0 ≤ pInfo.unCommittedBlocks := (steady.sound cache).held
  have some' : 0 < midInfo.numOfBlocks := by omega
  have positive := (steady.fits sid pObj pInfo cache).some'
  have empty : (mid.pool.pMem index).numOfPoints = 0 := by
    rw [taken.block]
    rfl
  obtain ⟨_, _, _, isSlot, _⟩ := currentBlock taken.steady midCache some'
  have ring : midInfo.blocks - (midInfo.blocks - midInfo.numOfBlocks) ≤ midInfo.maxBlocks :=
    sound.ring
  obtain ⟨next, place, run, written⟩ := writePoint_written taken.steady midCache some' row (by
    intro place isPlace
    cases isPlace.symm.trans slot
    rw [empty, points]
    exact positive)
  have samePlace : place = index := Option.some.inj (written.slot.symm.trans slot)
  refine ⟨midObj, midInfo, next, midCache, some', ?_, ?_, run, samePlace ▸ written⟩
  · rw [isSlot]
    exact slotOf_nonneg (by omega) _
  · unfold currentFull
    simp only [midCache, bind_eq_bind, bind_some, slot, empty, points]
    have notFull : ¬ pObj.pointsPerBlock ≤ 0 := by omega
    simp only [notFull, decide_false]
    rfl

section

variable (steady : Steady vnode) (cache : cacheOf vnode sid = some (pObj, pInfo)) (row : Row)

include steady cache

theorem vnodeInsertPointToCache_ends :
    ∃ code next, vnodeInsertPointToCache vnode sid row = some (code, next) ∧
      (code = -1 ∧ Searched vnode next ∨
        code = 0 ∧ 0 < pInfo.numOfBlocks ∧ (∃ index, Written vnode next sid row pObj pInfo index) ∨
        code = 0 ∧ ∃ mid midObj midInfo index, NeedsBlock vnode pObj pInfo ∧
          Taken vnode mid sid pObj pInfo index ∧ cacheOf mid sid = some (midObj, midInfo) ∧
          Written mid next sid row midObj midInfo index) := by
  obtain ⟨code, next, run, ends⟩ := vnodeAllocateCacheBlock_spec steady cache
  have count := (steady.sound cache).count
  have within : pInfo.unCommittedBlocks ≤ pInfo.blocks - (pInfo.blocks - pInfo.numOfBlocks) :=
    (steady.sound cache).within
  have held : 0 ≤ pInfo.unCommittedBlocks := (steady.sound cache).held
  unfold vnodeInsertPointToCache
  simp only [cache, bind_eq_bind, bind_some]
  by_cases none' : pInfo.numOfBlocks = 0
  · simp only [none', decide_true, allocateIf, if_true, run, bind_some]
    rcases ends with ⟨negative, searched⟩ | ⟨nonneg, index, taken⟩
    · rw [if_pos negative]
      exact ⟨-1, next, rfl, Or.inl ⟨rfl, searched⟩⟩
    · rw [if_neg (not_lt.mpr nonneg)]
      obtain ⟨midObj, midInfo, final, midCache, some', current, notFull, write, written⟩ :=
        taken_written taken steady cache row
      refine ⟨0, final, ?_, Or.inr (Or.inr ⟨rfl, next, midObj, midInfo, index, ?_, taken, midCache,
        written⟩)⟩
      · simp only [midCache, bind_some]
        rw [if_neg (not_lt.mpr current)]
        simp only [notFull, bind_some, Bool.false_eq_true, if_false]
        rw [if_neg (lt_irrefl 0)]
        simp only [write, bind_some]
        rfl
      · intro some''
        omega
  · have some' : 0 < pInfo.numOfBlocks := by omega
    obtain ⟨index, inside, slot, isSlot, block⟩ := currentBlock steady cache some'
    have ring : pInfo.blocks - (pInfo.blocks - pInfo.numOfBlocks) ≤ pInfo.maxBlocks :=
      (steady.sound cache).ring
    have current : 0 ≤ pInfo.currentSlot := by
      rw [isSlot]
      exact slotOf_nonneg (by omega) _
    simp only [none', decide_false, allocateIf, Bool.false_eq_true, if_false, bind_some, cache]
    rw [if_neg (lt_irrefl 0), if_neg (not_lt.mpr current)]
    have isFull : currentFull vnode sid =
        some (decide (pObj.pointsPerBlock ≤ (vnode.pool.pMem index).numOfPoints)) := by
      unfold currentFull
      simp only [cache, bind_eq_bind, bind_some, slot]
      rfl
    simp only [isFull, bind_some]
    by_cases full : pObj.pointsPerBlock ≤ (vnode.pool.pMem index).numOfPoints
    · simp only [full, decide_true, if_true, run, bind_some]
      rcases ends with ⟨negative, searched⟩ | ⟨nonneg, place, taken⟩
      · rw [if_pos negative]
        exact ⟨-1, next, rfl, Or.inl ⟨rfl, searched⟩⟩
      · rw [if_neg (not_lt.mpr nonneg)]
        obtain ⟨midObj, midInfo, final, midCache, -, -, -, write, written⟩ :=
          taken_written taken steady cache row
        refine ⟨0, final, ?_, Or.inr (Or.inr ⟨rfl, next, midObj, midInfo, place, ?_, taken, midCache,
          written⟩)⟩
        · simp only [write, bind_some]
          rfl
        · exact fun _ => ⟨index, slot, full⟩
    · obtain ⟨final, place, write, written⟩ := writePoint_written steady cache some' row (by
        intro place isPlace
        cases isPlace.symm.trans slot
        exact not_le.mp full)
      refine ⟨0, final, ?_, Or.inr (Or.inl ⟨rfl, some', place, written⟩)⟩
      simp only [full, decide_false, Bool.false_eq_true, if_false, bind_some]
      rw [if_neg (lt_irrefl 0)]
      simp only [write, bind_some]
      rfl

theorem vnodeInsertPointToCache_inserted :
    ∃ code next, vnodeInsertPointToCache vnode sid row = some (code, next) ∧
      Inserted vnode next sid row pObj pInfo := by
  obtain ⟨code, next, run, ends⟩ := vnodeInsertPointToCache_ends steady cache row
  refine ⟨code, next, run, ?_⟩
  rcases ends with ⟨-, searched⟩ | ⟨-, -, index, written⟩ |
    ⟨-, mid, midObj, midInfo, index, needs, taken, midCache, written⟩
  · exact Inserted.refused searched
  · exact Inserted.filled index written
  · exact Inserted.grown mid midObj midInfo index needs taken midCache written

end

def shortened (pInfo : SCacheInfo) (turns : Int) : SCacheInfo :=
  { pInfo with numOfBlocks := pInfo.numOfBlocks - turns }

def leftWindow (pInfo : SCacheInfo) (turns : Int) : Window :=
  ⟨pInfo.blocks - pInfo.numOfBlocks, pInfo.blocks - turns, max (pInfo.unCommittedBlocks - turns) 0⟩

/-- A vnode some turns of the loop of `vnodeFreeCacheInfo` later. -/
structure Freeing (vnode next : SVnodeObj Row) (sid : Nat) (pObj : SMeterObj) (pInfo : SCacheInfo)
    (turns : Int) : Prop where
  cacheBlockSize : next.cacheBlockSize = vnode.cacheBlockSize
  totalBlocks : next.totalBlocks = vnode.totalBlocks
  maxSessions : next.maxSessions = vnode.maxSessions
  mine : cacheOf next sid =
    some ({ pObj with pCache := some (shortened pInfo turns) }, shortened pInfo turns)
  others : ∀ other, other ≠ sid -> cacheOf next other = cacheOf vnode other
  heads : ∀ index, next.pool.pMem index = vnode.pool.pMem index ∨
    next.pool.pMem index = zeroBlock ∧ (vnode.pool.pMem index).pMeterObj = some sid
  pooled : Pooled next (update (windowsOf vnode) sid (leftWindow pInfo turns))

theorem Freeing.start (steady : Steady vnode)
    (cache : cacheOf vnode sid = some (pObj, pInfo)) : Freeing vnode vnode sid pObj pInfo 0 := by
  have held : 0 ≤ pInfo.unCommittedBlocks := (steady.sound cache).held
  have info : shortened pInfo 0 = pInfo := by
    unfold shortened
    rw [Int.sub_zero]
  have meter : { pObj with pCache := some pInfo } = pObj := by
    rw [<- (cacheAt_some cache).2]
  have window : leftWindow pInfo 0 = windowsOf vnode sid := by
    unfold leftWindow
    rw [windowsOf_some cache, Int.sub_zero, Int.sub_zero, max_eq_left held]
    rfl
  refine ⟨rfl, rfl, rfl, ?_, fun _ _ => rfl, fun index => Or.inl rfl, ?_⟩
  · rw [info, meter]
    exact cache
  · rw [window, update_eq_self]
    exact steady.pooled

theorem freed_head_ne {place : Nat} (ne : place ≠ index) :
    (freed vnode index sid pObj pInfo).pool.pMem place = vnode.pool.pMem place :=
  update_of_ne ne _ _

theorem Freeing.turn (freeing : Freeing vnode next sid pObj pInfo turns)
    (more : turns < pInfo.numOfBlocks) : ∃ last, vnodeFreeCacheBlock next
        (pInfo.cacheBlocks (slotOf pInfo.maxBlocks (pInfo.blocks - turns))) = some last ∧
      Freeing vnode last sid pObj pInfo (turns + 1) := by
  have sound := freeing.pooled.sound sid _ _ freeing.mine
  rw [update_self] at sound
  have less := without_newest sound.held sound.within
    (show pInfo.blocks - pInfo.numOfBlocks < pInfo.blocks - turns by omega)
  have lessWindow : (⟨(leftWindow pInfo turns).lo, (leftWindow pInfo turns).hi - 1,
      (leftWindow pInfo turns).held - if 0 < (leftWindow pInfo turns).held then 1 else 0⟩ : Window) =
        leftWindow pInfo (turns + 1) := by
    have heldLess : max (pInfo.unCommittedBlocks - turns) 0 -
        (if 0 < max (pInfo.unCommittedBlocks - turns) 0 then 1 else 0) =
          max (pInfo.unCommittedBlocks - (turns + 1)) 0 := by
      split <;> omega
    unfold leftWindow
    simp only [heldLess, Int.sub_sub]
  rw [lessWindow] at less
  have has : (update (windowsOf vnode) sid (leftWindow pInfo turns) sid).Has
      (pInfo.blocks - turns) := by
    rw [update_self]
    constructor
    · show pInfo.blocks - pInfo.numOfBlocks < pInfo.blocks - turns
      omega
    · exact le_rfl
  obtain ⟨index, inside, slot, block⟩ := freeing.pooled.live sid _ _ freeing.mine _ has
  obtain ⟨run, pooled⟩ := pooled_freed freeing.pooled freeing.mine has slot (by rw [update_self]; exact less)
  have count : shortened (shortened pInfo turns) 1 = shortened pInfo (turns + 1) := by
    unfold shortened
    rw [Int.sub_sub]
  refine ⟨_, (congrArg (vnodeFreeCacheBlock next) slot).trans run, freeing.cacheBlockSize,
    freeing.totalBlocks, freeing.maxSessions, ?_, ?_, ?_, ?_⟩
  · rw [<- count]
    exact cacheAt_update_same _ _ _
  · exact fun other ne => (cacheAt_update_ne ne _).trans (freeing.others other ne)
  · intro place
    by_cases same : place = index
    · right
      constructor
      · rw [same]
        exact update_self _ _ _
      · rw [same]
        rcases freeing.heads index with isHead | ⟨zero, owner⟩
        · rw [<- isHead]
          exact block.owner
        · exact owner
    · have isHead := freeing.heads place
      rw [<- freed_head_ne same] at isHead
      exact isHead
  · rw [update_idem] at pooled
    exact pooled

theorem freeRing_freeing {turns : Int} {count : Nat}
    (freeing : Freeing vnode next sid pObj pInfo turns) (nonneg : 0 ≤ turns)
    (ring : pInfo.numOfBlocks ≤ pInfo.maxBlocks) (rest : turns + count = pInfo.numOfBlocks) :
    ∃ last, freeRing pInfo count (slotOf pInfo.maxBlocks (pInfo.blocks - turns)) next = some last ∧
      Freeing vnode last sid pObj pInfo pInfo.numOfBlocks := by
  induction count generalizing next turns with
  | zero =>
    have all : turns = pInfo.numOfBlocks := by omega
    exact ⟨next, rfl, all ▸ freeing⟩
  | succ count ih =>
    obtain ⟨mid, run, midFreeing⟩ := freeing.turn (by omega)
    obtain ⟨last, loop, all⟩ := ih midFreeing (by omega) (by omega)
    refine ⟨last, ?_, all⟩
    unfold freeRing
    have before := @slotOf_back pInfo.maxBlocks (by omega) (pInfo.blocks - turns) 1 (by omega)
    rw [run, before, Int.sub_sub]
    exact loop

structure Dropped (vnode next : SVnodeObj Row) (sid : Nat) : Prop where
  steady : Steady next
  cacheBlockSize : next.cacheBlockSize = vnode.cacheBlockSize
  totalBlocks : next.totalBlocks = vnode.totalBlocks
  mine : cacheOf next sid = none
  others : ∀ other, other ≠ sid -> cacheOf next other = cacheOf vnode other
  heads : ∀ index, next.pool.pMem index = vnode.pool.pMem index ∨
    next.pool.pMem index = zeroBlock ∧ (vnode.pool.pMem index).pMeterObj = some sid

theorem Freeing.dropped {last : SVnodeObj Row} (steady : Steady vnode)
    (cache : cacheOf vnode sid = some (pObj, pInfo))
    (freeing : Freeing vnode last sid pObj pInfo pInfo.numOfBlocks) :
    Dropped vnode (setMeter last sid { pObj with pCache := none }) sid := by
  have mine : cacheOf (setMeter last sid { pObj with pCache := none }) sid = none :=
    cacheAt_update_same _ _ _
  have others : ∀ other, other ≠ sid ->
      cacheOf (setMeter last sid { pObj with pCache := none }) other = cacheOf vnode other :=
    fun other ne => (cacheAt_update_ne ne _).trans (freeing.others other ne)
  have inside : sid < last.maxSessions := by
    rw [freeing.maxSessions]
    exact steady.pooled.sessions sid (by rw [cache]; rfl)
  have within : pInfo.unCommittedBlocks ≤ pInfo.blocks - (pInfo.blocks - pInfo.numOfBlocks) :=
    (steady.sound cache).within
  have pooled := @pooled_swapped _ _ _ sid (setMeter last sid { pObj with pCache := none })
    freeing.pooled inside
    (by
      rw [update_self]
      show max (pInfo.unCommittedBlocks - pInfo.numOfBlocks) 0 = 0
      omega)
    (by
      intro number _ has
      rw [update_self] at has
      exact absurd (lt_of_lt_of_le has.1 has.2) (lt_irrefl _))
    (some { pObj with pCache := none }) rfl
    (by
      intro otherObj otherInfo otherCache
      rw [mine] at otherCache
      cases otherCache)
  have windows : windowsOf (setMeter last sid { pObj with pCache := none }) =
      update (windowsOf vnode) sid ⟨0, 0, 0⟩ := by
    funext other
    unfold windowsOf
    by_cases same : other = sid
    · rw [same, mine, update_self]
      rfl
    · rw [others other same, update_of_ne same]
  refine ⟨⟨?_, ?_, ?_, ?_⟩, freeing.cacheBlockSize, freeing.totalBlocks, mine, others,
    freeing.heads⟩
  · rw [windows]
    rw [update_idem] at pooled
    exact pooled
  · intro other otherObj otherInfo otherCache
    show Fits last.cacheBlockSize otherObj
    rw [freeing.cacheBlockSize]
    by_cases same : other = sid
    · rw [same, mine] at otherCache
      cases otherCache
    · rw [others other same] at otherCache
      exact steady.fits other otherObj otherInfo otherCache
  · intro other otherObj otherInfo otherCache
    by_cases same : other = sid
    · rw [same, mine] at otherCache
      cases otherCache
    · rw [others other same] at otherCache
      exact steady.slots other otherObj otherInfo otherCache
  · intro other otherObj otherInfo otherCache place isInside owner
    have insideThen : place < vnode.totalBlocks := freeing.totalBlocks ▸ isInside
    by_cases same : other = sid
    · rw [same, mine] at otherCache
      cases otherCache
    · rw [others other same] at otherCache
      have isOwner : (last.pool.pMem place).pMeterObj = some other := owner
      show 0 ≤ (last.pool.pMem place).numOfPoints ∧
        (last.pool.pMem place).numOfPoints ≤ otherObj.pointsPerBlock
      rcases freeing.heads place with isHead | ⟨zero, -⟩
      · rw [isHead] at isOwner ⊢
        exact steady.points other otherObj otherInfo otherCache place insideThen isOwner
      · rw [zero] at isOwner
        cases isOwner

theorem vnodeFreeCacheInfo_dropped (steady : Steady vnode)
    (cache : cacheOf vnode sid = some (pObj, pInfo)) :
    ∃ next, vnodeFreeCacheInfo vnode sid = some next ∧ Dropped vnode next sid := by
  have sound := steady.sound cache
  have held : 0 ≤ pInfo.unCommittedBlocks := sound.held
  have within : pInfo.unCommittedBlocks ≤ pInfo.blocks - (pInfo.blocks - pInfo.numOfBlocks) :=
    sound.within
  have ring : pInfo.blocks - (pInfo.blocks - pInfo.numOfBlocks) ≤ pInfo.maxBlocks := sound.ring
  have start : 0 ≤ pInfo.blocks - pInfo.numOfBlocks := sound.start
  obtain ⟨last, run, freeing⟩ := @freeRing_freeing _ _ _ _ _ _ _ pInfo.numOfBlocks.toNat
    (Freeing.start steady cache) le_rfl (by omega) (by omega)
  have isRun : freeRing pInfo pInfo.numOfBlocks.toNat pInfo.currentSlot vnode = some last := by
    by_cases none' : pInfo.numOfBlocks = 0
    · rw [none'] at run ⊢
      exact run
    · have current := (steady.slots sid pObj pInfo cache).current
      rw [if_neg (by omega)] at current
      rw [Int.sub_zero, <- current] at run
      exact run
  have isMeter := (cacheAt_some freeing.mine).1
  refine ⟨setMeter last sid { pObj with pCache := none }, ?_, freeing.dropped steady cache⟩
  unfold vnodeFreeCacheInfo
  simp only [cache, bind_eq_bind, isRun, bind_some, isMeter]
  rfl

theorem owner_cached (steady : Steady vnode) (inside : index < vnode.totalBlocks)
    (owner : (vnode.pool.pMem index).pMeterObj = some sid) : (cacheOf vnode sid).isSome := by
  by_cases unused : (vnode.pool.pMem index).blockId = 0
  · rw [steady.pooled.empty index inside unused] at owner
    cases owner
  · obtain ⟨other, pObj, pInfo, cache, has, slot⟩ := steady.pooled.owned index inside unused
    have block := (steady.pooled.blockAt cache has slot).2
    rw [block.owner] at owner
    cases owner
    rw [cache]
    rfl

def newInfo (blocksPerMeter : Nat) : SCacheInfo :=
  { blocks := 0
    maxBlocks := blocksPerMeter
    numOfBlocks := 0
    unCommittedBlocks := 0
    currentSlot := -1
    commitSlot := 0
    commitPoint := 0
    cacheBlocks := fun _ => none }

def newMeter (cacheBlockSize : Int) (numOfColumns bytesPerPoint : Nat)
    (lastKeyOnFile pointsPerFileBlock : Int) (blocksPerMeter : Nat) : SMeterObj :=
  let points := pointsPerBlock cacheBlockSize numOfColumns bytesPerPoint pointsPerFileBlock
  { numOfColumns := numOfColumns
    bytesPerPoint := bytesPerPoint
    lastKey := lastKeyOnFile
    lastKeyOnFile := lastKeyOnFile
    pointsPerBlock := points
    freePoints := BitVec.ofInt 32 (points * blocksPerMeter)
    pCache := some (newInfo blocksPerMeter) }

theorem vnodeAllocateCacheInfo_steady (steady : Steady vnode) (inside : sid < vnode.maxSessions)
    (none' : cacheOf vnode sid = none) {numOfColumns bytesPerPoint blocksPerMeter : Nat}
    {lastKeyOnFile pointsPerFileBlock : Int}
    (fits : Fits vnode.cacheBlockSize (newMeter vnode.cacheBlockSize numOfColumns bytesPerPoint
      lastKeyOnFile pointsPerFileBlock blocksPerMeter)) :
    Steady (vnodeAllocateCacheInfo vnode sid numOfColumns bytesPerPoint lastKeyOnFile
      pointsPerFileBlock blocksPerMeter) := by
  have positive := fits.some'
  have mine : cacheOf (vnodeAllocateCacheInfo vnode sid numOfColumns bytesPerPoint lastKeyOnFile
      pointsPerFileBlock blocksPerMeter) sid = some (newMeter vnode.cacheBlockSize numOfColumns
        bytesPerPoint lastKeyOnFile pointsPerFileBlock blocksPerMeter, newInfo blocksPerMeter) :=
    cacheAt_update_same _ _ _
  have others : ∀ other, other ≠ sid -> cacheOf (vnodeAllocateCacheInfo vnode sid numOfColumns
      bytesPerPoint lastKeyOnFile pointsPerFileBlock blocksPerMeter) other = cacheOf vnode other :=
    fun other ne => cacheAt_update_ne ne _
  have before : windowsOf vnode sid = ⟨0, 0, 0⟩ := by
    unfold windowsOf
    rw [none']
    rfl
  refine ⟨?_, ?_, ?_, ?_⟩
  · rw [windowsOf_update rfl rfl]
    refine pooled_swapped steady.pooled inside (by rw [before])
      (fun _ cached _ => cached none') rfl ?_
    intro pObj pInfo cache
    rw [mine] at cache
    cases cache
    exact ⟨rfl, Int.natCast_nonneg _⟩
  · intro other otherObj otherInfo otherCache
    by_cases same : other = sid
    · rw [same, mine] at otherCache
      cases otherCache
      exact fits
    · rw [others other same] at otherCache
      exact steady.fits other otherObj otherInfo otherCache
  · intro other otherObj otherInfo otherCache
    by_cases same : other = sid
    · rw [same, mine] at otherCache
      cases otherCache
      refine ⟨le_rfl, rfl, ?_, fun _ => Or.inr rfl, Or.inr rfl⟩
      show (0 : Int) = slotOf blocksPerMeter (0 - 0 + if (0 : Int) = _ then 0 else 1)
      rw [if_neg (ne_of_lt positive)]
      exact slotOf_one.symm
    · rw [others other same] at otherCache
      exact steady.slots other otherObj otherInfo otherCache
  · intro other otherObj otherInfo otherCache place isInside owner
    by_cases same : other = sid
    · have cached := owner_cached steady isInside owner
      rw [same, none'] at cached
      cases cached
    · rw [others other same] at otherCache
      exact steady.points other otherObj otherInfo otherCache place isInside owner

end Operations

end Luomi.Vnode.CacheOperations
