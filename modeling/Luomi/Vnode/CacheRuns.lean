import Luomi.Vnode.CacheOperations

/-!
# Runs of the cache pool

The counters of the pool and of its meters agree after every step, each meter has its
blocks in consecutive slots of its ring, and a block with points that are not
committed stays with its meter.  This needs blocks the points of a meter fit in: where
the head of a block leaves no room for a row, the number of points a block takes is
computed from a negative size, and the first insert leaves the block.
-/

namespace Luomi.Vnode.CacheRuns

open RingWindow Cache CachePool CacheSteps CacheSteady CacheAllocate CacheOperations

/-- The sizes of a vnode with what `mgmtDb.c` makes sure of. -/
structure SVnodeCfg where
  cacheBlockSize : Int
  totalBlocks : Nat
  maxSessions : Nat
  some' : 0 < totalBlocks

section Runs

variable {Row : Type}

/-- `vnodeOpenCachePool`: all blocks are zero; the rows are what the memory holds. -/
def vnodeOpenCachePool (cfg : SVnodeCfg) (rows : Nat -> Int -> Row) : SVnodeObj Row :=
  { cacheBlockSize := cfg.cacheBlockSize
    totalBlocks := cfg.totalBlocks
    maxSessions := cfg.maxSessions
    meterList := fun _ => none
    pool :=
      { pMem := fun _ => zeroBlock
        rows := rows
        freeSlot := 0
        notFreeSlots := 0
        threshold := (cfg.totalBlocks * 6 / 10 : Nat) } }

inductive Event (Row : Type) where
  | create (sid numOfColumns bytesPerPoint : Nat) (lastKeyOnFile pointsPerFileBlock : Int)
      (blocksPerMeter : Nat)
  | insert (sid : Nat) (row : Row)
  | allocate (sid : Nat)
  | commit (sid : Nat) (slot pos : Int)
  | free (sid : Nat)

/-- A new meter gets a session of its own, rows are for meters there are, and a commit ends at a
position it can reach. -/
def Possible (vnode : SVnodeObj Row) : Event Row -> Prop
  | .create sid _ _ _ _ _ => sid < vnode.maxSessions ∧ cacheOf vnode sid = none
  | .insert sid _ => (cacheOf vnode sid).isSome = true
  | .allocate _ => True
  | .commit sid slot pos =>
    ∃ pObj pInfo index, CommitPosition vnode sid slot pos pObj pInfo index
  | .free _ => True

def apply (vnode : SVnodeObj Row) : Event Row -> Option (SVnodeObj Row)
  | .create sid numOfColumns bytesPerPoint lastKeyOnFile pointsPerFileBlock blocksPerMeter =>
    some (vnodeAllocateCacheInfo vnode sid numOfColumns bytesPerPoint lastKeyOnFile
      pointsPerFileBlock blocksPerMeter)
  | .insert sid row => (vnodeInsertPointToCache vnode sid row).map Prod.snd
  | .allocate sid => (vnodeAllocateCacheBlock vnode sid).map Prod.snd
  | .commit sid slot pos => vnodeUpdateCommitInfo vnode sid slot pos
  | .free sid => vnodeFreeCacheInfo vnode sid

def liveSlot (pInfo : SCacheInfo) (age : Int) : Int := (pInfo.currentSlot - age) % pInfo.maxBlocks

structure LiveBlocks (vnode : SVnodeObj Row) (sid : Nat) (pInfo : SCacheInfo) : Prop where
  count : 0 ≤ pInfo.numOfBlocks ∧ pInfo.numOfBlocks ≤ pInfo.maxBlocks
  owned : ∀ age, 0 ≤ age -> age < pInfo.numOfBlocks -> ∃ index < vnode.totalBlocks,
    pInfo.cacheBlocks (liveSlot pInfo age) = some index ∧
      (vnode.pool.pMem index).pMeterObj = some sid
  increasing : ∀ age older index other, 0 ≤ age -> age < older -> older < pInfo.numOfBlocks ->
    pInfo.cacheBlocks (liveSlot pInfo age) = some index ->
    pInfo.cacheBlocks (liveSlot pInfo older) = some other ->
    index ≠ other ∧ (vnode.pool.pMem other).blockId < (vnode.pool.pMem index).blockId

def unCommitted (vnode : SVnodeObj Row) (sid : Nat) : Int :=
  ((cacheOf vnode sid).map fun cache => cache.2.unCommittedBlocks).getD 0

structure PoolKept (vnode : SVnodeObj Row) : Prop where
  blocks : vnode.pool.notFreeSlots = ((Finset.range vnode.totalBlocks).filter fun index =>
    (vnode.pool.pMem index).notFree = true).card
  meters : vnode.pool.notFreeSlots = ∑ sid ∈ Finset.range vnode.maxSessions, unCommitted vnode sid
  rings : ∀ sid pObj pInfo, cacheOf vnode sid = some (pObj, pInfo) -> LiveBlocks vnode sid pInfo

structure HoldsUncommitted (vnode : SVnodeObj Row) (index : Nat) (sid : Nat) (pObj : SMeterObj)
    (pInfo : SCacheInfo) (age : Int) : Prop where
  cache : cacheOf vnode sid = some (pObj, pInfo)
  young : 0 ≤ age
  live : age < pInfo.numOfBlocks
  slot : pInfo.cacheBlocks (liveSlot pInfo age) = some index
  behind : (liveSlot pInfo age - pInfo.commitSlot) % pInfo.maxBlocks ≤
    (pInfo.currentSlot - pInfo.commitSlot) % pInfo.maxBlocks
  points : (if liveSlot pInfo age = pInfo.commitSlot then pInfo.commitPoint else 0) <
    (vnode.pool.pMem index).numOfPoints

def StaysUnless (vnode next : SVnodeObj Row) (event : Event Row) (index : Nat) : Prop :=
  (∀ sid, event = .free sid -> (vnode.pool.pMem index).pMeterObj ≠ some sid) ->
    (next.pool.pMem index).blockId = (vnode.pool.pMem index).blockId ∧
      (next.pool.pMem index).pMeterObj = (vnode.pool.pMem index).pMeterObj

def KeepsPool : SVnodeObj Row -> List (Event Row) -> Prop
  | vnode, [] => PoolKept vnode
  | vnode, event :: rest =>
    PoolKept vnode ∧ (Possible vnode event -> ∃ next, apply vnode event = some next ∧
      (∀ index sid pObj pInfo age, HoldsUncommitted vnode index sid pObj pInfo age ->
        StaysUnless vnode next event index) ∧ KeepsPool next rest)

/-- The points of a new meter fit its blocks, and a `short` can count them. -/
def Fitting (cacheBlockSize : Int) : Event Row -> Prop
  | .create _ numOfColumns bytesPerPoint lastKeyOnFile pointsPerFileBlock blocksPerMeter =>
    Fits cacheBlockSize (newMeter cacheBlockSize numOfColumns bytesPerPoint lastKeyOnFile
      pointsPerFileBlock blocksPerMeter)
  | _ => True

variable {vnode next : SVnodeObj Row} {sid index : Nat} {pObj : SMeterObj} {pInfo : SCacheInfo}

theorem open_steady (cfg : SVnodeCfg) (rows : Nat -> Int -> Row) :
    Steady (vnodeOpenCachePool cfg rows) := by
  have absent : ∀ sid, cacheOf (vnodeOpenCachePool cfg rows) sid = none := fun _ => rfl
  have noMeter : ∀ sid pObj pInfo,
      cacheOf (vnodeOpenCachePool cfg rows) sid ≠ some (pObj, pInfo) := by
    intro sid pObj pInfo cache
    cases cache
  refine ⟨⟨cfg.some', ?_, fun _ _ => rfl, ?_, ?_, ?_, fun _ _ _ => rfl, ?_, ?_⟩, ?_, ?_, ?_⟩
  · intro sid isSome
    rw [absent sid] at isSome
    cases isSome
  · exact fun sid pObj pInfo cache => absurd cache (noMeter sid pObj pInfo)
  · exact fun sid pObj pInfo cache => absurd cache (noMeter sid pObj pInfo)
  · exact fun index inside used => absurd rfl used
  · exact (Finset.sum_eq_zero fun _ _ => rfl).symm
  · exact (Finset.sum_eq_zero fun _ _ => rfl).symm
  all_goals exact fun sid pObj pInfo cache => absurd cache (noMeter sid pObj pInfo)

/-- The block a meter got some blocks ago has the number that much smaller. -/
theorem liveSlot_block (steady : Steady vnode) (cache : cacheOf vnode sid = some (pObj, pInfo))
    {age : Int} (young : 0 ≤ age) (live : age < pInfo.numOfBlocks) :
    liveSlot pInfo age = slotOf pInfo.maxBlocks (pInfo.blocks - age) ∧
      ∃ index < vnode.totalBlocks, pInfo.cacheBlocks (liveSlot pInfo age) = some index ∧
        BlockOf (vnode.pool.pMem index) sid (windowOf pInfo) pInfo.maxBlocks (pInfo.blocks - age)
          index := by
  have sound := steady.sound cache
  have lowest : 0 ≤ pInfo.blocks - pInfo.numOfBlocks := sound.start
  have current := (steady.slots sid pObj pInfo cache).current
  rw [if_neg (by omega)] at current
  have isSlot : liveSlot pInfo age = slotOf pInfo.maxBlocks (pInfo.blocks - age) := by
    unfold liveSlot
    rw [current]
    unfold slotOf
    rw [Int.emod_sub_emod]
    congr 1
    ring
  have has : (windowsOf vnode sid).Has (pInfo.blocks - age) := by
    rw [windowsOf_some cache]
    constructor
    · show pInfo.blocks - pInfo.numOfBlocks < pInfo.blocks - age
      omega
    · show pInfo.blocks - age ≤ pInfo.blocks
      omega
  obtain ⟨index, inside, slot, block⟩ := steady.pooled.live sid pObj pInfo cache _ has
  rw [windowsOf_some cache] at block
  exact ⟨isSlot, index, inside, isSlot ▸ slot, block⟩

theorem steady_poolKept (steady : Steady vnode) : PoolKept vnode := by
  refine ⟨?_, ?_, ?_⟩
  · rw [steady.pooled.blocks, Finset.card_filter]
    push_cast
    rfl
  · rw [steady.pooled.meters]
    apply Finset.sum_congr rfl
    intro sid _
    unfold windowsOf unCommitted
    cases cacheOf vnode sid with
    | none => rfl
    | some cache => rfl
  · intro sid pObj pInfo cache
    have sound := steady.sound cache
    have held : 0 ≤ pInfo.unCommittedBlocks := sound.held
    have within : pInfo.unCommittedBlocks ≤ pInfo.blocks - (pInfo.blocks - pInfo.numOfBlocks) :=
      sound.within
    have ring : pInfo.blocks - (pInfo.blocks - pInfo.numOfBlocks) ≤ pInfo.maxBlocks := sound.ring
    refine ⟨⟨by omega, by omega⟩, ?_, ?_⟩
    · intro age young live
      obtain ⟨-, index, inside, slot, block⟩ := liveSlot_block steady cache young live
      exact ⟨index, inside, slot, block.owner⟩
    · intro age older index other young less live slot otherSlot
      obtain ⟨-, place, -, isPlace, block⟩ := liveSlot_block steady cache young (by omega)
      obtain ⟨-, place', -, isPlace', block'⟩ :=
        liveSlot_block steady cache (by omega) live
      rw [slot] at isPlace
      rw [otherSlot] at isPlace'
      cases isPlace
      cases isPlace'
      rw [block.numbered, block'.numbered]
      refine ⟨?_, by omega⟩
      intro same
      have sameNumber := block.numbered.symm.trans ((same ▸ block').numbered)
      omega

theorem holdsUncommitted_notFree (steady : Steady vnode) {age : Int}
    (holds : HoldsUncommitted vnode index sid pObj pInfo age) :
    index < vnode.totalBlocks ∧ (vnode.pool.pMem index).notFree = true := by
  have cache := holds.cache
  have young := holds.young
  have live := holds.live
  have sound := steady.sound cache
  have held : 0 ≤ pInfo.unCommittedBlocks := sound.held
  have ring : pInfo.blocks - (pInfo.blocks - pInfo.numOfBlocks) ≤ pInfo.maxBlocks := sound.ring
  have lowest : 0 ≤ pInfo.blocks - pInfo.numOfBlocks := sound.start
  have placed := steady.slots sid pObj pInfo cache
  obtain ⟨isSlot, place, inside, isPlace, block⟩ := liveSlot_block steady cache young live
  have same : place = index := Option.some.inj (isPlace.symm.trans holds.slot)
  subst same
  refine ⟨inside, block.notFree.mpr ?_⟩
  show pInfo.blocks - pInfo.unCommittedBlocks < pInfo.blocks - age
  have spare : pInfo.unCommittedBlocks < pInfo.maxBlocks := by
    rcases placed.spare with less | none'
    · exact less
    · omega
  have commit := placed.commit
  have done := placed.done
  have current := placed.current
  have points := (steady.points sid pObj pInfo cache place inside block.owner).2
  rw [if_neg (by omega)] at current
  by_contra notBefore
  have behind := holds.behind
  have behindPoints := holds.points
  rw [current, commit, isSlot] at behind
  by_cases full : pInfo.commitPoint = pObj.pointsPerBlock
  · rw [if_pos full, Int.add_zero] at behind commit
    rcases eq_or_lt_of_le (show pInfo.unCommittedBlocks ≤ age by omega) with isCommit | older
    · rw [isSlot, <- isCommit, <- commit, if_pos rfl, full] at behindPoints
      omega
    · rw [slotOf_sub_around (by omega) (by omega), slotOf_sub (by omega) (by omega)] at behind
      omega
  · have some' : pInfo.unCommittedBlocks ≠ 0 := by
      intro none'
      rcases done none' with isFull | isEmpty
      · exact full isFull
      · omega
    rw [if_neg full, slotOf_sub_around (by omega) (by omega), slotOf_sub (by omega) (by omega)]
      at behind
    omega

theorem inserted_stays {row : Row} (inserted : Inserted vnode next sid row pObj pInfo) :
    Steady next ∧ next.cacheBlockSize = vnode.cacheBlockSize ∧
      ∀ index, (vnode.pool.pMem index).notFree = true ->
        (next.pool.pMem index).blockId = (vnode.pool.pMem index).blockId ∧
          (next.pool.pMem index).pMeterObj = (vnode.pool.pMem index).pMeterObj := by
  have writtenHead : ∀ {first last : SVnodeObj Row} {meter : SMeterObj} {info : SCacheInfo}
      {place : Nat}, Written first last sid row meter info place -> ∀ index,
        (last.pool.pMem index).blockId = (first.pool.pMem index).blockId ∧
          (last.pool.pMem index).pMeterObj = (first.pool.pMem index).pMeterObj := by
    intro first last meter info place written index
    rw [written.heads]
    by_cases same : index = place
    · rw [same, Function.update_self]
      exact ⟨rfl, rfl⟩
    · rw [Function.update_of_ne same]
      exact ⟨rfl, rfl⟩
  cases inserted with
  | refused searched =>
    refine ⟨searched.steady, searched.untouched.cacheBlockSize, ?_⟩
    intro index notFree
    rw [searched.untouched.held index notFree]
    exact ⟨rfl, rfl⟩
  | filled place written =>
    exact ⟨written.steady, written.cacheBlockSize, fun index _ => writtenHead written index⟩
  | grown mid midObj midInfo place needs taken cache written =>
    refine ⟨written.steady, written.cacheBlockSize.trans taken.untouched.cacheBlockSize, ?_⟩
    intro index notFree
    have heads := writtenHead written index
    rw [taken.untouched.held index notFree] at heads
    exact heads

/-- Each possible event ends, keeps what holds between two steps and leaves the blocks that are
not free with their meters. -/
theorem apply_steady {event : Event Row} (steady : Steady vnode) (possible : Possible vnode event)
    (fitting : Fitting vnode.cacheBlockSize event) :
    ∃ next, apply vnode event = some next ∧ Steady next ∧
      next.cacheBlockSize = vnode.cacheBlockSize ∧
      ∀ index, (vnode.pool.pMem index).notFree = true -> StaysUnless vnode next event index := by
  cases event with
  | create sid numOfColumns bytesPerPoint lastKeyOnFile pointsPerFileBlock blocksPerMeter =>
    exact ⟨_, rfl, vnodeAllocateCacheInfo_steady steady possible.1 possible.2 fitting, rfl,
      fun _ _ _ => ⟨rfl, rfl⟩⟩
  | insert sid row =>
    obtain ⟨⟨pObj, pInfo⟩, cache⟩ := Option.isSome_iff_exists.mp possible
    obtain ⟨code, next, run, inserted⟩ := vnodeInsertPointToCache_inserted steady cache row
    obtain ⟨steadyNext, size, stays⟩ := inserted_stays inserted
    exact ⟨next, congrArg (Option.map Prod.snd) run, steadyNext, size,
      fun index notFree _ => stays index notFree⟩
  | allocate sid =>
    cases cache : cacheOf vnode sid with
    | none =>
      refine ⟨vnode, ?_, steady, rfl, fun _ _ _ => ⟨rfl, rfl⟩⟩
      unfold apply vnodeAllocateCacheBlock
      simp only [cache]
      rfl
    | some both =>
      obtain ⟨code, next, run, ends⟩ := vnodeAllocateCacheBlock_spec steady cache
      refine ⟨next, congrArg (Option.map Prod.snd) run, ?_⟩
      have stays : Untouched vnode next -> ∀ index, (vnode.pool.pMem index).notFree = true ->
          StaysUnless vnode next (.allocate sid) index := by
        intro untouched index notFree _
        rw [untouched.held index notFree]
        exact ⟨rfl, rfl⟩
      rcases ends with ⟨-, searched⟩ | ⟨-, place, taken⟩
      · exact ⟨searched.steady, searched.untouched.cacheBlockSize, stays searched.untouched⟩
      · exact ⟨taken.steady, taken.untouched.cacheBlockSize, stays taken.untouched⟩
  | commit sid slot pos =>
    obtain ⟨pObj, pInfo, place, position⟩ := possible
    obtain ⟨next, run, committed⟩ := vnodeUpdateCommitInfo_committed steady position
    refine ⟨next, run, committed.steady, committed.cacheBlockSize, ?_⟩
    intro index _ _
    obtain ⟨notFree, head⟩ := committed.heads index
    rw [head]
    exact ⟨rfl, rfl⟩
  | free sid =>
    cases cache : cacheOf vnode sid with
    | none =>
      refine ⟨vnode, ?_, steady, rfl, fun _ _ _ => ⟨rfl, rfl⟩⟩
      unfold apply vnodeFreeCacheInfo
      simp only [cache]
    | some both =>
      obtain ⟨next, run, dropped⟩ := vnodeFreeCacheInfo_dropped steady cache
      refine ⟨next, run, dropped.steady, dropped.cacheBlockSize, ?_⟩
      intro index _ notMine
      rcases dropped.heads index with same | ⟨-, owner⟩
      · rw [same]
        exact ⟨rfl, rfl⟩
      · exact absurd owner (notMine sid rfl)

theorem steady_keepsPool {events : List (Event Row)} (steady : Steady vnode)
    (fitting : ∀ event ∈ events, Fitting vnode.cacheBlockSize event) : KeepsPool vnode events := by
  induction events generalizing vnode with
  | nil => exact steady_poolKept steady
  | cons event rest ih =>
    refine ⟨steady_poolKept steady, ?_⟩
    intro possible
    obtain ⟨next, run, steadyNext, size, stays⟩ :=
      apply_steady steady possible (fitting event List.mem_cons_self)
    refine ⟨next, run, ?_, ?_⟩
    · intro index sid pObj pInfo age holds
      exact stays index (holdsUncommitted_notFree steady holds).2
    · apply ih steadyNext
      rw [size]
      exact fun other member => fitting other (List.mem_cons_of_mem event member)

/-- Where the points of every new meter fit its blocks, every run keeps the pool. -/
theorem fittingRun_keepsPool (cfg : SVnodeCfg) (rows : Nat -> Int -> Row)
    (events : List (Event Row)) (fitting : ∀ event ∈ events, Fitting cfg.cacheBlockSize event) :
    KeepsPool (vnodeOpenCachePool cfg rows) events :=
  steady_keepsPool (open_steady cfg rows) fitting

/-- Two meters that share a pool of four blocks. -/
theorem sharedPool_keepsPool : KeepsPool (vnodeOpenCachePool ⟨100, 4, 2, by decide⟩ fun _ _ => 0)
      [.create 0 2 12 0 200 4, .create 1 1 8 0 200 4, .insert 0 1, .insert 1 2, .commit 0 0 1,
        .free 1] := by
  apply fittingRun_keepsPool
  intro event member
  simp only [List.mem_cons, List.not_mem_nil, or_false] at member
  rcases member with rfl | rfl | rfl | rfl | rfl | rfl
  · exact ⟨by decide +kernel, by decide +kernel, by decide +kernel⟩
  · exact ⟨by decide +kernel, by decide +kernel, by decide +kernel⟩
  all_goals exact trivial

/-- Nine columns leave no room for a row in a block of 100 bytes. -/
theorem noRoom_not_keepsPool : ¬ KeepsPool (vnodeOpenCachePool ⟨100, 4, 1, by decide⟩ fun _ _ => ())
      [.create 0 9 48 0 200 4, .insert 0 ()] := by
  intro keeps
  obtain ⟨next, created, -, -, inserts⟩ := keeps.2 ⟨by decide, rfl⟩
  cases created
  obtain ⟨last, inserted, -⟩ := inserts rfl
  have leaves : (apply (vnodeAllocateCacheInfo (vnodeOpenCachePool ⟨100, 4, 1, by decide⟩
      fun _ _ => ()) 0 9 48 0 200 4) (.insert 0 ())).isNone = true := by decide +kernel
  rw [inserted] at leaves
  cases leaves

end Runs

end Luomi.Vnode.CacheRuns
