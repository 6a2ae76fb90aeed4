import Luomi.Vnode.ImportSteps

/-!
# Taking new blocks for rows

Taking a block does not look at rows, so whether the pool gives a meter the blocks it
needs can be told before any row is written.
-/

namespace Luomi.Vnode.ImportGrowth

open MemoryCells RingWindow Cache CachePool CacheSteps CacheSteady CacheAllocate CacheOperations
open Import ImportSteps
open Function (update update_of_ne update_self)
open Option (bind_eq_bind bind_none bind_some map_some)

section Growth

variable {Row : Type}

def takes (sid : Nat) : Nat -> SVnodeObj Row -> Bool
  | 0, _ => true
  | count + 1, vnode =>
    match vnodeAllocateCacheBlock vnode sid with
    | some (code, next) => 0 ≤ code ∧ takes sid count next
    | none => false

variable {vnode next : SVnodeObj Row} {sid index : Nat} {pObj : SMeterObj} {pInfo : SCacheInfo}

theorem bare_pMem (pMem : Nat -> SCacheBlock) (index : Nat) (block : SCacheBlock) :
    (fun other => { update pMem index block other with numOfPoints := 0 }) =
      update (fun other => { pMem other with numOfPoints := 0 }) index
        { block with numOfPoints := 0 } := by
  funext other
  by_cases same : other = index
  · rw [same, update_self, update_self]
  · rw [update_of_ne same, update_of_ne same]

theorem vnodeFreeCacheBlock_bare (vnode : SVnodeObj Row) (pCacheBlock : Option Nat) :
    vnodeFreeCacheBlock (bare vnode) pCacheBlock =
      (vnodeFreeCacheBlock vnode pCacheBlock).map bare := by
  cases pCacheBlock with
  | none => rfl
  | some index =>
    have sameCache : ∀ sid, cacheOf (bare vnode) sid = cacheOf vnode sid := fun _ => rfl
    have sameOwner : ((bare vnode).pool.pMem index).pMeterObj =
      (vnode.pool.pMem index).pMeterObj := rfl
    cases owner : (vnode.pool.pMem index).pMeterObj with
    | none =>
      simp only [vnodeFreeCacheBlock, sameOwner, owner, bind_eq_bind, bind_none]
      rfl
    | some sid =>
      cases cache : cacheOf vnode sid with
      | none =>
        simp only [vnodeFreeCacheBlock, sameOwner, owner, sameCache, cache,
          bind_eq_bind, bind_some, bind_none]
        rfl
      | some both =>
        simp only [vnodeFreeCacheBlock, sameOwner, owner, sameCache, cache, bind_eq_bind, bind_some]
        apply congrArg some
        exact SVnodeObj.ext rfl rfl rfl rfl
          (SCachePool.ext (bare_pMem vnode.pool.pMem index zeroBlock).symm rfl rfl rfl rfl)

def bareSearch : Search Row -> Search Unit
  | .found index vnode => .found index (bare vnode)
  | .tooSlow vnode => .tooSlow (bare vnode)

theorem findBlock_bare (fuel : Nat) (skipped : Int) (vnode : SVnodeObj Row) :
    findBlock fuel skipped (bare vnode) = (findBlock fuel skipped vnode).map bareSearch := by
  induction fuel generalizing skipped vnode with
  | zero => rfl
  | succ fuel ih =>
    have following := ih (skipped + 1) (nextFreeSlot vnode)
    have sameNext : nextFreeSlot (bare vnode) = bare (nextFreeSlot vnode) := rfl
    have head : (bare vnode).pool.pMem (bare vnode).pool.freeSlot =
      { vnode.pool.pMem vnode.pool.freeSlot with numOfPoints := 0 } := rfl
    have threshold : (bare vnode).pool.threshold = vnode.pool.threshold := rfl
    unfold findBlock
    simp only [head, threshold, sameNext]
    by_cases unused : (vnode.pool.pMem vnode.pool.freeSlot).blockId = 0
    · rw [if_pos unused, if_pos unused]
      rfl
    rw [if_neg unused, if_neg unused]
    by_cases isHeld : (vnode.pool.pMem vnode.pool.freeSlot).notFree = true
    · rw [if_pos isHeld, if_pos isHeld]
      by_cases slow : vnode.pool.threshold < skipped + 1
      · rw [if_pos slow, if_pos slow]
        rfl
      · rw [if_neg slow, if_neg slow, following]
    rw [if_neg isHeld, if_neg isHeld]
    cases owner : (vnode.pool.pMem vnode.pool.freeSlot).pMeterObj with
    | none => rfl
    | some sid =>
      have sameCache : cacheOf (bare vnode) sid = cacheOf vnode sid := rfl
      cases cache : cacheOf vnode sid with
      | none =>
        simp only [bind_eq_bind, bind_some, sameCache, cache, bind_none]
        rfl
      | some both =>
        obtain ⟨pObj, pInfo⟩ := both
        simp only [bind_eq_bind, bind_some, sameCache, cache]
        cases slot : pInfo.cacheBlocks (firstSlot pInfo) with
        | none => exact following
        | some index =>
          have freed := vnodeFreeCacheBlock_bare { vnode with pool := { vnode.pool with
            freeSlot := (vnode.pool.pMem index).index } } (some index)
          simp only
          refine (congrArg (fun run => run.bind fun vnode =>
            some (Search.found index vnode)) freed).trans ?_
          cases vnodeFreeCacheBlock { vnode with pool := { vnode.pool with
            freeSlot := (vnode.pool.pMem index).index } } (some index) with
          | none => rfl
          | some after => rfl

section

variable (vnode : SVnodeObj Row)

theorem countBlock_bare (sid index : Nat) (pObj : SMeterObj) (pInfo : SCacheInfo) :
    countBlock (bare vnode) sid index pObj pInfo = bare (countBlock vnode sid index pObj pInfo) := by
  have heads := bare_pMem vnode.pool.pMem index
    { vnode.pool.pMem index with
      pMeterObj := some sid
      notFree := true
      index := vnode.pool.freeSlot
      blockId := pInfo.blocks + 1
      slot := (pInfo.currentSlot + 1).tmod pInfo.maxBlocks }
  exact SVnodeObj.ext rfl rfl rfl rfl (SCachePool.ext heads.symm rfl rfl rfl rfl)

theorem freeOldest_bare (pInfo : SCacheInfo) :
    freeOldest (bare vnode) pInfo = (freeOldest vnode pInfo).map bare := by
  unfold freeOldest
  split
  · exact vnodeFreeCacheBlock_bare vnode _
  · rfl

theorem linkBlock_bare (sid index : Nat) :
    linkBlock (bare vnode) sid index = (linkBlock vnode sid index).map bare := by
  have sameCache : cacheOf (bare vnode) sid = cacheOf vnode sid := rfl
  unfold linkBlock
  rw [sameCache]
  cases cacheOf vnode sid with
  | none => rfl
  | some both => rfl

theorem takeBlock_bare (sid index : Nat) :
    takeBlock (bare vnode) sid index = (takeBlock vnode sid index).map bare := by
  have sameCache : ∀ vnode : SVnodeObj Row, cacheOf (bare vnode) sid = cacheOf vnode sid :=
    fun _ => rfl
  have sameSlot : (bare vnode).pool.freeSlot = vnode.pool.freeSlot := rfl
  unfold takeBlock
  simp only [sameCache, sameSlot]
  cases cacheOf vnode sid with
  | none => rfl
  | some both =>
    simp only [bind_eq_bind, bind_some, countBlock_bare, sameCache]
    cases cacheOf (countBlock vnode sid index both.1 both.2) sid with
    | none => rfl
    | some counted =>
      simp only [bind_some, freeOldest_bare]
      cases freeOldest (countBlock vnode sid index both.1 both.2) counted.2 with
      | none => rfl
      | some freed => exact linkBlock_bare freed sid vnode.pool.freeSlot

theorem vnodeAllocateCacheBlock_bare (sid : Nat) : vnodeAllocateCacheBlock (bare vnode) sid =
      (vnodeAllocateCacheBlock vnode sid).map fun result => (result.1, bare result.2) := by
  have sameCache : ∀ vnode : SVnodeObj Row, cacheOf (bare vnode) sid = cacheOf vnode sid :=
    fun _ => rfl
  have threshold : (bare vnode).pool.threshold = vnode.pool.threshold := rfl
  unfold vnodeAllocateCacheBlock
  rw [sameCache, threshold]
  cases cacheOf vnode sid with
  | none => rfl
  | some both =>
    simp only
    split
    · rfl
    rw [findBlock_bare]
    cases findBlock (vnode.pool.threshold.toNat + 1) 0 vnode with
    | none => rfl
    | some search =>
      cases search with
      | tooSlow after => rfl
      | found index after =>
        simp only [map_some, bareSearch, bind_eq_bind, bind_some]
        rw [takeBlock_bare]
        cases takeBlock after sid index with
        | none => rfl
        | some last =>
          simp only [map_some, bind_some, sameCache]
          cases cacheOf last sid with
          | none => rfl
          | some lastCache => rfl

end

theorem takes_bare (sid count : Nat) (vnode : SVnodeObj Row) :
    takes sid count (bare vnode) = takes sid count vnode := by
  induction count generalizing vnode with
  | zero => rfl
  | succ count ih =>
    unfold takes
    rw [vnodeAllocateCacheBlock_bare]
    cases vnodeAllocateCacheBlock vnode sid with
    | none => rfl
    | some result =>
      simp only [map_some]
      rw [ih]

theorem takes_alike (alike : bare next = bare vnode) (sid count : Nat) :
    takes sid count next = takes sid count vnode := by
  rw [<- takes_bare, alike, takes_bare]

structure Longer (pObj : SMeterObj) (pInfo : SCacheInfo) (pObj' : SMeterObj) (pInfo' : SCacheInfo)
    (count : Nat) : Prop where
  meter : { pObj' with pCache := none } = { pObj with pCache := none }
  maxBlocks : pInfo'.maxBlocks = pInfo.maxBlocks
  commitSlot : pInfo'.commitSlot = pInfo.commitSlot
  commitPoint : pInfo'.commitPoint = pInfo.commitPoint
  blocks : pInfo'.blocks = pInfo.blocks + count
  held : pInfo'.unCommittedBlocks = pInfo.unCommittedBlocks + count
  slots : ∀ number, pInfo.blocks + count - pInfo.maxBlocks < number -> number ≤ pInfo.blocks ->
    pInfo'.cacheBlocks (slotOf pInfo.maxBlocks number) =
      pInfo.cacheBlocks (slotOf pInfo.maxBlocks number)

structure Grown (vnode next : SVnodeObj Row) (sid : Nat) (pObj : SMeterObj) (pInfo : SCacheInfo)
    (pObj' : SMeterObj) (pInfo' : SCacheInfo) (count : Nat) (buffer rest : List Row) : Prop where
  steady : Steady next
  cacheBlockSize : next.cacheBlockSize = vnode.cacheBlockSize
  totalBlocks : next.totalBlocks = vnode.totalBlocks
  maxSessions : next.maxSessions = vnode.maxSessions
  others : ∀ other, other ≠ sid -> (cacheOf next other).map forget = (cacheOf vnode other).map forget
  held : ∀ index, (vnode.pool.pMem index).notFree = true ->
    next.pool.pMem index = vnode.pool.pMem index ∧ next.pool.rows index = vnode.pool.rows index
  free : ∀ index owner, (next.pool.pMem index).pMeterObj = some owner ->
    (next.pool.pMem index).notFree = false -> next.pool.pMem index = vnode.pool.pMem index ∧
      next.pool.rows index = vnode.pool.rows index
  cache : cacheOf next sid = some (pObj', pInfo')
  longer : Longer pObj pInfo pObj' pInfo' count
  points : ∀ number, pInfo.blocks < number -> number ≤ pInfo.blocks + count ->
    (next.pool.pMem (placeOf pInfo' number)).numOfPoints =
      min pObj.pointsPerBlock (buffer.length - (number - pInfo.blocks - 1) * pObj.pointsPerBlock)
  left : (rest.length : Int) = max 0 (buffer.length - count * pObj.pointsPerBlock)
  rows : rowsFrom next (placeOf pInfo') count (pInfo.blocks + 1) ++ rest = buffer

theorem Longer.points {pObj' : SMeterObj} {pInfo' : SCacheInfo} {count : Nat}
    (longer : Longer pObj pInfo pObj' pInfo' count) : pObj'.pointsPerBlock = pObj.pointsPerBlock := by
  have same := congrArg (fun meter : SMeterObj => meter.pointsPerBlock) longer.meter
  exact same

theorem grown_searched (searched : Searched vnode next)
    (cache : cacheOf vnode sid = some (pObj, pInfo)) (buffer : List Row) :
    ∃ pObj' pInfo', Grown vnode next sid pObj pInfo pObj' pInfo' 0 buffer buffer := by
  have same := searched.meters sid
  rw [cache] at same
  obtain ⟨⟨pObj', pInfo'⟩, nextCache, sameMeter⟩ := Option.map_eq_some_iff.mp same
  have field : ∀ {β : Type} (value : SMeterObj × SCacheInfo -> β), value (forget (pObj', pInfo')) =
    value (forget (pObj, pInfo)) := fun value => congrArg value sameMeter
  have untouched := searched.untouched
  refine ⟨pObj', pInfo', searched.steady, untouched.cacheBlockSize, untouched.totalBlocks,
    untouched.maxSessions, fun other _ => searched.meters other, ?_, ?_, nextCache, ?_,
    ?_, ?_, rfl⟩
  · exact fun index notFree => ⟨untouched.held index notFree, congrFun untouched.rows index⟩
  · exact fun index owner isOwner isFree =>
      ⟨untouched.free index owner isOwner isFree, congrFun untouched.rows index⟩
  · refine ⟨field fun c => c.1, field fun c => c.2.maxBlocks, field fun c => c.2.commitSlot,
      field fun c => c.2.commitPoint, ?_, ?_, ?_⟩
    · rw [Nat.cast_zero, Int.add_zero]
      exact field fun c => c.2.blocks
    · rw [Nat.cast_zero, Int.add_zero]
      exact field fun c => c.2.unCommittedBlocks
    · exact fun number _ _ => congrFun (field fun c => c.2.cacheBlocks) _
  · intro number lower upper
    rw [Nat.cast_zero] at upper
    omega
  · rw [Nat.cast_zero, Int.zero_mul]
    omega

structure Started (mid : SVnodeObj Row) (sid : Nat) (pObj : SMeterObj) (pInfo : SCacheInfo)
    (midObj : SMeterObj) (midInfo : SCacheInfo) (index : Nat) : Prop where
  cache : cacheOf mid sid = some (midObj, midInfo)
  longer : Longer pObj pInfo midObj midInfo 1
  slot : midInfo.cacheBlocks midInfo.currentSlot = some index
  place : placeOf midInfo midInfo.blocks = index
  live : Live mid sid midObj midInfo midInfo.blocks

theorem taken_started {mid : SVnodeObj Row} (steady : Steady vnode)
    (cache : cacheOf vnode sid = some (pObj, pInfo)) (taken : Taken vnode mid sid pObj pInfo index) :
    ∃ midObj midInfo, Started mid sid pObj pInfo midObj midInfo index := by
  obtain ⟨⟨midObj, midInfo⟩, midCache, same⟩ := Option.map_eq_some_iff.mp taken.mine
  have field : ∀ {β : Type} (value : SMeterObj × SCacheInfo -> β), value (forget (midObj, midInfo)) =
    value (forget (pObj, pushedInfo pInfo index)) := fun value => congrArg value same
  have blocks : midInfo.blocks = pInfo.blocks + 1 := field fun c => c.2.blocks
  have held : midInfo.unCommittedBlocks = pInfo.unCommittedBlocks + 1 :=
    field fun c => c.2.unCommittedBlocks
  have size : midInfo.maxBlocks = pInfo.maxBlocks := field fun c => c.2.maxBlocks
  have current : midInfo.currentSlot = (pInfo.currentSlot + 1).tmod pInfo.maxBlocks :=
    field fun c => c.2.currentSlot
  have ring : midInfo.cacheBlocks = update pInfo.cacheBlocks
      ((pInfo.currentSlot + 1).tmod pInfo.maxBlocks) (some index) := field fun c => c.2.cacheBlocks
  have positive : 0 ≤ pInfo.unCommittedBlocks := (steady.sound cache).held
  have sound := taken.steady.sound midCache
  have within : midInfo.unCommittedBlocks ≤ midInfo.blocks - (midInfo.blocks - midInfo.numOfBlocks) :=
    sound.within
  obtain ⟨newest, -, slot, isSlot, -⟩ := currentBlock taken.steady midCache (by omega)
  rw [ring, current, update_self] at slot
  cases slot
  have following : (pInfo.currentSlot + 1).tmod pInfo.maxBlocks =
      slotOf pInfo.maxBlocks (pInfo.blocks + 1) := by
    rw [<- current, isSlot, size, blocks]
  refine ⟨midObj, midInfo, midCache, ?_, ?_, ?_, ?_⟩
  · refine ⟨field fun c => c.1, size, field fun c => c.2.commitSlot, field fun c => c.2.commitPoint,
      blocks, held, ?_⟩
    intro number lower upper
    rw [ring, following]
    apply update_of_ne
    intro clash
    have numbers := @slotOf_injective pInfo.maxBlocks number (pInfo.blocks + 1) (by omega)
      (by push_cast at lower; omega) clash
    omega
  · rw [ring, current, update_self]
  · unfold placeOf
    rw [<- isSlot, ring, current, update_self]
    rfl
  · exact steady_live taken.steady midCache (by omega) le_rfl

section

variable {midObj pObj' : SMeterObj} {midInfo pInfo' : SCacheInfo} {count : Nat}

theorem Longer.trans (first : Longer pObj pInfo midObj midInfo 1)
    (others : Longer midObj midInfo pObj' pInfo' count) :
    Longer pObj pInfo pObj' pInfo' (count + 1) := by
  have size := first.maxBlocks
  have blocks := first.blocks
  refine ⟨others.meter.trans first.meter, others.maxBlocks.trans size,
    others.commitSlot.trans first.commitSlot, others.commitPoint.trans first.commitPoint, ?_, ?_, ?_⟩
  · rw [others.blocks, blocks]
    push_cast
    ring
  · rw [others.held, first.held]
    push_cast
    ring
  · intro number lower upper
    push_cast at lower blocks
    have later := others.slots number (by rw [size]; omega) (by omega)
    rw [size] at later
    exact later.trans (first.slots number (by push_cast; omega) upper)

theorem grown_taken {mid : SVnodeObj Row} {buffer rest : List Row} (steady : Steady vnode)
    (cache : cacheOf vnode sid = some (pObj, pInfo)) (taken : Taken vnode mid sid pObj pInfo index)
    (started : Started mid sid pObj pInfo midObj midInfo index)
    (more : count = 0 ∨ pObj.pointsPerBlock ≤ buffer.length)
    (grown : Grown (putRows mid index 0 (buffer.take (chunk pObj.pointsPerBlock 0 buffer).toNat)) next sid midObj midInfo pObj' pInfo' count (buffer.drop (chunk pObj.pointsPerBlock 0 buffer).toNat) rest)
    :
    Grown vnode next sid pObj pInfo pObj' pInfo' (count + 1) buffer rest := by
  have fits := steady.fits sid pObj pInfo cache
  have positive := fits.some'
  have longer := started.longer.trans grown.longer
  have samePoints : midObj.pointsPerBlock = pObj.pointsPerBlock := started.longer.points
  have midBlocks : midInfo.blocks = pInfo.blocks + 1 := started.longer.blocks
  have untouched := taken.untouched
  obtain ⟨nonneg, room, length, left, total⟩ := chunk_spec (le_of_lt positive) buffer
  obtain ⟨filledPoints, filledRows⟩ := @blockRows_putRows _ mid index midObj 0
    (taken.steady.fits sid midObj midInfo started.cache)
    (buffer.take (chunk pObj.pointsPerBlock 0 buffer).toNat) le_rfl (by omega)
  rw [readCells_nil le_rfl, List.nil_append] at filledRows
  -- the new block is not free
  have head : ((putRows mid index 0 (buffer.take
      (chunk pObj.pointsPerBlock 0 buffer).toNat)).pool.pMem index).notFree = true := by
    unfold putRows
    simp only [update_self, taken.block]
    rfl
  have kept := grown.held index head
  have fewer : (count : Int) < pInfo.maxBlocks := by
    have sound := grown.steady.sound grown.cache
    have within : pInfo'.unCommittedBlocks ≤ pInfo'.blocks - (pInfo'.blocks - pInfo'.numOfBlocks) :=
      sound.within
    have ring : pInfo'.blocks - (pInfo'.blocks - pInfo'.numOfBlocks) ≤ pInfo'.maxBlocks := sound.ring
    have isHeld := longer.held
    have size := longer.maxBlocks
    have start : 0 ≤ pInfo.unCommittedBlocks := (steady.sound cache).held
    push_cast at isHeld
    omega
  have place : placeOf pInfo' (pInfo.blocks + 1) = index := by
    have slot := grown.longer.slots (pInfo.blocks + 1) (by rw [started.longer.maxBlocks]; omega)
      (by omega)
    rw [<- started.place, midBlocks]
    unfold placeOf
    rw [grown.longer.maxBlocks, slot]
  refine ⟨grown.steady, grown.cacheBlockSize.trans untouched.cacheBlockSize,
    grown.totalBlocks.trans untouched.totalBlocks, grown.maxSessions.trans untouched.maxSessions,
    fun other ne => (grown.others other ne).trans (taken.others other ne), ?_, ?_, grown.cache, longer,
    ?_, ?_, ?_⟩
  · intro other notFree
    have ne : other ≠ index := by
      intro same
      rw [same, taken.fresh] at notFree
      cases notFree
    obtain ⟨sameHead, sameRows⟩ := @putRows_ne _ mid index 0 other ne
      (buffer.take (chunk pObj.pointsPerBlock 0 buffer).toNat)
    have headBefore := untouched.held other notFree
    obtain ⟨headAfter, rowsAfter⟩ := grown.held other (by rw [sameHead, headBefore, notFree])
    exact ⟨headAfter.trans (sameHead.trans headBefore),
      rowsAfter.trans (sameRows.trans (congrFun untouched.rows other))⟩
  · intro other owner isOwner isFree
    obtain ⟨headAfter, rowsAfter⟩ := grown.free other owner isOwner isFree
    have ne : other ≠ index := by
      intro same
      rw [headAfter, same, head] at isFree
      cases isFree
    obtain ⟨sameHead, sameRows⟩ := @putRows_ne _ mid index 0 other ne
      (buffer.take (chunk pObj.pointsPerBlock 0 buffer).toNat)
    rw [headAfter, sameHead] at isOwner isFree
    exact ⟨headAfter.trans (sameHead.trans (untouched.free other owner isOwner isFree)),
      rowsAfter.trans (sameRows.trans (congrFun untouched.rows other))⟩
  · intro number lower upper
    push_cast at upper
    by_cases first : number = pInfo.blocks + 1
    · have zero : pInfo.blocks + 1 - pInfo.blocks - 1 = 0 := by ring
      rw [first, place, kept.1, filledPoints, length, zero, Int.zero_mul, Int.sub_zero]
      omega
    · have later := grown.points number (by omega) (by omega)
      have enough := more.resolve_left (by omega)
      have steps : (number - pInfo.blocks - 1) * pObj.pointsPerBlock =
          (number - midInfo.blocks - 1) * pObj.pointsPerBlock + pObj.pointsPerBlock := by
        rw [midBlocks]
        ring
      rw [later, samePoints, left, steps]
      omega
  · have steps : ((count + 1 : Nat) : Int) * pObj.pointsPerBlock =
        count * pObj.pointsPerBlock + pObj.pointsPerBlock := by
      push_cast
      ring
    have nonnegSteps : 0 ≤ (count : Int) * pObj.pointsPerBlock :=
      Int.mul_nonneg (Int.natCast_nonneg count) (le_of_lt positive)
    rw [grown.left, samePoints, left, steps]
    omega
  · have behind := grown.rows
    rw [midBlocks] at behind
    unfold rowsFrom
    rw [place, blockRows_congr kept, filledRows, List.append_assoc, behind, List.take_append_drop]

end

def blocksFor (pointsPerBlock points : Int) : Nat :=
  ((points + pointsPerBlock - 1) / pointsPerBlock).toNat

section

variable {pointsPerBlock points : Int} (positive : 0 < pointsPerBlock)

include positive

theorem blocksFor_none (none' : points ≤ 0) : blocksFor pointsPerBlock points = 0 := by
  unfold blocksFor
  apply Int.toNat_eq_zero.mpr
  apply Int.lt_add_one_iff.mp
  apply Int.ediv_lt_of_lt_mul positive
  omega

theorem blocksFor_step (some' : 0 < points) : blocksFor pointsPerBlock points =
      blocksFor pointsPerBlock (points - pointsPerBlock) + 1 := by
  unfold blocksFor
  have shift : points + pointsPerBlock - 1 = points - pointsPerBlock + pointsPerBlock - 1 +
      1 * pointsPerBlock := by ring
  have nonneg : 0 ≤ (points - pointsPerBlock + pointsPerBlock - 1) / pointsPerBlock :=
    Int.ediv_nonneg (by omega) (le_of_lt positive)
  rw [shift, Int.add_mul_ediv_right _ _ (ne_of_gt positive)]
  omega

theorem blocksFor_max :
    blocksFor pointsPerBlock (max 0 points) = blocksFor pointsPerBlock points := by
  rcases le_total points 0 with none' | some'
  · rw [max_eq_left none', blocksFor_none positive le_rfl, blocksFor_none positive none']
  · rw [max_eq_right some']

end

theorem writeNew_grown {fuel : Nat} {commit : Int} {buffer : List Row} (steady : Steady vnode)
    (cache : cacheOf vnode sid = some (pObj, pInfo)) (enough : buffer.length < fuel) :
    ∃ whole last next pObj' pInfo' count rest,
      writeNew sid fuel commit buffer vnode = some (whole, last, next) ∧
        Grown vnode next sid pObj pInfo pObj' pInfo' count buffer rest ∧
        count ≤ blocksFor pObj.pointsPerBlock buffer.length ∧ (whole = true ↔ rest = []) ∧
        whole = takes sid (blocksFor pObj.pointsPerBlock buffer.length) vnode := by
  induction fuel generalizing vnode pObj pInfo commit buffer with
  | zero => exact absurd enough (Nat.not_lt_zero _)
  | succ fuel ih =>
    have positive := (steady.fits sid pObj pInfo cache).some'
    cases buffer with
    | nil =>
      obtain ⟨pObj', pInfo', grown⟩ := @grown_searched _ vnode vnode sid pObj pInfo
        ⟨steady, Untouched.refl vnode, fun _ => rfl⟩ cache []
      refine ⟨true, commit, vnode, pObj', pInfo', 0, [], rfl, grown, Nat.zero_le _,
        iff_of_true rfl rfl, ?_⟩
      rw [blocksFor_none positive (by rw [List.length_nil]; exact le_rfl)]
      rfl
    | cons row more =>
      rw [blocksFor_step positive (by rw [List.length_cons]; omega)]
      obtain ⟨code, mid, run, ends⟩ := vnodeAllocateCacheBlock_spec steady cache
      rcases ends with ⟨negative, searched⟩ | ⟨nonneg, index, taken⟩
      · obtain ⟨pObj', pInfo', grown⟩ := grown_searched searched cache (row :: more)
        refine ⟨false, code, mid, pObj', pInfo', 0, row :: more, ?_, grown, Nat.zero_le _,
          iff_of_false Bool.false_ne_true (List.cons_ne_nil row more), ?_⟩
        · simp only [writeNew, run, bind_eq_bind, bind_some]
          rw [if_pos negative]
          rfl
        · simp only [takes, run, not_le.mpr negative, false_and, decide_false]
      · obtain ⟨midObj, midInfo, started⟩ := taken_started steady cache taken
        have midPoints : midObj.pointsPerBlock = pObj.pointsPerBlock := started.longer.points
        have midFits := taken.steady.fits sid midObj midInfo started.cache
        obtain ⟨small, room, length, left, -⟩ :=
          @chunk_spec _ 0 pObj.pointsPerBlock (le_of_lt positive) (row :: more)
        have inside : 0 + ((((row :: more).take (chunk pObj.pointsPerBlock 0
            (row :: more)).toNat).length : Nat) : Int) ≤ midObj.pointsPerBlock := by
          rw [length, midPoints]
          exact room
        have filled := steady_putRows taken.steady started.cache started.live le_rfl inside
        rw [started.place] at filled
        have filledCache : cacheOf (putRows mid index 0 ((row :: more).take
            (chunk pObj.pointsPerBlock 0 (row :: more)).toNat)) sid = some (midObj, midInfo) :=
          started.cache
        rw [List.length_cons] at left enough
        obtain ⟨whole, last, next, pObj', pInfo', count, rest, written, grown, few, all, given⟩ :=
          @ih _ _ _ code ((row :: more).drop
            (chunk pObj.pointsPerBlock 0 (row :: more)).toNat) filled filledCache (by omega)
        have left' : (((row :: more).drop (chunk pObj.pointsPerBlock 0
            (row :: more)).toNat).length : Int) =
              max 0 (((more.length + 1 : Nat) : Int) - pObj.pointsPerBlock) := by
          rw [left, Int.zero_add]
        rw [midPoints] at few given
        have inBlock : RowsInBlock mid midObj 0 (chunk pObj.pointsPerBlock 0 (row :: more)) :=
          rowsInBlock midFits le_rfl small (by rw [midPoints]; exact room)
        refine ⟨whole, last, next, pObj', pInfo', count + 1, rest, ?_,
          grown_taken steady cache taken started ?_ grown, ?_, all, ?_⟩
        · rw [<- written]
          simp only [writeNew, run, bind_eq_bind, bind_some, started.cache, started.slot, midPoints]
          rw [if_neg (not_lt.mpr nonneg)]
          have size : (if pObj.pointsPerBlock < ((row :: more).length : Int)
              then pObj.pointsPerBlock else (row :: more).length) =
                chunk pObj.pointsPerBlock 0 (row :: more) := by
            unfold chunk
            rw [Int.sub_zero]
          rw [size, if_pos inBlock]
        · rw [left', blocksFor_max positive] at few
          by_cases short' : pObj.pointsPerBlock ≤ ((row :: more).length : Int)
          · exact Or.inr short'
          · rw [List.length_cons] at short'
            rw [blocksFor_none positive (by omega)] at few
            exact Or.inl (Nat.le_zero.mp few)
        · rw [left', blocksFor_max positive] at few
          exact Nat.succ_le_succ few
        · rw [given, takes_alike (bare_putRows _ _ _ _), left', blocksFor_max positive]
          simp only [takes, run, nonneg, true_and, Bool.decide_eq_true, List.length_cons]

end Growth

end Luomi.Vnode.ImportGrowth
