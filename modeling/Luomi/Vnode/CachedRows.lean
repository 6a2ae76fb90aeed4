import Luomi.Vnode.ImportSteps

/-!
# The rows in a cache that is not committed

As long as nothing is committed no block is given back, so an insert puts its row
behind the rows of its meter and leaves those of the others as they are.
-/

namespace Luomi.Vnode.CachedRows

open MemoryCells RingWindow Cache CachePool CacheSteps CacheSteady CacheAllocate CacheOperations
open Function (update update_of_ne update_self)
open ImportSteps
open Option (map_eq_some_iff map_map map_some some.inj)

section Rows

variable {Row : Type}

def cachedRows (vnode : SVnodeObj Row) (sid : Nat) : List Row :=
  match cacheOf vnode sid with
  | none => []
  | some (_, pInfo) =>
    rowsFrom vnode (placeOf pInfo) pInfo.numOfBlocks.toNat (pInfo.blocks - pInfo.numOfBlocks + 1)

def AllHeld (vnode : SVnodeObj Row) : Prop :=
  ∀ sid pObj pInfo, cacheOf vnode sid = some (pObj, pInfo) ->
    pInfo.numOfBlocks = pInfo.unCommittedBlocks

variable {vnode next : SVnodeObj Row} {sid index : Nat} {pObj pObj' : SMeterObj}
  {pInfo pInfo' : SCacheInfo} {number : Int}

theorem cachedRows_some (cache : cacheOf vnode sid = some (pObj, pInfo)) :
    cachedRows vnode sid = rowsFrom vnode (placeOf pInfo) pInfo.numOfBlocks.toNat
      (pInfo.blocks - pInfo.numOfBlocks + 1) := by
  unfold cachedRows
  rw [cache]

theorem cachedRows_none (none' : cacheOf vnode sid = none) : cachedRows vnode sid = [] := by
  unfold cachedRows
  rw [none']

variable {other : Nat} {row : Row}

theorem cachedRows_congr
    (cache : (cacheOf next other).map Prod.snd = (cacheOf vnode other).map Prod.snd)
    (pool : next.pool = vnode.pool) : cachedRows next other = cachedRows vnode other := by
  have rows : ∀ place count number,
      rowsFrom next place count number = rowsFrom vnode place count number := by
    intro place count number
    apply rowsFrom_congr
    intro _ _ _
    unfold blockRows
    rw [pool]
  cases found : cacheOf vnode other with
  | none =>
    rw [found] at cache
    rw [cachedRows_none found, cachedRows_none (Option.map_eq_none_iff.mp cache)]
  | some both =>
    rw [found] at cache
    obtain ⟨⟨pObj', pInfo'⟩, found', same⟩ := map_eq_some_iff.mp cache
    obtain ⟨pObj, pInfo⟩ := both
    cases same
    rw [cachedRows_some found, cachedRows_some found', rows]

theorem rowsFrom_snoc (place : Int -> Nat) (count : Nat) (number : Int) :
    rowsFrom vnode place (count + 1) number =
      rowsFrom vnode place count number ++ blockRows vnode (place (number + count)) := by
  induction count generalizing number with
  | zero =>
    unfold rowsFrom rowsFrom
    rw [Nat.cast_zero, Int.add_zero, List.append_nil, List.nil_append]
  | succ count ih =>
    have shift : number + 1 + (count : Int) = number + ((count + 1 : Nat) : Int) := by
      push_cast
      ring
    rw [rowsFrom, ih (number + 1), shift, <- List.append_assoc]
    rfl

theorem AllHeld.notFree (allHeld : AllHeld vnode) (steady : Steady vnode)
    (inside : index < vnode.totalBlocks) (owner : (vnode.pool.pMem index).pMeterObj = some sid) :
    (vnode.pool.pMem index).notFree = true := by
  have used : (vnode.pool.pMem index).blockId ≠ 0 := by
    intro unused
    rw [steady.pooled.empty index inside unused] at owner
    cases owner
  obtain ⟨other, pObj, pInfo, cache, has, slot⟩ := steady.pooled.owned index inside used
  have block := (steady.pooled.blockAt cache has slot).2
  have held := allHeld other pObj pInfo cache
  apply block.notFree.mpr
  have above := has.1
  rw [windowsOf_some cache] at above ⊢
  have lower : pInfo.blocks - pInfo.numOfBlocks < (vnode.pool.pMem index).blockId := above
  show pInfo.blocks - pInfo.unCommittedBlocks < (vnode.pool.pMem index).blockId
  omega

theorem AllHeld.untouched (allHeld : AllHeld vnode) (steady : Steady vnode) (after : Steady next)
    (untouched : Untouched vnode next) : AllHeld next := by
  intro sid pObj pInfo cache
  have within : pInfo.unCommittedBlocks ≤ pInfo.blocks - (pInfo.blocks - pInfo.numOfBlocks) :=
    (after.sound cache).within
  have held : 0 ≤ pInfo.unCommittedBlocks := (after.sound cache).held
  by_contra differ
  have live := @steady_live _ _ _ _ _ (pInfo.blocks - pInfo.numOfBlocks + 1) after cache
    (by omega) (by omega)
  have isFree : (next.pool.pMem (placeOf pInfo (pInfo.blocks - pInfo.numOfBlocks + 1))).notFree =
      false := by
    rw [Bool.eq_false_iff]
    intro notFree
    have above : pInfo.blocks - pInfo.unCommittedBlocks < pInfo.blocks - pInfo.numOfBlocks + 1 :=
      live.block.notFree.mp notFree
    omega
  have same := untouched.free _ _ live.block.owner isFree
  have inside := live.inside
  rw [untouched.totalBlocks] at inside
  have notFree := allHeld.notFree steady inside (same ▸ live.block.owner)
  rw [<- same, isFree] at notFree
  cases notFree

theorem blockRows_held (untouched : Untouched vnode next)
    (notFree : (vnode.pool.pMem index).notFree = true) :
    blockRows next index = blockRows vnode index := by
  unfold blockRows
  rw [untouched.held index notFree, untouched.rows]

section

variable (allHeld : AllHeld vnode) (steady : Steady vnode)

include allHeld steady

theorem rowsFrom_untouched (untouched : Untouched vnode next)
    (cache : cacheOf vnode sid = some (pObj, pInfo))
    (places : ∀ number, pInfo.blocks - pInfo.numOfBlocks < number -> number ≤ pInfo.blocks -> placeOf pInfo' number = placeOf pInfo number)
    :
    rowsFrom next (placeOf pInfo') pInfo.numOfBlocks.toNat (pInfo.blocks - pInfo.numOfBlocks + 1) =
      cachedRows vnode sid := by
  rw [cachedRows_some cache]
  have positive : 0 ≤ pInfo.numOfBlocks := by
    have within : pInfo.unCommittedBlocks ≤ pInfo.blocks - (pInfo.blocks - pInfo.numOfBlocks) :=
      (steady.sound cache).within
    have held : 0 ≤ pInfo.unCommittedBlocks := (steady.sound cache).held
    omega
  have rows : rowsFrom next (placeOf pInfo) pInfo.numOfBlocks.toNat
      (pInfo.blocks - pInfo.numOfBlocks + 1) = rowsFrom vnode (placeOf pInfo)
        pInfo.numOfBlocks.toNat (pInfo.blocks - pInfo.numOfBlocks + 1) := by
    apply rowsFrom_congr
    intro number lower upper
    have live := @steady_live _ _ _ _ _ number steady cache (by omega) (by omega)
    exact blockRows_held untouched (allHeld.notFree steady live.inside live.block.owner)
  rw [<- rows]
  -- the places are the same, so the same blocks are read
  have same : ∀ count : Nat, ∀ number, pInfo.blocks - pInfo.numOfBlocks < number ->
      number + count ≤ pInfo.blocks + 1 ->
      rowsFrom next (placeOf pInfo') count number = rowsFrom next (placeOf pInfo) count number := by
    intro count
    induction count with
    | zero => exact fun _ _ _ => rfl
    | succ count ih =>
      intro number lower upper
      push_cast at upper
      unfold rowsFrom
      rw [places number lower (by omega), ih (number + 1) (by omega) (by omega)]
  exact same _ _ (by omega) (by omega)

theorem cachedRows_untouched (after : Steady next) (untouched : Untouched vnode next)
    (meter : (cacheOf next sid).map forget = (cacheOf vnode sid).map forget) :
    cachedRows next sid = cachedRows vnode sid := by
  cases cache : cacheOf vnode sid with
  | none =>
    rw [cache] at meter
    rw [cachedRows_none cache, cachedRows_none (Option.map_eq_none_iff.mp meter)]
  | some both =>
    obtain ⟨pObj, pInfo⟩ := both
    rw [cache] at meter
    obtain ⟨⟨pObj', pInfo'⟩, cache', same⟩ := map_eq_some_iff.mp meter
    have ring : pInfo'.cacheBlocks = pInfo.cacheBlocks :=
      congrArg (fun cache => cache.2.cacheBlocks) same
    have size : pInfo'.maxBlocks = pInfo.maxBlocks :=
      congrArg (fun cache => cache.2.maxBlocks) same
    have blocks : pInfo'.blocks = pInfo.blocks := congrArg (fun cache => cache.2.blocks) same
    have held : pInfo'.unCommittedBlocks = pInfo.unCommittedBlocks :=
      congrArg (fun cache => cache.2.unCommittedBlocks) same
    have count : pInfo'.numOfBlocks = pInfo.numOfBlocks := by
      rw [(allHeld.untouched steady after untouched) sid pObj' pInfo' cache', held,
        allHeld sid pObj pInfo cache]
    rw [cachedRows_some cache', count, blocks]
    refine rowsFrom_untouched allHeld steady untouched cache fun number _ _ => ?_
    unfold placeOf
    rw [ring, size]

theorem cachedRows_taken (taken : Taken vnode next sid pObj pInfo index)
    (cache : cacheOf vnode sid = some (pObj, pInfo)) :
    cachedRows next sid = cachedRows vnode sid := by
  obtain ⟨⟨pObj', pInfo'⟩, cache', same⟩ := map_eq_some_iff.mp taken.mine
  have ring : pInfo'.cacheBlocks = update pInfo.cacheBlocks
      ((pInfo.currentSlot + 1).tmod pInfo.maxBlocks) (some index) :=
    congrArg (fun cache => cache.2.cacheBlocks) same
  have size : pInfo'.maxBlocks = pInfo.maxBlocks := congrArg (fun cache => cache.2.maxBlocks) same
  have blocks : pInfo'.blocks = pInfo.blocks + 1 := congrArg (fun cache => cache.2.blocks) same
  have held : pInfo'.unCommittedBlocks = pInfo.unCommittedBlocks + 1 :=
    congrArg (fun cache => cache.2.unCommittedBlocks) same
  have current : pInfo'.currentSlot = (pInfo.currentSlot + 1).tmod pInfo.maxBlocks :=
    congrArg (fun cache => cache.2.currentSlot) same
  have afterHeld := allHeld.untouched steady taken.steady taken.untouched
  have before := allHeld sid pObj pInfo cache
  have count : pInfo'.numOfBlocks = pInfo.numOfBlocks + 1 := by
    rw [afterHeld sid pObj' pInfo' cache', held, before]
  have positive : 0 ≤ pInfo.unCommittedBlocks := (steady.sound cache).held
  obtain ⟨newest, -, slot, isSlot, -⟩ := currentBlock taken.steady cache' (by omega)
  rw [ring, current, update_self] at slot
  cases slot
  have last : placeOf pInfo' pInfo'.blocks = index := by
    unfold placeOf
    rw [<- isSlot, ring, current, update_self]
    rfl
  have empty : blockRows next index = [] := by
    unfold blockRows
    rw [taken.block]
    exact readCells_nil le_rfl
  have counted : pInfo'.numOfBlocks.toNat = pInfo.numOfBlocks.toNat + 1 := by omega
  have first : pInfo'.blocks - pInfo'.numOfBlocks + 1 = pInfo.blocks - pInfo.numOfBlocks + 1 := by
    omega
  have newestNumber : pInfo.blocks - pInfo.numOfBlocks + 1 + (pInfo.numOfBlocks.toNat : Int) =
      pInfo'.blocks := by
    omega
  rw [cachedRows_some cache', counted, first, rowsFrom_snoc, newestNumber, last, empty,
    List.append_nil]
  refine rowsFrom_untouched allHeld steady taken.untouched cache fun number lower upper => ?_
  -- an older block is not in the slot of the new one
  have live := @steady_live _ _ _ _ _ number taken.steady cache' (by omega) (by omega)
  have newer := @steady_live _ _ _ _ _ pInfo'.blocks taken.steady cache' (by omega) le_rfl
  have ne : slotOf pInfo'.maxBlocks number ≠ (pInfo.currentSlot + 1).tmod pInfo.maxBlocks := by
    intro clash
    rw [<- current, isSlot] at clash
    have samePlace : placeOf pInfo' number = placeOf pInfo' pInfo'.blocks := by
      unfold placeOf
      rw [clash]
    have numbered := live.block.numbered
    rw [samePlace, newer.block.numbered] at numbered
    omega
  unfold placeOf
  rw [ring, update_of_ne ne, size]

end

theorem readCells_snoc {cells : Int -> Row} {count : Int} (nonneg : 0 ≤ count) (row : Row) :
    readCells (update cells count row) 0 (count + 1) = readCells cells 0 count ++ [row] := by
  rw [readCells_append nonneg (by decide : (0 : Int) ≤ 1)]
  have front : readCells (update cells count row) 0 count = readCells cells 0 count :=
    readCells_congr fun i _ upper => update_of_ne (by omega) _ _
  have single : readCells (update cells count row) (0 + count) 1 = [row] := by
    rw [Int.zero_add]
    unfold readCells
    simp
  rw [front, single]

section

variable (written : Written vnode next sid row pObj pInfo index)
include written

theorem written_blockRows (nonneg : 0 ≤ (vnode.pool.pMem index).numOfPoints) :
    blockRows next index = blockRows vnode index ++ [row] := by
  unfold blockRows
  rw [written.heads, written.rows, update_self, update_self]
  exact readCells_snoc nonneg row

theorem written_blockRows_ne (ne : other ≠ index) :
    blockRows next other = blockRows vnode other := by
  unfold blockRows
  rw [written.heads, written.rows, update_of_ne ne, update_of_ne ne]

theorem written_allHeld
    (allHeld : AllHeld vnode) (cache : cacheOf vnode sid = some (pObj, pInfo)) : AllHeld next := by
  intro other otherObj otherInfo otherCache
  by_cases same : other = sid
  · rw [same, written.mine] at otherCache
    cases otherCache
    exact allHeld sid pObj pInfo cache
  · rw [written.others other same] at otherCache
    exact allHeld other otherObj otherInfo otherCache

section

variable (steady : Steady vnode) (cache : cacheOf vnode sid = some (pObj, pInfo))
  (some' : 0 < pInfo.numOfBlocks)

include steady cache some'

theorem written_cachedRows : cachedRows next sid = cachedRows vnode sid ++ [row] := by
  obtain ⟨newest, -, slot, isSlot, -⟩ := currentBlock steady cache some'
  cases written.slot.symm.trans slot
  have last : placeOf pInfo pInfo.blocks = index := by
    unfold placeOf
    rw [<- isSlot, slot]
    rfl
  have live := @steady_live _ _ _ _ _ pInfo.blocks steady cache (by omega) le_rfl
  have counted : pInfo.numOfBlocks.toNat = (pInfo.numOfBlocks - 1).toNat + 1 := by omega
  have newestNumber : pInfo.blocks - pInfo.numOfBlocks + 1 + ((pInfo.numOfBlocks - 1).toNat : Int) =
      pInfo.blocks := by
    omega
  have older : rowsFrom next (placeOf pInfo) (pInfo.numOfBlocks - 1).toNat
      (pInfo.blocks - pInfo.numOfBlocks + 1) = rowsFrom vnode (placeOf pInfo)
        (pInfo.numOfBlocks - 1).toNat (pInfo.blocks - pInfo.numOfBlocks + 1) := by
    apply rowsFrom_congr
    intro number lower upper
    apply written_blockRows_ne written
    intro same
    have numbered := (@steady_live _ _ _ _ _ number steady cache (by omega) (by omega)).block.numbered
    rw [same, <- last, live.block.numbered] at numbered
    omega
  rw [cachedRows_some written.mine, cachedRows_some cache, counted, rowsFrom_snoc, rowsFrom_snoc,
    newestNumber, older, last, written_blockRows written (last ▸ live.nonneg), List.append_assoc]

theorem written_cachedRows_ne (ne : other ≠ sid) :
    cachedRows next other = cachedRows vnode other := by
  obtain ⟨newest, -, slot, -, block⟩ := currentBlock steady cache some'
  cases written.slot.symm.trans slot
  cases otherCache : cacheOf vnode other with
  | none =>
    rw [cachedRows_none otherCache, cachedRows_none ((written.others other ne).trans otherCache)]
  | some both =>
    obtain ⟨otherObj, otherInfo⟩ := both
    rw [cachedRows_some otherCache, cachedRows_some ((written.others other ne).trans otherCache)]
    apply rowsFrom_congr
    intro number lower upper
    apply written_blockRows_ne written
    intro same
    have positive : 0 ≤ otherInfo.numOfBlocks := by
      have sound := steady.sound otherCache
      have within : otherInfo.unCommittedBlocks ≤
        otherInfo.blocks - (otherInfo.blocks - otherInfo.numOfBlocks) := sound.within
      have held : 0 ≤ otherInfo.unCommittedBlocks := sound.held
      omega
    have owner := (@steady_live _ _ _ _ _ number steady otherCache (by omega)
      (by omega)).block.owner
    rw [same, block.owner] at owner
    exact ne (some.inj owner).symm

end

end

/-- What an insert does to the rows: its code tells whether the row is there. -/
structure RowPut (vnode next : SVnodeObj Row) (sid : Nat) (row : Row) (code : Int) : Prop where
  steady : Steady next
  allHeld : AllHeld next
  meters : ∀ other, (cacheOf next other).map (fun cache => cache.1.lastKey) =
    (cacheOf vnode other).map fun cache => cache.1.lastKey
  mine : cachedRows next sid = cachedRows vnode sid ++ if code < 0 then [] else [row]
  others : ∀ other, other ≠ sid -> cachedRows next other = cachedRows vnode other

theorem lastKey_of_forget
    (same : (cacheOf next other).map forget = (cacheOf vnode other).map forget) :
    (cacheOf next other).map (fun cache => cache.1.lastKey) =
      (cacheOf vnode other).map fun cache => cache.1.lastKey := by
  have keys := congrArg (Option.map fun cache : SMeterObj × SCacheInfo => cache.1.lastKey) same
  rw [map_map, map_map] at keys
  exact keys

theorem written_lastKeys (written : Written vnode next sid row pObj pInfo index)
    (cache : cacheOf vnode sid = some (pObj, pInfo)) (other : Nat) :
    (cacheOf next other).map (fun cache => cache.1.lastKey) =
      (cacheOf vnode other).map fun cache => cache.1.lastKey := by
  by_cases same : other = sid
  · rw [same, written.mine, cache]
    rfl
  · rw [written.others other same]

theorem vnodeInsertPointToCache_put (steady : Steady vnode) (allHeld : AllHeld vnode)
    (cache : cacheOf vnode sid = some (pObj, pInfo)) (row : Row) :
    ∃ code next, vnodeInsertPointToCache vnode sid row = some (code, next) ∧
      RowPut vnode next sid row code := by
  obtain ⟨code, next, run, ends⟩ := vnodeInsertPointToCache_ends steady cache row
  refine ⟨code, next, run, ?_⟩
  rcases ends with ⟨refused, searched⟩ | ⟨put, some', index, written⟩ |
    ⟨put, mid, midObj, midInfo, index, -, taken, midCache, written⟩
  · have same := fun other => cachedRows_untouched allHeld steady searched.steady searched.untouched
      (searched.meters other)
    refine ⟨searched.steady, allHeld.untouched steady searched.steady searched.untouched,
      fun other => lastKey_of_forget (searched.meters other), ?_, fun other _ => same other⟩
    rw [same sid, refused]
    exact (List.append_nil _).symm
  · refine ⟨written.steady, written_allHeld written allHeld cache, written_lastKeys written cache, ?_,
      fun other ne => written_cachedRows_ne written steady cache some' ne⟩
    rw [written_cachedRows written steady cache some', put]
    rfl
  · have midHeld := allHeld.untouched steady taken.steady taken.untouched
    have sameMeter := taken.mine
    rw [midCache] at sameMeter
    have held : midInfo.unCommittedBlocks = pInfo.unCommittedBlocks + 1 :=
      congrArg (fun cache : SMeterObj × SCacheInfo => cache.2.unCommittedBlocks)
        (some.inj sameMeter)
    have positive : 0 ≤ pInfo.unCommittedBlocks := (steady.sound cache).held
    have some' : 0 < midInfo.numOfBlocks := by
      rw [midHeld sid midObj midInfo midCache]
      omega
    refine ⟨written.steady, written_allHeld written midHeld midCache, ?_, ?_, ?_⟩
    · intro other
      rw [written_lastKeys written midCache other]
      by_cases same : other = sid
      · have key : midObj.lastKey = pObj.lastKey :=
          congrArg (fun cache : SMeterObj × SCacheInfo => cache.1.lastKey) (some.inj sameMeter)
        rw [same, midCache, cache, map_some, map_some, key]
      · exact lastKey_of_forget (taken.others other same)
    · rw [written_cachedRows written taken.steady midCache some',
        cachedRows_taken allHeld steady taken cache, put]
      rfl
    · intro other ne
      rw [written_cachedRows_ne written taken.steady midCache some' ne]
      exact cachedRows_untouched allHeld steady taken.steady taken.untouched (taken.others other ne)

theorem cacheOf_setLastKey (cache : cacheOf vnode sid = some (pObj, pInfo)) (key : Int) :
    cacheOf (setMeter vnode sid { pObj with lastKey := key }) sid =
      some ({ pObj with lastKey := key }, pInfo) := by
  have isCache := (cacheAt_some cache).2
  show cacheAt (update vnode.meterList sid _) sid = _
  rw [cacheAt_update_same]
  show Option.map _ pObj.pCache = _
  rw [isCache]
  rfl

theorem cacheOf_setLastKey_ne (ne : other ≠ sid) :
    cacheOf (setMeter vnode sid pObj) other = cacheOf vnode other :=
  cacheAt_update_ne ne _

theorem cachedRows_setLastKey (cache : cacheOf vnode sid = some (pObj, pInfo)) (key : Int)
    (other : Nat) :
    cachedRows (setMeter vnode sid { pObj with lastKey := key }) other = cachedRows vnode other := by
  refine cachedRows_congr ?_ rfl
  by_cases same : other = sid
  · rw [same, cacheOf_setLastKey cache, cache]
    rfl
  · rw [cacheOf_setLastKey_ne same]

theorem allHeld_setLastKey (allHeld : AllHeld vnode)
    (cache : cacheOf vnode sid = some (pObj, pInfo)) (key : Int) :
    AllHeld (setMeter vnode sid { pObj with lastKey := key }) := by
  intro other otherObj otherInfo otherCache
  by_cases same : other = sid
  · subst same
    rw [cacheOf_setLastKey cache] at otherCache
    cases otherCache
    exact allHeld other pObj pInfo cache
  · rw [cacheOf_setLastKey_ne same] at otherCache
    exact allHeld other otherObj otherInfo otherCache

theorem steady_setLastKey (steady : Steady vnode) (cache : cacheOf vnode sid = some (pObj, pInfo))
    (key : Int) : Steady (setMeter vnode sid { pObj with lastKey := key }) := by
  have agree : ∀ other, (cacheOf (setMeter vnode sid { pObj with lastKey := key }) other).map
      Prod.snd = (cacheOf vnode other).map Prod.snd := by
    intro other
    by_cases same : other = sid
    · subst same
      rw [cacheOf_setLastKey cache, cache]
      rfl
    · rw [cacheOf_setLastKey_ne same]
  have windows : windowsOf (setMeter vnode sid { pObj with lastKey := key }) = windowsOf vnode := by
    funext other
    have mapped := congrArg (Option.map windowOf) (agree other)
    rw [map_map, map_map] at mapped
    exact congrArg (fun window => window.getD ⟨0, 0, 0⟩) mapped
  have rings : ∀ other, (cacheOf (setMeter vnode sid { pObj with lastKey := key }) other).map
      ringOf = (cacheOf vnode other).map ringOf := by
    intro other
    have mapped := congrArg (Option.map fun pInfo : SCacheInfo =>
      (pInfo.numOfBlocks, pInfo.maxBlocks, pInfo.cacheBlocks)) (agree other)
    rw [map_map, map_map] at mapped
    exact mapped
  refine ⟨?_, ?_, ?_, ?_⟩
  · rw [windows]
    exact pooled_congr steady.pooled rfl rfl rfl rfl steady.pooled.freeSlot rings
  · intro other otherObj otherInfo otherCache
    by_cases same : other = sid
    · subst same
      rw [cacheOf_setLastKey cache] at otherCache
      cases otherCache
      have fits := steady.fits other pObj pInfo cache
      exact ⟨fits.some', fits.counted, fits.inside⟩
    · rw [cacheOf_setLastKey_ne same] at otherCache
      exact steady.fits other otherObj otherInfo otherCache
  · intro other otherObj otherInfo otherCache
    by_cases same : other = sid
    · subst same
      rw [cacheOf_setLastKey cache] at otherCache
      cases otherCache
      have placed := steady.slots other pObj pInfo cache
      exact ⟨placed.begun, placed.current, placed.commit, placed.done, placed.spare⟩
    · rw [cacheOf_setLastKey_ne same] at otherCache
      exact steady.slots other otherObj otherInfo otherCache
  · intro other otherObj otherInfo otherCache
    by_cases same : other = sid
    · subst same
      rw [cacheOf_setLastKey cache] at otherCache
      cases otherCache
      exact steady.points other pObj pInfo cache
    · rw [cacheOf_setLastKey_ne same] at otherCache
      exact steady.points other otherObj otherInfo otherCache

end Rows

end Luomi.Vnode.CachedRows
