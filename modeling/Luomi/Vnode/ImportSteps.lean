import Luomi.Vnode.CacheOperations
import Luomi.Vnode.Import

/-!
# Splicing rows into the ring of a meter

The rows behind a place are copied out and written back behind the payload: read in the
order of the ring, the blocks hold what they held with the payload put in between.
-/

namespace Luomi.Vnode.ImportSteps

open MemoryCells RingWindow Cache CachePool CacheSteps CacheSteady CacheAllocate CacheOperations
open Function (update_of_ne update_self)
open Import
open Option (bind_eq_bind bind_some)

section Splice

variable {Row : Type}

def bare (vnode : SVnodeObj Row) : SVnodeObj Unit :=
  { cacheBlockSize := vnode.cacheBlockSize
    totalBlocks := vnode.totalBlocks
    maxSessions := vnode.maxSessions
    meterList := vnode.meterList
    pool :=
      { pMem := fun index => { vnode.pool.pMem index with numOfPoints := 0 }
        rows := fun _ _ => ()
        freeSlot := vnode.pool.freeSlot
        notFreeSlots := vnode.pool.notFreeSlots
        threshold := vnode.pool.threshold } }

structure Ring (pInfo : SCacheInfo) (low : Int) (place : Int -> Nat) : Prop where
  current : pInfo.currentSlot = slotOf pInfo.maxBlocks pInfo.blocks
  near : pInfo.blocks - low < pInfo.maxBlocks
  slot : ∀ number, low ≤ number -> number ≤ pInfo.blocks ->
    pInfo.cacheBlocks (slotOf pInfo.maxBlocks number) = some (place number)
  apart : ∀ number other, low ≤ number -> number ≤ pInfo.blocks -> low ≤ other ->
    other ≤ pInfo.blocks -> place number = place other -> number = other

def blockRows (vnode : SVnodeObj Row) (index : Nat) : List Row :=
  readCells (vnode.pool.rows index) 0 (vnode.pool.pMem index).numOfPoints

def rowsFrom (vnode : SVnodeObj Row) (place : Int -> Nat) : Nat -> Int -> List Row
  | 0, _ => []
  | count + 1, number => blockRows vnode (place number) ++ rowsFrom vnode place count (number + 1)

variable {vnode next : SVnodeObj Row} {sid index : Nat} {pObj : SMeterObj} {pInfo : SCacheInfo}
  {low number pos : Int} {place : Int -> Nat} {fuel count : Nat}

theorem rowsFrom_congr (same : ∀ other, number ≤ other -> other < number + count ->
    blockRows next (place other) = blockRows vnode (place other)) :
    rowsFrom next place count number = rowsFrom vnode place count number := by
  induction count generalizing number with
  | zero => rfl
  | succ count ih =>
    push_cast at same
    unfold rowsFrom
    rw [same number le_rfl (by omega), ih fun other lower upper => same other (by omega) (by omega)]

section

variable (ring : Ring pInfo low place) (lower : low ≤ number) (upper : number ≤ pInfo.blocks)

include ring lower upper

theorem Ring.following : (slotOf pInfo.maxBlocks number + 1).tmod pInfo.maxBlocks =
      slotOf pInfo.maxBlocks (number + 1) := by
  have near := ring.near
  have nonneg := @slotOf_nonneg pInfo.maxBlocks (by omega) number
  rw [Int.tmod_eq_emod_of_nonneg (by omega), slotOf_next]

theorem Ring.last_iff :
    slotOf pInfo.maxBlocks number = pInfo.currentSlot ↔ number = pInfo.blocks := by
  have near := ring.near
  rw [ring.current]
  constructor
  · exact slotOf_injective upper (by omega)
  · intro same
    rw [same]

end

theorem rowsInBlock (fits : Fits vnode.cacheBlockSize pObj) {points : Int} (start : 0 ≤ pos)
    (nonneg : 0 ≤ points) (inside : pos + points ≤ pObj.pointsPerBlock) :
    RowsInBlock vnode pObj pos points :=
  ⟨start, nonneg, inside, fits.inside⟩

theorem copyOut_spec (ring : Ring pInfo low place) (fits : Fits vnode.cacheBlockSize pObj)
    (lower : low ≤ number) (last : number + count = pInfo.blocks) (enough : count < fuel)
    (start : 0 ≤ pos) (inside : pos ≤ (vnode.pool.pMem (place number)).numOfPoints)
    (points : ∀ other, number ≤ other -> other ≤ pInfo.blocks ->
      0 ≤ (vnode.pool.pMem (place other)).numOfPoints ∧
        (vnode.pool.pMem (place other)).numOfPoints ≤ pObj.pointsPerBlock) :
    ∃ old, copyOut vnode pObj pInfo fuel (slotOf pInfo.maxBlocks number) pos = some old ∧
      readCells (vnode.pool.rows (place number)) 0 pos ++ old =
        rowsFrom vnode place (count + 1) number := by
  induction count generalizing number pos fuel with
  | zero =>
    obtain ⟨fuel, rfl⟩ := Nat.exists_eq_succ_of_ne_zero (Nat.ne_of_gt enough)
    have slot := ring.slot number lower (by omega)
    have here := points number le_rfl (by omega)
    have isLast := (ring.last_iff lower (by omega)).mpr (by omega)
    have room : RowsInBlock vnode pObj pos
      ((vnode.pool.pMem (place number)).numOfPoints - pos) :=
        rowsInBlock fits start (by omega) (by omega)
    refine ⟨readCells (vnode.pool.rows (place number)) pos
      ((vnode.pool.pMem (place number)).numOfPoints - pos), ?_, ?_⟩
    · unfold copyOut
      simp only [slot, bind_eq_bind, bind_some]
      rw [if_pos room, if_pos isLast]
      rfl
    · have split := @readCells_append _ (vnode.pool.rows (place number)) 0 _
        ((vnode.pool.pMem (place number)).numOfPoints - pos) start (by omega)
      rw [Int.zero_add, add_sub_cancel] at split
      rw [<- split]
      exact (List.append_nil _).symm
  | succ count ih =>
    obtain ⟨fuel, rfl⟩ := Nat.exists_eq_succ_of_ne_zero (Nat.ne_of_gt (Nat.zero_lt_of_lt enough))
    push_cast at last
    have slot := ring.slot number lower (by omega)
    have here := points number le_rfl (by omega)
    have notLast := mt (ring.last_iff lower (by omega)).mp (by omega)
    have room : RowsInBlock vnode pObj pos
      ((vnode.pool.pMem (place number)).numOfPoints - pos) :=
        rowsInBlock fits start (by omega) (by omega)
    obtain ⟨old, run, whole⟩ := @ih (number + 1) 0 fuel (by omega) (by omega) (by omega) le_rfl
      (points (number + 1) (by omega) (by omega)).1
      (fun other lower upper => points other (by omega) upper)
    refine ⟨readCells (vnode.pool.rows (place number)) pos
      ((vnode.pool.pMem (place number)).numOfPoints - pos) ++ old, ?_, ?_⟩
    · unfold copyOut
      simp only [slot, bind_eq_bind, bind_some]
      rw [if_pos room, if_neg notLast, ring.following lower (by omega), run]
      rfl
    · have split := @readCells_append _ (vnode.pool.rows (place number)) 0 _
        ((vnode.pool.pMem (place number)).numOfPoints - pos) start (by omega)
      rw [Int.zero_add, add_sub_cancel] at split
      rw [readCells_nil le_rfl, List.nil_append] at whole
      rw [<- List.append_assoc, <- split, whole]
      rfl

structure Rewritten (vnode next : SVnodeObj Row) (place : Int -> Nat) (pointsPerBlock number : Int)
    (count : Nat) (pos : Int) (buffer rest : List Row) : Prop where
  alike : bare next = bare vnode
  frame : ∀ index, (∀ other, number ≤ other -> other ≤ number + count -> index ≠ place other) ->
    next.pool.pMem index = vnode.pool.pMem index ∧ next.pool.rows index = vnode.pool.rows index
  points : ∀ other, number ≤ other -> other ≤ number + count ->
    (next.pool.pMem (place other)).numOfPoints =
      min pointsPerBlock (max 0 (pos + buffer.length - (other - number) * pointsPerBlock))
  left : (rest.length : Int) = max 0 (pos + buffer.length - (count + 1) * pointsPerBlock)
  rows : rowsFrom next place (count + 1) number ++ rest =
    readCells (vnode.pool.rows (place number)) 0 pos ++ buffer

theorem bare_putRows (vnode : SVnodeObj Row) (index : Nat) (pos : Int) (list : List Row) :
    bare (putRows vnode index pos list) = bare vnode := by
  have heads : (fun other => { (putRows vnode index pos list).pool.pMem other with numOfPoints := 0 }) =
      fun other => { vnode.pool.pMem other with numOfPoints := 0 } := by
    funext other
    unfold putRows
    by_cases same : other = index
    · simp only [same, update_self]
    · simp only [update_of_ne same]
  exact SVnodeObj.ext rfl rfl rfl rfl (SCachePool.ext heads rfl rfl rfl rfl)

theorem blockRows_putRows (fits : Fits vnode.cacheBlockSize pObj) {list : List Row}
    (start : 0 ≤ pos) (inside : pos + list.length ≤ pObj.pointsPerBlock) :
    ((putRows vnode index pos list).pool.pMem index).numOfPoints = list.length + pos ∧
      blockRows (putRows vnode index pos list) index =
        readCells (vnode.pool.rows index) 0 pos ++ list := by
  have counted := fits.counted
  have isShort : short (list.length + pos) = list.length + pos := short_eq (by omega) (by omega)
  have points : ((putRows vnode index pos list).pool.pMem index).numOfPoints = list.length + pos := by
    unfold putRows
    simp only [update_self, isShort]
  refine ⟨points, ?_⟩
  unfold blockRows
  rw [points, <- readCells_writeCells_front start]
  unfold putRows
  simp only [update_self]

theorem putRows_ne {other : Nat} (ne : other ≠ index) (list : List Row) :
    (putRows vnode index pos list).pool.pMem other = vnode.pool.pMem other ∧
      (putRows vnode index pos list).pool.rows other = vnode.pool.rows other :=
  ⟨update_of_ne ne _ _, update_of_ne ne _ _⟩

theorem blockRows_congr {other : Nat} (same : next.pool.pMem other = vnode.pool.pMem other ∧
      next.pool.rows other = vnode.pool.rows other) :
    blockRows next other = blockRows vnode other := by
  unfold blockRows
  rw [same.1, same.2]

def chunk (pointsPerBlock pos : Int) (buffer : List Row) : Int :=
  if pointsPerBlock - pos < buffer.length then pointsPerBlock - pos else buffer.length

theorem chunk_spec {pointsPerBlock : Int} (inside : pos ≤ pointsPerBlock) (buffer : List Row) :
    0 ≤ chunk pointsPerBlock pos buffer ∧ pos + chunk pointsPerBlock pos buffer ≤ pointsPerBlock ∧
      ((buffer.take (chunk pointsPerBlock pos buffer).toNat).length : Int) =
        chunk pointsPerBlock pos buffer ∧
      ((buffer.drop (chunk pointsPerBlock pos buffer).toNat).length : Int) =
        max 0 (pos + buffer.length - pointsPerBlock) ∧
      pos + chunk pointsPerBlock pos buffer = min pointsPerBlock (pos + buffer.length) := by
  unfold chunk
  rw [List.length_take, List.length_drop]
  split
  · refine ⟨?_, ?_, ?_, ?_, ?_⟩ <;> omega
  · refine ⟨?_, ?_, ?_, ?_, ?_⟩ <;> omega

theorem left_behind {whole block steps : Int} (nonneg : 0 ≤ steps) :
    max 0 (0 + max 0 (whole - block) - steps) = max 0 (whole - (steps + block)) := by
  omega

theorem writeBack_spec (ring : Ring pInfo low place) (fits : Fits vnode.cacheBlockSize pObj)
    (lower : low ≤ number) (last : number + count = pInfo.blocks) (enough : count < fuel)
    (start : 0 ≤ pos) (inside : pos ≤ pObj.pointsPerBlock) (buffer : List Row) :
    ∃ rest next, writeBack pObj pInfo fuel (slotOf pInfo.maxBlocks number) pos buffer vnode =
        some (rest, next) ∧
      Rewritten vnode next place pObj.pointsPerBlock number count pos buffer rest := by
  have positive := fits.some'
  induction count generalizing number pos fuel buffer vnode with
  | zero =>
    obtain ⟨fuel, rfl⟩ := Nat.exists_eq_succ_of_ne_zero (Nat.ne_of_gt enough)
    obtain ⟨nonneg, room, taken, left, total⟩ := chunk_spec inside buffer
    have slot := ring.slot number lower (by omega)
    have isLast := (ring.last_iff lower (by omega)).mpr (by omega)
    have inBlock := rowsInBlock fits start nonneg room
    obtain ⟨points, rows⟩ := @blockRows_putRows _ vnode (place number) _ _ fits _ start
      (taken.symm ▸ room)
    refine ⟨buffer.drop (chunk pObj.pointsPerBlock pos buffer).toNat,
      putRows vnode (place number) pos (buffer.take (chunk pObj.pointsPerBlock pos buffer).toNat),
      ?_, bare_putRows _ _ _ _, ?_, ?_, ?_, ?_⟩
    · unfold writeBack
      simp only [slot, bind_eq_bind, bind_some]
      exact (if_pos inBlock).trans (if_pos isLast)
    · intro index apart
      exact putRows_ne (apart number le_rfl (by omega)) _
    · intro other atLeast atMost
      have same : other = number := by omega
      rw [same, points, taken, Int.sub_self, Int.zero_mul, Int.sub_zero]
      omega
    · rw [left]
      push_cast
      rw [Int.one_mul]
    · unfold rowsFrom
      rw [rows]
      show readCells _ _ _ ++ _ ++ [] ++ _ = _
      rw [List.append_nil, List.append_assoc, List.take_append_drop]
  | succ count ih =>
    obtain ⟨fuel, rfl⟩ := Nat.exists_eq_succ_of_ne_zero (Nat.ne_of_gt (Nat.zero_lt_of_lt enough))
    push_cast at last
    obtain ⟨nonneg, room, taken, left, total⟩ := chunk_spec inside buffer
    have slot := ring.slot number lower (by omega)
    have notLast := mt (ring.last_iff lower (by omega)).mp (by omega)
    have inBlock := rowsInBlock fits start nonneg room
    obtain ⟨points, rows⟩ := @blockRows_putRows _ vnode (place number) _ _ fits _ start
      (taken.symm ▸ room)
    obtain ⟨rest, next, run, rewritten⟩ := @ih
      (putRows vnode (place number) pos (buffer.take (chunk pObj.pointsPerBlock pos buffer).toNat))
      (number + 1) 0 fuel fits (by omega) (by omega) (by omega) le_rfl (le_of_lt positive)
      (buffer.drop (chunk pObj.pointsPerBlock pos buffer).toNat)
    have apartFirst : ∀ other, number + 1 ≤ other -> other ≤ number + 1 + count ->
        place number ≠ place other := by
      intro other atLeast atMost same
      have numbers := ring.apart number other lower (by omega) (by omega) (by omega) same
      omega
    have kept := rewritten.frame (place number) apartFirst
    refine ⟨rest, next, ?_, rewritten.alike.trans (bare_putRows _ _ _ _), ?_, ?_, ?_, ?_⟩
    · unfold writeBack
      simp only [slot, bind_eq_bind, bind_some]
      refine (if_pos inBlock).trans ((if_neg notLast).trans ?_)
      rw [ring.following lower (by omega)]
      exact run
    · intro index apart
      push_cast at apart
      obtain ⟨head, cells⟩ := rewritten.frame index
        (fun other atLeast atMost => apart other (by omega) (by omega))
      obtain ⟨headBefore, cellsBefore⟩ := @putRows_ne _ vnode _ pos _
        (apart number le_rfl (by omega))
        (buffer.take (chunk pObj.pointsPerBlock pos buffer).toNat)
      exact ⟨head.trans headBefore, cells.trans cellsBefore⟩
    · intro other atLeast atMost
      push_cast at atMost
      by_cases same : other = number
      · rw [same, kept.1, points, taken, Int.sub_self, Int.zero_mul, Int.sub_zero]
        omega
      · have later := rewritten.points other (by omega) (by omega)
        have steps : (other - number) * pObj.pointsPerBlock =
            (other - (number + 1)) * pObj.pointsPerBlock + pObj.pointsPerBlock := by ring
        have nonnegSteps : 0 ≤ (other - (number + 1)) * pObj.pointsPerBlock :=
          Int.mul_nonneg (by omega) (le_of_lt positive)
        rw [later, left, steps, left_behind nonnegSteps]
    · have rest' := rewritten.left
      have steps : ((count + 1 : Nat) + 1 : Int) * pObj.pointsPerBlock =
          ((count : Int) + 1) * pObj.pointsPerBlock + pObj.pointsPerBlock := by
        push_cast
        ring
      have nonnegSteps : 0 ≤ ((count : Int) + 1) * pObj.pointsPerBlock :=
        Int.mul_nonneg (by omega) (le_of_lt positive)
      rw [rest', left, steps, left_behind nonnegSteps]
    · have later := rewritten.rows
      rw [readCells_nil le_rfl, List.nil_append] at later
      have first : blockRows next (place number) = _ := (blockRows_congr kept).trans rows
      show blockRows next (place number) ++ rowsFrom next place (count + 1) (number + 1) ++ rest = _
      rw [List.append_assoc, later, first, List.append_assoc, List.take_append_drop]

/-- What two vnodes have in common that differ in their rows only. -/
structure Alike (vnode next : SVnodeObj Row) : Prop where
  cacheBlockSize : next.cacheBlockSize = vnode.cacheBlockSize
  totalBlocks : next.totalBlocks = vnode.totalBlocks
  maxSessions : next.maxSessions = vnode.maxSessions
  meterList : next.meterList = vnode.meterList
  freeSlot : next.pool.freeSlot = vnode.pool.freeSlot
  notFreeSlots : next.pool.notFreeSlots = vnode.pool.notFreeSlots
  heads : ∀ index, next.pool.pMem index =
    { vnode.pool.pMem index with numOfPoints := (next.pool.pMem index).numOfPoints }

theorem alike_of_bare (alike : bare next = bare vnode) : Alike vnode next := by
  have same : ∀ {β : Type} (field : SVnodeObj Unit -> β), field (bare next) = field (bare vnode) :=
    fun field => congrArg field alike
  refine ⟨same fun v => v.cacheBlockSize, same fun v => v.totalBlocks, same fun v => v.maxSessions,
    same fun v => v.meterList, same fun v => v.pool.freeSlot, same fun v => v.pool.notFreeSlots, ?_⟩
  intro index
  have heads : { next.pool.pMem index with numOfPoints := 0 } =
      { vnode.pool.pMem index with numOfPoints := 0 } :=
    congrFun (same fun v => v.pool.pMem) index
  exact congrArg (fun block : SCacheBlock =>
    { block with numOfPoints := (next.pool.pMem index).numOfPoints }) heads

section

variable (alike : Alike vnode next)
include alike

theorem Alike.cache (sid : Nat) : cacheOf next sid = cacheOf vnode sid := by
  unfold cacheOf
  rw [alike.meterList]

theorem Alike.blockOf {window : Window} {size : Int}
    (block : BlockOf (vnode.pool.pMem index) sid window size number index) :
    BlockOf (next.pool.pMem index) sid window size number index := by
  rw [alike.heads index]
  exact ⟨block.owner, block.numbered, block.slotted, block.placed, block.notFree⟩

theorem Alike.blockId (index : Nat) :
    (next.pool.pMem index).blockId = (vnode.pool.pMem index).blockId := by
  rw [alike.heads index]

theorem Alike.owner (index : Nat) :
    (next.pool.pMem index).pMeterObj = (vnode.pool.pMem index).pMeterObj := by
  rw [alike.heads index]

theorem Alike.notFree (index : Nat) :
    (next.pool.pMem index).notFree = (vnode.pool.pMem index).notFree := by
  rw [alike.heads index]

theorem Alike.steady (steady : Steady vnode)
    (nobody : ∀ index, (vnode.pool.pMem index).pMeterObj = none ->
      next.pool.pMem index = vnode.pool.pMem index)
    (points : ∀ sid pObj pInfo, cacheOf vnode sid = some (pObj, pInfo) ->
      ∀ index < vnode.totalBlocks, (vnode.pool.pMem index).pMeterObj = some sid ->
        0 ≤ (next.pool.pMem index).numOfPoints ∧
          (next.pool.pMem index).numOfPoints ≤ pObj.pointsPerBlock) : Steady next := by
  have windows : windowsOf next = windowsOf vnode := by
    funext sid
    unfold windowsOf
    rw [alike.cache sid]
  have table : taken next.pool.pMem = taken vnode.pool.pMem := by
    funext index
    unfold taken
    rw [alike.notFree index]
  have pooled := steady.pooled
  refine ⟨⟨?_, ?_, ?_, ?_, ?_, ?_, ?_, ?_, ?_⟩, ?_, ?_, ?_⟩
  · rw [alike.freeSlot, alike.totalBlocks]
    exact pooled.freeSlot
  · intro sid isSome
    rw [alike.cache sid] at isSome
    rw [alike.maxSessions]
    exact pooled.sessions sid isSome
  · intro sid none'
    rw [alike.cache sid] at none'
    rw [windows]
    exact pooled.absent sid none'
  · intro sid pObj pInfo cache
    rw [alike.cache sid] at cache
    rw [windows]
    exact pooled.sound sid pObj pInfo cache
  · intro sid pObj pInfo cache number has
    rw [alike.cache sid] at cache
    rw [windows] at has ⊢
    rw [alike.totalBlocks]
    obtain ⟨index, inside, slot, block⟩ := pooled.live sid pObj pInfo cache number has
    exact ⟨index, inside, slot, alike.blockOf block⟩
  · intro index inside used
    rw [alike.totalBlocks] at inside
    rw [alike.blockId index] at used ⊢
    obtain ⟨sid, pObj, pInfo, cache, has, slot⟩ := pooled.owned index inside used
    refine ⟨sid, pObj, pInfo, (alike.cache sid).trans cache, ?_, slot⟩
    rw [windows]
    exact has
  · intro index inside unused
    rw [alike.totalBlocks] at inside
    rw [alike.blockId index] at unused
    have zero := pooled.empty index inside unused
    rw [nobody index (by rw [zero]; rfl), zero]
  · rw [alike.notFreeSlots, alike.totalBlocks, table]
    exact pooled.blocks
  · rw [alike.notFreeSlots, alike.maxSessions, windows]
    exact pooled.meters
  · intro sid pObj pInfo cache
    rw [alike.cache sid] at cache
    rw [alike.cacheBlockSize]
    exact steady.fits sid pObj pInfo cache
  · intro sid pObj pInfo cache
    rw [alike.cache sid] at cache
    exact steady.slots sid pObj pInfo cache
  · intro sid pObj pInfo cache index inside owner
    rw [alike.cache sid] at cache
    rw [alike.totalBlocks] at inside
    rw [alike.owner index] at owner
    exact points sid pObj pInfo cache index inside owner

end

def placeOf (pInfo : SCacheInfo) (number : Int) : Nat :=
  (pInfo.cacheBlocks (slotOf pInfo.maxBlocks number)).getD 0

structure Live (vnode : SVnodeObj Row) (sid : Nat) (pObj : SMeterObj) (pInfo : SCacheInfo)
    (number : Int) : Prop where
  slot : pInfo.cacheBlocks (slotOf pInfo.maxBlocks number) = some (placeOf pInfo number)
  inside : placeOf pInfo number < vnode.totalBlocks
  block : BlockOf (vnode.pool.pMem (placeOf pInfo number)) sid (windowOf pInfo) pInfo.maxBlocks
    number (placeOf pInfo number)
  nonneg : 0 ≤ (vnode.pool.pMem (placeOf pInfo number)).numOfPoints
  atMost : (vnode.pool.pMem (placeOf pInfo number)).numOfPoints ≤ pObj.pointsPerBlock

section

variable (steady : Steady vnode) (cache : cacheOf vnode sid = some (pObj, pInfo))

include steady cache

theorem steady_live (lower : pInfo.blocks - pInfo.numOfBlocks < number)
    (upper : number ≤ pInfo.blocks) : Live vnode sid pObj pInfo number := by
  have has : (windowsOf vnode sid).Has number := by
    rw [windowsOf_some cache]
    exact ⟨lower, upper⟩
  obtain ⟨index, inside, slot, block⟩ := steady.pooled.live sid pObj pInfo cache number has
  have isPlace : placeOf pInfo number = index := by
    unfold placeOf
    rw [slot]
    rfl
  rw [windowsOf_some cache] at block
  have points := steady.points sid pObj pInfo cache index inside block.owner
  rw [<- isPlace] at inside block slot points
  exact ⟨slot, inside, block, points.1, points.2⟩

theorem steady_ring (lower : pInfo.blocks - pInfo.numOfBlocks < low) (some' : low ≤ pInfo.blocks) :
    Ring pInfo low (placeOf pInfo) := by
  have sound := steady.sound cache
  have start : 0 ≤ pInfo.blocks - pInfo.numOfBlocks := sound.start
  have ring : pInfo.blocks - (pInfo.blocks - pInfo.numOfBlocks) ≤ pInfo.maxBlocks := sound.ring
  have current := (steady.slots sid pObj pInfo cache).current
  rw [if_neg (by omega)] at current
  refine ⟨current, by omega, ?_, ?_⟩
  · intro number atLeast atMost
    exact (steady_live steady cache (by omega) atMost).slot
  · intro number other atLeast atMost otherLeast otherMost same
    have block := (@steady_live _ _ _ _ _ number steady cache (by omega) atMost).block
    have otherBlock := (@steady_live _ _ _ _ _ other steady cache (by omega) otherMost).block
    rw [<- same] at otherBlock
    exact block.numbered.symm.trans otherBlock.numbered

theorem steady_putRows (live : Live vnode sid pObj pInfo number) {list : List Row} (start : 0 ≤ pos)
    (inside : pos + list.length ≤ pObj.pointsPerBlock) :
    Steady (putRows vnode (placeOf pInfo number) pos list) := by
  have fits := steady.fits sid pObj pInfo cache
  have owner := live.block.owner
  have points := (@blockRows_putRows _ vnode (placeOf pInfo number) _ _ fits _ start inside).1
  refine (alike_of_bare (bare_putRows _ _ _ _)).steady steady ?_ ?_
  · intro index nobody
    have ne : index ≠ placeOf pInfo number := by
      intro same
      rw [same, owner] at nobody
      cases nobody
    exact (putRows_ne ne list).1
  · intro other otherObj otherInfo otherCache index isInside otherOwner
    by_cases same : index = placeOf pInfo number
    · rw [same, owner] at otherOwner
      cases otherOwner
      rw [cache] at otherCache
      cases otherCache
      rw [same, points]
      omega
    · rw [(putRows_ne same list).1]
      exact steady.points other otherObj otherInfo otherCache index isInside otherOwner

end

end Splice

end Luomi.Vnode.ImportSteps
