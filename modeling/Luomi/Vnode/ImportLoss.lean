import Luomi.Vnode.CacheRuns
import Luomi.Vnode.CachedRows
import Luomi.Vnode.ImportGrowth

/-!
# What an import that fails leaves in the cache

`vnodeImportToCache` overwrites the blocks behind the place before it asks the pool for
new ones.  Where the pool refuses one, the rows that did not fit are dropped: the last of
them are the newest rows the meter had.
-/

namespace Luomi.Vnode.ImportLoss

open MemoryCells RingWindow Cache CachePool CacheSteps CacheSteady CacheAllocate CacheOperations
open Import ImportSteps ImportGrowth CachedRows
open List (append_assoc length_append)
open Option (bind_eq_bind bind_eq_some_iff bind_some some_get)

section Loss

variable {Row : Type}

/-- An import into the cache of a meter, at a place in one of its blocks that are not
committed. -/
structure Importing (vnode : SVnodeObj Row) (sid : Nat) (pObj : SMeterObj) (pInfo : SCacheInfo)
    (pImport : SImportInfo) (number : Int) : Prop where
  steady : Steady vnode
  cache : cacheOf vnode sid = some (pObj, pInfo)
  slot : pImport.slot = slotOf pInfo.maxBlocks number
  held : pInfo.blocks - pInfo.unCommittedBlocks < number
  upper : number ≤ pInfo.blocks
  start : 0 ≤ pImport.pos
  inside : pImport.pos ≤ (vnode.pool.pMem (placeOf pInfo number)).numOfPoints

def GivenAway (next : SVnodeObj Row) (sid : Nat) (pInfo : SCacheInfo) (number : Int) : Prop :=
  number ≤ pInfo.blocks - pInfo.unCommittedBlocks ∧
    ∀ pObj' pInfo', cacheOf next sid = some (pObj', pInfo') ->
      number ≤ pInfo'.blocks - pInfo'.numOfBlocks

/-- Every row the meter had in its cache is still there, except for those of committed blocks
that were given away. -/
def RowsKept (vnode next : SVnodeObj Row) (sid : Nat) (pInfo : SCacheInfo) : Prop :=
  ∀ number, pInfo.blocks - pInfo.numOfBlocks < number -> number ≤ pInfo.blocks ->
    ∀ row ∈ blockRows vnode (placeOf pInfo number),
      row ∈ cachedRows next sid ∨ GivenAway next sid pInfo number

def FailureKeeps (vnode : SVnodeObj Row) (sid : Nat) (pInfo : SCacheInfo) (pImport : SImportInfo)
    (payload : List Row) : Prop :=
  ∃ code ended next, vnodeImportToCache vnode sid pImport payload = some (code, ended, next) ∧
    (code ≠ 0 -> RowsKept vnode next sid pInfo)

def blocksFrom (pInfo : SCacheInfo) (number : Int) : Nat := (pInfo.blocks - number).toNat

def behind (vnode : SVnodeObj Row) (pInfo : SCacheInfo) (number pos : Int) : List Row :=
  (rowsFrom vnode (placeOf pInfo) (blocksFrom pInfo number + 1) number).drop pos.toNat

/-- How many new blocks take what the existing ones have no room for. -/
def blocksNeeded (pObj : SMeterObj) (pInfo : SCacheInfo) (number pos : Int) (rows : Nat) : Nat :=
  blocksFor pObj.pointsPerBlock
    (pos + rows - (blocksFrom pInfo number + 1 : Nat) * pObj.pointsPerBlock)

/-- The import is refused at once, the pool gives the meter the blocks it needs, or no row is
overwritten. -/
def Lossless (vnode : SVnodeObj Row) (sid : Nat) (pObj : SMeterObj) (pInfo : SCacheInfo)
    (pImport : SImportInfo) (number : Int) (payload : List Row) : Prop :=
  CacheFull pObj payload.length ∨
    takes sid (blocksNeeded pObj pInfo number pImport.pos
      (payload ++ behind vnode pInfo number pImport.pos).length) vnode = true ∨
    behind vnode pInfo number pImport.pos = []

variable {vnode mid next : SVnodeObj Row} {sid : Nat} {pObj pObj' : SMeterObj}
  {pInfo pInfo' : SCacheInfo} {pImport : SImportInfo} {number : Int} {payload : List Row}
  {row : Row}

theorem mem_rowsFrom {place : Int -> Nat} {count : Nat} : row ∈ rowsFrom vnode place count number ↔
      ∃ other, number ≤ other ∧ other < number + count ∧ row ∈ blockRows vnode (place other) := by
  induction count generalizing number with
  | zero =>
    refine iff_of_false (List.not_mem_nil) ?_
    rintro ⟨other, lower, upper, -⟩
    push_cast at upper
    omega
  | succ count ih =>
    unfold rowsFrom
    rw [List.mem_append, ih]
    constructor
    · rintro (here | ⟨other, lower, upper, member⟩)
      · exact ⟨number, le_rfl, by push_cast; omega, here⟩
      · exact ⟨other, by omega, by push_cast; omega, member⟩
    · rintro ⟨other, lower, upper, member⟩
      push_cast at upper
      by_cases first : other = number
      · exact Or.inl (first ▸ member)
      · exact Or.inr ⟨other, by omega, by omega, member⟩

theorem rowsFrom_append (place : Int -> Nat) (count more : Nat) (number : Int) :
    rowsFrom vnode place (count + more) number =
      rowsFrom vnode place count number ++ rowsFrom vnode place more (number + count) := by
  induction count generalizing number with
  | zero =>
    rw [Nat.zero_add, Nat.cast_zero, Int.add_zero]
    rfl
  | succ count ih =>
    have shift : number + 1 + (count : Int) = number + ((count + 1 : Nat) : Int) := by
      push_cast
      ring
    rw [Nat.succ_add, rowsFrom, rowsFrom, ih, append_assoc, shift]

theorem mem_cachedRows (cache : cacheOf vnode sid = some (pObj, pInfo)) (steady : Steady vnode) : row ∈ cachedRows vnode sid ↔
      ∃ other, pInfo.blocks - pInfo.numOfBlocks < other ∧ other ≤ pInfo.blocks ∧
        row ∈ blockRows vnode (placeOf pInfo other) := by
  rw [cachedRows_some cache, mem_rowsFrom]
  refine exists_congr fun other => ?_
  constructor
  all_goals
    rintro ⟨lower, upper, member⟩
    exact ⟨by omega, by omega, member⟩

theorem rowsFrom_length {place : Int -> Nat} {count : Nat} {most : Int} (nonneg : 0 ≤ most)
    (points : ∀ other, number ≤ other -> other < number + count ->
      (vnode.pool.pMem (place other)).numOfPoints ≤ most) :
    ((rowsFrom vnode place count number).length : Int) ≤ count * most := by
  induction count generalizing number with
  | zero =>
    rw [Nat.cast_zero, Int.zero_mul]
    exact le_rfl
  | succ count ih =>
    push_cast at points
    have first := points number le_rfl (by omega)
    have others := @ih (number + 1) fun other lower upper => points other (by omega) (by omega)
    have steps : ((count + 1 : Nat) : Int) * most = count * most + most := by
      push_cast
      ring
    rw [rowsFrom, length_append, blockRows, length_readCells, steps]
    push_cast
    omega

section Place

variable (importing : Importing vnode sid pObj pInfo pImport number)

include importing

theorem Importing.bounds : number + blocksFrom pInfo number = pInfo.blocks ∧
    0 ≤ pInfo.unCommittedBlocks ∧ pInfo.unCommittedBlocks ≤ pInfo.numOfBlocks ∧
      pInfo.numOfBlocks ≤ pInfo.maxBlocks := by
  have sound := importing.steady.sound importing.cache
  have within : pInfo.unCommittedBlocks ≤ pInfo.blocks - (pInfo.blocks - pInfo.numOfBlocks) :=
    sound.within
  have ring : pInfo.blocks - (pInfo.blocks - pInfo.numOfBlocks) ≤ pInfo.maxBlocks := sound.ring
  have held : 0 ≤ pInfo.unCommittedBlocks := sound.held
  have upper := importing.upper
  unfold blocksFrom
  refine ⟨?_, held, ?_, ?_⟩ <;> omega

theorem Importing.live {other : Int} (lower : pInfo.blocks - pInfo.numOfBlocks < other)
    (upper : other ≤ pInfo.blocks) : Live vnode sid pObj pInfo other :=
  steady_live importing.steady importing.cache lower upper

theorem Importing.ring : Ring pInfo number (placeOf pInfo) := by
  have bounds := importing.bounds
  have held := importing.held
  exact steady_ring importing.steady importing.cache (by omega) importing.upper

theorem Importing.region : readCells (vnode.pool.rows (placeOf pInfo number)) 0 pImport.pos ++
    behind vnode pInfo number pImport.pos =
      rowsFrom vnode (placeOf pInfo) (blocksFrom pInfo number + 1) number := by
  have start := importing.start
  have inside := importing.inside
  have front : readCells (vnode.pool.rows (placeOf pInfo number)) 0 pImport.pos =
      (rowsFrom vnode (placeOf pInfo) (blocksFrom pInfo number + 1) number).take
        pImport.pos.toNat := by
    have split : (vnode.pool.pMem (placeOf pInfo number)).numOfPoints =
        pImport.pos + ((vnode.pool.pMem (placeOf pInfo number)).numOfPoints - pImport.pos) := by
      ring
    rw [rowsFrom, blockRows, split, readCells_append start (by omega), append_assoc,
      List.take_left' (by rw [length_readCells])]
  rw [front]
  exact List.take_append_drop _ _

theorem Importing.copied : copyOut vnode pObj pInfo pInfo.maxBlocks.toNat pImport.slot pImport.pos =
      some (behind vnode pInfo number pImport.pos) ∧
    ((behind vnode pInfo number pImport.pos).length : Int) ≤
      (pInfo.unCommittedBlocks + 1) * pObj.pointsPerBlock := by
  obtain ⟨last, held, within, size⟩ := importing.bounds
  have above := importing.held
  have fits := importing.steady.fits sid pObj pInfo importing.cache
  have positive := fits.some'
  have points : ∀ other, number ≤ other -> other ≤ pInfo.blocks ->
      0 ≤ (vnode.pool.pMem (placeOf pInfo other)).numOfPoints ∧
        (vnode.pool.pMem (placeOf pInfo other)).numOfPoints ≤ pObj.pointsPerBlock := by
    intro other lower upper
    have live := @Importing.live _ _ _ _ _ _ _ importing other (by omega) upper
    exact ⟨live.nonneg, live.atMost⟩
  obtain ⟨old, run, whole⟩ := @copyOut_spec _ _ _ _ number number pImport.pos _
    pInfo.maxBlocks.toNat (blocksFrom pInfo number) importing.ring fits le_rfl last (by omega)
    importing.start importing.inside points
  have same : old = behind vnode pInfo number pImport.pos :=
    List.append_cancel_left (whole.trans importing.region.symm)
  rw [<- same, importing.slot]
  refine ⟨run, ?_⟩
  have length := @rowsFrom_length _ vnode number (placeOf pInfo) (blocksFrom pInfo number + 1)
    pObj.pointsPerBlock (le_of_lt positive) fun other lower upper =>
      (points other lower (by push_cast at upper; omega)).2
  rw [<- whole, length_append] at length
  have fewer : ((blocksFrom pInfo number + 1 : Nat) : Int) * pObj.pointsPerBlock ≤
      (pInfo.unCommittedBlocks + 1) * pObj.pointsPerBlock := by
    apply Int.mul_le_mul_of_nonneg_right _ (le_of_lt positive)
    push_cast
    omega
  push_cast at length fewer ⊢
  omega

theorem Importing.frame {index : Nat} (rewritten : ∀ index, (∀ other, number ≤ other ->
      other ≤ number + blocksFrom pInfo number -> index ≠ placeOf pInfo other) ->
        mid.pool.pMem index = vnode.pool.pMem index ∧ mid.pool.rows index = vnode.pool.rows index)
    (apart : ∀ other, number ≤ other -> other ≤ pInfo.blocks ->
      (vnode.pool.pMem index).pMeterObj ≠ some sid ∨ (vnode.pool.pMem index).blockId ≠ other) :
    mid.pool.pMem index = vnode.pool.pMem index ∧ mid.pool.rows index = vnode.pool.rows index := by
  obtain ⟨last, held, within, -⟩ := importing.bounds
  have above := importing.held
  apply rewritten
  intro other lower upper same
  have block := (@Importing.live _ _ _ _ _ _ _ importing other (by omega) (by omega)).block
  rw [<- same] at block
  rcases apart other lower (by omega) with notMine | notThis
  · exact notMine block.owner
  · exact notThis block.numbered

end Place

/-- The blocks are written back and new ones are taken. -/
structure Imported (vnode mid next : SVnodeObj Row) (sid : Nat) (pObj : SMeterObj)
    (pInfo : SCacheInfo) (pObj' : SMeterObj) (pInfo' : SCacheInfo) (pImport : SImportInfo)
    (number : Int) (payload left rest : List Row) (count : Nat) : Prop where
  rewritten : Rewritten vnode mid (placeOf pInfo) pObj.pointsPerBlock number
    (blocksFrom pInfo number) pImport.pos (payload ++ behind vnode pInfo number pImport.pos) left
  steady : Steady mid
  grown : Grown mid next sid pObj pInfo pObj' pInfo' count left rest

theorem Importing.rewritten_steady (importing : Importing vnode sid pObj pInfo pImport number)
    {buffer left : List Row} (rewritten : Rewritten vnode mid (placeOf pInfo) pObj.pointsPerBlock
      number (blocksFrom pInfo number) pImport.pos buffer left) : Steady mid := by
  obtain ⟨last, held, within, -⟩ := importing.bounds
  have above := importing.held
  have positive := (importing.steady.fits sid pObj pInfo importing.cache).some'
  refine (alike_of_bare rewritten.alike).steady importing.steady ?_ ?_
  · intro index nobody
    refine (@Importing.frame _ _ _ _ _ _ _ _ importing index rewritten.frame ?_).1
    intro other _ _
    left
    rw [nobody]
    exact (Option.some_ne_none sid).symm
  · intro owner ownerObj ownerInfo ownerCache index inside isOwner
    by_cases written : ∃ other, number ≤ other ∧ other ≤ number + blocksFrom pInfo number ∧
        index = placeOf pInfo other
    · obtain ⟨other, lower, upper, same⟩ := written
      have block := (@Importing.live _ _ _ _ _ _ _ importing other (by omega) (by omega)).block
      rw [same, block.owner] at isOwner
      cases isOwner
      rw [importing.cache] at ownerCache
      cases ownerCache
      rw [same, rewritten.points other lower upper]
      omega
    · have kept := (rewritten.frame index fun other lower upper same =>
        written ⟨other, lower, upper, same⟩).1
      rw [kept]
      exact importing.steady.points owner ownerObj ownerInfo ownerCache index inside isOwner

theorem subFreePoints_ends (cache : cacheOf next sid = some (pObj', pInfo')) (rows : Int) :
    ∃ last, subFreePoints next sid rows = some last := by
  obtain ⟨meter, found, -⟩ := bind_eq_some_iff.mp cache
  unfold subFreePoints
  rw [found]
  exact ⟨_, rfl⟩

theorem vnodeImportToCache_imported (importing : Importing vnode sid pObj pInfo pImport number)
    (room : ¬CacheFull pObj payload.length) :
    ∃ ended last mid next pObj' pInfo' left rest count,
      Imported vnode mid next sid pObj pInfo pObj' pInfo' pImport number payload left rest count ∧
      (rest = [] ↔ takes sid (blocksNeeded pObj pInfo number pImport.pos
        (payload ++ behind vnode pInfo number pImport.pos).length) vnode = true) ∧
      vnodeImportToCache vnode sid pImport payload =
        some (if rest = [] then 0 else -1, ended, last) ∧ (rest ≠ [] -> last = next) := by
  obtain ⟨last, held, within, size⟩ := importing.bounds
  have above := importing.held
  have fits := importing.steady.fits sid pObj pInfo importing.cache
  have positive := fits.some'
  have upper := (@Importing.live _ _ _ _ _ _ _ importing number (by omega) importing.upper).atMost
  have inside := importing.inside
  obtain ⟨copied, short'⟩ := importing.copied
  obtain ⟨left, mid, writtenBack, rewritten⟩ := @writeBack_spec _ vnode pObj pInfo number number
    pImport.pos _ pInfo.maxBlocks.toNat (blocksFrom pInfo number) importing.ring fits le_rfl last
    (by omega) importing.start (by omega) (payload ++ behind vnode pInfo number pImport.pos)
  have steady := importing.rewritten_steady rewritten
  have cache : cacheOf mid sid = some (pObj, pInfo) :=
    ((alike_of_bare rewritten.alike).cache sid).trans importing.cache
  obtain ⟨whole, commit, next, pObj', pInfo', count, rest, writtenNew, grown, -, all, given⟩ :=
    @writeNew_grown _ mid sid pObj pInfo (left.length + 1) pImport.commit left steady cache
      (Nat.lt_succ_self _)
  have needed : blocksFor pObj.pointsPerBlock left.length =
      blocksNeeded pObj pInfo number pImport.pos
        (payload ++ behind vnode pInfo number pImport.pos).length := by
    have isLeft := rewritten.left
    rw [blocksNeeded, isLeft, blocksFor_max positive]
    push_cast
    rfl
  rw [needed, takes_alike rewritten.alike] at given
  have start : vnodeImportToCache vnode sid pImport payload =
      (if whole then (subFreePoints next sid payload.length).map
          fun last => (0, { pImport with commit := commit }, last)
        else some (-1, { pImport with commit := commit }, next)) := by
    simp only [vnodeImportToCache, importing.cache, bind_eq_bind, bind_some]
    rw [if_neg room]
    simp only [copied, bind_some]
    rw [if_neg (not_lt.mpr short')]
    rw [<- importing.slot] at writtenBack
    simp only [writtenBack, bind_some, writtenNew]
    cases whole with
    | false => rfl
    | true =>
      cases subFreePoints next sid payload.length with
      | none => rfl
      | some last => rfl
  have imported : Imported vnode mid next sid pObj pInfo pObj' pInfo' pImport number payload left
    rest count := ⟨rewritten, steady, grown⟩
  cases whole with
  | true =>
    have none' := all.mp rfl
    obtain ⟨last, ends⟩ := subFreePoints_ends grown.cache payload.length
    refine ⟨{ pImport with commit := commit }, last, mid, next, pObj', pInfo', left, rest, count,
      imported, iff_of_true none' given.symm, ?_, fun some' => absurd none' some'⟩
    rw [start, if_pos rfl, ends, if_pos none']
    rfl
  | false =>
    have some' : rest ≠ [] := fun none' => Bool.false_ne_true (all.mpr none')
    refine ⟨{ pImport with commit := commit }, next, mid, next, pObj', pInfo', left, rest, count,
      imported, iff_of_false some' (by rw [<- given]; exact Bool.false_ne_true), ?_, fun _ => rfl⟩
    rw [start, if_neg some']
    rfl

theorem rowsFrom_moved {place place' : Int -> Nat} {count : Nat} (same : ∀ other, number ≤ other ->
    other < number + count -> blockRows next (place' other) = blockRows vnode (place other)) :
    rowsFrom next place' count number = rowsFrom vnode place count number := by
  induction count generalizing number with
  | zero => rfl
  | succ count ih =>
    push_cast at same
    rw [rowsFrom, rowsFrom, same number le_rfl (by omega),
      ih fun other lower upper => same other (by omega) (by omega)]

section Outcome

variable {left rest : List Row} {count : Nat}
  (importing : Importing vnode sid pObj pInfo pImport number)
  (imported : Imported vnode mid next sid pObj pInfo pObj' pInfo' pImport number payload left rest
    count)

include imported

theorem Imported.bounds : pInfo'.blocks = pInfo.blocks + count ∧
    pInfo'.unCommittedBlocks = pInfo.unCommittedBlocks + count ∧
      pInfo'.unCommittedBlocks ≤ pInfo'.numOfBlocks ∧ pInfo'.numOfBlocks ≤ pInfo.maxBlocks ∧
        0 ≤ pInfo'.blocks - pInfo'.numOfBlocks := by
  have grown := imported.grown
  have sound := grown.steady.sound grown.cache
  have within : pInfo'.unCommittedBlocks ≤ pInfo'.blocks - (pInfo'.blocks - pInfo'.numOfBlocks) :=
    sound.within
  have ring : pInfo'.blocks - (pInfo'.blocks - pInfo'.numOfBlocks) ≤ pInfo'.maxBlocks := sound.ring
  have start : 0 ≤ pInfo'.blocks - pInfo'.numOfBlocks := sound.start
  rw [grown.longer.maxBlocks] at ring
  exact ⟨grown.longer.blocks, grown.longer.held, by omega, by omega, start⟩

variable {other : Int}

theorem Imported.place (lower : pInfo'.blocks - pInfo.maxBlocks < other)
    (upper : other ≤ pInfo.blocks) : placeOf pInfo' other = placeOf pInfo other := by
  have longer := imported.grown.longer
  have slots := longer.slots other (by rw [<- longer.blocks]; exact lower) upper
  unfold placeOf
  rw [longer.maxBlocks, slots]

include importing

theorem Imported.heldRows (lower : pInfo.blocks - pInfo.unCommittedBlocks < other)
    (upper : other ≤ pInfo.blocks) :
    blockRows next (placeOf pInfo' other) = blockRows mid (placeOf pInfo other) := by
  obtain ⟨blocks, held, within, size, -⟩ := imported.bounds
  have start := importing.bounds
  have block := (@Importing.live _ _ _ _ _ _ _ importing other (by omega) upper).block
  have notFree : (mid.pool.pMem (placeOf pInfo other)).notFree = true := by
    rw [(alike_of_bare imported.rewritten.alike).notFree]
    exact block.notFree.mpr lower
  rw [imported.place (by omega) upper]
  exact blockRows_congr (imported.grown.held _ notFree)

theorem Imported.older (lower : pInfo'.blocks - pInfo'.numOfBlocks < other)
    (upper : other < number) :
    blockRows next (placeOf pInfo' other) = blockRows vnode (placeOf pInfo other) ∧
      pInfo.blocks - pInfo.numOfBlocks < other := by
  obtain ⟨blocks, held, within, size, first⟩ := imported.bounds
  obtain ⟨last, start, withinBefore, -⟩ := importing.bounds
  have grown := imported.grown
  have alike := alike_of_bare imported.rewritten.alike
  by_cases isHeld : pInfo.blocks - pInfo.unCommittedBlocks < other
  · have block := (@Importing.live _ _ _ _ _ _ _ importing other (by omega) (by omega)).block
    have kept := @Importing.frame _ _ _ _ _ _ _ _ importing (placeOf pInfo other)
      imported.rewritten.frame fun _ _ _ => Or.inr (by rw [block.numbered]; omega)
    exact ⟨(imported.heldRows importing isHeld (by omega)).trans (blockRows_congr kept), by omega⟩
  · have live := @steady_live _ _ _ _ _ other grown.steady grown.cache lower (by omega)
    have place := imported.place (show pInfo'.blocks - pInfo.maxBlocks < other by omega) (by omega)
    have block := live.block
    rw [place] at block
    have isFree : (next.pool.pMem (placeOf pInfo other)).notFree = false := by
      rw [Bool.eq_false_iff]
      intro notFree
      have above : pInfo'.blocks - pInfo'.unCommittedBlocks < other := block.notFree.mp notFree
      omega
    obtain ⟨head, rows⟩ := grown.free _ sid block.owner isFree
    have numbered : (mid.pool.pMem (placeOf pInfo other)).blockId = other := by
      rw [<- head]
      exact block.numbered
    have inside : placeOf pInfo other < mid.totalBlocks := by
      rw [<- grown.totalBlocks, <- place]
      exact live.inside
    obtain ⟨owner, ownerObj, ownerInfo, ownerCache, has, slot⟩ :=
      imported.steady.pooled.owned _ inside (by rw [numbered]; omega)
    have isOwner := (imported.steady.pooled.blockAt ownerCache has slot).2.owner
    rw [<- head, block.owner] at isOwner
    cases isOwner
    rw [(alike.cache sid).trans importing.cache] at ownerCache
    cases ownerCache
    rw [windowsOf_some ((alike.cache sid).trans importing.cache), numbered] at has
    have kept := @Importing.frame _ _ _ _ _ _ _ _ importing (placeOf pInfo other)
      imported.rewritten.frame fun another low _ => Or.inr (by
        rw [<- alike.blockId, numbered]
        omega)
    rw [place]
    exact ⟨blockRows_congr ⟨head.trans kept.1, rows.trans kept.2⟩, has.1⟩

theorem Imported.region : rowsFrom next (placeOf pInfo') (blocksFrom pInfo number + 1 + count)
    number ++ rest = readCells (vnode.pool.rows (placeOf pInfo number)) 0 pImport.pos ++
      (payload ++ behind vnode pInfo number pImport.pos) := by
  obtain ⟨last, -, -, -⟩ := importing.bounds
  have above := importing.held
  have existing : rowsFrom next (placeOf pInfo') (blocksFrom pInfo number + 1) number =
      rowsFrom mid (placeOf pInfo) (blocksFrom pInfo number + 1) number := by
    apply rowsFrom_moved
    intro other lower upper
    push_cast at upper
    exact imported.heldRows importing (by omega) (by omega)
  have following : number + ((blocksFrom pInfo number + 1 : Nat) : Int) = pInfo.blocks + 1 := by
    push_cast
    omega
  rw [rowsFrom_append, existing, following, append_assoc, imported.grown.rows,
    imported.rewritten.rows]

theorem Imported.mem_iff : row ∈ cachedRows next sid ↔
    (∃ other, pInfo'.blocks - pInfo'.numOfBlocks < other ∧ other < number ∧
      row ∈ blockRows vnode (placeOf pInfo other)) ∨
      row ∈ rowsFrom next (placeOf pInfo') (blocksFrom pInfo number + 1 + count) number := by
  obtain ⟨blocks, held, within, -, -⟩ := imported.bounds
  obtain ⟨last, -, -, -⟩ := importing.bounds
  have above := importing.held
  rw [mem_cachedRows imported.grown.cache imported.grown.steady, mem_rowsFrom]
  push_cast
  constructor
  · rintro ⟨other, lower, upper, member⟩
    by_cases before : other < number
    · rw [(imported.older importing lower before).1] at member
      exact Or.inl ⟨other, lower, before, member⟩
    · exact Or.inr ⟨other, by omega, by omega, member⟩
  · rintro (⟨other, lower, before, member⟩ | ⟨other, lower, upper, member⟩)
    · refine ⟨other, lower, by omega, ?_⟩
      rw [(imported.older importing lower before).1]
      exact member
    · exact ⟨other, by omega, by omega, member⟩

theorem Imported.front (none' : behind vnode pInfo number pImport.pos = []) :
    rowsFrom vnode (placeOf pInfo) (blocksFrom pInfo number + 1) number <+:
      rowsFrom next (placeOf pInfo') (blocksFrom pInfo number + 1 + count) number := by
  obtain ⟨last, held, within, -⟩ := importing.bounds
  have above := importing.held
  have live := @Importing.live _ _ _ _ _ _ _ importing number (by omega) importing.upper
  have inside := importing.inside
  have atMost := live.atMost
  have positive := (importing.steady.fits sid pObj pInfo importing.cache).some'
  have region := imported.region importing
  have before := importing.region
  rw [none', List.append_nil] at region before
  have fewer : rest.length ≤ payload.length := by
    have isLeft := imported.rewritten.left
    have isRest := imported.grown.left
    have more : 0 ≤ (blocksFrom pInfo number : Int) * pObj.pointsPerBlock :=
      Int.mul_nonneg (Int.natCast_nonneg _) (le_of_lt positive)
    have taken : 0 ≤ (count : Int) * pObj.pointsPerBlock :=
      Int.mul_nonneg (Int.natCast_nonneg _) (le_of_lt positive)
    rw [none', List.append_nil, add_mul, one_mul] at isLeft
    omega
  have lengths := congrArg List.length region
  rw [length_append, length_append] at lengths
  rw [<- before]
  refine List.prefix_of_prefix_length_le (List.prefix_append _ payload) ?_ (by omega)
  rw [<- region]
  exact List.prefix_append _ rest

theorem Imported.keeps (none' : behind vnode pInfo number pImport.pos = []) :
    RowsKept vnode next sid pInfo := by
  obtain ⟨blocks, held, within, -, -⟩ := imported.bounds
  obtain ⟨last, -, -, -⟩ := importing.bounds
  intro other lower upper row member
  rw [imported.mem_iff importing]
  by_cases before : other < number
  · by_cases stays : pInfo'.blocks - pInfo'.numOfBlocks < other
    · exact Or.inl (Or.inl ⟨other, stays, before, member⟩)
    · refine Or.inr ⟨by omega, ?_⟩
      intro lastObj lastInfo cache
      rw [imported.grown.cache] at cache
      cases cache
      omega
  · refine Or.inl (Or.inr ((imported.front importing none').subset ?_))
    exact mem_rowsFrom.mpr ⟨other, by omega, by push_cast; omega, member⟩

theorem Imported.loses (some' : behind vnode pInfo number pImport.pos ≠ []) (dropped : rest ≠ [])
    (distinct : (cachedRows vnode sid ++ payload).Nodup) : ¬RowsKept vnode next sid pInfo := by
  intro kept
  obtain ⟨blocks, held, withinNext, -, -⟩ := imported.bounds
  obtain ⟨last, start, within, -⟩ := importing.bounds
  have above := importing.held
  have before := importing.region
  have region := imported.region importing
  have isOlder : cachedRows vnode sid = rowsFrom vnode (placeOf pInfo)
      (number - (pInfo.blocks - pInfo.numOfBlocks + 1)).toNat (pInfo.blocks - pInfo.numOfBlocks + 1) ++
        rowsFrom vnode (placeOf pInfo) (blocksFrom pInfo number + 1) number := by
    have split : pInfo.numOfBlocks.toNat = (number - (pInfo.blocks - pInfo.numOfBlocks + 1)).toNat +
        (blocksFrom pInfo number + 1) := by omega
    have following : pInfo.blocks - pInfo.numOfBlocks + 1 +
        ((number - (pInfo.blocks - pInfo.numOfBlocks + 1)).toNat : Int) = number := by omega
    rw [cachedRows_some importing.cache, split, rowsFrom_append, following]
  obtain ⟨newest, lastRow⟩ := Option.ne_none_iff_exists'.mp (mt List.getLast?_eq_none_iff.mp some')
  have isBehind := List.mem_of_getLast? lastRow
  have wasCached : newest ∈ rowsFrom vnode (placeOf pInfo) (blocksFrom pInfo number + 1) number := by
    rw [<- before]
    exact List.mem_append_right _ isBehind
  have isRest : newest ∈ rest := by
    have lastOf := congrArg List.getLast? region
    rw [List.getLast?_append_of_ne_nil _ dropped, <- append_assoc,
      List.getLast?_append_of_ne_nil _ some', lastRow] at lastOf
    exact List.mem_of_getLast? lastOf
  obtain ⟨other, lower, upper, member⟩ := mem_rowsFrom.mp wasCached
  push_cast at upper
  rcases kept other (by omega) (by omega) newest member with still | ⟨committed, -⟩
  · rw [isOlder] at distinct
    rcases (imported.mem_iff importing).mp still with ⟨earlier, low, high, twice⟩ | inRegion
    · -- it would have been in an older block as well
      have first := (imported.older importing low high).2
      have inOlder : newest ∈ rowsFrom vnode (placeOf pInfo)
          (number - (pInfo.blocks - pInfo.numOfBlocks + 1)).toNat
            (pInfo.blocks - pInfo.numOfBlocks + 1) :=
        mem_rowsFrom.mpr ⟨earlier, by omega, by omega, twice⟩
      exact List.disjoint_of_nodup_append (List.Nodup.of_append_left distinct) inOlder wasCached
    · -- it would be in the buffer twice
      rw [append_assoc] at distinct
      have buffer : (rowsFrom next (placeOf pInfo') (blocksFrom pInfo number + 1 + count) number ++
          rest).Nodup := by
        have kept := List.Nodup.of_append_right distinct
        rw [<- before, append_assoc] at kept
        rw [region]
        exact (List.perm_append_comm.append_left _).nodup_iff.mp kept
      exact List.disjoint_of_nodup_append buffer inRegion isRest
  · omega

end Outcome

def insertRows (vnode : SVnodeObj Row) (rows : List (Nat × Row)) : Option (SVnodeObj Row) :=
  rows.foldlM (fun vnode row => (vnodeInsertPointToCache vnode row.1 row.2).map Prod.snd) vnode

theorem insertRows_steady {rows : List (Nat × Row)} (steady : Steady vnode)
    (run : insertRows vnode rows = some next) : Steady next := by
  induction rows generalizing vnode with
  | nil =>
    cases run
    exact steady
  | cons row more ih =>
    obtain ⟨mid, inserted, run⟩ := bind_eq_some_iff.mp run
    obtain ⟨result, ends, isMid⟩ := Option.map_eq_some_iff.mp inserted
    obtain ⟨both, cache, -⟩ := bind_eq_some_iff.mp ends
    obtain ⟨code, mid', ends', kinds⟩ := vnodeInsertPointToCache_inserted steady cache row.2
    rw [ends] at ends'
    cases ends'
    cases isMid
    exact ih (CacheRuns.inserted_stays kinds).1 run

end Loss

def twoMeters : SVnodeObj Int :=
  vnodeAllocateCacheInfo (vnodeAllocateCacheInfo (CacheRuns.vnodeOpenCachePool
    ⟨100, 4, 2, Nat.succ_pos _⟩ fun _ _ => 0) 0 2 24 0 200 4) 1 1 60 0 200 4

theorem twoMeters_steady : Steady twoMeters := by
  have opened := CacheRuns.open_steady ⟨100, 4, 2, by decide⟩ fun _ _ => (0 : Int)
  have first : Steady (vnodeAllocateCacheInfo (CacheRuns.vnodeOpenCachePool
      ⟨100, 4, 2, by decide⟩ fun _ _ => (0 : Int)) 0 2 24 0 200 4) :=
    vnodeAllocateCacheInfo_steady opened (by decide) rfl
      ⟨by decide +kernel, by decide +kernel, by decide +kernel⟩
  exact vnodeAllocateCacheInfo_steady first (by decide) rfl
    ⟨by decide +kernel, by decide +kernel, by decide +kernel⟩

/-- The first meter has filled one block with 10 and 20, the second one the other three. -/
def crowded : SVnodeObj Int :=
  (insertRows twoMeters [(0, 10), (0, 20), (1, 1), (1, 2), (1, 3)]).get (by decide +kernel)

theorem crowded_steady : Steady crowded :=
  insertRows_steady twoMeters_steady (some_get _).symm

def crowdedMeter : SMeterObj × SCacheInfo := (cacheOf crowded 0).get (by decide +kernel)

theorem crowdedMeter_cache : cacheOf crowded 0 = some (crowdedMeter.1, crowdedMeter.2) := by
  have found : (cacheOf crowded 0).isSome = true := by decide +kernel
  exact (some_get found).symm

def importAt (pos : Int) : SImportInfo := ⟨0, 0, 0, 0, 0, pos, 0⟩

theorem crowded_importing {pos : Int} (start : 0 ≤ pos) (inside : pos ≤ 2) :
    Importing crowded 0 crowdedMeter.1 crowdedMeter.2 (importAt pos) 1 := by
  have points : (crowded.pool.pMem (placeOf crowdedMeter.2 1)).numOfPoints = 2 := by decide +kernel
  have slot : (0 : Int) = slotOf crowdedMeter.2.maxBlocks 1 := by decide +kernel
  refine ⟨crowded_steady, crowdedMeter_cache, slot, by decide +kernel, by decide +kernel, start, ?_⟩
  rw [points]
  exact inside

end Luomi.Vnode.ImportLoss
