import Luomi.Vnode.QueryMoves

/-!
# One move of the cursor of a query

From the cache to the files, and from the files to the cache, the next block is
searched for by the last key; where no row is left out this is the block next to
the one the cursor leaves.
-/

namespace Luomi.Vnode.QuerySteps

open QueryBlocks QueryCursor QueryMoves
open List (getElem_mem mem_cons mem_flatten nil_append pairwise_append)

/-! ## Keys of blocks -/

variable {block next : List Int} {back front : List (List Int)} {meter : SMeterObj} {query : SQuery}
  {cursor : SPositionInfo}

theorem keyFirst_mem (some_ : block ≠ []) : keyFirst block ∈ block := by
  obtain ⟨key, rest, rfl⟩ := List.exists_cons_of_ne_nil some_
  exact List.mem_cons_self

theorem keyLast_mem (some_ : block ≠ []) : keyLast block ∈ block := by
  rw [keyLast, List.getLastD_eq_getLast?, List.getLast?_eq_some_getLast some_]
  exact List.getLast_mem some_

theorem block_increasing
    (blocks : meter.blocks = front ++ block :: back) : block.Pairwise (· < ·) := by
  have increasing := meter.increasing
  rw [blocks, List.flatten_append, List.flatten_cons] at increasing
  exact (pairwise_append.mp (pairwise_append.mp increasing).2.1).1

theorem keyFirst_le (increasing : block.Pairwise (· < ·)) {k : Int}
    (member : k ∈ block) : keyFirst block ≤ k := by
  cases block with
  | nil => cases member
  | cons key rest =>
    rcases mem_cons.mp member with same | later
    · exact same.ge
    · exact ((List.pairwise_cons.mp increasing).1 k later).le

theorem le_keyLast (increasing : block.Pairwise (· < ·)) {k : Int}
    (member : k ∈ block) : k ≤ keyLast block := by
  rcases List.eq_nil_or_concat block with rfl | ⟨rest, key, rfl⟩
  · cases member
  · rw [List.concat_eq_append] at increasing member ⊢
    rw [keyLast, List.getLastD_eq_getLast?, List.getLast?_concat, Option.getD_some]
    rcases List.mem_append.mp member with earlier | same
    · exact ((pairwise_append.mp increasing).2.2 k earlier key (List.mem_singleton_self _)).le
    · exact (List.mem_singleton.mp same).le

/-! ## From the files to the cache -/

theorem cacheSearch_first {skey : Int}
    (low : ∀ key ∈ meter.pCache.blocks.flatten, skey ≤ key) (m fuel : Nat)
    (inside : m < meter.pCache.numOfBlocks) (enough : m < fuel) :
    cacheSearch meter.pCache .asc skey fuel (getFirstCacheSlot meter.pCache)
      (ringSlot meter.pCache m) = some (ringSlot meter.pCache 0) := by
  have room := meter.room
  have first := firstCacheSlot_lt meter
  induction m using Nat.strongRecOn generalizing fuel with
  | ind m ih =>
    obtain ⟨fuel, rfl⟩ : ∃ f, fuel = f + 1 := ⟨fuel - 1, by omega⟩
    have count : (if (ringSlot meter.pCache m + 1 + meter.pCache.maxBlocks -
        getFirstCacheSlot meter.pCache) % meter.pCache.maxBlocks = 0 then meter.pCache.maxBlocks
        else (ringSlot meter.pCache m + 1 + meter.pCache.maxBlocks -
          getFirstCacheSlot meter.pCache) % meter.pCache.maxBlocks) = m + 1 := by
      have sum : (ringSlot meter.pCache m + 1 + meter.pCache.maxBlocks -
          getFirstCacheSlot meter.pCache) % meter.pCache.maxBlocks =
          (m + 1) % meter.pCache.maxBlocks := by
        rw [ringSlot_eq meter (by omega)]
        split
        · rw [show getFirstCacheSlot meter.pCache + m + 1 + meter.pCache.maxBlocks -
            getFirstCacheSlot meter.pCache = m + 1 + meter.pCache.maxBlocks by omega,
            Nat.add_mod_right]
        · rw [show getFirstCacheSlot meter.pCache + m - meter.pCache.maxBlocks + 1 +
            meter.pCache.maxBlocks - getFirstCacheSlot meter.pCache = m + 1 by omega]
      rw [sum]
      rcases Nat.lt_or_ge (m + 1) meter.pCache.maxBlocks with less | full
      · rw [Nat.mod_eq_of_lt less, if_neg (by omega)]
      · rw [show m + 1 = meter.pCache.maxBlocks by omega, Nat.mod_self, if_pos rfl]
    rw [cacheSearch]
    simp only [count]
    by_cases single : m + 1 = 1
    · rw [if_pos single, show m = 0 by omega]
      rfl
    · rw [if_neg single]
      rw [show (getFirstCacheSlot meter.pCache + (m + 1) / 2) % meter.pCache.maxBlocks =
        ringSlot meter.pCache ((m + 1) / 2) from rfl]
      obtain ⟨j, isMid⟩ : ∃ j, (m + 1) / 2 = j + 1 := ⟨(m + 1) / 2 - 1, by omega⟩
      have blockOf : ∀ i, i ≤ m -> meter.pCache.cacheBlocks (ringSlot meter.pCache i) ≠ [] ∧
          ∀ key ∈ meter.pCache.cacheBlocks (ringSlot meter.pCache i), skey ≤ key := by
        intro i small
        have member := List.mem_of_getElem? (cache_getElem meter.pCache
          (show i < meter.pCache.numOfBlocks by omega))
        exact ⟨meter.some_ _ (List.mem_append_right _ member),
          fun key isKey => low key (mem_flatten.mpr ⟨_, member, isKey⟩)⟩
      obtain ⟨someMid, lowMid⟩ := blockOf (j + 1) (by omega)
      obtain ⟨somePrev, lowPrev⟩ := blockOf j (by omega)
      have strict : skey < keyFirst (meter.pCache.cacheBlocks (ringSlot meter.pCache (j + 1))) := by
        have atJ := cache_getElem meter.pCache (show j < meter.pCache.numOfBlocks by omega)
        have atMid := cache_getElem meter.pCache (show j + 1 < meter.pCache.numOfBlocks by omega)
        have increasing := meter.increasing
        rw [SMeterData.blocks, List.flatten_append] at increasing
        have cached := (pairwise_append.mp increasing).2.1
        rw [List.pairwise_flatten] at cached
        have order := List.pairwise_iff_getElem.mp cached.2 j (j + 1)
          (by rw [cache_length]; omega) (by rw [cache_length]; omega) (by omega)
        rw [List.getElem?_eq_getElem (by rw [cache_length]; omega), Option.some.injEq] at atJ atMid
        rw [atJ, atMid] at order
        have less := order _ (keyFirst_mem somePrev) _ (keyFirst_mem someMid)
        have := lowPrev _ (keyFirst_mem somePrev)
        omega
      rw [isMid, if_neg (not_lt.mpr (lowMid _ (keyLast_mem someMid))), if_pos strict,
        ringSlot_pred meter (by omega : j < meter.pCache.numOfBlocks), if_neg (by
          have := lowPrev _ (keyLast_mem somePrev)
          simp only [true_and]
          omega)]
      exact ih j (by omega) fuel (by omega) (by omega)

variable {key : Int}

theorem searchFn_first (some_ : block ≠ [])
    (low : ∀ k ∈ block, key ≤ k) : searchFn block key .asc = some 0 := by
  have positive := List.length_pos_iff.mpr some_
  have first := low _ (keyFirst_mem some_)
  rw [keyFirst_eq] at first
  unfold searchFn Import.vnodeBinarySearchKey
  rw [if_neg (by omega)]
  simp only [decide_true, if_true, Int.toNat_natCast, Import.binarySearchAsc, Int.toNat_zero]
  rw [if_pos first]

theorem keyAt_firstPos (order : QueryOrder) (some_ : block ≠ []) :
    keyAt block (firstPos order block) =
      some (match order with | .asc => keyFirst block | .desc => keyLast block) := by
  have positive := List.length_pos_iff.mpr some_
  cases order with
  | asc =>
    obtain ⟨key, rest, rfl⟩ := List.exists_cons_of_ne_nil some_
    rfl
  | desc =>
    change (if 0 ≤ (block.length : Int) - 1 then block[((block.length : Int) - 1).toNat]?
      else none) = some (keyLast block)
    rw [if_pos (by omega), show ((block.length : Int) - 1).toNat = block.length - 1 by omega,
      <- List.getLast?_eq_getElem?, keyLast, List.getLastD_eq_getLast?,
      List.getLast?_eq_some_getLast some_]
    rfl

def Moved (query query' : SQuery) : Prop :=
  ∃ cursor loaded keysLoaded status, query' = { query with
    cursor := cursor, loaded := loaded, keysLoaded := keysLoaded, status := status }

theorem Moved.trans {a b c : SQuery} (first : Moved a b) (second : Moved b c) : Moved a c := by
  obtain ⟨_, _, _, _, rfl⟩ := first
  obtain ⟨_, _, _, _, rfl⟩ := second
  exact ⟨_, _, _, _, rfl⟩

theorem getQueryStartPositionInCache_first
    (asc : query.order = .asc) (reached : query.skey ≤ query.lastKey)
    (low : ∀ key ∈ meter.pCache.blocks.flatten, query.lastKey ≤ key)
    {rest : List (List Int)} (blocks : meter.pCache.blocks = next :: rest) :
    getQueryStartPositionInCache meter.toSMeterData query =
      some ({ query with
        cursor := ⟨-1, ringSlot meter.pCache 0, 0⟩
        loaded := true
        keysLoaded := true }, keyFirst next) := by
  have length := cache_length meter.pCache
  rw [blocks, List.length_cons] at length
  have search : binarySearchInCacheBlk meter.pCache query.order query.lastKey =
      some (ringSlot meter.pCache 0) := by
    have last : ringSlot meter.pCache (meter.pCache.numOfBlocks - 1) =
        meter.pCache.currentSlot := (ringSlot_current meter (by omega)).mpr (by omega)
    have room := meter.room
    rw [binarySearchInCacheBlk, asc, <- last]
    exact cacheSearch_first low _ _ (by omega) (by omega)
  obtain ⟨-, isNext⟩ := cache_split (blocks.trans (nil_append _).symm)
  rw [List.length_nil] at isNext
  have someNext : next ≠ [] := meter.some_ next (by simp [SMeterData.blocks, blocks])
  have lowNext : ∀ key ∈ next, query.lastKey ≤ key := fun key member =>
    low key (by simp [blocks, member])
  have found : searchFn next query.lastKey query.order = some 0 := by
    rw [asc]
    exact searchFn_first someNext lowNext
  have keyThere : keyAt next 0 = some (keyFirst next) := keyAt_firstPos .asc someNext
  have notBefore : ¬ ((query.order = .asc ∧ keyFirst next < query.lastKey) ∨
      (query.order = .desc ∧ query.lastKey < keyFirst next)) := by
    have := lowNext _ (keyFirst_mem someNext)
    rw [asc]
    simp only [true_and, reduceCtorEq, false_and, or_false]
    omega
  unfold getQueryStartPositionInCache
  rw [if_neg (by omega), if_pos (Or.inl ⟨asc, reached⟩)]
  simp only [search, isNext, found, keyThere, if_neg notBefore]
  rfl

theorem getFirstDataBlockInCache_spec {meter : SMeterObj} {query : SQuery}
    (cached : query.cursor.fileId = -1) (asc : query.order = .asc)
    (reached : query.skey ≤ query.lastKey)
    (low : ∀ key ∈ meter.pCache.blocks.flatten, query.lastKey ≤ key) :
    ∃ query', getFirstDataBlockInCache meter.toSMeterData query = some query' ∧ Moved query query' ∧
      ((meter.pCache.blocks = [] ∧ query'.status = setNoData query.status ∧
          query'.cursor = query.cursor) ∨ ∃ next rest, meter.pCache.blocks = next :: rest ∧
          Here meter query'.cursor (blocksIn meter.pHeaderFiles) next rest ∧
          query'.cursor.pos = firstPos .asc next ∧ query'.loaded = true ∧ query'.keysLoaded = true ∧
          query'.status = (if query.ekey < keyFirst next then setCompleted query.status
            else query.status)) := by
  have length := cache_length meter.pCache
  unfold getFirstDataBlockInCache
  rw [if_pos ⟨cached, asc⟩]
  cases blocks : meter.pCache.blocks with
  | nil =>
    rw [blocks] at length
    have none_ : meter.pCache.numOfBlocks = 0 := length.symm
    unfold getQueryStartPositionInCache
    rw [if_pos none_]
    refine ⟨_, rfl, ⟨_, _, _, _, rfl⟩, Or.inl ⟨rfl, rfl, ?_⟩⟩
    simp only [<- cached]
  | cons next rest =>
    have positive : 0 < keyFirst next :=
      meter.positive _ (by
        have someNext : next ≠ [] := meter.some_ next (by simp [SMeterData.blocks, blocks])
        simp [SMeterData.blocks, blocks, keyFirst_mem someNext])
    rw [getQueryStartPositionInCache_first asc reached low blocks]
    simp only
    rw [if_neg (by omega)]
    have there := @Here.cache meter _ _ _ 0 (blocks.trans (nil_append _).symm)
    rw [List.append_nil, List.length_nil] at there
    by_cases beyond : query.ekey < keyFirst next
    · rw [if_pos beyond]
      refine ⟨_, rfl, ⟨_, _, _, _, rfl⟩, Or.inr ⟨next, rest, rfl, there, rfl, rfl, rfl, ?_⟩⟩
      rw [if_pos beyond]
    · rw [if_neg beyond]
      refine ⟨_, rfl, ⟨_, _, _, _, rfl⟩, Or.inr ⟨next, rest, rfl, there, rfl, rfl, rfl, ?_⟩⟩
      rw [if_neg beyond]

/-! ## From the cache to the files -/

theorem files_split {files : List SQueryFileInfo}
    (sorted : files.Pairwise fun before after => before.fileID < after.fileID) (fid : Int) :
    ∃ older newer, files = older ++ newer ∧ (∀ file ∈ older, file.fileID ≤ fid) ∧
      ∀ file ∈ newer, fid < file.fileID := by
  induction files with
  | nil => exact ⟨[], [], rfl, by simp, by simp⟩
  | cons file rest ih =>
    rw [List.pairwise_cons] at sorted
    by_cases small : file.fileID ≤ fid
    · obtain ⟨older, newer, splits, isOlder, isNewer⟩ := ih sorted.2
      refine ⟨file :: older, newer, by rw [splits]; rfl, ?_, isNewer⟩
      intro other member
      rcases mem_cons.mp member with rfl | isIn
      · exact small
      · exact isOlder other isIn
    · refine ⟨[], file :: rest, rfl, by simp, ?_⟩
      intro other member
      rcases mem_cons.mp member with rfl | isIn
      · omega
      · have := sorted.1 other isIn
        omega

theorem empty_beyond {meter : SMeterObj} {key : Int}
    (high : ∀ k ∈ (blocksIn meter.pHeaderFiles).flatten, k ≤ key) {newer : List SQueryFileInfo}
    (inFiles : ∀ file ∈ newer, file ∈ meter.pHeaderFiles)
    (isNewer : ∀ file ∈ newer, getFileIdFromKey meter.toSMeterData key < file.fileID) :
    blocksIn newer = [] := by
  refine List.flatMap_eq_nil_iff.mpr fun file isFile => ?_
  by_contra some_
  obtain ⟨block, rest, isBlocks⟩ := List.exists_cons_of_ne_nil some_
  have inBlocks : block ∈ blocksIn meter.pHeaderFiles :=
    mem_blocksIn (inFiles file isFile) (by simp [isBlocks])
  have inMeter : block ∈ meter.blocks := List.mem_append_left _ inBlocks
  have first := keyFirst_mem (meter.some_ block inMeter)
  have small := high _ (mem_flatten.mpr ⟨block, inBlocks, first⟩)
  have positive := meter.positive _ (mem_flatten.mpr ⟨block, inMeter, first⟩)
  have itsFile := meter.inFile file (inFiles file isFile) (keyFirst block)
    (mem_flatten.mpr ⟨block, by simp [isBlocks], first⟩)
  have beyond := isNewer file isFile
  rw [getFileIdFromKey, Int.tdiv_eq_ediv_of_nonneg (by omega), <- itsFile] at beyond
  exact absurd (Int.ediv_le_ediv meter.deltaPos small) (not_le.mpr beyond)

theorem searchLoop_desc_last {blocks : List (List Int)}
    (some_ : ∀ block ∈ blocks, block ≠ []) (increasing : blocks.flatten.Pairwise (· < ·))
    (high : ∀ k ∈ blocks.flatten, k ≤ key) (firstSlot lastSlot : Nat)
    (ordered : firstSlot ≤ lastSlot) (isLast : lastSlot + 1 = blocks.length) :
    searchLoop (blocks.map compBlock) key .desc firstSlot lastSlot = some lastSlot := by
  induction measure : lastSlot - firstSlot using Nat.strongRecOn generalizing firstSlot with
  | ind _ ih =>
    subst measure
    rw [searchLoop]
    by_cases single : lastSlot - firstSlot + 1 = 1
    · rw [if_pos single, single, show firstSlot + 1 / 2 = lastSlot by omega]
    · rw [if_neg single]
      generalize midIs : firstSlot + (lastSlot - firstSlot + 1) / 2 = midSlot
      have inside : midSlot < blocks.length := by omega
      have midAt : (blocks.map compBlock)[midSlot]? = some (compBlock blocks[midSlot]) := by
        rw [List.getElem?_map, List.getElem?_eq_getElem inside]
        rfl
      have someMid := some_ _ (getElem_mem inside)
      have lowMid : (compBlock blocks[midSlot]).keyFirst ≤ key :=
        high _ (mem_flatten.mpr ⟨_, getElem_mem inside, keyFirst_mem someMid⟩)
      rw [midAt]
      simp only
      by_cases later : key > (compBlock blocks[midSlot]).keyLast
      · rw [if_pos later]
        by_cases pair : lastSlot - firstSlot + 1 = 2
        · rw [if_pos pair, show midSlot = lastSlot by omega]
        · have nextInside : midSlot + 1 < blocks.length := by omega
          have nextAt : (blocks.map compBlock)[midSlot + 1]? =
              some (compBlock blocks[midSlot + 1]) := by
            rw [List.getElem?_map, List.getElem?_eq_getElem nextInside]
            rfl
          have lowNext : (compBlock blocks[midSlot + 1]).keyFirst ≤ key :=
            high _ (mem_flatten.mpr ⟨_, getElem_mem nextInside,
              keyFirst_mem (some_ _ (getElem_mem nextInside))⟩)
          rw [if_neg pair, if_pos trivial, nextAt]
          simp only
          rw [if_neg (not_lt.mpr lowNext)]
          exact ih _ (by omega) (midSlot + 1) (by omega) rfl
      · rw [if_neg later, if_neg (not_lt.mpr lowMid)]
        -- The key lies in this block, which must be the last one.
        have isEnd : midSlot = lastSlot := by
          by_contra before
          have reaches : key ≤ keyLast blocks[midSlot] := not_lt.mp later
          have nextInside : midSlot + 1 < blocks.length := by omega
          have order := (List.pairwise_flatten.mp increasing).2
          have less := List.pairwise_iff_getElem.mp order midSlot (midSlot + 1) inside nextInside
            (by omega) _ (keyLast_mem someMid) _
            (keyFirst_mem (some_ _ (getElem_mem nextInside)))
          have := high _ (mem_flatten.mpr ⟨_, getElem_mem nextInside,
            keyFirst_mem (some_ _ (getElem_mem nextInside))⟩)
          omega
        rw [isEnd]

theorem searchFn_last (some_ : block ≠ [])
    (increasing : block.Pairwise (· < ·)) (high : ∀ k ∈ block, k ≤ key) :
    searchFn block key .desc = some (firstPos .desc block) := by
  obtain ⟨n, found, inside, -, beyond⟩ :=
    searchFn_desc some_ increasing (high _ (keyFirst_mem some_))
  have isLast : n + 1 = block.length := by
    by_contra before
    have member : block[n + 1] ∈ block.drop (n + 1) := by
      rw [List.mem_drop_iff_getElem]
      exact ⟨0, by omega, rfl⟩
    have := beyond _ member
    have := high _ (getElem_mem (show n + 1 < block.length by omega))
    omega
  rw [found, firstPos, numOfPoints, <- isLast]
  push_cast
  rw [Int.add_sub_cancel]

theorem nextFile_from_key (high : ∀ k ∈ (blocksIn meter.pHeaderFiles).flatten, k ≤ key) :
    (nextFile meter.toSMeterData .desc (getFileIdFromKey meter.toSMeterData key - step .desc) =
        some (-1) ∧ blocksIn meter.pHeaderFiles = []) ∨
      ∃ older file newer, nextFile meter.toSMeterData .desc
          (getFileIdFromKey meter.toSMeterData key - step .desc) = some file.fileID ∧
        meter.pHeaderFiles = older ++ file :: newer ∧ file.blocks ≠ [] ∧ blocksIn newer = [] := by
  obtain ⟨older, newer, files, isOlder, isNewer⟩ := files_split meter.ordered
    (getFileIdFromKey meter.toSMeterData key)
  have empty := @empty_beyond meter key high newer (fun file isIn => by simp [files, isIn]) isNewer
  obtain ⟨found, isFound, isNext⟩ := getNext_desc older newer
    (getFileIdFromKey meter.toSMeterData key - step .desc) (meter.pHeaderFiles.length + 1) files
    (fun file member => by
      have := isOlder file member
      simp only [step]
      omega)
    (fun file member => by
      have := isNewer file member
      simp only [step]
      omega)
    (by simp [files])
  cases isNext with
  | none none_ => exact Or.inl ⟨isFound, by rw [files, blocksIn_append, none_, empty]; rfl⟩
  | @desc empties rest next none_ some_ =>
    refine Or.inr ⟨rest, next, empties ++ newer, isFound, by simp [files], some_, ?_⟩
    rw [blocksIn_append, none_, empty]
    rfl

theorem getQualifiedDataBlock_last {meter : SMeterObj} {query : SQuery} (desc : query.order = .desc)
    (high : ∀ k ∈ (blocksIn meter.pHeaderFiles).flatten, k ≤ query.lastKey) :
    ∃ query' found, getQualifiedDataBlock meter.toSMeterData query = some (query', found) ∧
      Moved query query' ∧ query'.status = query.status ∧
      ((found = false ∧ blocksIn meter.pHeaderFiles = [] ∧
          query'.cursor = ⟨-1, -1, query.cursor.pos⟩) ∨ (found = true ∧ 0 ≤ query'.cursor.fileId ∧
          ∃ rest next, blocksIn meter.pHeaderFiles = rest ++ [next] ∧
            Here meter query'.cursor rest next meter.pCache.blocks ∧
            query'.cursor.pos = firstPos .desc next ∧ query'.loaded = true ∧
            query'.keysLoaded = true)) := by
  unfold getQualifiedDataBlock qualifiedFile
  rw [desc]
  rcases nextFile_from_key high with ⟨noFile, none_⟩ | ⟨older, file, newer, isFile, files, some_, empty⟩
  · rw [noFile]
    exact ⟨_, _, rfl, ⟨_, _, _, _, by rw [desc]⟩, rfl, Or.inl ⟨rfl, none_, rfl⟩⟩
  · have nonneg := fileID_nonneg files
    rcases List.eq_nil_or_concat file.blocks with isEmpty | ⟨front, last, isBlocks⟩
    · exact absurd isEmpty some_
    · rw [List.concat_eq_append] at isBlocks
      have inMeter : ∀ block ∈ file.blocks, block ∈ blocksIn meter.pHeaderFiles :=
        fun block isBlock => mem_blocksIn (by simp [files]) isBlock
      have lowBlocks : ∀ k ∈ file.blocks.flatten, k ≤ query.lastKey := by
        intro k member
        obtain ⟨block, isBlock, isKey⟩ := mem_flatten.mp member
        exact high k (mem_flatten.mpr ⟨block, inMeter block isBlock, isKey⟩)
      have increasing : file.blocks.flatten.Pairwise (· < ·) := by
        have whole := meter.increasing
        rw [SMeterData.blocks, files, blocksIn_append, blocksIn_cons] at whole
        simp only [List.flatten_append] at whole
        have inFiles := (pairwise_append.mp whole).1
        exact (pairwise_append.mp (pairwise_append.mp inFiles).2.1).1
      have someBlocks : ∀ block ∈ file.blocks, block ≠ [] := fun block isBlock =>
        meter.some_ block (List.mem_append_left _ (inMeter block isBlock))
      have search : binarySearchForBlock file.blocks query.lastKey .desc = some front.length := by
        have length : file.blocks.length = front.length + 1 := by simp [isBlocks]
        unfold binarySearchForBlock binarySearchForBlockImpl
        rw [length, Nat.add_sub_cancel]
        exact searchLoop_desc_last someBlocks increasing lowBlocks 0 front.length (by omega)
          length.symm
      have lastIn : last ∈ file.blocks := by simp [isBlocks]
      have someLast := someBlocks last lastIn
      have atLast : file.blocks[front.length]? = some last := by simp [isBlocks]
      have lowLast : ∀ k ∈ last, k ≤ query.lastKey := fun k isKey =>
        lowBlocks k (mem_flatten.mpr ⟨last, lastIn, isKey⟩)
      have lastIncreasing : last.Pairwise (· < ·) :=
        (List.pairwise_flatten.mp increasing).1 last lastIn
      have found := searchFn_last someLast lastIncreasing lowLast
      have onDisk := getDiskDataBlock_file files (isBlocks : file.blocks = front ++ last :: [])
      have positive := List.length_pos_iff.mpr someLast
      have inside : 0 ≤ firstPos .desc last := by
        simp only [firstPos, numOfPoints]
        omega
      rw [isFile]
      simp only [not_lt.mpr nonneg, if_false, blocksOf_file files, search, atLast,
        lowLast _ (keyFirst_mem someLast), decide_true, if_true, onDisk, found, inside]
      refine ⟨_, _, rfl, ⟨_, _, _, _, by rw [desc]⟩, rfl, Or.inr ⟨rfl, nonneg,
        blocksIn older ++ front, last, ?_, ?_, rfl, rfl, rfl⟩⟩
      · rw [files, blocksIn_append, blocksIn_cons, isBlocks, empty]
        simp
      · have there := @Here.file meter _ _ _ _ _ _ (firstPos .desc last) files
          (isBlocks : file.blocks = front ++ last :: [])
        rw [empty] at there
        exact there

/-! ## Loading a block -/

variable {order : QueryOrder}

theorem searchFn_start (some_ : block ≠ [])
    (increasing : block.Pairwise (· < ·)) (low : ∀ k ∈ block, UpTo order key k) :
    searchFn block key order = some (firstPos order block) := by
  cases order with
  | asc => exact searchFn_first some_ low
  | desc => exact searchFn_last some_ increasing low

/-- The assertions on `lastKey` hold. -/
def InQuery (query : SQuery) : Prop :=
  match query.order with
  | .asc => query.skey ≤ query.lastKey
  | .desc => query.lastKey ≤ query.skey ∧ query.ekey ≤ query.lastKey

structure Ready (functions : Functions) (query : SQuery) (block : List Int)
    (blockLoadStatus : LoadStatus) : Prop where
  discarded : blockLoadStatus = .discarded -> 0 ≤ query.cursor.fileId ∧
    isCovered query block = true ∧ functions.demand query.accessed block = .discarded
  unread : blockLoadStatus = .loaded -> query.loaded = false -> isCovered query block = true ∧
    functions.demand query.accessed block = .notNeeded
  keys : blockLoadStatus = .loaded -> query.loaded = true ->
    needPrimaryTimestampCol query block = true -> query.keysLoaded = true

section

variable {functions : Functions} {query : SQuery} {block : List Int} (some_ : block ≠ [])
  (increasing : block.Pairwise (· < ·)) (low : ∀ k ∈ block, UpTo query.order query.lastKey k)
  (inQuery : InQuery query)

include some_ increasing low inQuery

theorem loadAll_spec (atStart : query.cursor.pos = firstPos query.order block) :
    ∃ query', loadAll query block = some (query', .loaded) ∧ Moved query query' ∧
      query'.cursor = query.cursor ∧ query'.status = query.status ∧
      Ready functions query' block .loaded := by
  have asserted : (query.order = .asc ∧ query.skey ≤ query.lastKey) ∨
      (query.order = .desc ∧ query.ekey ≤ query.lastKey) := by
    unfold InQuery at inQuery
    split at inQuery
    · exact Or.inl ⟨by assumption, inQuery⟩
    · exact Or.inr ⟨by assumption, inQuery.2⟩
  unfold loadAll
  simp only [asserted, if_true, searchFn_start some_ increasing low]
  by_cases loadTS : needPrimaryTimestampCol query block = true
  · rw [if_pos loadTS]
    refine ⟨_, rfl, ⟨_, _, _, _, rfl⟩, ?_, rfl, ?_⟩
    · simp only [<- atStart]
    · exact ⟨fun isDiscarded => (by cases isDiscarded), fun _ notLoaded => (by cases notLoaded),
        fun _ _ _ => loadTS⟩
  · rw [if_neg loadTS]
    refine ⟨_, rfl, ⟨_, _, _, _, rfl⟩, rfl, rfl, ?_⟩
    exact ⟨fun isDiscarded => (by cases isDiscarded), fun _ notLoaded => (by cases notLoaded),
      fun _ _ isNeeded => absurd isNeeded loadTS⟩

theorem LoadDatablockOnDemand_spec (inFile : 0 ≤ query.cursor.fileId) :
    ∃ query' blockLoadStatus, LoadDatablockOnDemand functions query block query.cursor.slot =
        some (query', blockLoadStatus) ∧ Moved query query' ∧
      query'.cursor = ⟨query.cursor.fileId, query.cursor.slot, firstPos query.order block⟩ ∧
      query'.status = query.status ∧ Ready functions query' block blockLoadStatus := by
  unfold LoadDatablockOnDemand
  simp only
  generalize isStarted : ({ query with
    cursor := ⟨query.cursor.fileId, query.cursor.slot, firstPos query.order block⟩
    loaded := false
    keysLoaded := false } : SQuery) = started
  have moved : Moved query started := ⟨_, _, _, _, isStarted.symm⟩
  obtain ⟨query', runs, moved', sameCursor, sameStatus, ready⟩ :=
    @loadAll_spec functions started block some_ increasing
      (by rw [<- isStarted]; exact low) (by rw [<- isStarted]; exact inQuery)
      (by rw [<- isStarted])
  have cursorIs : started.cursor = ⟨query.cursor.fileId, query.cursor.slot, firstPos query.order
    block⟩ := by
    rw [<- isStarted]
  have statusIs : started.status = query.status := by rw [<- isStarted]
  have whole : ∃ query' blockLoadStatus, loadAll started block = some (query', blockLoadStatus) ∧
      Moved query query' ∧
      query'.cursor = ⟨query.cursor.fileId, query.cursor.slot, firstPos query.order block⟩ ∧
      query'.status = query.status ∧ Ready functions query' block blockLoadStatus :=
    ⟨query', .loaded, runs, moved.trans moved', sameCursor.trans cursorIs,
      sameStatus.trans statusIs, ready⟩
  by_cases covered : isCovered started block = true
  · rw [if_pos covered]
    have sameAccessed : started.accessed = query.accessed := by rw [<- isStarted]
    cases demand : functions.demand query.accessed block with
    | needed => exact whole
    | notNeeded =>
      refine ⟨_, _, rfl, moved, cursorIs, statusIs, fun isDiscarded => (by cases isDiscarded),
        fun _ _ => ⟨covered, sameAccessed ▸ demand⟩, fun _ isLoaded => ?_⟩
      rw [<- isStarted] at isLoaded
      cases isLoaded
    | discarded =>
      refine ⟨_, _, rfl, moved, cursorIs, statusIs, fun _ => ⟨?_, covered, sameAccessed ▸ demand⟩,
        fun isLoaded => (by cases isLoaded), fun isLoaded => (by cases isLoaded)⟩
      rw [cursorIs]
      exact inFile
  · rw [if_neg covered]
    exact whole

end

/-! ## One move -/

inductive Adjacent : QueryOrder -> List (List Int) -> List Int -> List (List Int) ->
    List (List Int) -> List Int -> List (List Int) -> Prop where
  | asc (front : List (List Int)) (block next : List Int) (rest : List (List Int)) :
      Adjacent .asc front block (next :: rest) (front ++ [block]) next rest
  | desc (rest : List (List Int)) (next block : List Int) (back : List (List Int)) :
      Adjacent .desc (rest ++ [next]) block back rest next (block :: back)

def Savable (cursor : SPositionInfo) : Prop :=
  -1 ≤ cursor.fileId ∧ -1 ≤ cursor.slot ∧ -1 ≤ cursor.pos

def Beyond (query : SQuery) (block : List Int) : Prop :=
  match query.order with
  | .asc => query.ekey < keyFirst block
  | .desc => keyLast block < query.ekey

/-- The range is found to be at its end only between the files and the cache. -/
structure NextStatus (query query' : SQuery) (next : List Int) : Prop where
  stays : (query'.cursor.fileId < 0 ↔ query.cursor.fileId < 0) -> query'.status = query.status
  crosses : ¬ (query'.cursor.fileId < 0 ↔ query.cursor.fileId < 0) ->
    (Beyond query next -> query'.status = setCompleted query.status) ∧
      (¬ Beyond query next -> query'.status = query.status)

variable {query' : SQuery}

theorem NextStatus.cases (status : NextStatus query query' next) : query'.status = query.status ∨
      (query'.status = setCompleted query.status ∧ Beyond query next) := by
  by_cases side : query'.cursor.fileId < 0 ↔ query.cursor.fileId < 0
  · exact Or.inl (status.stays side)
  · have crossed := status.crosses side
    by_cases beyond : Beyond query next
    · exact Or.inr ⟨crossed.1 beyond, beyond⟩
    · exact Or.inl (crossed.2 beyond)

theorem nextStatus_same (side : query'.cursor.fileId < 0 ↔ query.cursor.fileId < 0)
    (same : query'.status = query.status) : NextStatus query query' next :=
  ⟨fun _ => same, fun crossed => absurd side crossed⟩

structure AtNext (meter : SMeterObj) (query : SQuery) (front : List (List Int))
    (block : List Int) (back : List (List Int)) (query' : SQuery) (next : List Int) : Prop where
  there : ∃ front' back', Adjacent query.order front block back front' next back' ∧
    Here meter query'.cursor front' next back'
  status : NextStatus query query' next

theorem savable_here (here : Here meter cursor front block back) (inside : 0 ≤ cursor.pos) :
    Savable cursor := by
  cases here with
  | file pos files blocks =>
    have := fileID_nonneg files
    exact ⟨by simp only; omega, by simp only; omega, by omega⟩
  | cache pos blocks => exact ⟨by simp, by simp only; omega, by omega⟩

theorem cache_here (here : Here meter cursor front block back) (cached : cursor.fileId < 0) :
    ∃ older, front = blocksIn meter.pHeaderFiles ++ older ∧
      meter.pCache.blocks = older ++ block :: back ∧ cursor.fileId = -1 ∧
      cursor.slot = ringSlot meter.pCache older.length := by
  cases here with
  | file pos files blocks => exact absurd cached (not_lt.mpr (fileID_nonneg files))
  | cache pos blocks => exact ⟨_, rfl, blocks, rfl, rfl⟩

section

variable {meter : SMeterObj} {query : SQuery} {front back : List (List Int)} {block : List Int}
  (here : Here meter query.cursor front block back) (cached : query.cursor.fileId < 0)
  (inside : 0 ≤ query.cursor.pos)

include here cached inside

theorem moveToNextBlockInCache_asc (asc : query.order = .asc) :
    ∃ query', moveToNextBlockInCache meter.toSMeterData query = some query' ∧ Moved query query' ∧
      ((back = [] ∧ query'.status = setNoData query.status ∧ Savable query'.cursor) ∨
        ∃ next, AtNext meter query front block back query' next ∧
          query'.cursor.pos = firstPos query.order next ∧ query'.loaded = true ∧
          query'.keysLoaded = true) := by
  obtain ⟨older, rfl, blocks, inCache, slot⟩ := cache_here here cached
  obtain ⟨insideRing, -⟩ := cache_split blocks
  have length := cache_length meter.pCache
  rw [blocks, List.length_append, List.length_cons] at length
  unfold moveToNextBlockInCache
  by_cases last : older.length + 1 = meter.pCache.numOfBlocks
  · have isLast := (ringSlot_current meter insideRing).mpr last
    rw [if_pos ⟨asc, by rw [slot, isLast]⟩]
    exact ⟨_, rfl, ⟨_, _, _, _, rfl⟩, Or.inl ⟨List.length_eq_zero_iff.mp (by omega), rfl,
      savable_here here inside⟩⟩
  · have notLast := mt (ringSlot_current meter insideRing).mp last
    obtain ⟨next, rest, rfl⟩ : ∃ next rest, back = next :: rest :=
      List.exists_cons_of_ne_nil (by rintro rfl; simp at length; omega)
    have splits : meter.pCache.blocks = (older ++ [block]) ++ next :: rest := by simp [blocks]
    have nextSlot : (query.cursor.slot + step query.order + meter.pCache.maxBlocks) %
        meter.pCache.maxBlocks = (ringSlot meter.pCache (older ++ [block]).length : Nat) := by
      rw [slot, asc, List.length_append, List.length_singleton, <- ringSlot_succ, Int.natCast_mod]
      simp [step]
    have found := getCacheDataBlock_ring splits
    have someNext : next ≠ [] := meter.some_ next (by simp [SMeterData.blocks, splits])
    have positive : 0 < keyFirst next := meter.positive _
      (by simp [SMeterData.blocks, splits, keyFirst_mem someNext])
    have keyThere : keyAt next (firstPos query.order next) = some (keyFirst next) := by
      rw [asc]
      exact keyAt_firstPos .asc someNext
    rw [if_neg (by rintro ⟨-, same⟩; rw [slot] at same; exact notLast (by exact_mod_cast same)),
      if_neg (by rw [asc]; simp)]
    simp only [nextSlot, found, keyThere]
    rw [if_neg (by omega)]
    refine ⟨_, rfl, ⟨_, _, _, _, rfl⟩, Or.inr ⟨next, ⟨?_, nextStatus_same Iff.rfl rfl⟩, rfl, rfl,
      rfl⟩⟩
    rw [inCache]
    refine ⟨_, _, ?_, @Here.cache meter _ _ _ (firstPos query.order next) splits⟩
    rw [asc, <- List.append_assoc]
    exact .asc _ _ _ _

theorem moveToNextBlockInCache_desc (desc : query.order = .desc)
    (started : front = blocksIn meter.pHeaderFiles -> front ≠ [] -> query.startPos.fileId < 0)
    (behind : ∀ k ∈ front.flatten, k ≤ query.lastKey) :
    ∃ query', moveToNextBlockInCache meter.toSMeterData query = some query' ∧ Moved query query' ∧
      ((front = [] ∧ query'.status = setNoData query.status ∧ Savable query'.cursor) ∨
        ∃ next, AtNext meter query front block back query' next ∧
          query'.cursor.pos = firstPos query.order next ∧ query'.loaded = true ∧
          query'.keysLoaded = true) := by
  obtain ⟨older, rfl, blocks, inCache, slot⟩ := cache_here here cached
  obtain ⟨insideRing, -⟩ := cache_split blocks
  unfold moveToNextBlockInCache
  rw [if_neg (by rw [desc]; simp)]
  by_cases first : older.length = 0
  · have isFirst := (ringSlot_first meter insideRing).mpr first
    obtain rfl : older = [] := List.length_eq_zero_iff.mp first
    rw [if_pos ⟨desc, by rw [slot, isFirst]⟩]
    rw [List.append_nil] at behind here started ⊢
    obtain ⟨moved, found, runs, isMoved, sameStatus, ends⟩ :=
      getQualifiedDataBlock_last desc behind
    rw [runs]
    rcases ends with ⟨rfl, none_, sameCursor⟩ | ⟨rfl, inFile, rest, next, isLast, there, atStart,
      isLoaded, keysLoaded⟩
    · refine ⟨_, rfl, isMoved.trans ⟨_, _, _, _, rfl⟩, Or.inl ⟨none_, ?_, ?_⟩⟩
      · rw [<- sameStatus]
      · simp only [sameCursor]
        exact ⟨le_rfl, le_rfl, by simp only; omega⟩
    · have someNext : next ≠ [] := block_ne_nil there.split
      have keyThere : keyAt next moved.cursor.pos = some (keyLast next) := by
        rw [atStart]
        exact keyAt_firstPos .desc someNext
      have onDisk : getDiskDataBlock meter.toSMeterData moved.cursor.fileId moved.cursor.slot =
          some next := by
        have generic := getGenericDataBlock_here there
        rwa [getGenericDataBlock, if_pos inFile] at generic
      have startedInCache : moved.startPos.fileId < 0 := by
        obtain ⟨_, _, _, _, rfl⟩ := isMoved
        exact started rfl (by simp [isLast])
      have sameEnd : moved.ekey = query.ekey := by
        obtain ⟨_, _, _, _, rfl⟩ := isMoved
        rfl
      simp only [getTimestampInDiskBlock, onDisk, keyThere, startedInCache, if_true]
      have adjacent : Adjacent query.order (blocksIn meter.pHeaderFiles) block back rest next
          (block :: back) := by
        rw [desc, isLast]
        exact .desc _ _ _ _
      rw [blocks, nil_append] at there
      have notCached : ¬ moved.cursor.fileId < 0 := not_lt.mpr inFile
      have isBeyond : Beyond query next ↔ keyLast next < moved.ekey := by
        rw [Beyond, desc, sameEnd]
      by_cases beyond : keyLast next < moved.ekey
      · rw [if_pos beyond]
        refine ⟨_, rfl, isMoved.trans ⟨_, _, _, _, rfl⟩, Or.inr ⟨next,
          ⟨⟨_, _, adjacent, there⟩, fun side => absurd (side.mpr cached) notCached,
            fun _ => ⟨fun _ => ?_, fun within => absurd (isBeyond.mpr beyond) within⟩⟩,
          ?_, rfl, rfl⟩⟩
        · rw [<- sameStatus]
        · rw [desc]
          exact atStart
      · rw [if_neg beyond]
        refine ⟨_, rfl, isMoved.trans ⟨_, _, _, _, rfl⟩, Or.inr ⟨next,
          ⟨⟨_, _, adjacent, there⟩, fun side => absurd (side.mpr cached) notCached,
            fun _ => ⟨fun isIn => absurd (isBeyond.mp isIn) beyond, fun _ => sameStatus⟩⟩,
          ?_, rfl, rfl⟩⟩
        · rw [desc]
          exact atStart
  · have notFirst := mt (ringSlot_first meter insideRing).mp first
    obtain ⟨rest, next, rfl⟩ : ∃ rest next, older = rest ++ [next] := by
      rcases List.eq_nil_or_concat older with rfl | ⟨rest, next, isOlder⟩
      · exact absurd rfl first
      · exact ⟨rest, next, isOlder.trans (List.concat_eq_append ..)⟩
    have splits : meter.pCache.blocks = rest ++ next :: (block :: back) := by simp [blocks]
    have nextSlot : (query.cursor.slot + step query.order + meter.pCache.maxBlocks) %
        meter.pCache.maxBlocks = (ringSlot meter.pCache rest.length : Nat) := by
      have positive := ringSlot_lt meter 0
      rw [List.length_append, List.length_singleton] at insideRing slot
      have previous := ringSlot_pred meter (show rest.length < meter.pCache.numOfBlocks by omega)
      rw [slot, desc, <- previous, Int.natCast_mod]
      congr 1
      simp only [step]
      omega
    have found := getCacheDataBlock_ring splits
    have someNext : next ≠ [] := meter.some_ next (by simp [SMeterData.blocks, splits])
    have positive : 0 < keyLast next := meter.positive _
      (by simp [SMeterData.blocks, splits, keyLast_mem someNext])
    have keyThere : keyAt next (firstPos query.order next) = some (keyLast next) := by
      rw [desc]
      exact keyAt_firstPos .desc someNext
    rw [if_neg (by rintro ⟨-, same⟩; rw [slot] at same; exact notFirst (by exact_mod_cast same))]
    simp only [nextSlot, found, keyThere]
    rw [if_neg (by omega)]
    refine ⟨_, rfl, ⟨_, _, _, _, rfl⟩, Or.inr ⟨next, ⟨?_, nextStatus_same Iff.rfl rfl⟩, rfl, rfl,
      rfl⟩⟩
    rw [inCache]
    refine ⟨_, _, ?_, @Here.cache meter _ _ _ (firstPos query.order next) splits⟩
    rw [desc, <- List.append_assoc]
    exact .desc _ _ _ _

end

/-- In the order from new to old a move to another file takes its position from the
first block there, and not from the last one, which it gets to. -/
def EvenMove (meter : SMeterData) (query : SQuery) : Prop :=
  query.order = .desc -> 0 ≤ query.cursor.fileId -> query.cursor.slot = 0 ->
    ∀ fileId, nextFile meter .desc query.cursor.fileId = some fileId -> EvenFile meter fileId

theorem block_pairwise (here : Here meter cursor front block back) : block.Pairwise (· < ·) :=
  block_increasing here.split

theorem mem_after {front' back' : List (List Int)}
    (adjacent : Adjacent order front block back front' next back') :
    next ∈ blocksAfter order front back := by
  cases adjacent with
  | asc => exact List.mem_cons_self
  | desc => simp [blocksAfter]

theorem moved_in_file {functions : Functions} {loadData : Bool} {front' back' : List (List Int)}
    (leaves : 0 ≤ query.cursor.fileId) (inFile : 0 ≤ cursor.fileId)
    (inside : 0 ≤ cursor.pos) (there : Here meter cursor front' next back')
    (adjacent : Adjacent query.order front block back front' next back')
    (inQuery : loadData = true -> InQuery query)
    (behind : ∀ k ∈ (blocksAfter query.order front back).flatten,
      UpTo query.order query.lastKey k) :
    ∃ query' blockLoadStatus,
      (match getDiskDataBlock meter.toSMeterData cursor.fileId cursor.slot with
        | none => none
        | some block =>
          if loadData then LoadDatablockOnDemand functions
            { query with loaded := false, keysLoaded := false, cursor := cursor } block cursor.slot
          else some ({ query with loaded := false, keysLoaded := false, cursor := cursor },
            .loaded)) = some (query', blockLoadStatus) ∧ Moved query query' ∧
      AtNext meter query front block back query' next ∧ Savable query'.cursor ∧
      0 ≤ query'.cursor.fileId ∧
      ((loadData = true ∨ cursor.pos = firstPos query.order next) ->
        query'.cursor.pos = firstPos query.order next) ∧
      (loadData = true -> Ready functions query' next blockLoadStatus) := by
  have onDisk : getDiskDataBlock meter.toSMeterData cursor.fileId cursor.slot = some next := by
    have generic := getGenericDataBlock_here there
    rwa [getGenericDataBlock, if_pos inFile] at generic
  have someNext : next ≠ [] := block_ne_nil there.split
  rw [onDisk]
  simp only
  cases loadData with
  | false =>
    have side : cursor.fileId < 0 ↔ query.cursor.fileId < 0 :=
      ⟨fun cached => absurd cached (not_lt.mpr inFile),
        fun cached => absurd cached (not_lt.mpr leaves)⟩
    refine ⟨_, _, rfl, ⟨_, _, _, _, rfl⟩, ⟨⟨_, _, adjacent, there⟩, nextStatus_same side rfl⟩,
      savable_here there inside, inFile, fun same => same.resolve_left (by simp),
      fun isLoad => ?_⟩
    cases isLoad
  | true =>
    rw [if_pos rfl]
    have low : ∀ k ∈ next, UpTo query.order query.lastKey k := fun k isKey =>
      behind k (mem_flatten.mpr ⟨next, mem_after adjacent, isKey⟩)
    obtain ⟨query', blockLoadStatus, runs, moved, sameCursor, sameStatus, ready⟩ :=
      @LoadDatablockOnDemand_spec functions
        { query with loaded := false, keysLoaded := false, cursor := cursor } next someNext
        (block_pairwise there) low (inQuery rfl) inFile
    have thereNow : Here meter query'.cursor front' next back' := by
      rw [sameCursor]
      cases there with
      | file pos files blocks => exact .file _ files blocks
      | cache pos blocks => exact .cache _ blocks
    have atStart : query'.cursor.pos = firstPos query.order next := by rw [sameCursor]
    refine ⟨query', blockLoadStatus, runs, Moved.trans ⟨_, _, _, _, rfl⟩ moved,
      ⟨⟨_, _, adjacent, thereNow⟩, nextStatus_same ?_ sameStatus⟩, ?_, ?_, fun _ => atStart,
      fun _ => ready⟩
    · rw [sameCursor]
      exact ⟨fun cached => absurd cached (not_lt.mpr inFile),
        fun cached => absurd cached (not_lt.mpr leaves)⟩
    · refine savable_here thereNow ?_
      rw [atStart]
      exact firstPos_nonneg _ someNext
    · rw [sameCursor]
      exact inFile

theorem order_cases (order : QueryOrder) : order = .asc ∨ order = .desc := by
  cases order <;> simp

theorem ready_loaded (functions : Functions) (block : List Int)
    (isLoaded : query.loaded = true) (keysLoaded : query.keysLoaded = true) :
    Ready functions query block .loaded where
  discarded := fun isDiscarded => (by cases isDiscarded)
  unread := fun _ notLoaded => (by rw [isLoaded] at notLoaded; cases notLoaded)
  keys := fun _ _ _ => keysLoaded

theorem moveToNextBlock_spec {meter : SMeterObj} {functions : Functions} {loadData : Bool}
    {query : SQuery} {front back : List (List Int)} {block : List Int}
    (here : Here meter query.cursor front block back) (inside : 0 ≤ query.cursor.pos)
    (reached : query.order = .asc -> query.skey ≤ query.lastKey)
    (started : query.order = .desc -> query.cursor.fileId < 0 ->
      front = blocksIn meter.pHeaderFiles -> front ≠ [] -> query.startPos.fileId < 0)
    (inQuery : loadData = true -> InQuery query)
    (behind : ∀ k ∈ (blocksAfter query.order front back).flatten,
      UpTo query.order query.lastKey k) :
    ∃ query' blockLoadStatus, moveToNextBlock meter.toSMeterData functions loadData query =
        some (query', blockLoadStatus) ∧ Moved query query' ∧ Savable query'.cursor ∧
      ((blocksAfter query.order front back = [] ∧ query'.status = setNoData query.status) ∨
        ∃ next, AtNext meter query front block back query' next ∧
          ((loadData = true ∨ EvenMove meter.toSMeterData query) ->
            query'.cursor.pos = firstPos query.order next) ∧
          (loadData = true -> Ready functions query' next blockLoadStatus) ∧
          (query'.cursor.fileId < 0 -> query'.loaded = true ∧ query'.keysLoaded = true)) := by
  unfold moveToNextBlock
  simp only
  by_cases inFile : 0 ≤ query.cursor.fileId
  · rw [if_pos inFile]
    have sameMove : moveInFiles meter.toSMeterData
        { query with loaded := false, keysLoaded := false } =
        moveInFiles meter.toSMeterData query := rfl
    rw [sameMove]
    rcases order_cases query.order with order | order
    · have low : ∀ k ∈ back.flatten, query.lastKey ≤ k := by
        rw [order] at behind
        exact behind
      rcases moveInFiles_asc here inFile order with
        ⟨cursor, next, rest, rfl, isFile, moves, there, atStart⟩ | ⟨moves, rfl, allFiles⟩
      · have adjacent : Adjacent query.order front block (next :: rest) (front ++ [block]) next
            rest := by
          rw [order]
          exact .asc _ _ _ _
        rw [<- order] at atStart
        have posInside : 0 ≤ cursor.pos := by
          rw [atStart]
          exact firstPos_nonneg _ (block_ne_nil there.split)
        obtain ⟨query', blockLoadStatus, runs, moved, atNext, savable, isIn, pos, ready⟩ :=
          moved_in_file inFile isFile posInside there adjacent inQuery behind
        rw [moves]
        exact ⟨query', blockLoadStatus, runs, moved, savable, Or.inr ⟨next, atNext,
          fun _ => pos (Or.inr atStart), ready, fun cached => absurd cached (not_lt.mpr isIn)⟩⟩
      · rw [moves]
        simp only
        split
        · obtain ⟨query', runs, moved, ends⟩ := @getFirstDataBlockInCache_spec meter
            { query with
              loaded := false
              keysLoaded := false
              cursor := { query.cursor with fileId := -1 } } rfl order (reached order) low
          rw [runs]
          refine ⟨query', .loaded, rfl, Moved.trans ⟨_, _, _, _, rfl⟩ moved, ?_⟩
          have savable := savable_here here inside
          rcases ends with ⟨none_, sameStatus, sameCursor⟩ | ⟨next, rest, blocks, there, atStart,
            isLoaded, keysLoaded, newStatus⟩
          · refine ⟨?_, Or.inl ⟨by rw [order]; exact none_, sameStatus⟩⟩
            rw [sameCursor]
            exact ⟨le_rfl, savable.2⟩
          · refine ⟨savable_here there atStart.ge, Or.inr ⟨next, ⟨⟨_, _, ?_, there⟩, ?_⟩,
              fun _ => by rw [order]; exact atStart,
              fun _ => ready_loaded functions next isLoaded keysLoaded,
              fun _ => ⟨isLoaded, keysLoaded⟩⟩⟩
            · rw [blocks, order, <- allFiles]
              exact .asc _ _ _ _
            · have cached := (blocksIn_length_le there).mpr le_rfl
              refine ⟨fun side => absurd (side.mp cached) (not_lt.mpr inFile),
                fun _ => ⟨fun isIn => ?_, fun isIn => ?_⟩⟩
              · rw [Beyond, order] at isIn
                rw [newStatus, if_pos isIn]
              · rw [Beyond, order] at isIn
                rw [newStatus, if_neg isIn]
        · rename_i isDesc
          exact absurd (order.symm.trans isDesc) (by simp)
    · rcases moveInFiles_desc here inFile order with
        ⟨cursor, next, rest, rfl, isFile, posInside, moves, there, atStart⟩ | ⟨moves, rfl⟩
      · have adjacent : Adjacent query.order (rest ++ [next]) block back rest next
            (block :: back) := by
          rw [order]
          exact .desc _ _ _ _
        rw [<- order] at atStart
        obtain ⟨query', blockLoadStatus, runs, moved, atNext, savable, isIn, pos, ready⟩ :=
          moved_in_file inFile isFile posInside there adjacent inQuery behind
        rw [moves]
        refine ⟨query', blockLoadStatus, runs, moved, savable, Or.inr ⟨next, atNext, ?_, ready,
          fun cached => absurd cached (not_lt.mpr isIn)⟩⟩
        rintro (isLoad | even)
        · exact pos (Or.inl isLoad)
        · refine pos (Or.inr (atStart ?_))
          rw [order]
          exact even order inFile
      · rw [moves]
        simp only
        have savable := savable_here here inside
        split
        · rename_i isAsc
          exact absurd (order.symm.trans isAsc) (by simp)
        · exact ⟨_, _, rfl, ⟨_, _, _, _, rfl⟩, ⟨le_rfl, savable.2⟩,
            Or.inl ⟨by rw [order]; rfl, rfl⟩⟩
  · rw [if_neg inFile]
    have cached : query.cursor.fileId < 0 := not_le.mp inFile
    have sameStep : Moved query { query with loaded := false, keysLoaded := false } :=
      ⟨_, _, _, _, rfl⟩
    have step_ : ∃ query', moveToNextBlockInCache meter.toSMeterData
        { query with loaded := false, keysLoaded := false } = some query' ∧
        Moved query query' ∧
        ((blocksAfter query.order front back = [] ∧ query'.status = setNoData query.status ∧
            Savable query'.cursor) ∨ ∃ next, AtNext meter query front block back query' next ∧
            query'.cursor.pos = firstPos query.order next ∧ query'.loaded = true ∧
            query'.keysLoaded = true) := by
      rcases order_cases query.order with order | order
      · obtain ⟨query', runs, moved, ends⟩ := @moveToNextBlockInCache_asc meter
          { query with loaded := false, keysLoaded := false } _ _ _ here cached inside order
        refine ⟨query', runs, sameStep.trans moved, ends.imp ?_ ?_⟩
        · rintro ⟨none_, rest⟩
          exact ⟨by rw [order]; exact none_, rest⟩
        · rintro ⟨next, ⟨there, stays, crosses⟩, rest⟩
          exact ⟨next, ⟨there, stays, crosses⟩, rest⟩
      · rw [order] at behind
        obtain ⟨query', runs, moved, ends⟩ := @moveToNextBlockInCache_desc meter
          { query with loaded := false, keysLoaded := false } _ _ _ here cached inside order
          (started order cached) (fun k isKey => behind k (by
            obtain ⟨b, isBlock, inBlock⟩ := mem_flatten.mp isKey
            exact mem_flatten.mpr ⟨b, List.mem_reverse.mpr isBlock, inBlock⟩))
        refine ⟨query', runs, sameStep.trans moved, ends.imp ?_ ?_⟩
        · rintro ⟨rfl, rest⟩
          exact ⟨by rw [order]; rfl, rest⟩
        · rintro ⟨next, ⟨there, stays, crosses⟩, rest⟩
          exact ⟨next, ⟨there, stays, crosses⟩, rest⟩
    obtain ⟨query', runs, moved, ends⟩ := step_
    rw [runs]
    refine ⟨query', .loaded, rfl, moved, ?_⟩
    rcases ends with ⟨none_, status, savable⟩ | ⟨next, atNext, atStart, isLoaded, keysLoaded⟩
    · exact ⟨savable, Or.inl ⟨none_, status⟩⟩
    · obtain ⟨front', back', -, there⟩ := atNext.there
      have someNext : next ≠ [] := block_ne_nil there.split
      refine ⟨savable_here there ?_, Or.inr ⟨next, atNext, fun _ => atStart, fun _ =>
        ready_loaded functions next isLoaded keysLoaded, fun _ => ⟨isLoaded, keysLoaded⟩⟩⟩
      rw [atStart]
      exact firstPos_nonneg _ someNext

end Luomi.Vnode.QuerySteps
