import Luomi.Vnode.QueryCursor
import Luomi.Vnode.CommitQuery
import Mathlib.Data.List.Pairwise

/-!
# Where the cursor of a query gets to

The blocks of a meter stand in a row: those of the files, then those of the
cache.  Wherever the cursor is, the move to the next block takes it to the next
block of this row, or to the one before it in the order from new to old.
-/

namespace Luomi.Vnode.QueryMoves

open QueryBlocks QueryCursor
open List (append_assoc length_append length_pos_iff mem_cons mem_cons_self nil_append
  pairwise_append pairwise_cons)

/-- `a` is read before `b`. -/
def Before (order : QueryOrder) (a b : Int) : Prop :=
  match order with
  | .asc => a < b
  | .desc => b < a

/-- `a` is not read after `b`. -/
def UpTo (order : QueryOrder) (a b : Int) : Prop :=
  match order with
  | .asc => a ≤ b
  | .desc => b ≤ a

instance (order : QueryOrder) (a b : Int) : Decidable (UpTo order a b) :=
  match order with
  | .asc => inferInstanceAs (Decidable (a ≤ b))
  | .desc => inferInstanceAs (Decidable (b ≤ a))

def inOrder (order : QueryOrder) (block : List Int) : List Int :=
  match order with
  | .asc => block
  | .desc => block.reverse

/-- The blocks that stand `front` and `back` of a block, as a scan gets to them. -/
def blocksAfter (order : QueryOrder) (front back : List (List Int)) : List (List Int) :=
  match order with
  | .asc => back
  | .desc => front.reverse

def ringSlot (pCache : SCacheInfo) (i : Nat) : Nat :=
  (getFirstCacheSlot pCache + i) % pCache.maxBlocks

/-- The cursor is at a block of a file or of the cache; `front` and `back` are all
the blocks of the meter on both sides of it. -/
inductive Here (meter : SMeterObj) : SPositionInfo -> List (List Int) -> List Int ->
    List (List Int) -> Prop where
  | file {older newer : List SQueryFileInfo} {file : SQueryFileInfo}
      {front back : List (List Int)} {block : List Int} (pos : Int)
      (files : meter.pHeaderFiles = older ++ file :: newer)
      (blocks : file.blocks = front ++ block :: back) :
      Here meter ⟨file.fileID, front.length, pos⟩ (blocksIn older ++ front) block
        (back ++ blocksIn newer ++ meter.pCache.blocks)
  | cache {front back : List (List Int)} {block : List Int} (pos : Int)
      (blocks : meter.pCache.blocks = front ++ block :: back) :
      Here meter ⟨-1, ringSlot meter.pCache front.length, pos⟩
        (blocksIn meter.pHeaderFiles ++ front) block back

def StartsAt (keyList : Int -> Int) (num key place : Int) : Prop :=
  0 ≤ place ∧ place < num ∧ (∀ i, 0 ≤ i -> i < place -> keyList i < key) ∧
    ∀ i, place ≤ i -> i < num -> key ≤ keyList i

variable {block : List Int} {file : SQueryFileInfo} {files newer older : List SQueryFileInfo}
  {back front : List (List Int)} {meter : SMeterObj}
  {holds : Int -> Prop}

theorem forall_take {n : Nat}
    (places : ∀ i : Int, 0 ≤ i -> i < n -> i < block.length -> holds (block.getD i.toNat 0)) :
    ∀ k ∈ block.take n, holds k := by
  intro k member
  obtain ⟨i, small, rfl⟩ := List.mem_iff_getElem.mp member
  rw [List.length_take] at small
  have at_ := places i (by omega) (by omega) (by omega)
  rw [List.getElem_take]
  simpa [show i < block.length by omega] using at_

theorem forall_drop {n : Nat}
    (places : ∀ i : Int, n ≤ i -> i < block.length -> holds (block.getD i.toNat 0)) :
    ∀ k ∈ block.drop n, holds k := by
  intro k member
  obtain ⟨i, small, rfl⟩ := List.mem_iff_getElem.mp member
  rw [List.length_drop] at small
  have at_ := places ((n + i : Nat) : Int) (by omega) (by omega)
  rw [List.getElem_drop]
  simpa only [Int.toNat_natCast, List.getD_eq_getElem?_getD,
    List.getElem?_eq_getElem (show n + i < block.length by omega), Option.getD_some] using at_

theorem keyList_increasing (increasing : block.Pairwise (· < ·)) (i j : Int)
    (nonneg : 0 ≤ i) (less : i < j) (inside : j < block.length) :
    block.getD i.toNat 0 < block.getD j.toNat 0 := by
  have order := List.pairwise_iff_getElem.mp increasing i.toNat j.toNat (by omega) (by omega)
    (by omega)
  simpa [show i.toNat < block.length by omega, show j.toNat < block.length by omega] using order

theorem keyLast_eq (some_ : block ≠ []) :
    keyLast block = block.getD ((block.length : Int) - 1).toNat 0 := by
  have positive := length_pos_iff.mpr some_
  rw [keyLast, List.getLastD_eq_getLast?, List.getLast?_eq_getElem?, List.getD_eq_getElem?_getD,
    show ((block.length : Int) - 1).toNat = block.length - 1 by omega]

theorem keyFirst_eq (block : List Int) : keyFirst block = block.getD 0 0 := by
  cases block <;> rfl

theorem searchFn_asc (some_ : block ≠ [])
    (increasing : block.Pairwise (· < ·)) {key : Int} (reached : key ≤ keyLast block) :
    ∃ n : Nat, searchFn block key .asc = some (n : Int) ∧ n < block.length ∧
      (∀ k ∈ block.take n, k < key) ∧ ∀ k ∈ block.drop n, key ≤ k := by
  have positive := length_pos_iff.mpr some_
  rw [keyLast_eq some_] at reached
  obtain ⟨place, search, ⟨nonneg, inside, below, above⟩ | ⟨-, all⟩⟩ :=
    CommitQuery.vnodeBinarySearchKey_starts (fun pos => block.getD pos.toNat 0) block.length key
      (by omega) (keyList_increasing increasing)
  swap
  · exact absurd reached (not_le.mpr (all _ (by omega) (by omega)))
  refine ⟨place.toNat, ?_, by omega, ?_, ?_⟩
  · rw [searchFn, decide_eq_true rfl, search, Int.toNat_of_nonneg nonneg]
  · exact forall_take fun i lower small _ => below i lower (by omega)
  · exact forall_drop fun i least small => above i (by omega) small

theorem searchFn_desc (some_ : block ≠ [])
    (increasing : block.Pairwise (· < ·)) {key : Int} (reached : keyFirst block ≤ key) :
    ∃ n : Nat, searchFn block key .desc = some (n : Int) ∧ n < block.length ∧
      (∀ k ∈ block.take (n + 1), k ≤ key) ∧ ∀ k ∈ block.drop (n + 1), key < k := by
  have positive := length_pos_iff.mpr some_
  rw [keyFirst_eq] at reached
  obtain ⟨place, search, lower, inside, below, above⟩ :=
    CommitQuery.vnodeBinarySearchKey_ends (fun pos => block.getD pos.toNat 0) block.length key
      (by omega) (keyList_increasing increasing)
  have nonneg : 0 ≤ place := by
    by_contra negative
    have := above 0 (by omega) (by omega)
    exact absurd reached (not_le.mpr this)
  refine ⟨place.toNat, ?_, by omega, ?_, ?_⟩
  · unfold searchFn
    simp only [reduceCtorEq, decide_false]
    rw [search, Int.toNat_of_nonneg nonneg]
  · exact forall_take fun i lower small _ => below i lower (by omega)
  · exact forall_drop fun i least small => above i (by omega) small

theorem blocksIn_append (left right : List SQueryFileInfo) :
    blocksIn (left ++ right) = blocksIn left ++ blocksIn right := List.flatMap_append

theorem blocksIn_cons (file : SQueryFileInfo) (rest : List SQueryFileInfo) :
    blocksIn (file :: rest) = file.blocks ++ blocksIn rest := rfl

theorem mem_blocksIn
    (isFile : file ∈ files) (isBlock : block ∈ file.blocks) : block ∈ blocksIn files :=
  List.mem_flatMap.mpr ⟨file, isFile, isBlock⟩

theorem firstPos_nonneg (order : QueryOrder) (some_ : block ≠ []) : 0 ≤ firstPos order block := by
  have positive := length_pos_iff.mpr some_
  cases order with
  | asc => exact le_rfl
  | desc =>
    simp only [firstPos, numOfPoints]
    omega

variable {cursor : SPositionInfo}

theorem Here.split (here : Here meter cursor front block back) :
    meter.blocks = front ++ block :: back := by
  cases here with
  | file pos files blocks =>
    simp [SMeterData.blocks, files, blocksIn_append, blocksIn_cons, blocks]
  | cache pos blocks => simp [SMeterData.blocks, blocks]

theorem find_file (isFiles : files = older ++ file :: newer)
    (ordered : files.Pairwise fun before after => before.fileID < after.fileID) :
    files.find? (fun other => decide (other.fileID = file.fileID)) = some file := by
  subst isFiles
  rw [List.find?_append]
  have noneOlder : older.find? (fun other => decide (other.fileID = file.fileID)) = none := by
    refine List.find?_eq_none.mpr fun other isOlder => ?_
    have less := (pairwise_append.mp ordered).2.2 other isOlder file mem_cons_self
    simp only [decide_eq_true_eq]
    omega
  simp [noneOlder]

theorem blocksOf_file (files : meter.pHeaderFiles = older ++ file :: newer) :
    blocksOf meter.toSMeterData file.fileID = file.blocks := by
  unfold blocksOf
  rw [find_file files meter.ordered]
  rfl

theorem fileID_nonneg (files : meter.pHeaderFiles = older ++ file :: newer) :
    0 ≤ file.fileID := meter.numbered file (by simp [files])

theorem getDiskDataBlock_file (files : meter.pHeaderFiles = older ++ file :: newer)
    (blocks : file.blocks = front ++ block :: back) :
    getDiskDataBlock meter.toSMeterData file.fileID front.length = some block := by
  unfold getDiskDataBlock
  rw [if_pos ⟨fileID_nonneg files, by omega⟩, blocksOf_file files, blocks]
  simp

theorem headerFile_asc {fid : Int}
    (isFiles : files = older ++ newer) (isOlder : ∀ file ∈ older, file.fileID < fid)
    (isNewer : ∀ file ∈ newer, fid ≤ file.fileID) :
    vnodeGetVnodeHeaderFileIdx files fid .asc =
      if newer = [] then none else some older.length := by
  subst isFiles
  unfold vnodeGetVnodeHeaderFileIdx
  simp only
  rw [List.findIdx?_append]
  have noneOlder : older.findIdx? (fun file => decide (fid ≤ file.fileID)) = none := by
    refine List.findIdx?_eq_none_iff.mpr fun file member => ?_
    have := isOlder file member
    simp only [decide_eq_false_iff_not]
    omega
  rw [noneOlder, Option.none_or]
  cases newer with
  | nil => simp
  | cons file rest =>
    have reached : fid ≤ file.fileID := isNewer file mem_cons_self
    simp [List.findIdx?_cons, reached]

theorem headerFileDown_eq {fid : Int}
    (isFiles : files = older ++ newer) (isOlder : ∀ file ∈ older, file.fileID ≤ fid)
    (isNewer : ∀ file ∈ newer, fid < file.fileID) (n : Nat) (enough : older.length ≤ n)
    (inside : n ≤ files.length) :
    headerFileDown files fid n = if older = [] then none else some (older.length - 1) := by
  induction n with
  | zero =>
    rw [List.length_eq_zero_iff.mp (by omega : older.length = 0)]
    rfl
  | succ n ih =>
    rw [headerFileDown]
    by_cases stops : older.length = n + 1
    · have lastAt : files[n]? = older[n]? := by
        rw [isFiles, List.getElem?_append_left (by omega)]
      rw [lastAt, List.getElem?_eq_getElem (by omega)]
      simp only
      rw [if_pos (isOlder _ (List.getElem_mem _)),
        if_neg (List.ne_nil_of_length_eq_add_one stops), stops]
      rfl
    · have newerAt : files[n]? = newer[n - older.length]? := by
        rw [isFiles, List.getElem?_append_right (by omega)]
      have length : files.length = older.length + newer.length := by
        rw [isFiles, length_append]
      rw [newerAt, List.getElem?_eq_getElem (by omega)]
      simp only
      have beyond := isNewer _ (List.getElem_mem (l := newer) (n := n - older.length) (by omega))
      rw [if_neg (by omega)]
      exact ih (by omega) (by omega)

inductive NextFile (meter : SMeterObj) : QueryOrder -> List SQueryFileInfo -> Int -> Prop where
  | none {order : QueryOrder} {files : List SQueryFileInfo} (empty : blocksIn files = []) :
      NextFile meter order files (-1)
  | asc {empties rest : List SQueryFileInfo} {next : SQueryFileInfo}
      (empty : blocksIn empties = []) (some_ : next.blocks ≠ []) :
      NextFile meter .asc (empties ++ next :: rest) next.fileID
  | desc {empties rest : List SQueryFileInfo} {next : SQueryFileInfo}
      (empty : blocksIn empties = []) (some_ : next.blocks ≠ []) :
      NextFile meter .desc (rest ++ next :: empties) next.fileID

theorem getNext_asc (newer older : List SQueryFileInfo) (fileId : Int)
    (fuel : Nat) (files : meter.pHeaderFiles = older ++ newer)
    (isOlder : ∀ file ∈ older, file.fileID ≤ fileId)
    (isNewer : ∀ file ∈ newer, fileId < file.fileID) (enough : newer.length < fuel) :
    ∃ found, getNextDataFileCompInfo meter.toSMeterData .asc fuel fileId = some found ∧
      NextFile meter .asc newer found := by
  induction newer generalizing older fileId fuel with
  | nil =>
    obtain ⟨fuel, rfl⟩ : ∃ f, fuel = f + 1 := ⟨fuel - 1, by simp at enough; omega⟩
    refine ⟨-1, ?_, .none rfl⟩
    rw [getNextDataFileCompInfo, show fileId + step .asc = fileId + 1 from rfl, headerFile_asc files
      (fun file member => Int.lt_add_one_of_le (isOlder file member)) (by simp)]
    rfl
  | cons next rest ih =>
    obtain ⟨fuel, rfl⟩ : ∃ f, fuel = f + 1 := ⟨fuel - 1, by simp at enough; omega⟩
    have at_ : meter.pHeaderFiles[older.length]? = some next := by simp [files]
    rw [getNextDataFileCompInfo, show fileId + step .asc = fileId + 1 from rfl, headerFile_asc files
      (fun file member => Int.lt_add_one_of_le (isOlder file member))
      (fun file member => Int.add_one_le_of_lt (isNewer file member)),
      if_neg (List.cons_ne_nil _ _)]
    simp only [at_]
    by_cases some_ : next.blocks = []
    · have splits : meter.pHeaderFiles = (older ++ [next]) ++ rest := by simp [files]
      have restNewer : ∀ file ∈ rest, next.fileID < file.fileID := by
        have sorted := meter.ordered
        rw [files] at sorted
        exact (pairwise_cons.mp (pairwise_append.mp sorted).2.1).1
      have nextIs := isNewer next mem_cons_self
      obtain ⟨found, runs, isNext⟩ := ih (older ++ [next]) next.fileID fuel splits
        (by
          intro file member
          rcases List.mem_append.mp member with isIn | isIn
          · have := isOlder file isIn
            omega
          · rw [List.mem_singleton.mp isIn])
        restNewer (by simp at enough; omega)
      refine ⟨found, ?_, ?_⟩
      · rw [if_neg (by simp [some_]), if_neg (by simp)]
        exact runs
      · cases isNext with
        | none empty => exact .none (by rw [blocksIn_cons, some_, empty, nil_append])
        | @asc empties rest next' empty some' =>
          exact .asc
            (show blocksIn (next :: empties) = [] by rw [blocksIn_cons, some_, empty, nil_append]) some'
    · refine ⟨next.fileID, if_pos some_, @NextFile.asc meter [] rest next rfl some_⟩

theorem getNext_desc (older newer : List SQueryFileInfo) (fileId : Int)
    (fuel : Nat) (files : meter.pHeaderFiles = older ++ newer)
    (isOlder : ∀ file ∈ older, file.fileID < fileId)
    (isNewer : ∀ file ∈ newer, fileId ≤ file.fileID) (enough : older.length < fuel) :
    ∃ found, getNextDataFileCompInfo meter.toSMeterData .desc fuel fileId = some found ∧
      NextFile meter .desc older found := by
  induction older using List.reverseRecOn generalizing newer fileId fuel with
  | nil =>
    obtain ⟨fuel, rfl⟩ : ∃ f, fuel = f + 1 := ⟨fuel - 1, by simp at enough; omega⟩
    refine ⟨-1, ?_, .none rfl⟩
    rw [getNextDataFileCompInfo, show fileId + step .desc = fileId - 1 from rfl]
    simp only [vnodeGetVnodeHeaderFileIdx]
    rw [headerFileDown_eq files (by simp) (fun file member => by
      have := isNewer file member
      omega) _ (by simp) le_rfl]
    rfl
  | append_singleton rest next ih =>
    obtain ⟨fuel, rfl⟩ : ∃ f, fuel = f + 1 := ⟨fuel - 1, by simp at enough; omega⟩
    have at_ : meter.pHeaderFiles[rest.length]? = some next := by simp [files]
    rw [getNextDataFileCompInfo, show fileId + step .desc = fileId - 1 from rfl]
    simp only [vnodeGetVnodeHeaderFileIdx]
    rw [headerFileDown_eq files (fun file member => by
        have := isOlder file member
        omega) (fun file member => by
        have := isNewer file member
        omega) _ (by simp [files]) le_rfl, if_neg (by simp)]
    simp only [length_append, List.length_singleton, Nat.add_sub_cancel, at_]
    by_cases some_ : next.blocks = []
    · rw [if_neg (by simp [some_])]
      by_cases isFirst : rest = []
      · subst isFirst
        refine ⟨-1, if_pos ⟨trivial, rfl⟩, .none ?_⟩
        rw [nil_append, blocksIn_cons, some_]
        rfl
      · have splits : meter.pHeaderFiles = rest ++ next :: newer := by simp [files]
        have sorted := meter.ordered
        rw [splits] at sorted
        obtain ⟨-, sortedNext, across⟩ := pairwise_append.mp sorted
        obtain ⟨found, runs, isNext⟩ := ih (next :: newer) next.fileID fuel splits
          (fun file member => across file member next mem_cons_self)
          (by
            intro file member
            rcases mem_cons.mp member with isIn | isIn
            · rw [isIn]
            · exact ((pairwise_cons.mp sortedNext).1 file isIn).le)
          (by simp at enough; omega)
        refine ⟨found, ?_, ?_⟩
        · rw [if_neg (by simp [isFirst])]
          exact runs
        · cases isNext with
          | none empty =>
            exact .none (by
              rw [blocksIn_append, empty, blocksIn_cons, some_]
              rfl)
          | @desc empties rest next' empty some' =>
            rw [append_assoc, List.cons_append]
            exact .desc
              (show blocksIn (empties ++ [next]) = [] by
                rw [blocksIn_append, empty, blocksIn_cons, some_]; rfl) some'
    · exact ⟨next.fileID, if_pos some_, @NextFile.desc meter [] rest next rfl some_⟩

theorem nextFile_asc (files : meter.pHeaderFiles = older ++ file :: newer) :
    ∃ found, nextFile meter.toSMeterData .asc file.fileID = some found ∧
      NextFile meter .asc newer found := by
  have sorted := meter.ordered
  rw [files] at sorted
  obtain ⟨-, sortedNewer, across⟩ := pairwise_append.mp sorted
  refine getNext_asc newer (older ++ [file]) file.fileID _ (by simp [files]) ?_
    (pairwise_cons.mp sortedNewer).1 (by rw [files]; simp; omega)
  intro other member
  rcases List.mem_append.mp member with isIn | isIn
  · exact (across other isIn file mem_cons_self).le
  · rw [List.mem_singleton.mp isIn]

theorem nextFile_desc (files : meter.pHeaderFiles = older ++ file :: newer) :
    ∃ found, nextFile meter.toSMeterData .desc file.fileID = some found ∧
      NextFile meter .desc older found := by
  have sorted := meter.ordered
  rw [files] at sorted
  obtain ⟨-, sortedNewer, across⟩ := pairwise_append.mp sorted
  refine getNext_desc older (file :: newer) file.fileID _ files
    (fun other member => across other member file mem_cons_self) ?_ (by rw [files]; simp)
  intro other member
  rcases mem_cons.mp member with isIn | isIn
  · rw [isIn]
  · exact ((pairwise_cons.mp sortedNewer).1 other isIn).le

variable {query : SQuery}

theorem moveInFiles_asc (here : Here meter query.cursor front block back)
    (inFile : 0 ≤ query.cursor.fileId) (asc : query.order = .asc) :
    (∃ cursor next rest, back = next :: rest ∧ 0 ≤ cursor.fileId ∧
      moveInFiles meter.toSMeterData query = some (some cursor) ∧
      Here meter cursor (front ++ [block]) next rest ∧ cursor.pos = firstPos .asc next) ∨
      (moveInFiles meter.toSMeterData query = some none ∧ back = meter.pCache.blocks ∧
        front ++ [block] = blocksIn meter.pHeaderFiles) := by
  unfold moveInFiles
  rw [asc]
  generalize isCursor : query.cursor = cursor at here inFile ⊢
  cases here with
  | cache pos blocks => exact absurd inFile (by simp)
  | @file older newer file front back _ pos files blocks =>
    simp only [blocksOf_file files, true_and, reduceCtorEq, false_and, or_false]
    cases back with
    | cons next back =>
      have notLast : ¬ (front.length : Int) = (file.blocks.length : Int) - 1 := by
        rw [blocks]
        simp
        omega
      have splits : file.blocks = (front ++ [block]) ++ next :: back := by simp [blocks]
      have found := getDiskDataBlock_file files splits
      rw [length_append, List.length_singleton, Nat.cast_add, Nat.cast_one] at found
      rw [if_neg notLast, show step .asc = 1 from rfl, found]
      have there := @Here.file meter _ _ _ _ _ _ 0 files splits
      rw [length_append, List.length_singleton, Nat.cast_add, Nat.cast_one,
        <- append_assoc] at there
      exact Or.inl ⟨_, next, _, rfl, fileID_nonneg files, rfl, there, rfl⟩
    | nil =>
      have isLast : (front.length : Int) = (file.blocks.length : Int) - 1 := by
        rw [blocks]
        simp
      rw [if_pos isLast]
      obtain ⟨found, isFound, isNext⟩ := nextFile_asc files
      rw [isFound]
      cases isNext with
      | none empty =>
        refine Or.inr ⟨rfl, by simp [empty], ?_⟩
        rw [files, blocksIn_append, blocksIn_cons, blocks, empty]
        simp
      | @asc empties rest next empty some_ =>
        have splits : meter.pHeaderFiles = (older ++ file :: empties) ++ next :: rest := by
          simp [files]
        obtain ⟨head, tail, isBlocks⟩ := List.exists_cons_of_ne_nil some_
        have there := @Here.file meter _ _ _ _ _ _ 0 splits (isBlocks.trans (nil_append _).symm)
        have nonneg := fileID_nonneg splits
        simp only [Int.not_lt.mpr nonneg, if_false]
        refine Or.inl ⟨_, head, tail ++ blocksIn rest ++ meter.pCache.blocks, ?_, nonneg,
          rfl, ?_, rfl⟩
        · rw [blocksIn_append, empty, blocksIn_cons, isBlocks]
          simp
        · rw [blocksIn_append, blocksIn_cons, blocks, empty] at there
          simpa using there

def EvenFile (meter : SMeterData) (fileId : Int) : Prop :=
  (blocksOf meter fileId).head?.map List.length = (blocksOf meter fileId).getLast?.map List.length

theorem moveInFiles_desc (here : Here meter query.cursor front block back)
    (inFile : 0 ≤ query.cursor.fileId) (desc : query.order = .desc) :
    (∃ cursor next rest, front = rest ++ [next] ∧ 0 ≤ cursor.fileId ∧ 0 ≤ cursor.pos ∧
      moveInFiles meter.toSMeterData query = some (some cursor) ∧
      Here meter cursor rest next (block :: back) ∧ ((query.cursor.slot = 0 -> ∀ fileId,
        nextFile meter.toSMeterData .desc query.cursor.fileId = some fileId ->
          EvenFile meter.toSMeterData fileId) -> cursor.pos = firstPos .desc next)) ∨
      (moveInFiles meter.toSMeterData query = some none ∧ front = []) := by
  unfold moveInFiles
  rw [desc]
  generalize isCursor : query.cursor = cursor at here inFile ⊢
  cases here with
  | cache pos blocks => exact absurd inFile (by simp)
  | @file older newer file front back _ pos files blocks =>
    simp only [blocksOf_file files, true_and, reduceCtorEq, false_and, false_or]
    rcases List.eq_nil_or_concat front with rfl | ⟨rest, next, rfl⟩
    · simp only [List.length_nil, Nat.cast_zero, if_true, forall_const]
      obtain ⟨found, isFound, isNext⟩ := nextFile_desc files
      rw [isFound]
      cases isNext with
      | none empty => exact Or.inr ⟨rfl, by simp [empty]⟩
      | @desc empties rest next empty some_ =>
        have splits : meter.pHeaderFiles = rest ++ next :: (empties ++ file :: newer) := by
          simp [files]
        have nonneg := fileID_nonneg splits
        rcases List.eq_nil_or_concat next.blocks with none_ | ⟨first, last, isBlocks⟩
        · exact absurd none_ some_
        · obtain ⟨head, tail, isHead⟩ := List.exists_cons_of_ne_nil some_
          have atHead := getDiskDataBlock_file splits (isHead.trans (nil_append _).symm)
          simp only [Int.not_lt.mpr nonneg, if_false]
          rw [List.length_nil, Nat.cast_zero] at atHead
          rw [atHead]
          have there := @Here.file meter _ _ _ _ _ _ (numOfPoints head - 1) splits
            (by rw [isBlocks, List.concat_eq_append] : next.blocks = first ++ last :: [])
          have lastSlot : ((blocksOf meter.toSMeterData next.fileID).length : Int) - 1 =
              first.length := by
            rw [blocksOf_file splits, isBlocks]
            simp
          rw [lastSlot]
          have someHead : head ≠ [] := meter.some_ head (List.mem_append_left _
            (mem_blocksIn (show next ∈ meter.pHeaderFiles by simp [splits]) (by simp [isHead])))
          have positive := length_pos_iff.mpr someHead
          refine Or.inl ⟨_, last, blocksIn rest ++ first, ?_, nonneg, ?_, rfl, ?_, ?_⟩
          · rw [blocksIn_append, blocksIn_cons, isBlocks, empty]
            simp
          · simp only [numOfPoints]
            omega
          · rw [blocksIn_append, empty, blocksIn_cons, blocks] at there
            simpa using there
          · intro even
            have same := even next.fileID rfl
            rw [EvenFile, blocksOf_file splits] at same
            have atEnd : next.blocks.getLast? = some last := by simp [isBlocks]
            rw [atEnd, isHead] at same
            simp only [List.head?_cons, Option.map_some, Option.some.injEq] at same
            simp [firstPos, numOfPoints, same]
    · rw [List.concat_eq_append] at blocks ⊢
      have notFirst : ¬ (((rest ++ [next]).length : Nat) : Int) = 0 := by
        simp
        omega
      have splits : file.blocks = rest ++ next :: (block :: back) := by simp [blocks]
      have found := getDiskDataBlock_file files splits
      have slot : (((rest ++ [next]).length : Nat) : Int) + step .desc = rest.length := by
        simp [step]
      rw [if_neg notFirst, slot, found]
      have there := @Here.file meter _ _ _ _ _ _ (firstPos .desc next) files splits
      have someNext : next ≠ [] := meter.some_ next (List.mem_append_left _
        (mem_blocksIn (show file ∈ meter.pHeaderFiles by simp [files]) (by simp [splits])))
      refine Or.inl ⟨_, next, blocksIn older ++ rest, (append_assoc ..).symm,
        fileID_nonneg files, firstPos_nonneg .desc someNext, rfl, ?_, fun _ => rfl⟩
      simpa using there

section

variable (meter : SMeterObj)

theorem firstCacheSlot_eq (some_ : 0 < meter.pCache.numOfBlocks) : getFirstCacheSlot meter.pCache =
      if meter.pCache.numOfBlocks ≤ meter.pCache.currentSlot + 1 then
        meter.pCache.currentSlot + 1 - meter.pCache.numOfBlocks
      else meter.pCache.currentSlot + meter.pCache.maxBlocks + 1 - meter.pCache.numOfBlocks := by
  have room := meter.room
  have inRing := meter.inRing
  unfold getFirstCacheSlot
  split
  · rw [show meter.pCache.currentSlot + meter.pCache.maxBlocks + 1 - meter.pCache.numOfBlocks =
      (meter.pCache.currentSlot + 1 - meter.pCache.numOfBlocks) + meter.pCache.maxBlocks by omega,
      Nat.add_mod_right, Nat.mod_eq_of_lt (by omega)]
  · exact Nat.mod_eq_of_lt (by omega)

theorem firstCacheSlot_lt : getFirstCacheSlot meter.pCache < meter.pCache.maxBlocks :=
  Nat.mod_lt _ (Nat.zero_lt_of_lt meter.inRing)

variable {i : Nat}

theorem ringSlot_eq (inside : i ≤ meter.pCache.maxBlocks) : ringSlot meter.pCache i =
      if getFirstCacheSlot meter.pCache + i < meter.pCache.maxBlocks then
        getFirstCacheSlot meter.pCache + i
      else getFirstCacheSlot meter.pCache + i - meter.pCache.maxBlocks := by
  have first := firstCacheSlot_lt meter
  unfold ringSlot
  split
  · rename_i small
    exact Nat.mod_eq_of_lt small
  · rw [Nat.mod_eq_sub_mod (by omega), Nat.mod_eq_of_lt (by omega)]

theorem ringSlot_lt (i : Nat) : ringSlot meter.pCache i < meter.pCache.maxBlocks :=
  Nat.mod_lt _ (Nat.zero_lt_of_lt meter.inRing)

theorem ringSlot_current (inside : i < meter.pCache.numOfBlocks) :
    ringSlot meter.pCache i = meter.pCache.currentSlot ↔ i + 1 = meter.pCache.numOfBlocks := by
  have room := meter.room
  have inRing := meter.inRing
  rw [ringSlot_eq meter (by omega), firstCacheSlot_eq meter (by omega)]
  split <;> split <;> omega

theorem ringSlot_first (inside : i < meter.pCache.numOfBlocks) :
    ringSlot meter.pCache i = getFirstCacheSlot meter.pCache ↔ i = 0 := by
  have room := meter.room
  have first := firstCacheSlot_lt meter
  rw [ringSlot_eq meter (by omega)]
  split <;> omega

end

theorem ringSlot_succ (pCache : SCacheInfo) (i : Nat) :
    (ringSlot pCache i + 1) % pCache.maxBlocks = ringSlot pCache (i + 1) := by
  rw [ringSlot, ringSlot, Nat.mod_add_mod, Nat.add_assoc]

theorem ringSlot_pred (meter : SMeterObj) {i : Nat} (inside : i < meter.pCache.numOfBlocks) :
    (ringSlot meter.pCache (i + 1) + meter.pCache.maxBlocks - 1) % meter.pCache.maxBlocks =
      ringSlot meter.pCache i := by
  have room := meter.room
  have first := firstCacheSlot_lt meter
  rw [ringSlot_eq meter (by omega), ringSlot_eq meter (by omega)]
  split <;> split
  · rw [show ∀ a b : Nat, a + (b + 1) + meter.pCache.maxBlocks - 1 = (a + b) + meter.pCache.maxBlocks
      by omega, Nat.add_mod_right, Nat.mod_eq_of_lt (by omega)]
  · omega
  · rw [Nat.mod_eq_of_lt (by omega)]
    omega
  · rw [show getFirstCacheSlot meter.pCache + (i + 1) - meter.pCache.maxBlocks +
      meter.pCache.maxBlocks - 1 = (getFirstCacheSlot meter.pCache + i - meter.pCache.maxBlocks) +
      meter.pCache.maxBlocks by omega, Nat.add_mod_right, Nat.mod_eq_of_lt (by omega)]

theorem cache_length (pCache : SCacheInfo) : pCache.blocks.length = pCache.numOfBlocks := by
  simp [SCacheInfo.blocks]

theorem cache_getElem (pCache : SCacheInfo) {i : Nat} (inside : i < pCache.numOfBlocks) :
    pCache.blocks[i]? = some (pCache.cacheBlocks (ringSlot pCache i)) := by
  simp [SCacheInfo.blocks, ringSlot, inside]

theorem cache_split {pCache : SCacheInfo} (blocks : pCache.blocks = front ++ block :: back) :
    front.length < pCache.numOfBlocks ∧
      pCache.cacheBlocks (ringSlot pCache front.length) = block := by
  have length := cache_length pCache
  rw [blocks, length_append, List.length_cons] at length
  have inside : front.length < pCache.numOfBlocks := by omega
  have at_ := cache_getElem pCache inside
  rw [blocks, List.getElem?_append_right le_rfl, Nat.sub_self, List.getElem?_cons_zero] at at_
  exact ⟨inside, (Option.some.inj at_).symm⟩

theorem block_ne_nil (blocks : meter.blocks = front ++ block :: back) : block ≠ [] :=
  meter.some_ block (by simp [blocks])

theorem getCacheDataBlock_ring (blocks : meter.pCache.blocks = front ++ block :: back) :
    getCacheDataBlock meter.toSMeterData (ringSlot meter.pCache front.length) = some block := by
  obtain ⟨inside, isBlock⟩ := cache_split blocks
  have small := ringSlot_lt meter front.length
  have some_ : block ≠ [] := meter.some_ block (by simp [SMeterData.blocks, blocks])
  unfold getCacheDataBlock
  rw [if_pos ⟨by omega, by exact_mod_cast small⟩]
  simp only [Int.toNat_natCast, isBlock, some_, if_false]

theorem getGenericDataBlock_here (here : Here meter cursor front block back) :
    getGenericDataBlock meter.toSMeterData cursor = some block := by
  unfold getGenericDataBlock
  cases here with
  | file pos files blocks =>
    rw [if_pos (fileID_nonneg files)]
    exact getDiskDataBlock_file files blocks
  | cache pos blocks =>
    rw [if_neg (by simp)]
    exact getCacheDataBlock_ring blocks

theorem blocksIn_length_le (here : Here meter cursor front block back) :
    cursor.fileId < 0 ↔ (blocksIn meter.pHeaderFiles).length ≤ front.length := by
  cases here with
  | file pos files blocks =>
    have nonneg := fileID_nonneg files
    simp only [files, blocksIn_append, blocksIn_cons, blocks, length_append, List.length_cons]
    omega
  | cache pos blocks => simp

end Luomi.Vnode.QueryMoves
