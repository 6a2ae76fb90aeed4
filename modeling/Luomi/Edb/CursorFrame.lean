import Luomi.Edb.Cursor

/-!
# What a query changes

`check_block`, `check_log` and the two searches leave a query's data indexes
alone when they fail, and the only thing a query ever changes in the database is
the cached file index, which `checkFile` assigns.  `SeeksFile` tells which calls
of `move_next` get that far.
-/

namespace Luomi.Edb.CursorFrame

open Database Cursor

variable {α : Type} {uninit : Int} {codec : Codec α}

/-- Only the fields that tell where a search for blocks is have changed. -/
def SameFile (before after : Query α) : Prop :=
  ∃ first last current fd position,
    after = { before with
      startBlockIndex := first
      endBlockIndex := last
      curBlockIndex := current
      indexFd := fd
      indexPos := position }

/-- Only the fields that tell where a search for files or blocks is have
changed. -/
def SamePlace (before after : Query α) : Prop :=
  ∃ file, SameFile { before with curFileIndex := file } after

theorem SameFile.refl (query : Query α) : SameFile query query :=
  ⟨_, _, _, _, _, rfl⟩

theorem SameFile.trans {first second third : Query α} (left : SameFile first second)
    (right : SameFile second third) : SameFile first third := by
  obtain ⟨_, _, _, _, _, rfl⟩ := left
  obtain ⟨_, _, _, _, _, rfl⟩ := right
  exact ⟨_, _, _, _, _, rfl⟩

theorem SameFile.samePlace {before after : Query α} (same : SameFile before after) :
    SamePlace before after :=
  ⟨before.curFileIndex, same⟩

theorem SamePlace.trans {first second third : Query α} (left : SamePlace first second)
    (right : SamePlace second third) : SamePlace first third := by
  obtain ⟨_, _, _, _, _, _, rfl⟩ := left
  obtain ⟨_, _, _, _, _, _, rfl⟩ := right
  exact ⟨_, _, _, _, _, _, rfl⟩

section Search

variable {db : Db α} {query : Query α}

theorem checkBlock_sameFile (failed : (checkBlock uninit codec db query).1 ≠ 0) :
    SameFile query (checkBlock uninit codec db query).2 := by
  unfold checkBlock at failed ⊢
  split
  · exact SameFile.refl query
  · rename_i file opened
    simp only [opened] at failed
    simp only
    split
    · exact ⟨_, _, _, _, _, rfl⟩
    · rename_i block entry
      simp only [entry] at failed
      split
      · exact ⟨_, _, _, _, _, rfl⟩
      · rename_i passes
        rw [if_neg passes] at failed
        exact absurd rfl failed

theorem searchBlocks_sameFile (fuel : Nat) : ∀ {query : Query α},
    (searchBlocks uninit codec db fuel query).1 ≠ 0 ->
      SameFile query (searchBlocks uninit codec db fuel query).2 := by
  induction fuel with
  | zero =>
    intro query failed
    exact ⟨_, _, _, _, _, rfl⟩
  | succ fuel ih =>
    intro query failed
    unfold searchBlocks at failed ⊢
    split
    · exact ⟨_, _, _, _, _, rfl⟩
    · rename_i inside
      rw [if_neg inside] at failed
      simp only at failed ⊢
      split
      · rename_i found
        rw [if_pos found] at failed
        exact absurd rfl failed
      · rename_i missed
        rw [if_neg missed] at failed
        have onward : SameFile (checkBlock uninit codec db query).2
            (stepBlock (checkBlock uninit codec db query).2) := ⟨_, _, _, _, _, rfl⟩
        exact ((checkBlock_sameFile missed).trans onward).trans (ih failed)

theorem searchBlockIndex_sameFile (failed : (searchBlockIndex uninit codec db query).1 ≠ 0) :
    SameFile query (searchBlockIndex uninit codec db query).2 :=
  searchBlocks_sameFile _ failed

theorem checkFile_db : (checkFile uninit codec db query).2.1 = visited db := by
  unfold checkFile
  simp only
  split <;> rfl

theorem checkFile_sameFile (failed : (checkFile uninit codec db query).1 ≠ 0) :
    SameFile query (checkFile uninit codec db query).2.2 := by
  unfold checkFile at failed ⊢
  simp only at failed ⊢
  split
  · exact ⟨_, _, _, _, _, rfl⟩
  · rename_i visited
    rw [if_neg visited] at failed
    refine SameFile.trans ?_ (searchBlockIndex_sameFile (fun found => failed (if_pos found)))
    split <;> exact ⟨_, _, _, _, _, rfl⟩

end Search

theorem searchFiles_samePlace (fuel : Nat) : ∀ {db : Db α} {query : Query α},
    (searchFiles uninit codec fuel db query).1 ≠ 0 ->
      SamePlace query (searchFiles uninit codec fuel db query).2.2 := by
  induction fuel with
  | zero =>
    intro db query failed
    exact (SameFile.refl query).samePlace
  | succ fuel ih =>
    intro db query failed
    unfold searchFiles at failed ⊢
    split
    · exact (SameFile.refl query).samePlace
    · rename_i inside
      rw [if_neg inside] at failed
      simp only at failed ⊢
      split
      · rename_i found
        rw [if_pos found] at failed
        exact absurd rfl failed
      · rename_i missed
        rw [if_neg missed] at failed
        have onward : SamePlace (checkFile uninit codec db query).2.2
            (stepFile (checkFile uninit codec db query).2.2) := ⟨_, SameFile.refl _⟩
        exact ((checkFile_sameFile missed).samePlace.trans onward).trans (ih failed)

theorem searchFileIndex_samePlace {db : Db α} {query : Query α}
    (failed : (searchFileIndex uninit codec db query).1 ≠ 0) :
    SamePlace query (searchFileIndex uninit codec db query).2.2 :=
  searchFiles_samePlace _ failed

theorem searchFiles_db (uninit : Int) (codec : Codec α) (fuel : Nat) :
    ∀ {db : Db α} {query : Query α}, (searchFiles uninit codec (fuel + 1) db query).2.1 =
      if query.order.past query.curFileIndex query.endFileIndex then db else visited db := by
  induction fuel with
  | zero =>
    intro db query
    unfold searchFiles
    split
    · rfl
    · simp only
      split <;> exact checkFile_db
  | succ fuel ih =>
    intro db query
    unfold searchFiles
    split
    · rfl
    · simp only
      split
      · exact checkFile_db
      · rw [ih, checkFile_db]
        split <;> rfl

variable {index finish : Int}

@[simp] theorem past_asc_iff : Order.past .asc index finish = true ↔ finish < index :=
  decide_eq_true_iff

@[simp] theorem past_desc_iff : Order.past .desc index finish = true ↔ index < finish :=
  decide_eq_true_iff

theorem eq_of_past_step {order : Order} (within : order.past index finish = false)
    (past : order.past (index + order.step) finish = true) : index = finish := by
  have within : ¬ order.past index finish = true := by rw [within]; exact Bool.false_ne_true
  cases order with
  | asc =>
    rw [past_asc_iff] at within past
    simp only [Order.step] at past
    omega
  | desc =>
    rw [past_desc_iff] at within past
    simp only [Order.step] at past
    omega

theorem distance_eq_zero_iff (order : Order) (index finish : Int) :
    distance order index finish = 0 ↔ order.past index finish = true := by
  cases order <;> simp only [distance, Order.step, Order.past, decide_eq_true_eq] <;> omega

section Next

variable {db : Db α} {query : Query α}

theorem searchFileIndex_db : (searchFileIndex uninit codec db query).2.1 =
      if query.order.past query.curFileIndex query.endFileIndex then db else visited db := by
  unfold searchFileIndex
  cases steps : distance query.order query.curFileIndex query.endFileIndex with
  | zero =>
    rw [if_pos ((distance_eq_zero_iff _ _ _).mp steps)]
    rfl
  | succ fuel => exact searchFiles_db uninit codec fuel

/-- There is a file left to visit behind the rows, the block and the file of the
query. -/
def FileDue (uninit : Int) (codec : Codec α) (db : Db α) (query : Query α) : Prop :=
  if query.curFileIndex = -1 then
    (query.curDataIndex = -1 ∨ query.curDataIndex = query.endDataIndex) ∧
      query.order.past query.startFileIndex query.endFileIndex = false
  else
    query.curDataIndex ≠ -1 ∧ query.curDataIndex = query.endDataIndex ∧
      (searchBlockIndex uninit codec db (stepBlock (leaveRows query))).1 ≠ 0 ∧
      query.order.past (query.curFileIndex + query.order.step) query.endFileIndex = false

theorem searchBlockIndex_past
    (past : query.order.past query.curBlockIndex query.endBlockIndex = true) :
    searchBlockIndex uninit codec db query = (-1, resetBlocks query) := by
  rw [searchBlockIndex, (distance_eq_zero_iff _ _ _).mpr past]
  rfl

theorem searchFileIndex_past
    (past : query.order.past query.curFileIndex query.endFileIndex = true) :
    searchFileIndex uninit codec db query = (-1, db, query) := by
  rw [searchFileIndex, (distance_eq_zero_iff _ _ _).mpr past]
  rfl

/-- A call of `move_next` visits a file: it is not served by the log of a
descending query, and a file is due. -/
def SeeksFile (uninit : Int) (codec : Codec α) (db : Db α) (query : Query α) : Prop :=
  (dueLog uninit .desc db query).1 ≠ 0 ∧
    FileDue uninit codec db (dueLog uninit .desc db query).2

instance : Decidable (FileDue uninit codec db query) := by
  unfold FileDue
  exact inferInstance

instance : Decidable (SeeksFile uninit codec db query) := by
  unfold SeeksFile
  exact inferInstance

theorem firstFile_db (start : query.curDataIndex = -1 ∧ query.curFileIndex = -1) :
    (firstFile uninit codec db query).2.1 =
      if FileDue uninit codec db query then visited db else db := by
  rw [firstFile, if_pos start, searchFileIndex_db]
  simp only [FileDue, if_pos start.2, start.1, true_or, true_and]
  change (if query.order.past query.startFileIndex query.endFileIndex = true then db
    else visited db) = _
  cases query.order.past query.startFileIndex query.endFileIndex <;> rfl

/-- Behind a failed `firstFile` there are no rows to leave. -/
theorem nextBlock_of_firstFile (start : query.curDataIndex = -1 ∧ query.curFileIndex = -1)
    (failed : (firstFile uninit codec db query).1 ≠ 0) :
    nextBlock uninit codec (firstFile uninit codec db query).2.1
        (firstFile uninit codec db query).2.2 = (-1, (firstFile uninit codec db query).2) := by
  rw [firstFile, if_pos start] at failed ⊢
  obtain ⟨_, _, _, _, _, _, same⟩ := searchFileIndex_samePlace failed
  have none' : (searchFileIndex uninit codec db (atFirstFile query)).2.2.curDataIndex = -1 := by
    rw [same]
    exact start.1
  rw [nextBlock, if_neg (fun rows => rows.1 none')]

theorem nextBlock_db (elsewhere : ¬ (query.curDataIndex = -1 ∧ query.curFileIndex = -1)) :
    (nextBlock uninit codec db query).2.1 =
      if FileDue uninit codec db query then visited db else db := by
  unfold nextBlock FileDue
  by_cases lastRow : query.curDataIndex ≠ -1 ∧ query.curDataIndex = query.endDataIndex
  · rw [if_pos lastRow]
    simp only
    by_cases noFile : query.curFileIndex = -1
    · rw [if_pos (show (leaveRows query).curFileIndex = -1 from noFile), searchFileIndex_db]
      simp only [if_pos noFile, lastRow.2, or_true, true_and]
      cases past : query.order.past query.startFileIndex query.endFileIndex <;>
        simp [leaveRows, atFirstFile, past]
    · rw [if_neg (show ¬ (leaveRows query).curFileIndex = -1 from noFile)]
      simp only [if_neg noFile]
      split
      · rename_i found
        rw [if_neg (fun due => due.2.2.1 found)]
      · rename_i missed
        obtain ⟨_, _, _, _, _, same⟩ := searchBlockIndex_sameFile missed
        rw [searchFileIndex_db, same]
        have due : (query.curDataIndex ≠ -1 ∧ query.curDataIndex = query.endDataIndex ∧
            (searchBlockIndex uninit codec db (stepBlock (leaveRows query))).1 ≠ 0 ∧
            query.order.past (query.curFileIndex + query.order.step) query.endFileIndex = false) ↔
            query.order.past (query.curFileIndex + query.order.step) query.endFileIndex = false :=
          ⟨fun due => due.2.2.2, fun left => ⟨lastRow.1, lastRow.2, missed, left⟩⟩
        simp only [due]
        change (if query.order.past (query.curFileIndex + query.order.step) query.endFileIndex = true
          then db else visited db) = _
        cases query.order.past (query.curFileIndex + query.order.step) query.endFileIndex <;> rfl
  · rw [if_neg lastRow]
    have notDue : ¬ FileDue uninit codec db query := by
      unfold FileDue
      split
      · rintro ⟨none' | last, -⟩
        · exact elsewhere ⟨none', by assumption⟩
        · exact lastRow ⟨fun none' => elsewhere ⟨none', by assumption⟩, last⟩
      · exact fun due => lastRow ⟨due.1, due.2.1⟩
    exact (if_neg notDue).symm

theorem moveNext_db : (moveNext uninit codec db query).2.1 =
      if SeeksFile uninit codec db query then visited db else db := by
  by_cases served : (dueLog uninit .desc db query).1 = 0
  · rw [if_neg (fun seeks => seeks.1 served), moveNext]
    simp only [if_pos served]
  · have due : SeeksFile uninit codec db query ↔
        FileDue uninit codec db (dueLog uninit .desc db query).2 :=
      ⟨fun seeks => seeks.2, fun due => ⟨served, due⟩⟩
    simp only [due, moveNext, if_neg served]
    by_cases start : (dueLog uninit .desc db query).2.curDataIndex = -1 ∧
        (dueLog uninit .desc db query).2.curFileIndex = -1
    · rw [<- firstFile_db start]
      split
      · rfl
      · rename_i missed
        rw [nextBlock_of_firstFile start missed]
        rfl
    · rw [<- nextBlock_db start, firstFile, if_neg start]
      simp only [Int.reduceNeg, Int.reduceEq, reduceIte]
      split <;> rfl

end Next

end Luomi.Edb.CursorFrame
