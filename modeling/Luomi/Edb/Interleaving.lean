import Luomi.Edb.Conservation
import Luomi.Edb.CursorFrame

/-!
# Writers and queries on one handle

A client puts rows and runs queries on the same database handle in any order.
The writer reopens its files only when the file of the log differs from the file
index cached in the handle, and `checkFile` assigns that index without opening
anything for the writer.
-/

namespace Luomi.Edb.Interleaving

open Database Bookkeeping Conservation Cursor CursorFrame
open Option (bind_eq_bind bind_eq_some_iff bind_some some.inj)

/-- A database handle and the queries opened on it; a closed query is `none`. -/
structure System (α : Type) where
  db : Db α
  queries : List (Option (Query α))

inductive Action (α : Type) where
  | putDb (row : Row α)
  | openQuery (startTime endTime : Int) (order : Order)
  | moveNext (query : Nat)
  | closeQuery (query : Nat)

section Runs

variable {α : Type}

/-- One call of a client; `none` if the process does not survive it or there is
no such query. -/
def step (uninit : Int) (codec : Codec α) (system : System α) : Action α -> Option (System α)
  | .putDb row => do
      let db <- putDb codec system.db row
      return { system with db := db }
  | .openQuery startTime endTime order => do
      let query <- openQuery system.db startTime endTime order
      return { system with queries := system.queries ++ [some query] }
  | .moveNext index => do
      let query <- system.queries[index]?.join
      let result := moveNext uninit codec system.db query
      return { db := result.2.1, queries := system.queries.set index (some result.2.2) }
  | .closeQuery index => do
      let _ <- system.queries[index]?.join
      return { system with queries := system.queries.set index none }

def openSystem (head : LogHead) : System α :=
  { db := openDb head, queries := [] }

/-- Every block flushed so far went to the files of its first row. -/
def Filed (db : Db α) : Prop :=
  ∀ entry ∈ db.written, ∀ first, entry.2.rows.head? = some first ->
    entry.1 = fileIndex db.head first.timestamp

/-- So will the block of the log, if it is ever flushed. -/
def Aimed (db : Db α) : Prop :=
  db.head.compressType ≠ .taosTwoStep -> 0 < db.head.curRowCount ->
    ∀ file, fileIndex db.head (firstTimestamp db) = some file -> (reopen db file).fd = some file

/-- A flush to the given file finds its files open or opens them. -/
def Ready (db : Db α) (file : Int) : Prop := db.curFileIndex = file -> db.fd = some file

/-- The calls that leave the cached file index and the open files in agreement:
a row put into an empty log finds them so for its file, and a query that visits
a file while the log holds rows finds the files of the log open.  A database
whose compression type writes nothing has no flushes to go wrong. -/
def Careful (uninit : Int) (codec : Codec α) (system : System α) : Action α -> Prop
  | .putDb row =>
    system.db.head.compressType ≠ .taosTwoStep -> system.db.head.curRowCount = 0 ->
      ∀ file, fileIndex system.db.head row.timestamp = some file -> Ready system.db file
  | .moveNext index =>
    system.db.head.compressType ≠ .taosTwoStep -> 0 < system.db.head.curRowCount ->
      ∀ query, system.queries[index]?.join = some query ->
        SeeksFile uninit codec system.db query -> system.db.fd = some (logFile system.db)
  | .openQuery _ _ _ => True
  | .closeQuery _ => True

def runAll (uninit : Int) (codec : Codec α) : System α -> List (Action α) -> Option (System α)
  | system, [] => some system
  | system, action :: later => do
      let next <- step uninit codec system action
      runAll uninit codec next later

def AllCareful (uninit : Int) (codec : Codec α) : System α -> List (Action α) -> Prop
  | _, [] => True
  | system, action :: later =>
    ∀ next, step uninit codec system action = some next ->
      Careful uninit codec system action ∧ AllCareful uninit codec next later

/-- In every state of a run the blocks are in their files, and the next flush
goes to its files. -/
def AlwaysFiled (uninit : Int) (codec : Codec α) (start : System α)
    (actions : List (Action α)) : Prop :=
  ∀ count ≤ actions.length, ∀ system,
    runAll uninit codec start (actions.take count) = some system ->
      Filed system.db ∧ Aimed system.db

/-- A flush would go to the right files, whatever the file of the next log. -/
structure Aligned (settings : Settings) (db : Db α) : Prop where
  filed : Filed db
  elsewhere : ∀ file ≠ 0, Ready db file
  log : 0 < db.head.curRowCount -> Ready db (fileOf settings.hours db.head.startTimestamp)

variable {settings : Settings} {uninit : Int} {codec : Codec α} {db : Db α}

theorem logFile_eq (uses : Uses settings db.head) :
    logFile db = fileOf settings.hours db.head.startTimestamp := by
  rw [logFile, uses.hours, fileOf]

theorem reopen_curFileIndex (file : Int) : (reopen db file).curFileIndex = file := by
  unfold reopen
  split
  · rfl
  · rename_i same
    exact Classical.not_not.mp same

variable {file : Int}

theorem reopen_fd_iff : (reopen db file).fd = some file ↔ Ready db file := by
  unfold reopen Ready
  split
  · rename_i other
    exact ⟨fun _ same => absurd same other, fun _ => rfl⟩
  · rename_i same
    exact ⟨fun fd _ => fd, fun ready => ready (Classical.not_not.mp same)⟩

theorem ready_of_fd (fd : db.fd = some file) (index : db.curFileIndex = file)
    (other : Int) : Ready db other := by
  intro same
  rw [fd, <- index, same]

variable {rows : List (Row α)} {next : Db α}

theorem aimed_iff (accounts : Accounts settings db rows)
    (writes : settings.compressType ≠ .taosTwoStep) : Aimed db ↔ (0 < db.head.curRowCount ->
      Ready db (fileOf settings.hours db.head.startTimestamp)) := by
  unfold Aimed
  rw [accounts.uses.compressType]
  constructor
  · intro aimed some'
    refine reopen_fd_iff.mp (aimed writes some' _ ?_)
    rw [accounts.firstTimestamp some', accounts.uses.fileIndex]
  · intro ready _ some' file fileEq
    rw [accounts.firstTimestamp some', accounts.uses.fileIndex] at fileEq
    cases fileEq
    exact reopen_fd_iff.mpr (ready some')

theorem appendBlock_aligned (accounts : Accounts settings db rows)
    (some' : 0 < db.head.curRowCount) (aligned : Aligned settings db) :
    let next := appendBlock (reopen db (fileOf settings.hours db.head.startTimestamp))
    Aligned settings next ∧ ∀ file, Ready next file := by
  intro next
  have fd := reopen_fd_iff.mpr (aligned.log some')
  have always : ∀ file, Ready next file := ready_of_fd fd (reopen_curFileIndex _)
  refine ⟨⟨?_, fun file _ => always file, fun _ => always _⟩, always⟩
  have sameFiles : ∀ time, fileIndex next.head time = fileIndex db.head time := by
    intro time
    simp [next, fileIndex, appendBlock]
  intro entry member first head
  rw [sameFiles]
  rcases List.mem_append.mp member with old | new
  · rw [reopen_written] at old
    exact aligned.filed entry old first head
  · rw [List.mem_singleton.mp new] at head ⊢
    have start : first.timestamp = db.head.startTimestamp := by
      have framed := (accounts.fullLog some').first
      simp only [logBlock, logRows, reopen_logData, reopen_head] at head
      rw [logRows, head] at framed
      exact some.inj framed
    rw [start, accounts.uses.fileIndex]
    exact fd

theorem flushBefore_aligned (writes : settings.compressType ≠ .taosTwoStep) {st : Int}
    (settled : Settled settings db rows)
    (aligned : Aligned settings db) (run : flushBefore codec db st = some next) :
    Aligned settings next ∧ (next = db ∨ ∀ file, Ready next file) := by
  have flush : ∀ some' : 0 < db.head.curRowCount, saveToFile codec db = some next ->
      Aligned settings next ∧ (next = db ∨ ∀ file, Ready next file) := by
    intro some' saved
    have flushed := saveToFile_cases settled.accounts some' saved
    simp only [if_neg writes] at flushed
    obtain ⟨nextAligned, always⟩ := appendBlock_aligned settled.accounts some' aligned
    rw [flushed]
    exact ⟨nextAligned, Or.inr always⟩
  unfold flushBefore at run
  split at run
  · rename_i some'
    split at run
    · exact flush some' run
    · rw [settled.accounts.uses.fileIndex, settled.accounts.uses.fileIndex] at run
      simp only [bind_eq_bind, bind_some] at run
      split at run
      · exact flush some' run
      · cases run
        exact ⟨aligned, Or.inl rfl⟩
  · cases run
    exact ⟨aligned, Or.inl rfl⟩

theorem storeRow_aligned (aligned : Aligned settings db) (row : Row α)
    (first : db.head.curRowCount = 0 -> Ready db (fileOf settings.hours row.timestamp)) :
    Aligned settings (storeRow db row) := by
  refine ⟨aligned.filed, aligned.elsewhere, fun _ => ?_⟩
  by_cases empty : db.head.curRowCount = 0
  · have start : (storeRow db row).head.startTimestamp = row.timestamp := by
      simp [storeRow, empty]
    rw [start]
    exact first empty
  · have start : (storeRow db row).head.startTimestamp = db.head.startTimestamp := by
      simp [storeRow, empty]
    rw [start]
    exact aligned.log (by omega)

section

variable (writes : settings.compressType ≠ .taosTwoStep) (accounts : Accounts settings db rows)
  (some' : 0 < db.head.curRowCount)

include writes accounts some'

theorem flushAfter_aligned (aligned : Aligned settings db) (run : flushAfter codec db = some next) :
    Aligned settings next := by
  unfold flushAfter at run
  split at run
  · have flushed := saveToFile_cases accounts some' run
    simp only [if_neg writes] at flushed
    rw [flushed]
    exact (appendBlock_aligned accounts some' aligned).1
  · cases run
    exact aligned

/-- A full log that went to the right files, or a log that is going there, had
them open. -/
theorem ready_of_flushAfter (run : flushAfter codec db = some next) (filed : Filed next)
    (aimed : Aimed next) : Ready db (fileOf settings.hours db.head.startTimestamp) := by
  unfold flushAfter at run
  split at run
  · have flushed := saveToFile_cases accounts some' run
    simp only [if_neg writes] at flushed
    rw [flushed] at filed
    have framed := (accounts.fullLog some').first
    obtain ⟨first, head, start⟩ := Option.map_eq_some_iff.mp framed
    have sameRows : (logBlock (reopen db (fileOf settings.hours db.head.startTimestamp))).rows =
        logRows db := by
      simp [logBlock, logRows]
    have placed := filed _ (List.mem_append_right _ (List.mem_singleton_self _)) first
      (by rw [sameRows]; exact head)
    have file := accounts.uses.fileIndex db.head.startTimestamp
    simp only [appendBlock, fileIndex, reopen_head, start] at placed
    rw [fileIndex] at file
    rw [file] at placed
    exact reopen_fd_iff.mp placed
  · cases run
    exact (aimed_iff accounts writes).mp aimed some'

end

/-- What holds between two calls of a run in which nothing went wrong yet. -/
structure Kept (settings : Settings) (db : Db α) : Prop where
  uses : Uses settings db.head
  stub : settings.compressType = .taosTwoStep -> db.written = []
  writes : settings.compressType ≠ .taosTwoStep ->
    (∃ rows, Settled settings db rows) ∧ Aligned settings db

theorem Kept.filed_aimed (kept : Kept settings db) : Filed db ∧ Aimed db := by
  by_cases stub : settings.compressType = .taosTwoStep
  · refine ⟨?_, fun writes => absurd (kept.uses.compressType.trans stub) writes⟩
    intro entry member
    rw [kept.stub stub] at member
    cases member
  · obtain ⟨⟨rows, settled⟩, aligned⟩ := kept.writes stub
    exact ⟨aligned.filed, (aimed_iff settled.accounts stub).mpr aligned.log⟩

theorem saveToFile_stub (uses : Uses settings db.head) (stub : settings.compressType = .taosTwoStep)
    (run : saveToFile codec db = some next) : next.head = db.head ∧ next.written = db.written := by
  obtain ⟨index, -, rest⟩ := bind_eq_some_iff.mp run
  simp only [gCompress, reopen_head, uses.compressType, stub, if_true, bind_eq_bind,
    bind_some, Nat.lt_irrefl, if_false] at rest
  cases rest
  exact ⟨reopen_head index, reopen_written index⟩

theorem putDb_stub (uses : Uses settings db.head) (stub : settings.compressType = .taosTwoStep)
    {row : Row α} (run : putDb codec db row = some next) :
    Uses settings next.head ∧ next.written = db.written := by
  obtain ⟨before, flushed, after⟩ := bind_eq_some_iff.mp run
  have first : before.head = db.head ∧ before.written = db.written := by
    unfold flushBefore at flushed
    split at flushed
    · split at flushed
      · exact saveToFile_stub uses stub flushed
      · rw [uses.fileIndex, uses.fileIndex] at flushed
        simp only [bind_eq_bind, bind_some] at flushed
        split at flushed
        · exact saveToFile_stub uses stub flushed
        · cases flushed
          exact ⟨rfl, rfl⟩
    · cases flushed
      exact ⟨rfl, rfl⟩
  have stored : Uses settings (storeRow before row).head := by
    rw [storeRow, first.1]
    exact ⟨uses.hours, uses.cacheSize, uses.compressType⟩
  unfold flushAfter at after
  split at after
  · obtain ⟨head, written⟩ := saveToFile_stub stored stub after
    rw [head, written]
    exact ⟨stored, first.2⟩
  · cases after
    exact ⟨stored, first.2⟩

section

variable (kept : Kept settings db) {row : Row α} (run : putDb codec db row = some next)

include kept run

theorem putDb_kept
    (careful : settings.compressType ≠ .taosTwoStep -> db.head.curRowCount = 0 -> Ready db (fileOf settings.hours row.timestamp))
    :
    Kept settings next := by
  by_cases stub : settings.compressType = .taosTwoStep
  · obtain ⟨uses, written⟩ := putDb_stub kept.uses stub run
    exact ⟨uses, fun _ => written.trans (kept.stub stub), fun writes => absurd stub writes⟩
  · obtain ⟨⟨rows, settled⟩, aligned⟩ := kept.writes stub
    obtain ⟨before, flushed, after⟩ := bind_eq_some_iff.mp run
    obtain ⟨⟨accounts, counter⟩, sameFile⟩ := flushBefore_settled stub settled flushed
    obtain ⟨alignedBefore, same⟩ := flushBefore_aligned stub settled aligned flushed
    obtain ⟨stored, count⟩ := accounts.storeRow row counter sameFile
    have first : before.head.curRowCount = 0 ->
        Ready before (fileOf settings.hours row.timestamp) := by
      intro empty
      rcases same with rfl | always
      · exact careful stub empty
      · exact always _
    have final := flushAfter_aligned stub stored (by omega)
      (storeRow_aligned alignedBefore row first) after
    have settledNext := flushAfter_settled stub stored (by omega) after
    exact ⟨settledNext.accounts.uses, fun isStub => absurd isStub stub,
      fun _ => ⟨⟨_, settledNext⟩, final⟩⟩

theorem careful_of_putDb (filed : Filed next) (aimed : Aimed next)
    (writes : settings.compressType ≠ .taosTwoStep) (empty : db.head.curRowCount = 0) :
    Ready db (fileOf settings.hours row.timestamp) := by
  obtain ⟨⟨rows, settled⟩, aligned⟩ := kept.writes writes
  obtain ⟨before, flushed, after⟩ := bind_eq_some_iff.mp run
  have same : before = db := by
    rw [flushBefore, if_neg (by omega)] at flushed
    exact (some.inj flushed).symm
  subst same
  obtain ⟨stored, count⟩ := settled.accounts.storeRow row settled.counter (fun some' => by omega)
  have start : (storeRow before row).head.startTimestamp = row.timestamp := by
    simp [storeRow, empty]
  have ready := ready_of_flushAfter writes stored (by omega) after filed aimed
  rw [start] at ready
  exact ready

end

theorem visited_kept (kept : Kept settings db)
    (careful : settings.compressType ≠ .taosTwoStep -> 0 < db.head.curRowCount ->
      db.fd = some (logFile db)) : Kept settings (visited db) := by
  refine ⟨kept.uses, kept.stub, fun writes => ?_⟩
  obtain ⟨⟨rows, settled⟩, aligned⟩ := kept.writes writes
  have accounts := settled.accounts
  have fd_ready : db.fd = some (logFile db) -> ∀ file, Ready (visited db) file :=
    fun fd => ready_of_fd fd rfl
  refine ⟨⟨rows, ⟨accounts.uses, accounts.room, accounts.slots, accounts.placed, accounts.blocks,
    accounts.emptyLog, accounts.fullLog⟩, settled.counter⟩, aligned.filed, ?_, ?_⟩
  · intro file notZero same
    by_cases some' : 0 < db.head.curRowCount
    · exact fd_ready (careful writes some') file same
    · have zero : logFile db = 0 := by
        rw [logFile_eq kept.uses, (accounts.emptyLog (by omega)).1, fileOf, Int.zero_tdiv]
      exact absurd (same.symm.trans zero) notZero
  · intro some'
    exact fd_ready (careful writes some') _

variable {action : Action α} {system : System α}

theorem step_kept_iff {next : System α} (kept : Kept settings system.db) (run : step uninit codec system action = some next) :
    (Careful uninit codec system action ↔ Filed next.db ∧ Aimed next.db) ∧
      (Careful uninit codec system action -> Kept settings next.db) := by
  suffices both : (Careful uninit codec system action -> Kept settings next.db) ∧
      (Filed next.db -> Aimed next.db -> Careful uninit codec system action) from
    ⟨⟨fun careful => (both.1 careful).filed_aimed, fun right => both.2 right.1 right.2⟩, both.1⟩
  cases action with
  | putDb row =>
    obtain ⟨db, put, result⟩ := bind_eq_some_iff.mp run
    cases result
    constructor
    · intro careful
      refine putDb_kept kept put (fun writes empty => ?_)
      rw [<- kept.uses.compressType] at writes
      exact careful writes empty _ (kept.uses.fileIndex _)
    · intro filed aimed writes empty file fileEq
      rw [kept.uses.compressType] at writes
      rw [kept.uses.fileIndex] at fileEq
      cases fileEq
      exact careful_of_putDb kept put filed aimed writes empty
  | openQuery startTime endTime order =>
    obtain ⟨query, opened, result⟩ := bind_eq_some_iff.mp run
    cases result
    exact ⟨fun _ => kept, fun _ _ => trivial⟩
  | moveNext index =>
    obtain ⟨query, queryEq, result⟩ := bind_eq_some_iff.mp run
    cases result
    simp only [moveNext_db]
    by_cases seeks : SeeksFile uninit codec system.db query
    · simp only [if_pos seeks]
      constructor
      · intro careful
        refine visited_kept kept (fun writes some' => ?_)
        rw [<- kept.uses.compressType] at writes
        exact careful writes some' query queryEq seeks
      · intro _ aimed writes some' other otherEq _
        rw [kept.uses.compressType] at writes
        obtain ⟨⟨rows, settled⟩, aligned⟩ := kept.writes writes
        have accounts : Accounts settings (visited system.db) rows :=
          ⟨kept.uses, settled.accounts.room, settled.accounts.slots, settled.accounts.placed,
            settled.accounts.blocks, settled.accounts.emptyLog, settled.accounts.fullLog⟩
        have ready := (aimed_iff accounts writes).mp aimed some'
        rw [logFile_eq kept.uses]
        exact ready (logFile_eq kept.uses)
    · simp only [if_neg seeks]
      refine ⟨fun _ => kept, fun _ _ writes some' other otherEq otherSeeks => ?_⟩
      rw [queryEq] at otherEq
      cases otherEq
      exact absurd otherSeeks seeks
  | closeQuery index =>
    obtain ⟨query, queryEq, result⟩ := bind_eq_some_iff.mp run
    cases result
    exact ⟨fun _ => kept, fun _ _ => trivial⟩

theorem alwaysFiled_cons {later : List (Action α)} :
    AlwaysFiled uninit codec system (action :: later) ↔ (Filed system.db ∧ Aimed system.db) ∧
        ∀ next, step uninit codec system action = some next ->
          AlwaysFiled uninit codec next later := by
  constructor
  · intro always
    refine ⟨always 0 (Nat.zero_le _) system rfl, fun next stepped count bound final run => ?_⟩
    refine always (count + 1) (Nat.succ_le_succ bound) final ?_
    rw [List.take_succ_cons, runAll, stepped]
    exact run
  · rintro ⟨now, always⟩ count bound final run
    cases count with
    | zero =>
      cases run
      exact now
    | succ count =>
      obtain ⟨next, stepped, rest⟩ := bind_eq_some_iff.mp run
      exact always next stepped count (Nat.le_of_succ_le_succ bound) final rest

theorem alwaysFiled_iff (actions : List (Action α)) :
    ∀ {system : System α}, Kept settings system.db ->
      (AlwaysFiled uninit codec system actions ↔ AllCareful uninit codec system actions) := by
  induction actions with
  | nil =>
    intro system kept
    refine iff_of_true (fun count bound final run => ?_) trivial
    rw [List.take_nil] at run
    cases run
    exact kept.filed_aimed
  | cons action later ih =>
    intro system kept
    rw [alwaysFiled_cons, AllCareful]
    constructor
    · intro always next stepped
      have start := (always.2 next stepped) 0 (Nat.zero_le _) next rfl
      obtain ⟨careful, keeps⟩ := step_kept_iff kept stepped
      exact ⟨careful.mpr start, (ih (keeps (careful.mpr start))).mp (always.2 next stepped)⟩
    · intro allCareful
      refine ⟨kept.filed_aimed, fun next stepped => ?_⟩
      obtain ⟨careful, rest⟩ := allCareful next stepped
      exact (ih ((step_kept_iff kept stepped).2 careful)).mpr rest

theorem openSystem_kept (new : HourlyDb) :
    Kept new.settings (openSystem new.head : System α).db where
  uses := new.uses
  stub := fun _ => rfl
  writes := by
    intro _
    have settled : Settled new.settings (openDb new.head : Db α) [] := new.settled
    obtain ⟨-, count, -⟩ := createDb_head new.accepted
    refine ⟨⟨[], settled⟩, ⟨?_, ?_, ?_⟩⟩
    · intro entry member
      cases member
    · intro file notZero same
      exact absurd same.symm notZero
    · intro some'
      have empty : (openSystem new.head : System α).db.head.curRowCount = 0 := count
      omega

def hourDb : HourlyDb where
  files := ⟨false, true, true, true⟩
  args :=
    { root := "/data", name := "hour", colCount := 0, colType := [], cacheSize := 2
      storeType := .byCol, compressType := .none, hoursPerFile := 1, columns := List.length_nil }
  head :=
    { storeType := .byCol, compressType := .none, hoursPerFile := 1, maxColSize := 8
      curRowCount := 0, cacheSize := 2, rowSize := 8, dataPos := 80, startTimestamp := 0
      endTimestamp := 0, colCount := 1, colType := [.timestamp] }
  accepted := by decide
  hoursPos := by decide

/-- Two rows of the first hour are flushed, one of the second is put, a query
looks for a row, and another row of the second hour fills the log: its block
goes behind that of the first hour. -/
def lostHour : List (Action Nat) :=
  [.putDb ⟨3600000, 1⟩, .putDb ⟨3600001, 2⟩, .putDb ⟨7200000, 3⟩,
    .openQuery 3600000 7200000 .asc, .moveNext 0, .putDb ⟨7200001, 4⟩]

end Runs

end Luomi.Edb.Interleaving
