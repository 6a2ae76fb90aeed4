import Luomi.Edb.Bookkeeping

/-!
# Conservation of rows over runs of `put_db`

The counter of the log stays below the cache size and each row put is in one
place, unless the compression type is the one whose function is a stub that
returns 0: then nothing is ever flushed and the log only grows.
-/

namespace Luomi.Edb.Conservation

open Database Bookkeeping
open Option (bind_eq_bind bind_eq_some_iff bind_some some.inj)

/-- A database that `create_db` accepts. -/
structure CreatedDb where
  files : FileSystem
  args : CreateArgs
  head : LogHead
  accepted : createDb files args = .ok head

structure HourlyDb extends CreatedDb where
  hoursPos : 1 ≤ args.hoursPerFile.toNat

structure NewDb extends HourlyDb where
  cachePos : 1 ≤ args.cacheSize.toNat

variable {α : Type}

def OneFile (head : LogHead) (rows : List (Row α)) : Prop :=
  ∀ first, rows.head? = some first -> ∀ row ∈ rows,
    fileIndex head row.timestamp = fileIndex head first.timestamp

/-- The counter is below the cache size, and every row is among the counted rows
of exactly one block or of the log, each of which keeps to one file. -/
structure Conserved (db : Db α) (rows : List (Row α)) : Prop where
  counter : db.head.curRowCount < db.head.cacheSize
  placed : (db.written.flatMap fun entry => entry.2.rows) ++ logRows db = rows
  logCount : (logRows db).length = db.head.curRowCount
  blockCounts : ∀ entry ∈ db.written, entry.2.rows.length = entry.2.rowCount
  logFile : OneFile db.head (logRows db)
  blockFiles : ∀ entry ∈ db.written, OneFile db.head entry.2.rows

/-- After every `put_db` of the sequence that the process survives, the rows put
so far are conserved. -/
def Conserves (new : NewDb) (codec : Codec α) (rows : List (Row α)) : Prop :=
  ∀ count ≤ rows.length, ∀ db, putAll codec (openDb new.head) (rows.take count) = some db ->
    Conserved db (rows.take count)

variable {head : LogHead}

theorem createDb_head {files : FileSystem} {args : CreateArgs}
    (accepted : createDb files args = .ok head) :
    args.colCount.toNat + 1 ≤ maxColCount ∧ head.curRowCount = 0 ∧ head.startTimestamp = 0 ∧
      head.endTimestamp = 0 ∧ head.hoursPerFile = args.hoursPerFile.toNat ∧
      head.cacheSize = args.cacheSize.toNat ∧ head.compressType = args.compressType ∧
      head.rowSize = (rowSizes args.colType).1 ∧
      head.dataPos = sizeofLogHead + args.colCount.toNat * sizeofColType ∧
      head.colCount = args.colCount.toNat + 1 ∧ head.colType = .timestamp :: args.colType := by
  unfold createDb at accepted
  split at accepted
  · cases accepted
  · split at accepted
    · cases accepted
    · rename_i few
      split at accepted
      · cases accepted
      · split at accepted
        · cases accepted
        · simp only at accepted
          split at accepted
          · cases accepted
          · split at accepted
            · cases accepted
            · cases accepted
              exact ⟨Nat.le_of_not_lt few, rfl, rfl, rfl, rfl, rfl, rfl, rfl, rfl, rfl, rfl⟩

section Runs

variable (created : HourlyDb)

def HourlyDb.settings : Settings where
  hours := created.args.hoursPerFile.toNat
  cacheSize := created.args.cacheSize.toNat
  compressType := created.args.compressType
  hoursPos := created.hoursPos
  cacheShort := created.args.cacheSize.toNat_lt

theorem HourlyDb.uses : Uses created.settings created.head := by
  obtain ⟨-, -, -, -, hours, cache, type, -⟩ := createDb_head created.accepted
  exact ⟨hours, cache, type⟩

theorem HourlyDb.settled : Settled created.settings (openDb created.head : Db α) [] := by
  obtain ⟨-, count, start, finish, -⟩ := createDb_head created.accepted
  refine ⟨openDb_accounts created.uses count start finish, ?_⟩
  have empty : (openDb created.head : Db α).head.curRowCount = 0 := count
  rw [empty]
  exact created.settings.room_pos

variable {new : NewDb} {codec : Codec α}
  {rows : List (Row α)} {settings : Settings}

theorem Framed.oneFile_head (uses : Uses settings head) {start finish : Int}
    (framed : Framed settings.hours rows start finish) : OneFile head rows := by
  intro first firstEq row member
  have start' : first.timestamp = start := by
    have := framed.first
    rw [firstEq] at this
    exact some.inj this
  rw [uses.fileIndex, uses.fileIndex, start', framed.oneFile row member]

variable {db : Db α}

theorem conserved_of_settled (cachePos : 1 ≤ settings.cacheSize) (settled : Settled settings db rows) : Conserved db rows := by
  obtain ⟨accounts, counter⟩ := settled
  rw [Settings.room, max_eq_left cachePos] at counter
  refine ⟨by rw [accounts.uses.cacheSize]; exact counter, accounts.placed,
    accounts.logRows_length, fun entry member => (accounts.blocks entry member).1, ?_, ?_⟩
  · by_cases some' : 0 < db.head.curRowCount
    · exact Framed.oneFile_head accounts.uses (accounts.fullLog some')
    · have none' : logRows db = [] := by
        apply List.eq_nil_of_length_eq_zero
        rw [accounts.logRows_length]
        omega
      intro first firstEq
      rw [none'] at firstEq
      cases firstEq
  · intro entry member
    exact Framed.oneFile_head accounts.uses (accounts.blocks entry member).2.2

structure Piled (settings : Settings) (db : Db α) (rows : List (Row α)) : Prop where
  uses : Uses settings db.head
  counter : db.head.curRowCount = rows.length
  slots : rows.length ≤ db.logData.length
  log : logRows db = rows
  nothing : db.written = []

theorem saveToFile_piled (stub : settings.compressType = .taosTwoStep)
    {next : Db α} (piled : Piled settings db rows)
    (run : saveToFile codec db = some next) : Piled settings next rows := by
  unfold saveToFile at run
  rw [piled.uses.fileIndex, bind_eq_bind, bind_some] at run
  simp only [reopen_head, piled.uses.compressType, gCompress, if_pos stub] at run
  have same := some.inj run
  rw [if_neg (Nat.lt_irrefl 0)] at same
  rw [<- same]
  exact ⟨by simpa using piled.uses, by simpa using piled.counter, by simpa using piled.slots,
    by simpa [logRows] using piled.log, by simpa using piled.nothing⟩

theorem storeRow_piled
    (piled : Piled settings db rows) (row : Row α) (short : rows.length + 1 < 65536) :
    Piled settings (storeRow db row) (rows ++ [row]) := by
  have count : (storeRow db row).head.curRowCount = rows.length + 1 := by
    simp only [storeRow, piled.counter]
    exact Nat.mod_eq_of_lt short
  have before : (db.logData.take db.head.curRowCount).length = rows.length := by
    rw [List.length_take, piled.counter, Nat.min_eq_left piled.slots]
  have kept : db.logData.take db.head.curRowCount = rows := piled.log
  refine ⟨⟨piled.uses.hours, piled.uses.cacheSize, piled.uses.compressType⟩, ?_, ?_, ?_,
    piled.nothing⟩
  · rw [count, List.length_append, List.length_singleton]
  · simp only [storeRow, List.length_append, before, List.length_cons, List.length_nil]
    omega
  · rw [logRows, count]
    simp only [storeRow]
    rw [kept, List.take_append, List.take_of_length_le (Nat.le_add_right _ 1),
      Nat.add_sub_cancel_left]
    rfl

theorem putDb_piled (stub : settings.compressType = .taosTwoStep)
    {next : Db α} {row : Row α} (piled : Piled settings db rows)
    (short : rows.length + 1 < 65536) (run : putDb codec db row = some next) :
    Piled settings next (rows ++ [row]) := by
  obtain ⟨before, flushed, after⟩ := bind_eq_some_iff.mp run
  have beforePiled : Piled settings before rows := by
    unfold flushBefore at flushed
    split at flushed
    · split at flushed
      · exact saveToFile_piled stub piled flushed
      · obtain ⟨expect, -, flushed⟩ := bind_eq_some_iff.mp flushed
        obtain ⟨current, -, flushed⟩ := bind_eq_some_iff.mp flushed
        split at flushed
        · exact saveToFile_piled stub piled flushed
        · cases flushed
          exact piled
    · cases flushed
      exact piled
  have stored := storeRow_piled beforePiled row short
  unfold flushAfter at after
  split at after
  · exact saveToFile_piled stub stored after
  · cases after
    exact stored

theorem putDb_survives (codec : Codec α) (stub : settings.compressType = .taosTwoStep) (uses : Uses settings db.head) (row : Row α) :
    ∃ next, putDb codec db row = some next := by
  have saves : ∀ {db : Db α}, Uses settings db.head ->
      ∃ next, saveToFile codec db = some next ∧ Uses settings next.head := by
    intro db uses
    unfold saveToFile
    rw [uses.fileIndex, bind_eq_bind, bind_some]
    simp only [reopen_head, uses.compressType, gCompress, if_pos stub]
    exact ⟨_, rfl, by rw [if_neg (Nat.lt_irrefl 0)]; simpa using uses⟩
  obtain ⟨before, flushed, beforeUses⟩ : ∃ before,
      flushBefore codec db row.timestamp = some before ∧ Uses settings before.head := by
    unfold flushBefore
    split
    · split
      · exact saves uses
      · rw [uses.fileIndex, uses.fileIndex, bind_eq_bind, bind_some, bind_some]
        split
        · exact saves uses
        · exact ⟨db, rfl, uses⟩
    · exact ⟨db, rfl, uses⟩
  have storedUses : Uses settings (storeRow before row).head :=
    ⟨beforeUses.hours, beforeUses.cacheSize, beforeUses.compressType⟩
  obtain ⟨next, after⟩ : ∃ next, flushAfter codec (storeRow before row) = some next := by
    unfold flushAfter
    split
    · obtain ⟨next, saved, -⟩ := saves storedUses
      exact ⟨next, saved⟩
    · exact ⟨_, rfl⟩
  exact ⟨next, bind_eq_some_iff.mpr ⟨before, flushed, after⟩⟩

theorem putAll_piled (stub : settings.compressType = .taosTwoStep)
    (later : List (Row α)) : ∀ {db : Db α} {rows : List (Row α)}, Piled settings db rows ->
      rows.length + later.length < 65536 ->
        ∃ next, putAll codec db later = some next ∧ Piled settings next (rows ++ later) := by
  induction later with
  | nil =>
    intro db rows piled _
    exact ⟨db, rfl, by simpa using piled⟩
  | cons row later ih =>
    intro db rows piled short
    rw [List.length_cons] at short
    obtain ⟨middle, put⟩ := putDb_survives codec stub piled.uses row
    have middlePiled := putDb_piled stub piled (by omega) put
    obtain ⟨next, run, nextPiled⟩ := ih middlePiled (by
      rw [List.length_append, List.length_singleton]; omega)
    refine ⟨next, ?_, by simpa using nextPiled⟩
    simp only [putAll, put, bind_eq_bind, bind_some, run]

theorem Conserves.of_writes (writes : new.args.compressType ≠ .taosTwoStep)
    (rows : List (Row α)) : Conserves new codec rows := by
  intro count _ db run
  have writesBlocks : new.settings.compressType ≠ .taosTwoStep := writes
  have settled := putAll_settled writesBlocks (rows.take count) new.settled run
  rw [List.nil_append] at settled
  exact conserved_of_settled new.cachePos settled

def stubDb : NewDb where
  files := ⟨false, true, true, true⟩
  args :=
    { root := "/data", name := "stub", colCount := 0, colType := [], cacheSize := 1
      storeType := .byCol, compressType := .taosTwoStep, hoursPerFile := 1, columns := rfl }
  head :=
    { storeType := .byCol, compressType := .taosTwoStep, hoursPerFile := 1, maxColSize := 8
      curRowCount := 0, cacheSize := 1, rowSize := 8, dataPos := 80, startTimestamp := 0
      endTimestamp := 0, colCount := 1, colType := [.timestamp] }
  accepted := by decide
  cachePos := by decide
  hoursPos := by decide

end Runs

end Luomi.Edb.Conservation
