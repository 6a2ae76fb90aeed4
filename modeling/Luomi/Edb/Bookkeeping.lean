import Luomi.Edb.Database

/-!
# Where the rows of the embedded database are

With a codec that writes something, every row that was put is in one block or in
the log, blocks and log keep to one file each, and the recorded timestamps are
those of the first and the last row.  Each of the three stages of `put_db`
keeps these accounts.
-/

namespace Luomi.Edb.Bookkeeping

open Database
open Option (bind_eq_bind bind_eq_some_iff bind_some some.inj)

variable {α : Type}

/-- The file of a timestamp when `hoursPerFile` is not 0. -/
def fileOf (hours : Nat) (timestamp : Int) : Int :=
  timestamp.tdiv (hours * gMillisecondOfHour)

structure Framed (hours : Nat) (rows : List (Row α)) (start finish : Int) : Prop where
  first : rows.head?.map Row.timestamp = some start
  last : rows.getLast?.map Row.timestamp = some finish
  oneFile : ∀ row ∈ rows, fileOf hours row.timestamp = fileOf hours start

/-- The parts of the head that no operation changes. -/
structure Settings where
  hours : Nat
  cacheSize : Nat
  compressType : CompressType
  hoursPos : 0 < hours
  cacheShort : cacheSize < 65536

def Settings.room (settings : Settings) : Nat := max settings.cacheSize 1

structure Uses (settings : Settings) (head : LogHead) : Prop where
  hours : head.hoursPerFile = settings.hours
  cacheSize : head.cacheSize = settings.cacheSize
  compressType : head.compressType = settings.compressType

structure Accounts (settings : Settings) (db : Db α) (rows : List (Row α)) : Prop where
  uses : Uses settings db.head
  room : db.head.curRowCount ≤ settings.room
  slots : db.head.curRowCount ≤ db.logData.length
  placed : (db.written.flatMap fun entry => entry.2.rows) ++ logRows db = rows
  blocks : ∀ entry ∈ db.written, entry.2.rows.length = entry.2.rowCount ∧
    entry.2.rowCount ≤ settings.room ∧
    Framed settings.hours entry.2.rows entry.2.startTimestamp entry.2.endTimestamp
  emptyLog : db.head.curRowCount = 0 -> db.head.startTimestamp = 0 ∧ db.head.endTimestamp = 0
  fullLog : 0 < db.head.curRowCount ->
    Framed settings.hours (logRows db) db.head.startTimestamp db.head.endTimestamp

theorem Settings.room_pos (settings : Settings) : 0 < settings.room :=
  Nat.lt_of_lt_of_le Nat.one_pos (le_max_right _ _)

theorem Settings.room_short (settings : Settings) : settings.room < 65536 :=
  max_lt settings.cacheShort (by omega)

theorem Framed.singleton (hours : Nat) (row : Row α) :
    Framed hours [row] row.timestamp row.timestamp :=
  ⟨rfl, rfl, fun other member => by rw [List.mem_singleton.mp member]⟩

variable {row : Row α}

theorem Framed.snoc {hours : Nat} {rows : List (Row α)} {start finish : Int}
    (framed : Framed hours rows start finish)
    (sameFile : fileOf hours row.timestamp = fileOf hours start) :
    Framed hours (rows ++ [row]) start row.timestamp where
  first := by
    have first := framed.first
    cases rows with
    | nil => cases first
    | cons head rest => exact first
  last := by simp
  oneFile := by
    intro other member
    rcases List.mem_append.mp member with old | new
    · exact framed.oneFile other old
    · rw [List.mem_singleton.mp new, sameFile]

section Stages

variable {settings : Settings} {db : Db α} {rows : List (Row α)}
  {head : LogHead}

theorem Uses.fileIndex (uses : Uses settings head) (timestamp : Int) :
    fileIndex head timestamp = some (fileOf settings.hours timestamp) := by
  have positive := settings.hoursPos
  rw [Database.fileIndex, uses.hours, if_neg (by omega)]
  rfl

theorem openDb_accounts (uses : Uses settings head)
    (fresh : head.curRowCount = 0) (start : head.startTimestamp = 0)
    (finish : head.endTimestamp = 0) : Accounts settings (openDb head : Db α) [] where
  uses := uses
  room := by simp [openDb, fresh]
  slots := by simp [openDb, fresh]
  placed := by simp [openDb, logRows]
  blocks := by simp [openDb]
  emptyLog := fun _ => ⟨start, finish⟩
  fullLog := fun positive => by simp [openDb, fresh] at positive

theorem Accounts.logRows_length (accounts : Accounts settings db rows) :
    (logRows db).length = db.head.curRowCount := by
  rw [logRows, List.length_take, Nat.min_eq_left accounts.slots]

theorem Accounts.firstTimestamp (accounts : Accounts settings db rows)
    (some' : 0 < db.head.curRowCount) : firstTimestamp db = db.head.startTimestamp := by
  have first := (accounts.fullLog some').first
  have slots := accounts.slots
  cases slotsEq : db.logData with
  | nil =>
    rw [slotsEq, List.length_nil] at slots
    omega
  | cons row later =>
    obtain ⟨count, countEq⟩ : ∃ count, db.head.curRowCount = count + 1 :=
      ⟨db.head.curRowCount - 1, by omega⟩
    rw [logRows, slotsEq, countEq, List.take_succ_cons, List.head?_cons] at first
    rw [Database.firstTimestamp, slotsEq, List.head?_cons, Option.map_some, Option.getD_some]
    exact some.inj first

@[simp] theorem reopen_head (index : Int) : (reopen db index).head = db.head := by
  unfold reopen
  split <;> rfl

@[simp] theorem reopen_logData (index : Int) : (reopen db index).logData = db.logData := by
  unfold reopen
  split <;> rfl

@[simp] theorem reopen_written (index : Int) : (reopen db index).written = db.written := by
  unfold reopen
  split <;> rfl

section

variable (accounts : Accounts settings db rows)
include accounts

theorem saveToFile_cases {codec : Codec α} {next : Db α}
    (some' : 0 < db.head.curRowCount) (run : saveToFile codec db = some next) :
    let opened := reopen db (fileOf settings.hours db.head.startTimestamp)
    next = if settings.compressType = .taosTwoStep then opened else appendBlock opened := by
  intro opened
  unfold saveToFile at run
  rw [accounts.uses.fileIndex, accounts.firstTimestamp some', bind_eq_bind, bind_some] at run
  simp only [reopen_head, accounts.uses.compressType, gCompress] at run
  by_cases twoStep : settings.compressType = .taosTwoStep
  · simp only [if_pos twoStep] at run ⊢
    exact (some.inj run).symm
  · simp only [if_neg twoStep] at run ⊢
    obtain ⟨size, written, result⟩ := bind_eq_some_iff.mp run
    rw [if_pos (codec.positive written)] at result
    exact (some.inj result).symm

theorem Accounts.reopen (index : Int) : Accounts settings (reopen db index) rows := by
  have sameRows : logRows (Database.reopen db index) = logRows db := by simp [logRows]
  refine ⟨?_, ?_, ?_, ?_, ?_, ?_, ?_⟩
  · simpa using accounts.uses
  · simpa using accounts.room
  · simpa using accounts.slots
  · simpa [sameRows] using accounts.placed
  · simpa using accounts.blocks
  · simpa using accounts.emptyLog
  · simpa [sameRows] using accounts.fullLog

theorem Accounts.appendBlock
    (some' : 0 < db.head.curRowCount) : Accounts settings (appendBlock db) rows where
  uses := ⟨accounts.uses.hours, accounts.uses.cacheSize, accounts.uses.compressType⟩
  room := Nat.zero_le _
  slots := Nat.zero_le _
  placed := by
    rw [<- accounts.placed]
    simp [Database.appendBlock, logRows, logBlock]
  blocks := by
    intro entry member
    rcases List.mem_append.mp member with old | new
    · exact accounts.blocks entry old
    · rw [List.mem_singleton.mp new]
      exact ⟨accounts.logRows_length, accounts.room, accounts.fullLog some'⟩
  emptyLog := fun _ => ⟨rfl, rfl⟩
  fullLog := fun positive => absurd positive (Nat.lt_irrefl 0)

theorem Accounts.storeRow (row : Row α) (room : db.head.curRowCount < settings.room)
    (sameFile : 0 < db.head.curRowCount ->
      fileOf settings.hours db.head.startTimestamp = fileOf settings.hours row.timestamp) :
    Accounts settings (storeRow db row) (rows ++ [row]) ∧
      (storeRow db row).head.curRowCount = db.head.curRowCount + 1 := by
  have short : settings.room < 65536 := settings.room_short
  have count : (Database.storeRow db row).head.curRowCount = db.head.curRowCount + 1 :=
    Nat.mod_eq_of_lt (by omega)
  have before : (db.logData.take db.head.curRowCount).length = db.head.curRowCount := by
    rw [List.length_take, Nat.min_eq_left accounts.slots]
  have stored : logRows (Database.storeRow db row) = logRows db ++ [row] := by
    rw [logRows, count, Database.storeRow, List.take_append, before,
      List.take_of_length_le (by omega), Nat.add_sub_cancel_left]
    rfl
  refine ⟨⟨⟨accounts.uses.hours, accounts.uses.cacheSize, accounts.uses.compressType⟩,
    ?_, ?_, ?_, accounts.blocks, ?_, ?_⟩, count⟩
  · omega
  · rw [count, Database.storeRow]
    simp only [List.length_append, before, List.length_cons]
    omega
  · rw [stored, <- List.append_assoc, <- accounts.placed]
    rfl
  · intro zero
    omega
  · intro _
    rw [stored]
    by_cases empty : db.head.curRowCount = 0
    · have none' : logRows db = [] := by rw [logRows, empty, List.take_zero]
      have start : (Database.storeRow db row).head.startTimestamp = row.timestamp := by
        simp [Database.storeRow, empty]
      rw [none', start]
      exact Framed.singleton settings.hours row
    · have start : (Database.storeRow db row).head.startTimestamp = db.head.startTimestamp := by
        simp [Database.storeRow, empty]
      rw [start]
      exact (accounts.fullLog (by omega)).snoc (sameFile (by omega)).symm

end

end Stages

section Runs

variable {settings : Settings} {codec : Codec α}

/-- The accounts between two operations: the log has room for a row. -/
structure Settled (settings : Settings) (db : Db α) (rows : List (Row α)) : Prop where
  accounts : Accounts settings db rows
  counter : db.head.curRowCount < settings.room

variable {next : Db α} {rows : List (Row α)}

section

variable (writes : settings.compressType ≠ .taosTwoStep)
include writes

theorem flushBefore_settled {db : Db α} {st : Int} (settled : Settled settings db rows)
    (run : flushBefore codec db st = some next) :
    Settled settings next rows ∧ (0 < next.head.curRowCount ->
      fileOf settings.hours next.head.startTimestamp = fileOf settings.hours st) := by
  obtain ⟨accounts, counter⟩ := settled
  unfold flushBefore at run
  by_cases some' : db.head.curRowCount > 0
  · have notFull : ¬ db.head.curRowCount ≥ db.head.cacheSize := by
      have room : settings.room = max settings.cacheSize 1 := rfl
      rw [accounts.uses.cacheSize]
      omega
    rw [if_pos some', if_neg notFull, accounts.uses.fileIndex, accounts.uses.fileIndex] at run
    simp only [bind_eq_bind, bind_some] at run
    split at run
    · have flushed := saveToFile_cases accounts some' run
      simp only [if_neg writes] at flushed
      have same : next.head.curRowCount = 0 := by
        rw [flushed]
        rfl
      refine ⟨⟨?_, by rw [same]; exact settings.room_pos⟩, fun positive => by omega⟩
      rw [flushed]
      exact (accounts.reopen _).appendBlock (by simpa using some')
    · rename_i equal
      cases run
      exact ⟨⟨accounts, counter⟩, fun _ => by simpa using equal⟩
  · rw [if_neg some'] at run
    cases run
    exact ⟨⟨accounts, counter⟩, fun positive => absurd positive some'⟩

theorem flushAfter_settled {db : Db α} (accounts : Accounts settings db rows)
    (some' : 0 < db.head.curRowCount) (run : flushAfter codec db = some next) :
    Settled settings next rows := by
  unfold flushAfter at run
  rw [accounts.uses.cacheSize] at run
  split at run
  · have flushed := saveToFile_cases accounts some' run
    simp only [if_neg writes] at flushed
    refine ⟨?_, ?_⟩
    · rw [flushed]
      exact (accounts.reopen _).appendBlock (by simpa using some')
    · rw [flushed]
      exact settings.room_pos
  · cases run
    have room : settings.room = max settings.cacheSize 1 := rfl
    exact ⟨accounts, by omega⟩

theorem putDb_settled {db : Db α} (settled : Settled settings db rows)
    (run : putDb codec db row = some next) : Settled settings next (rows ++ [row]) := by
  obtain ⟨before, flushed, after⟩ := bind_eq_some_iff.mp run
  obtain ⟨⟨accounts, counter⟩, sameFile⟩ := flushBefore_settled writes settled flushed
  obtain ⟨stored, count⟩ := accounts.storeRow row counter sameFile
  exact flushAfter_settled writes stored (by omega) after

theorem putDb_keeps (keeps : Db α -> List (Row α) -> Prop)
    (flush : ∀ {db : Db α} {rows : List (Row α)}, Accounts settings db rows ->
      0 < db.head.curRowCount -> keeps db rows -> keeps (Database.appendBlock
          (Database.reopen db (fileOf settings.hours db.head.startTimestamp))) rows)
    (store : ∀ {db : Db α} {rows : List (Row α)} (row : Row α), keeps db rows ->
      keeps (Database.storeRow db row) (rows ++ [row]))
    {db : Db α} (settled : Settled settings db rows)
    (kept : keeps db rows) (run : putDb codec db row = some next) : keeps next (rows ++ [row]) := by
  have saved : ∀ {db next : Db α} {rows : List (Row α)}, Accounts settings db rows ->
      0 < db.head.curRowCount -> keeps db rows -> saveToFile codec db = some next ->
        keeps next rows := by
    intro db next rows accounts some' kept run
    have flushed := saveToFile_cases accounts some' run
    simp only [if_neg writes] at flushed
    rw [flushed]
    exact flush accounts some' kept
  obtain ⟨before, flushed, after⟩ := bind_eq_some_iff.mp run
  obtain ⟨⟨accounts, counter⟩, sameFile⟩ := flushBefore_settled writes settled flushed
  obtain ⟨stored, count⟩ := accounts.storeRow row counter sameFile
  have keptBefore : keeps before rows := by
    unfold flushBefore at flushed
    split at flushed
    · rename_i some'
      split at flushed
      · exact saved settled.accounts some' kept flushed
      · rw [settled.accounts.uses.fileIndex, settled.accounts.uses.fileIndex] at flushed
        simp only [bind_eq_bind, bind_some] at flushed
        split at flushed
        · exact saved settled.accounts some' kept flushed
        · cases flushed
          exact kept
    · cases flushed
      exact kept
  unfold flushAfter at after
  split at after
  · exact saved stored (by omega) (store row keptBefore) after
  · cases after
    exact store row keptBefore

theorem putAll_keeps (keeps : Db α -> List (Row α) -> Prop)
    (put : ∀ {db next : Db α} {rows : List (Row α)} {row : Row α}, Settled settings db rows ->
      keeps db rows -> putDb codec db row = some next -> keeps next (rows ++ [row]))
    (later : List (Row α)) : ∀ {db next : Db α} {rows : List (Row α)}, Settled settings db rows ->
      keeps db rows -> putAll codec db later = some next -> keeps next (rows ++ later) := by
  induction later with
  | nil =>
    intro db next rows _ kept run
    cases run
    rwa [List.append_nil]
  | cons row later ih =>
    intro db next rows settled kept run
    obtain ⟨middle, first, rest⟩ := bind_eq_some_iff.mp run
    have final := ih (putDb_settled writes settled first) (put settled kept first) rest
    rwa [List.append_assoc, List.singleton_append] at final

theorem putAll_settled (later : List (Row α)) {db : Db α} (settled : Settled settings db rows)
    (run : putAll codec db later = some next) : Settled settings next (rows ++ later) :=
  putAll_keeps writes (Settled settings) (fun settled _ put => putDb_settled writes settled put)
    later settled settled run

end

end Runs

end Luomi.Edb.Bookkeeping
