import Luomi.Edb.FileLayout

/-!
# Files and their entries under any clock

Whatever clock the rows are put at, a file that has been opened has an entry, and
every entry of a file is a block of that file.  So a query finds what its searches
rely on as soon as no timestamp is negative.
-/

namespace Luomi.Edb.Catalogue

open Database Bookkeeping Conservation Cursor Stops FileLayout

section Catalogue

variable {α : Type}

structure Catalogued (settings : Settings) (db : Db α) : Prop where
  fd : db.fd = none ∨ db.fd = some db.curFileIndex ∧ db.curFileIndex ∈ db.opened
  entries : ∀ entry ∈ db.written, ∀ file, entry.1 = some file ->
    file ∈ db.opened ∧ fileOfEntry settings.hours entry = file
  opened : ∀ file ∈ db.opened, ∃ entry ∈ db.written, entry.1 = some file

variable {settings : Settings} {codec : Codec α} {db : Db α} {rows : List (Row α)}

theorem Catalogued.flush (catalogued : Catalogued settings db) : Catalogued settings
      (appendBlock (reopen db (fileOf settings.hours db.head.startTimestamp))) := by
  obtain ⟨fd, entries, opened⟩ := catalogued
  unfold reopen
  by_cases other : db.curFileIndex ≠ fileOf settings.hours db.head.startTimestamp
  · rw [if_pos other]
    have inside : ∀ file, file ∈ (if fileOf settings.hours db.head.startTimestamp ∈ db.opened
        then db.opened else db.opened ++ [fileOf settings.hours db.head.startTimestamp]) ↔
        file ∈ db.opened ∨ file = fileOf settings.hours db.head.startTimestamp := by
      intro file
      split
      · rename_i member
        exact ⟨Or.inl, fun either => either.elim id fun same => same ▸ member⟩
      · rw [List.mem_append, List.mem_singleton]
    refine ⟨Or.inr ⟨rfl, (inside _).mpr (Or.inr rfl)⟩, ?_, ?_⟩
    · intro entry member file own
      rcases List.mem_append.mp member with old | new
      · obtain ⟨known, same⟩ := entries entry old file own
        exact ⟨(inside file).mpr (Or.inl known), same⟩
      · rw [List.mem_singleton.mp new] at own ⊢
        cases own
        exact ⟨(inside _).mpr (Or.inr rfl), rfl⟩
    · intro file member
      rcases (inside file).mp member with old | rfl
      · obtain ⟨entry, known, own⟩ := opened file old
        exact ⟨entry, List.mem_append_left _ known, own⟩
      · exact ⟨_, List.mem_append_right _ (List.mem_singleton_self _), rfl⟩
  · rw [if_neg other]
    have same := not_not.mp other
    refine ⟨fd, ?_, ?_⟩
    · intro entry member file own
      rcases List.mem_append.mp member with old | new
      · exact entries entry old file own
      · rw [List.mem_singleton.mp new] at own ⊢
        have here : db.fd = some file := own
        rcases fd with none' | ⟨current, known⟩
        · rw [none'] at here
          cases here
        · rw [current] at here
          cases here
          exact ⟨known, same.symm⟩
    · intro file member
      obtain ⟨entry, known, own⟩ := opened file member
      exact ⟨entry, List.mem_append_left _ known, own⟩

theorem Catalogued.storeRow (catalogued : Catalogued settings db) (row : Row α) :
    Catalogued settings (storeRow db row) :=
  ⟨catalogued.fd, catalogued.entries, catalogued.opened⟩

theorem putAll_catalogued (writes : settings.compressType ≠ .taosTwoStep) (later : List (Row α))
    {next : Db α} (settled : Settled settings db rows) (catalogued : Catalogued settings db)
    (run : putAll codec db later = some next) : Catalogued settings next :=
  putAll_keeps writes (fun db _ => Catalogued settings db)
    (fun settled kept put => putDb_keeps writes (fun db _ => Catalogued settings db)
      (fun _ _ catalogued => catalogued.flush) (fun row catalogued => catalogued.storeRow row)
      settled kept put)
    later settled catalogued run

/-- A database in column layout after a run of `put_db` at clocks that are not
negative, with a codec that gives back its rows. -/
structure Stored (α : Type) where
  new : NewDb
  byCol : new.head.storeType = .byCol
  codec : Codec α
  writes : new.args.compressType ≠ .taosTwoStep
  lossless : ∀ rows, codec.restored new.args.compressType rows = rows
  puts : List (Row α)
  nonneg : ∀ row ∈ puts, 0 ≤ row.timestamp
  db : Db α
  run : putAll codec (openDb new.head) puts = some db

variable (stored : Stored α)

theorem Stored.accounts : Accounts stored.new.settings stored.db stored.puts :=
  (putAll_settled stored.writes _ stored.new.settled stored.run).accounts

theorem Stored.catalogued : Catalogued stored.new.settings stored.db :=
  putAll_catalogued stored.writes _ stored.new.settled
    ⟨Or.inl rfl, by simp [openDb], by simp [openDb]⟩ stored.run

variable {stored}
  {entry : Option Int × Block α}

theorem Stored.block_mem (member : entry ∈ stored.db.written) :
    ∀ row ∈ entry.2.rows, row ∈ stored.puts := by
  intro row inside
  rw [<- stored.accounts.placed]
  exact List.mem_append_left _ (List.mem_flatMap.mpr ⟨entry, member, inside⟩)

theorem Stored.log_mem : ∀ row ∈ logRows stored.db, row ∈ stored.puts := by
  intro row inside
  rw [<- stored.accounts.placed]
  exact List.mem_append_right _ inside

theorem Stored.start_nonneg (member : entry ∈ stored.db.written) : 0 ≤ entry.2.startTimestamp := by
  obtain ⟨row, inside, time⟩ := Framed.start_mem (stored.accounts.blocks entry member).2.2
  rw [<- time]
  exact stored.nonneg row (stored.block_mem member row inside)

theorem Stored.logStart_nonneg : 0 ≤ stored.db.head.startTimestamp := by
  by_cases some' : 0 < stored.db.head.curRowCount
  · obtain ⟨row, logged, time⟩ := Framed.start_mem (stored.accounts.fullLog some')
    rw [<- time]
    exact stored.nonneg row (stored.log_mem row logged)
  · rw [(stored.accounts.emptyLog (by omega)).1]

theorem Stored.opened_nonneg {file : Int} (opened : file ∈ stored.db.opened) : 0 ≤ file := by
  obtain ⟨entry, member, own⟩ := stored.catalogued.opened file opened
  rw [<- (stored.catalogued.entries entry member file own).2]
  exact fileOf_nonneg stored.new.settings (stored.start_nonneg member)

theorem Stored.logFile_nonneg : 0 ≤ logFile stored.db := by
  have same : logFile stored.db =
      fileOf stored.new.settings.hours stored.db.head.startTimestamp := by
    rw [logFile, stored.accounts.uses.hours]
    rfl
  rw [same]
  exact fileOf_nonneg stored.new.settings stored.logStart_nonneg

theorem Stored.readable : Readable stored.codec stored.db where
  lossless := by
    have type : stored.db.head.compressType = stored.new.args.compressType :=
      stored.accounts.uses.compressType
    intro rows
    rw [type]
    exact stored.lossless rows
  counts := fun entry member => (stored.accounts.blocks entry member).1
  filled := by
    intro file opened empty
    obtain ⟨entry, member, own⟩ := stored.catalogued.opened file opened
    have listed : entry.2 ∈ indexFile stored.db file :=
      List.mem_map_of_mem (List.mem_filter.mpr ⟨member, decide_eq_true own⟩)
    rw [empty] at listed
    cases listed
  files := fun file opened => by
    have := stored.opened_nonneg opened
    omega
  logFile := by
    have := stored.logFile_nonneg
    omega

end Catalogue

end Luomi.Edb.Catalogue
