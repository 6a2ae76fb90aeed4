import Luomi.Edb.Conservation
import Luomi.Edb.Drain

/-!
# Which blocks a query meets

Under a clock that does not run backwards the blocks lie in the files in the
order of their hour ranges, and the stops of a query are the blocks of its file
interval.  There are two exceptions: file 0 is the one the handle starts with,
so it is never opened and its blocks go to descriptor 0; and a descending query
of an empty log takes file 0 for the file of the log and reads on in the file it
has left.
-/

namespace Luomi.Edb.FileLayout

open SortedWindow Database Bookkeeping Cursor CursorFrame Segment Landing Stops Conservation

section Layout

variable {α : Type}

def descriptorOf (file : Int) : Option Int := if file = 0 then none else some file

def fileOfEntry (hours : Nat) (entry : Option Int × Block α) : Int :=
  fileOf hours entry.2.startTimestamp

/-- Rows put under a clock that does not run backwards and started at 0 or
later. -/
structure Clocked (rows : List (Row α)) : Prop where
  sorted : Ascending Row.timestamp rows
  nonneg : ∀ row ∈ rows, 0 ≤ row.timestamp

/-- Every block is in the file of its rows, blocks of file 0 apart. -/
structure Laid (settings : Settings) (db : Db α) : Prop where
  fd : db.fd = descriptorOf db.curFileIndex
  current : db.curFileIndex = 0 ∨
    ∃ entry ∈ db.written, db.curFileIndex = fileOfEntry settings.hours entry
  entries : ∀ entry ∈ db.written, entry.1 = descriptorOf (fileOfEntry settings.hours entry)
  opened : ∀ file, file ∈ db.opened ↔ ∃ entry ∈ db.written, entry.1 = some file

variable {settings : Settings} {codec : Codec α} {db : Db α} {rows : List (Row α)}

theorem descriptorOf_eq_some {file other : Int} :
    descriptorOf file = some other ↔ file = other ∧ other ≠ 0 := by
  unfold descriptorOf
  split <;> simp <;> omega

theorem hours_pos (settings : Settings) : 0 < (settings.hours : Int) * gMillisecondOfHour := by
  have positive := settings.hoursPos
  unfold gMillisecondOfHour
  omega

theorem fileOf_mono (settings : Settings) {early late : Int} (ordered : early ≤ late) :
    fileOf settings.hours early ≤ fileOf settings.hours late :=
  Int.tdiv_le_tdiv (hours_pos settings) ordered

theorem fileOf_nonneg (settings : Settings) {timestamp : Int} (nonneg : 0 ≤ timestamp) :
    0 ≤ fileOf settings.hours timestamp :=
  Int.tdiv_nonneg nonneg (le_of_lt (hours_pos settings))

section

variable {hours : Nat} {start finish : Int} (framed : Framed hours rows start finish)

include framed

theorem Framed.start_mem : ∃ row ∈ rows, row.timestamp = start := by
  obtain ⟨row, head, time⟩ := Option.map_eq_some_iff.mp framed.first
  exact ⟨row, List.mem_of_mem_head? head, time⟩

theorem Framed.last_mem : ∃ row ∈ rows, row.timestamp = finish := by
  obtain ⟨row, last, time⟩ := Option.map_eq_some_iff.mp framed.last
  exact ⟨row, List.mem_of_getLast? last, time⟩

end

structure InOrder (db : Db α) : Prop where
  blocks : ∀ entry ∈ db.written, Ascending Row.timestamp entry.2.rows
  apart : db.written.Pairwise fun early late =>
    ∀ row ∈ early.2.rows, ∀ other ∈ late.2.rows, row.timestamp ≤ other.timestamp
  log : Ascending Row.timestamp (logRows db)
  before : ∀ entry ∈ db.written, ∀ row ∈ entry.2.rows, ∀ other ∈ logRows db,
    row.timestamp ≤ other.timestamp

theorem inOrder_of_clocked (accounts : Accounts settings db rows) (clocked : Clocked rows) :
    InOrder db := by
  have sorted := clocked.sorted
  rw [<- accounts.placed, Ascending, List.pairwise_append, List.pairwise_flatMap] at sorted
  obtain ⟨⟨blocks, apart⟩, log, before⟩ := sorted
  refine ⟨blocks, apart, log, ?_⟩
  intro entry member row inside other logged
  exact before row (List.mem_flatMap.mpr ⟨entry, member, inside⟩) other logged

variable {entry : Option Int × Block α}

section

variable (accounts : Accounts settings db rows)
include accounts

section

variable (clocked : Clocked rows)
include clocked

theorem Accounts.block_nonneg (member : entry ∈ db.written) :
    ∀ row ∈ entry.2.rows, 0 ≤ row.timestamp := by
  intro row inside
  refine clocked.nonneg row ?_
  rw [<- accounts.placed]
  exact List.mem_append_left _ (List.mem_flatMap.mpr ⟨entry, member, inside⟩)

theorem Accounts.log_nonneg : ∀ row ∈ logRows db, 0 ≤ row.timestamp := by
  intro row inside
  refine clocked.nonneg row ?_
  rw [<- accounts.placed]
  exact List.mem_append_right _ inside

theorem Accounts.file_le_log (some' : 0 < db.head.curRowCount) (member : entry ∈ db.written) :
    fileOfEntry settings.hours entry ≤ fileOf settings.hours db.head.startTimestamp := by
  obtain ⟨row, inside, time⟩ := Framed.start_mem (accounts.blocks entry member).2.2
  obtain ⟨other, logged, logTime⟩ := Framed.start_mem (accounts.fullLog some')
  refine fileOf_mono settings ?_
  rw [<- time, <- logTime]
  exact (inOrder_of_clocked accounts clocked).before entry member row inside other logged

theorem Accounts.file_nonneg (member : entry ∈ db.written) :
    0 ≤ fileOfEntry settings.hours entry := by
  obtain ⟨row, inside, time⟩ := Framed.start_mem (accounts.blocks entry member).2.2
  refine fileOf_nonneg settings ?_
  rw [<- time]
  exact Accounts.block_nonneg accounts clocked member row inside

end

end

theorem Laid.flush (laid : Laid settings db) (accounts : Accounts settings db rows)
    (clocked : Clocked rows) (some' : 0 < db.head.curRowCount) :
    Laid settings (appendBlock (reopen db (fileOf settings.hours db.head.startTimestamp))) := by
  obtain ⟨fd, current, entries, opened⟩ := laid
  have currentLe : db.curFileIndex ≤ fileOf settings.hours db.head.startTimestamp ∧
      0 ≤ db.curFileIndex := by
    rcases current with zero | ⟨entry, member, same⟩
    · obtain ⟨row, logged, time⟩ := Framed.start_mem (accounts.fullLog some')
      have nonneg := Accounts.log_nonneg accounts clocked row logged
      rw [time] at nonneg
      have := fileOf_nonneg settings nonneg
      omega
    · rw [same]
      exact ⟨Accounts.file_le_log accounts clocked some' member,
        Accounts.file_nonneg accounts clocked member⟩
  have added : ∀ next : Db α, next.head = db.head -> next.written = db.written ->
      next.logData = db.logData ->
      next.curFileIndex = fileOf settings.hours db.head.startTimestamp ->
      next.fd = descriptorOf next.curFileIndex ->
      (∀ file, file ∈ next.opened ↔ file ∈ db.opened ∨ next.fd = some file) ->
      Laid settings (appendBlock next) := by
    intro next head written data index nextFd nextOpened
    have block : ((appendBlock next).written) = db.written ++ [(next.fd, logBlock next)] := by
      rw [<- written]
      rfl
    have file : fileOfEntry settings.hours (next.fd, logBlock next) = next.curFileIndex := by
      rw [index, <- head]
      rfl
    refine ⟨nextFd, Or.inr ⟨_, ?_, file.symm⟩, ?_, ?_⟩
    · rw [block]
      exact List.mem_append_right _ (List.mem_singleton_self _)
    · intro entry member
      rw [block] at member
      rcases List.mem_append.mp member with old | new
      · exact entries entry old
      · rw [List.mem_singleton.mp new, file]
        exact nextFd
    · intro file
      rw [block]
      change file ∈ next.opened ↔ _
      rw [nextOpened file, opened file]
      simp
  unfold reopen
  split
  · rename_i other
    have positive : fileOf settings.hours db.head.startTimestamp ≠ 0 := by omega
    refine added _ rfl rfl rfl rfl (if_neg positive).symm fun file => ?_
    simp only [Option.some.injEq]
    split
    · rename_i member
      constructor
      · exact Or.inl
      · rintro (old | rfl)
        · exact old
        · exact member
    · simp [eq_comm]
  · rename_i same
    refine added db rfl rfl rfl (Classical.not_not.mp same) fd fun file => ⟨Or.inl, ?_⟩
    rintro (old | own)
    · exact old
    · rw [fd, descriptorOf_eq_some] at own
      rw [opened file]
      rcases current with zero | ⟨entry, member, index⟩
      · exact absurd (own.1.symm.trans zero) own.2
      · refine ⟨entry, member, ?_⟩
        rw [entries entry member, <- index, descriptorOf_eq_some]
        exact own

theorem Laid.storeRow (laid : Laid settings db) (row : Row α) : Laid settings (storeRow db row) :=
  ⟨laid.fd, laid.current, laid.entries, laid.opened⟩

theorem putAll_laid (writes : settings.compressType ≠ .taosTwoStep) (later : List (Row α))
    {next : Db α} (settled : Settled settings db rows) (clocked : Clocked (rows ++ later))
    (laid : Laid settings db) (run : putAll codec db later = some next) : Laid settings next := by
  have kept := putAll_keeps writes (fun db rows => Clocked rows -> Laid settings db)
    (fun settled kept put => putDb_keeps writes (fun db rows => Clocked rows -> Laid settings db)
      (fun accounts some' kept clocked => (kept clocked).flush accounts clocked some')
      (fun {_ rows} row kept clocked => by
        have earlier : Clocked rows :=
          ⟨(List.pairwise_append.mp clocked.sorted).1,
            fun other member => clocked.nonneg other (List.mem_append_left _ member)⟩
        exact (kept earlier).storeRow row) settled kept put)
    later settled (fun _ => laid) run
  exact kept clocked

end Layout

end Luomi.Edb.FileLayout
