import Luomi.Sdb.Reopen

/-!
# Catching up with a file that has grown

`sdbResetTable` reads the file of a table again and leaves out the records that
are no newer than the table.  Opening the file sets the number of rows to zero,
so the rows the table already holds are not counted; no key is added to those of
an auto index, and no snapshot follows.
-/

namespace Luomi.Sdb.CatchUp

open StreamScan HashIndex Engine Recovery Replay History OpenFile Tally Snapshot Reopen
open List (append_assoc append_nil flatMap_cons flatten_append foldl_cons length_append
  mem_cons_self mem_singleton)

section CatchUp

variable {Obj : Type} (args : TableArgs Obj)

/-- `abs`, whose argument is an `int`. -/
def absInt (id : Int) : Int := |(BitVec.ofInt 32 id).toInt|

/-- What `sdbResetTable` does with a row that is newer than the table; decoding
stands for `SDB_TYPE_UPDATE` too. -/
def resetRow (table : SdbTable Obj) (id : Int) (key data : Bytes) : SdbTable Obj :=
  let obj := args.appTool.decode data
  if (sdbGetRow table key).isNone then
    if id < 0 then table
    else { table with
      index := sdbAddIndex table.index ⟨objKey args obj, id, obj⟩
      numOfRows := table.numOfRows + 1 }
  else if id < 0 then
    { table with
      index := sdbDeleteIndex table.index key, numOfRows := table.numOfRows - 1 }
  else
    { table with index := setIndex table.index key fun entry => { entry with row := obj } }

/-- The effect of one turn of the loop of `sdbResetTable`. -/
def resetAdvance (oldId : Int) (table : SdbTable Obj) (found : Found) (size : Nat) : SdbTable Obj :=
  match found with
  | .skipped => { table with size := table.size + size }
  | .row id rowSize buffer =>
    let next :=
      if absInt id > oldId then
        resetRow args table id (keyAt args.keyType buffer) (buffer.take rowSize)
      else table
    { next with size := next.size + size, id := max next.id (absInt id) }

/-- `sdbResetTable`.  Where the file cannot be opened, its header has been read
all the same. -/
def sdbResetTable (table : SdbTable Obj) (file : Bytes) : SdbTable Obj :=
  match sdbOpenSdbFile args file with
  | none =>
    let header := (truncated file).take sizeofHeader
    { table with
      header := header ++ table.header.drop header.length
      size := 0
      file := truncated file }
  | some (header, file) =>
    scan (readRow args) (resetAdvance args table.id)
      (file.drop (sizeofHeader + sdbEcommit.length))
      { table with
        header := header
        file := file
        size := sizeofHeader + sdbEcommit.length
        numOfRows := 0 }

/-- A log whose ids `abs` keeps, and what has been appended to it. -/
structure GrownLog where
  before : List (List Record)
  after : List (List Record)
  recordable : ∀ group ∈ before ++ after, ∀ record ∈ group, Recordable args record ∧ record.id ≠ 0
  ids : ∀ record ∈ (before ++ after).flatten, |record.id| < 2 ^ 31
  newer : ∀ old ∈ before.flatten, ∀ record ∈ after.flatten, |old.id| < |record.id|

structure Agrees (left right : SdbTable Obj) : Prop where
  rows : ∀ key, sdbGetRow left key = sdbGetRow right key
  numOfRows : left.numOfRows = right.numOfRows
  autoIndex : left.autoIndex = right.autoIndex
  id : left.id = right.id
  size : left.size = right.size

def rowsLeft (records : List Record) : List Obj :=
  (records.map fun record => keyAt args.keyType record.data).dedup.filterMap (rowsOf args records)

def snapshotSize (records : List Record) : Nat :=
  sizeofHeader + sdbEcommit.length + ((rowsLeft args records).map fun row =>
    sizeofRowHead + (args.appTool.encode row).length + sizeofTsCksum + sdbEcommit.length).sum

/-- Nothing is left of the log before it grew, with auto keys what was appended
inserts no row, and the whole log leads to no snapshot, or to one of its own size. -/
structure CatchesUp (log : GrownLog args) : Prop where
  noRows : rowsLeft args log.before.flatten = []
  noKeys : args.keyType = .auto ->
    2 ^ 32 ∣ insertsFrom args (rowsOf args log.before.flatten) log.after.flatten
  size : numOfDels args (log.before ++ log.after).flatten ≤ args.maxRows / 4 ∨
    snapshotSize args (log.before ++ log.after).flatten =
      (fileOf args (log.before ++ log.after)).length

variable {args}

section Groups

variable {σ : Type} {advance : σ -> Found -> Nat -> σ}

def Leads (args : TableArgs Obj) (advance : σ -> Found -> Nat -> σ) (part : Bytes)
    (state next : σ) : Prop :=
  ∀ rest, scan (readRow args) advance (part ++ rest) state = scan (readRow args) advance rest next

theorem Leads.trans {first second : Bytes} {state middle next : σ}
    (left : Leads args advance first state middle) (right : Leads args advance second middle next) :
    Leads args advance (first ++ second) state next := by
  intro rest
  rw [append_assoc, left, right]

variable {valid : Record -> Prop} {passed : List Record -> Nat -> σ -> Prop}
  (recordable : ∀ record, valid record -> Recordable args record)
  (row : ∀ records bytes state record, valid record -> passed records bytes state ->
    passed (records ++ [record]) (bytes + (recordBytes args record).length)
      (advance state (.row record.id record.data.length
        (record.data ++ rowChecksum args.crc32c record.id record.data))
        (recordBytes args record).length))
  (skip : ∀ records bytes state, passed records bytes state ->
    passed records (bytes + 1) (advance state .skipped 1))

include recordable row in
theorem leads_records {group : List Record} (all : ∀ record ∈ group, valid record) :
    ∀ {records : List Record} {bytes : Nat} {state : σ}, passed records bytes state ->
      ∃ next, passed (records ++ group) (bytes + (group.flatMap (recordBytes args)).length) next ∧
        Leads args advance (group.flatMap (recordBytes args)) state next := by
  induction group with
  | nil =>
    intro records bytes state start
    rw [append_nil]
    exact ⟨state, start, fun rest => rfl⟩
  | cons record group ih =>
    intro records bytes state start
    have own := all record mem_cons_self
    obtain ⟨next, reached, leads⟩ :=
      ih (fun other member => all other (List.mem_cons_of_mem _ member))
        (row records bytes state record own start)
    refine ⟨next, ?_, ?_⟩
    · rw [flatMap_cons, length_append, <- Nat.add_assoc]
      rwa [append_assoc] at reached
    · rw [flatMap_cons]
      refine Leads.trans (fun rest => ?_) leads
      exact scan_frame (readRow_progresses args) (readRow_record (recordable record own)) rest state

include skip in
theorem leads_skipped {mark : Bytes} (others : ∀ byte ∈ mark, byte ≠ 0x00) :
    ∀ {records : List Record} {bytes : Nat} {state : σ}, passed records bytes state ->
      ∃ next, passed records (bytes + mark.length) next ∧ Leads args advance mark state next := by
  induction mark with
  | nil => exact fun start => ⟨_, start, fun rest => rfl⟩
  | cons byte mark ih =>
    intro records bytes state start
    obtain ⟨next, reached, leads⟩ :=
      ih (fun other member => others other (List.mem_cons_of_mem _ member))
        (skip records bytes state start)
    refine ⟨next, ?_, fun rest => ?_⟩
    · rw [List.length_cons, Nat.add_comm mark.length, <- Nat.add_assoc]
      exact reached
    · rw [List.cons_append, scan_step (readRow_progresses args)
        (readRow_noDelimiter (others byte mem_cons_self) _), List.drop_succ_cons, List.drop_zero]
      exact leads rest

include recordable row skip in
theorem leads_groups {groups : List (List Record)}
    (all : ∀ group ∈ groups, ∀ record ∈ group, valid record) :
    ∀ {records : List Record} {bytes : Nat} {state : σ}, passed records bytes state ->
      ∃ next, passed (records ++ groups.flatten)
          (bytes + (groups.flatMap (groupBytes args)).length) next ∧
        Leads args advance (groups.flatMap (groupBytes args)) state next := by
  induction groups with
  | nil =>
    intro records bytes state start
    rw [List.flatten_nil, append_nil]
    exact ⟨state, start, fun rest => rfl⟩
  | cons group groups ih =>
    intro records bytes state start
    obtain ⟨middle, read, first⟩ :=
      leads_records recordable row (all group mem_cons_self) start
    obtain ⟨behind, marked, second⟩ := leads_skipped skip sdbEcommit_ne_zero read
    obtain ⟨next, reached, third⟩ :=
      ih (fun other member => all other (List.mem_cons_of_mem _ member)) marked
    refine ⟨next, ?_, ?_⟩
    · rw [flatMap_cons, groupBytes, length_append, length_append,
        List.flatten_cons, <- append_assoc, <- Nat.add_assoc, <- Nat.add_assoc]
      exact reached
    · rw [flatMap_cons, groupBytes]
      exact (first.trans second).trans third

end Groups

variable {id : Int}

theorem absInt_eq (small : |id| < 2 ^ 31) : absInt id = |id| := by
  obtain ⟨low, high⟩ := abs_lt.mp small
  rw [absInt, BitVec.toInt_ofInt, Int.bmod_eq_of_le (by omega) (by omega)]

/-- A table that catches up holds what a replay of the new records holds; it has
kept its auto index and counts the new rows only. -/
structure Follows (start : SdbTable Obj) (replay : Replay Obj) (table : SdbTable Obj) : Prop where
  index : table.index = replay.table.index
  id : table.id = replay.table.id
  autoIndex : table.autoIndex = start.autoIndex
  numOfRows : table.numOfRows + start.numOfRows = replay.table.numOfRows
  newest : start.id ≤ table.id

variable {start table : SdbTable Obj} {replay : Replay Obj}

theorem Follows.old (follows : Follows start replay table) {rowSize size : Nat}
    {buffer : Bytes} (old : absInt id ≤ start.id) :
    Follows start replay (resetAdvance args start.id table (.row id rowSize buffer) size) := by
  have sameId : max table.id (absInt id) = table.id := max_eq_left (old.trans follows.newest)
  rw [resetAdvance]
  simp only [if_neg (not_lt.mpr old), sameId]
  exact ⟨follows.index, follows.id, follows.autoIndex, follows.numOfRows, follows.newest⟩

variable {record : Record}

theorem Follows.new (follows : Follows start replay table)
    (recordable : Recordable args record) (small : |record.id| < 2 ^ 31)
    (newer : start.id < |record.id|) (size : Nat) : Follows start (applyRecord args replay record)
      (resetAdvance args start.id table (.row record.id record.data.length
        (record.data ++ rowChecksum args.crc32c record.id record.data)) size) := by
  have sameRow : ∀ key, sdbGetRow table key = sdbGetRow replay.table key := by
    intro key
    rw [sdbGetRow, follows.index]
    rfl
  have id := absInt_eq small
  have above : start.id ≤ max table.id |record.id| := le_max_of_le_left follows.newest
  have count := follows.numOfRows
  rw [resetAdvance, keyAt_append recordable.keyed, List.take_left, id]
  simp only [if_pos newer]
  unfold resetRow applyRecord applyRow raiseId
  simp only [sameRow]
  by_cases absent : (sdbGetRow replay.table (keyAt args.keyType record.data)).isNone
  · by_cases negative : record.id < 0
    · simp only [if_pos absent, if_pos negative]
      exact ⟨follows.index, by rw [follows.id], follows.autoIndex, count, above⟩
    · simp only [if_pos absent, if_neg negative]
      refine ⟨by rw [follows.index], by rw [follows.id], follows.autoIndex, ?_, above⟩
      simp only
      omega
  · by_cases negative : record.id < 0
    · simp only [if_neg absent, if_pos negative]
      refine ⟨by rw [follows.index], by rw [follows.id], follows.autoIndex, ?_, above⟩
      simp only
      omega
    · simp only [if_neg absent, if_neg negative]
      exact ⟨by rw [follows.index], by rw [follows.id], follows.autoIndex, count, above⟩

variable {records : List Record}

theorem foldl_max_lt_iff {bound : Int} :
    records.foldl (fun id record => max id |record.id|) id < bound ↔
      id < bound ∧ ∀ record ∈ records, |record.id| < bound := by
  induction records generalizing id with
  | nil => simp
  | cons record records ih =>
    rw [foldl_cons, ih, max_lt_iff, List.forall_mem_cons, and_assoc]

theorem GrownLog.mem_after (log : GrownLog args)
    (member : record ∈ log.after.flatten) : record ∈ (log.before ++ log.after).flatten := by
  rw [flatten_append]
  exact List.mem_append_right _ member

theorem GrownLog.valid (log : GrownLog args) (member : record ∈ (log.before ++ log.after).flatten) :
    Recordable args record ∧ record.id ≠ 0 := by
  obtain ⟨group, inside, own⟩ := List.mem_flatten.mp member
  exact log.recordable group inside record own

theorem GrownLog.filter_newer (log : GrownLog args)
    (id : start.id = log.before.flatten.foldl (fun id record => max id |record.id|) 0) :
    (log.before ++ log.after).flatten.filter (fun record => start.id < |record.id|) =
      log.after.flatten := by
  have old : ∀ record ∈ log.before.flatten, ¬ start.id < |record.id| := by
    intro record member less
    rw [id, foldl_max_lt_iff] at less
    exact lt_irrefl _ (less.2 record member)
  have new : ∀ record ∈ log.after.flatten, start.id < |record.id| := by
    intro record member
    obtain ⟨-, nonzero⟩ := log.valid (log.mem_after member)
    rw [id, foldl_max_lt_iff]
    exact ⟨abs_pos.mpr nonzero, fun other inside => log.newer other inside record member⟩
  have none' : log.before.flatten.filter (fun record => start.id < |record.id|) = [] :=
    List.filter_eq_nil_iff.mpr fun record member => by
      rw [decide_eq_true_eq]
      exact old record member
  have all : log.after.flatten.filter (fun record => start.id < |record.id|) = log.after.flatten :=
    List.filter_eq_self.mpr fun record member => decide_eq_true (new record member)
  rw [flatten_append, List.filter_append, none', all, List.nil_append]

def Caught (args : TableArgs Obj) (start : SdbTable Obj) (records : List Record) (bytes : Nat)
    (table : SdbTable Obj) : Prop :=
  table.size = sizeofHeader + sdbEcommit.length + bytes ∧
    Follows start ((records.filter fun record => start.id < |record.id|).foldl
      (applyRecord args) ⟨start, 0⟩) table

theorem resetAdvance_size (oldId : Int) (table : SdbTable Obj) (found : Found) (size : Nat) :
    (resetAdvance args oldId table found size).size = table.size + size := by
  cases found with
  | skipped => rfl
  | row id rowSize buffer =>
    rw [resetAdvance]
    unfold resetRow
    simp only
    split
    · split
      · split <;> rfl
      · split <;> rfl
    · rfl

theorem Caught.row {bytes : Nat} (caught : Caught args start records bytes table)
    {record : Record} (recordable : Recordable args record) (small : |record.id| < 2 ^ 31) :
    Caught args start (records ++ [record]) (bytes + (recordBytes args record).length)
      (resetAdvance args start.id table (.row record.id record.data.length
        (record.data ++ rowChecksum args.crc32c record.id record.data))
        (recordBytes args record).length) := by
  obtain ⟨size, follows⟩ := caught
  refine ⟨by rw [resetAdvance_size, size, Nat.add_assoc], ?_⟩
  rw [List.filter_append]
  by_cases newer : start.id < |record.id|
  · rw [List.filter_singleton, decide_eq_true newer, cond_true, List.foldl_append]
    exact follows.new recordable small newer _
  · rw [List.filter_singleton, decide_eq_false newer, cond_false, append_nil]
    exact follows.old (by rw [absInt_eq small]; exact not_lt.mp newer)

theorem Caught.skip {bytes : Nat} (caught : Caught args start records bytes table) :
    Caught args start records (bytes + 1) (resetAdvance args start.id table .skipped 1) := by
  obtain ⟨size, follows⟩ := caught
  refine ⟨by rw [resetAdvance_size, size, Nat.add_assoc], ?_⟩
  exact ⟨follows.index, follows.id, follows.autoIndex, follows.numOfRows, follows.newest⟩

theorem GrownLog.follows (log : GrownLog args)
    (id : start.id = log.before.flatten.foldl (fun id record => max id |record.id|) 0) :
    Follows start (log.after.flatten.foldl (applyRecord args) ⟨start, 0⟩)
        (sdbResetTable args start (fileOf args (log.before ++ log.after))) ∧
      (sdbResetTable args start (fileOf args (log.before ++ log.after))).size =
        (fileOf args (log.before ++ log.after)).length := by
  have opened := @sdbOpenSdbFile_cut _ args (log.before ++ log.after) []
    (fun byte first => by simp at first)
  have nothing : kept [] = [] := rfl
  rw [nothing, append_nil] at opened
  have behind : (fileOf args (log.before ++ log.after)).drop (sizeofHeader + sdbEcommit.length) =
      (log.before ++ log.after).flatMap (groupBytes args) :=
    List.drop_left' newFile_length
  have length : (fileOf args (log.before ++ log.after)).length = sizeofHeader + sdbEcommit.length +
      ((log.before ++ log.after).flatMap (groupBytes args)).length := by
    rw [fileOf, length_append, newFile_length]
  have caught : Caught args start [] 0
      { start with
        header := headerBytes args.crc32c args.version
        file := fileOf args (log.before ++ log.after)
        size := sizeofHeader + sdbEcommit.length
        numOfRows := 0 } := ⟨rfl, rfl, rfl, rfl, Int.zero_add _, le_rfl⟩
  have valid : ∀ group ∈ log.before ++ log.after, ∀ record ∈ group,
      Recordable args record ∧ |record.id| < 2 ^ 31 := by
    intro group inside record member
    have own := List.mem_flatten.mpr ⟨group, inside, member⟩
    exact ⟨(log.valid own).1, log.ids record own⟩
  obtain ⟨next, ⟨size, follows⟩, leads⟩ := leads_groups (fun record both => both.1)
    (fun records bytes table record both (caught : Caught args start records bytes table) =>
      caught.row both.1 both.2) (fun records bytes table caught => caught.skip) valid caught
  have result := leads []
  have stops : readRow args [] = none := rfl
  rw [append_nil, scan_stop stops] at result
  rw [List.nil_append, log.filter_newer id] at follows
  rw [sdbResetTable, opened]
  simp only [behind]
  rw [result, length]
  exact ⟨follows, by rw [size, Nat.zero_add]⟩

theorem rowsOf_isSome {key : Bytes} (some' : (rowsOf args records key).isSome) :
    key ∈ records.map fun record => keyAt args.keyType record.data := by
  induction records using List.reverseRecOn with
  | nil => cases some'
  | append_singleton records record ih =>
    rw [List.map_append, List.mem_append]
    by_cases own : key = keyAt args.keyType record.data
    · exact Or.inr (mem_singleton.mpr own)
    · rw [rowsOf_append, foldl_cons, List.foldl_nil, stepRows, if_neg own] at some'
      exact Or.inl (ih some')

theorem filterMap_filter_isSome {α β : Type} (f : α -> Option β) (items : List α) :
    (items.filter fun item => (f item).isSome).filterMap f = items.filterMap f := by
  rw [List.filterMap_filter]
  refine List.filterMap_congr fun item _ => ?_
  cases f item with
  | none => rfl
  | some value => rfl

theorem sdbGetIndex_mem {index : List (Entry Obj)} (distinct : (index.map Entry.key).Nodup)
    {entry : Entry Obj} (member : entry ∈ index) : sdbGetIndex index entry.key = some entry := by
  cases found : sdbGetIndex index entry.key with
  | none => exact absurd (List.mem_map_of_mem member) (sdbGetIndex_eq_none.mp found)
  | some other =>
    obtain ⟨inside, own⟩ := sdbGetIndex_some found
    rw [List.inj_on_of_nodup_map distinct inside member own]

section

variable (sound : Sound args table) (rows : ∀ key, sdbGetRow table key = rowsOf args records key)

include sound rows

theorem rowsLeft_perm : (table.index.map Entry.row).Perm (rowsLeft args records) := by
  have own : table.index.map Entry.row =
      (table.index.map Entry.key).filterMap (rowsOf args records) := by
    have found : ∀ entry ∈ table.index,
        (rowsOf args records ∘ Entry.key) entry = some entry.row := by
      intro entry member
      rw [Function.comp_apply, <- rows, sdbGetRow, sdbGetIndex_mem sound.distinct member]
      rfl
    rw [List.filterMap_map, List.filterMap_congr found, List.filterMap_eq_map']
  have held : ∀ key, key ∈ table.index.map Entry.key ↔ (rowsOf args records key).isSome := by
    intro key
    rw [<- not_iff_not, <- sdbGetRow_eq_none, rows, Option.not_isSome_iff_eq_none]
  have members : ∀ key, key ∈ table.index.map Entry.key ↔
      key ∈ ((records.map fun record => keyAt args.keyType record.data).dedup.filter fun key =>
        (rowsOf args records key).isSome) := by
    intro key
    rw [List.mem_filter, List.mem_dedup, held]
    exact ⟨fun some' => ⟨rowsOf_isSome some', some'⟩, fun both => both.2⟩
  have permuted := (List.perm_ext_iff_of_nodup sound.distinct
    ((List.nodup_dedup _).filter _)).mpr members
  rw [own, rowsLeft, <- filterMap_filter_isSome (rowsOf args records) (List.dedup _)]
  exact permuted.filterMap _

theorem numOfRows_eq : table.numOfRows = (rowsLeft args records).length := by
  rw [sound.count, <- (rowsLeft_perm sound rows).length_eq, List.length_map]

end

theorem sdbSaveSnapShot_size (replayed : Replayed args table records) :
    (sdbSaveSnapShot args table).size = snapshotSize args records := by
  have each : ∀ entry : Entry Obj,
      (rowBytes args.crc32c entry.id (args.appTool.encode entry.row) ++ sdbEcommit).length =
        sizeofRowHead + (args.appTool.encode entry.row).length + sizeofTsCksum +
          sdbEcommit.length := by
    intro entry
    rw [length_append, rowBytes_length]
  have rows := (((sdbFetchRows_perm args table.index).map Entry.row).trans
    (rowsLeft_perm replayed.sound replayed.rows)).map fun row =>
      sizeofRowHead + (args.appTool.encode row).length + sizeofTsCksum + sdbEcommit.length
  rw [sdbSaveSnapShot, snapshotSize, <- rows.sum_eq]
  simp only
  rw [length_append, length_append, replayed.header, headerBytes_length, snapshotRows,
    List.length_flatMap, List.map_map]
  simp only [each]
  rfl

structure Opened (args : TableArgs Obj) (table : SdbTable Obj) (groups : List (List Record)) :
    Prop where
  sound : Sound args table
  rows : ∀ key, sdbGetRow table key = rowsOf args groups.flatten key
  id : table.id = groups.flatten.foldl (fun id record => max id |record.id|) 0
  autoIndex : table.autoIndex =
    if args.keyType = .auto then UInt32.ofNat (numOfInserts args groups.flatten) else 0
  size : table.size = if numOfDels args groups.flatten ≤ args.maxRows / 4 then
    (fileOf args groups).length else snapshotSize args groups.flatten

theorem replayFile_autoIndex (notAuto : args.keyType ≠ .auto) (header file : Bytes) :
    (replayFile args header file).table.autoIndex = 0 := by
  have start : (⟨emptyTable header file, 0⟩ : Replay Obj).table.autoIndex = 0 := rfl
  refine @scan_keeps _ _ _ _ _ (fun replay : Replay Obj => replay.table.autoIndex = 0)
    (fun replay found size zero => ?_) _ _ start
  cases found with
  | skipped => exact zero
  | row id rowSize buffer =>
    rw [advance, grow, raiseId, applyRow]
    simp only [if_neg notAuto]
    split
    · split <;> exact zero
    · split <;> exact zero

theorem sdbOpenTable_autoIndex (notAuto : args.keyType ≠ .auto) {file : Bytes}
    (opens : sdbOpenTable args file = some table) : table.autoIndex = 0 := by
  rw [sdbOpenTable] at opens
  obtain ⟨⟨header, kept⟩, -, rest⟩ := Option.bind_eq_some_iff.mp opens
  have none' := @replayFile_autoIndex _ args notAuto header kept
  simp only [pure, Option.some.injEq] at rest
  rw [<- rest]
  split
  · exact none'
  · exact none'

theorem sdbOpenTable_opened {groups : List (List Record)}
    (recordable : ∀ group ∈ groups, ∀ record ∈ group, Recordable args record ∧ record.id ≠ 0) :
    ∃ table, sdbOpenTable args (fileOf args groups) = some table ∧ Opened args table groups := by
  obtain ⟨table, replayed, file, size, opens⟩ := sdbOpenTable_whole recordable
  obtain ⟨logged, rows, count, id, autoIndex⟩ := replayed.snapshot
  have zero := fun notAuto => @sdbOpenTable_autoIndex _ args _ notAuto _ opens
  refine ⟨_, opens, ?_⟩
  rw [compacted] at zero ⊢
  by_cases few : numOfDels args groups.flatten ≤ args.maxRows / 4
  · rw [if_neg (not_lt.mpr few)] at zero ⊢
    refine ⟨replayed.sound, replayed.rows, replayed.id, ?_, ?_⟩
    · split
      · exact replayed.autoIndex (by assumption)
      · exact zero (by assumption)
    · rw [if_pos few, size]
  · rw [if_pos (not_le.mp few)] at zero ⊢
    refine ⟨logged.holds.sound, fun key => (rows key).trans (replayed.rows key),
      id.trans replayed.id, ?_, ?_⟩
    · split
      · exact autoIndex.trans (replayed.autoIndex (by assumption))
      · exact zero (by assumption)
    · rw [if_neg few, sdbSaveSnapShot_size replayed]

theorem ofNat_eq_add_iff (before more : Nat) :
    UInt32.ofNat before = UInt32.ofNat (before + more) ↔ 2 ^ 32 ∣ more := by
  rw [<- UInt32.toNat_inj, UInt32.toNat_ofNat', UInt32.toNat_ofNat']
  omega

theorem foldl_applyRecord_id (records : List Record) (replay : Replay Obj) :
    (records.foldl (applyRecord args) replay).table.id =
      records.foldl (fun id record => max id |record.id|) replay.table.id := by
  induction records generalizing replay with
  | nil => rfl
  | cons record records ih => rw [foldl_cons, foldl_cons, ih, applyRecord_id]

section Agrees

variable {log : GrownLog args} {fresh : SdbTable Obj} (opened : Opened args table log.before)
  (replayed : Opened args fresh (log.before ++ log.after))

include opened replayed

/-- The rows and the id are those of a fresh opening; the rows from before the
growth are missing from the count. -/
theorem Opened.caughtUp :
    (∀ key, sdbGetRow (sdbResetTable args table (fileOf args (log.before ++ log.after))) key =
      sdbGetRow fresh key) ∧
    (sdbResetTable args table (fileOf args (log.before ++ log.after))).id = fresh.id ∧
    (sdbResetTable args table (fileOf args (log.before ++ log.after))).numOfRows +
      (rowsLeft args log.before.flatten).length = fresh.numOfRows := by
  obtain ⟨follows, -⟩ := log.follows opened.id
  obtain ⟨sound, rows⟩ := @foldl_applyRecord_sound _ args log.after.flatten
    (fun record member => log.valid (log.mem_after member)) ⟨table, 0⟩ opened.sound
  have sameRows : ∀ key,
      sdbGetRow (log.after.flatten.foldl (applyRecord args) ⟨table, 0⟩).table key =
        sdbGetRow fresh key := by
    intro key
    rw [rows, replayed.rows, flatten_append, rowsOf_append, <- funext opened.rows]
  refine ⟨?_, ?_, ?_⟩
  · intro key
    rw [<- sameRows, sdbGetRow, follows.index]
    rfl
  · rw [follows.id, foldl_applyRecord_id, replayed.id, opened.id, flatten_append, List.foldl_append]
  · rw [<- sound.length_eq replayed.sound sameRows, <- follows.numOfRows,
      numOfRows_eq opened.sound opened.rows]

/-- The auto index is that of a fresh opening unless what was appended has inserted
rows. -/
theorem Opened.autoIndex_iff :
    (sdbResetTable args table (fileOf args (log.before ++ log.after))).autoIndex = fresh.autoIndex ↔
      (args.keyType = .auto ->
        2 ^ 32 ∣ insertsFrom args (rowsOf args log.before.flatten) log.after.flatten) := by
  obtain ⟨follows, -⟩ := log.follows opened.id
  rw [follows.autoIndex, opened.autoIndex, replayed.autoIndex]
  by_cases auto : args.keyType = .auto
  · have inserts : numOfInserts args (log.before ++ log.after).flatten =
        numOfInserts args log.before.flatten +
          insertsFrom args (rowsOf args log.before.flatten) log.after.flatten := by
      rw [flatten_append, numOfInserts, insertsFrom_append]
      rfl
    rw [if_pos auto, if_pos auto, inserts, ofNat_eq_add_iff]
    exact ⟨fun divides _ => divides, fun divides => divides auto⟩
  · rw [if_neg auto, if_neg auto]
    exact ⟨fun _ isAuto => absurd isAuto auto, fun _ => rfl⟩

theorem Opened.size_iff :
    (sdbResetTable args table (fileOf args (log.before ++ log.after))).size = fresh.size ↔
      numOfDels args (log.before ++ log.after).flatten ≤ args.maxRows / 4 ∨
        snapshotSize args (log.before ++ log.after).flatten =
          (fileOf args (log.before ++ log.after)).length := by
  obtain ⟨-, size⟩ := log.follows opened.id
  rw [size, replayed.size]
  split
  · exact ⟨fun _ => Or.inl (by assumption), fun _ => rfl⟩
  · rename_i many
    exact ⟨fun same => Or.inr same.symm, fun either => (either.resolve_left many).symm⟩

end Agrees

end CatchUp

def twoRows : GrownLog (plainArgs .uint32 uint32_indexed) where
  before := [[⟨1, [1, 0, 0, 0, 0, 0, 0, 0]⟩]]
  after := [[⟨2, [2, 0, 0, 0, 0, 0, 0, 0]⟩]]
  recordable := by
    intro group inside record member
    have cases' : record = ⟨1, [1, 0, 0, 0, 0, 0, 0, 0]⟩ ∨
        record = ⟨2, [2, 0, 0, 0, 0, 0, 0, 0]⟩ := by
      rcases List.mem_pair.mp inside with rfl | rfl
      · exact Or.inl (mem_singleton.mp member)
      · exact Or.inr (mem_singleton.mp member)
    rcases cases' with rfl | rfl
    all_goals
      exact ⟨⟨by decide, by decide, by decide, show 4 ≤ 8 by decide⟩, by decide⟩
  ids := by decide
  newer := by decide

end Luomi.Sdb.CatchUp
