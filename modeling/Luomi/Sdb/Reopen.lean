import Luomi.Sdb.Snapshot

/-!
# Closing and opening a table

The file of a table in use is made of the records of its operations.  Opening it
replays them; where many of them were no inserts, the file becomes a snapshot, in
which a row keeps the id of its insert.  So the second opening can find a smaller
id than the first.
-/

namespace Luomi.Sdb.Reopen

open LittleEndian HashIndex Engine Recovery Replay History OpenFile Tally Operations
open Snapshot

section Reopen

variable {Obj : Type} {args : TableArgs Obj}

/-- What `sdbOpenTable` returns where there is no file. -/
def newTable (args : TableArgs Obj) : SdbTable Obj :=
  emptyTable (headerBytes args.crc32c args.version) (newFile args)

/-- The file of a table is made of groups of records, and the table holds what they
leave. -/
structure Logged (args : TableArgs Obj) (table : SdbTable Obj) (groups : List (List Record)) :
    Prop where
  file : table.file = fileOf args groups
  header : table.header = headerBytes args.crc32c args.version
  recordable : ∀ group ∈ groups, ∀ record ∈ group, Recordable args record ∧ record.id ≠ 0
  holds : Holds args table (rowsOf args groups.flatten)

structure Replayed (args : TableArgs Obj) (table : SdbTable Obj) (records : List Record) : Prop where
  header : table.header = headerBytes args.crc32c args.version
  sound : Sound args table
  rows : ∀ key, sdbGetRow table key = rowsOf args records key
  id : table.id = records.foldl (fun id record => max id |record.id|) 0
  below : table.id < 2 ^ 63
  autoIndex : args.keyType = .auto -> table.autoIndex = UInt32.ofNat (numOfInserts args records)
  inserts : table.numOfRows ≤ numOfInserts args records
  newest : Numbered 0 records ->
    ((∃ entry ∈ table.index, entry.id = table.id) ↔ LastInserts args records)

/-- A replay that took too many deletes and resets is followed by a snapshot. -/
def compacted (args : TableArgs Obj) (table : SdbTable Obj) (records : List Record) : SdbTable Obj
    :=
  if numOfDels args records > args.maxRows / 4 then sdbSaveSnapShot args table else table

variable {table next : SdbTable Obj} {groups : List (List Record)}

section

variable {records : List Record}
  (recordable : ∀ record ∈ records, Recordable args record ∧ record.id ≠ 0)

include recordable

theorem foldl_max_lt : records.foldl (fun id record => max id |record.id|) 0 < (2 ^ 63 : Int) := by
  induction records using List.reverseRecOn with
  | nil => decide
  | append_singleton records record ih =>
    obtain ⟨own, -⟩ := recordable record (by simp)
    have front := ih fun other member => recordable other (List.mem_append_left _ member)
    rw [List.foldl_append, List.foldl_cons, List.foldl_nil]
    refine max_lt front (abs_lt.mpr ⟨own.low, own.high⟩)

theorem history_replayed (file : Bytes) (size : Nat) : Replayed args
      (grow (history args (headerBytes args.crc32c args.version) file records) size).table records := by
  obtain ⟨header, -, -, id⟩ := @history_file _ args (headerBytes args.crc32c args.version) file records
  obtain ⟨sound, rows⟩ := history_sound recordable (headerBytes args.crc32c args.version) file
  obtain ⟨-, autoIndex, inserts⟩ :=
    history_tally recordable (headerBytes args.crc32c args.version) file
  refine ⟨header, sound.keep rfl rfl le_rfl, rows, id, ?_, autoIndex, inserts, ?_⟩
  · have sameId : (grow (history args (headerBytes args.crc32c args.version) file records)
        size).table.id = records.foldl (fun id record => max id |record.id|) 0 := id
    rw [sameId]
    exact foldl_max_lt recordable
  · exact fun numbered => history_newest recordable _ file numbered

end

theorem wholeRecords_recordable {group : List Record}
    (recordable : ∀ record ∈ group, Recordable args record ∧ record.id ≠ 0) (size : Nat) :
    ∀ record ∈ (wholeRecords args group size).1, Recordable args record ∧ record.id ≠ 0 :=
  fun record member => recordable record ((prefix_wholeRecords group size).sublist.mem member)

section

variable (recordable : ∀ group ∈ groups, ∀ record ∈ group, Recordable args record ∧ record.id ≠ 0)
include recordable

theorem sdbOpenTable_cut
    {group : List Record} (cutRecordable : ∀ record ∈ group, Recordable args record ∧ record.id ≠ 0)
    {tail : Bytes} (start : StartsRecord tail) (isPrefix : tail <+: groupBytes args group) :
    ∃ table, Replayed args table
        (groups.flatten ++ (wholeRecords args group (kept tail).length).1) ∧
      table.file = fileOf args groups ++ kept tail ∧
      table.size = (fileOf args groups).length +
        (if (wholeRecords args group (kept tail).length).2 < sizeofRowHead then (kept tail).length
          else (kept tail).length - (wholeRecords args group (kept tail).length).2) ∧
      sdbOpenTable args (fileOf args groups ++ tail) = some (compacted args table
        (groups.flatten ++ (wholeRecords args group (kept tail).length).1)) := by
  have keptPrefix := (prefix_kept tail).trans isPrefix
  have allRecordable : ∀ record ∈ groups.flatten ++ (wholeRecords args group (kept tail).length).1,
      Recordable args record ∧ record.id ≠ 0 := by
    intro record member
    rcases List.mem_append.mp member with early | late
    · obtain ⟨other, otherMember, inside⟩ := List.mem_flatten.mp early
      exact recordable other otherMember record inside
    · exact wholeRecords_recordable cutRecordable _ record late
  have replay := replayFile_cut (fun group member record inside =>
    (recordable group member record inside).1) (fun record member => (cutRecordable record member).1)
    keptPrefix (headerBytes args.crc32c args.version)
  obtain ⟨-, file, size, -⟩ := @history_file _ args (headerBytes args.crc32c args.version)
    (fileOf args groups ++ kept tail)
    (groups.flatten ++ (wholeRecords args group (kept tail).length).1)
  obtain ⟨dels, -⟩ := history_tally allRecordable (headerBytes args.crc32c args.version)
    (fileOf args groups ++ kept tail)
  refine ⟨_, history_replayed allRecordable (fileOf args groups ++ kept tail)
    ((groups.flatMap (groupBytes args)).length +
      if (wholeRecords args group (kept tail).length).2 < sizeofRowHead then (kept tail).length
      else (kept tail).length - (wholeRecords args group (kept tail).length).2), file, ?_, ?_⟩
  · rw [grow]
    simp only
    rw [size, fileOf, List.length_append, newFile_length, Nat.add_assoc, Nat.add_assoc,
      Nat.add_assoc]
  · rw [sdbOpenTable, sdbOpenSdbFile_cut groups start]
    simp only [Option.bind_eq_bind, Option.bind_some]
    rw [replay, compacted, <- dels]
    rfl

theorem sdbOpenTable_whole :
    ∃ table, Replayed args table groups.flatten ∧ table.file = fileOf args groups ∧
      table.size = (fileOf args groups).length ∧
      sdbOpenTable args (fileOf args groups) = some (compacted args table groups.flatten) := by
  obtain ⟨table, replayed, file, size, opens⟩ := @sdbOpenTable_cut _ args groups recordable []
    (by simp) [] (fun byte first => by simp at first) List.nil_prefix
  have nothing : kept [] = [] := rfl
  rw [nothing, List.append_nil] at file
  simp only [nothing, List.append_nil, wholeRecords, List.length_nil] at replayed opens size
  exact ⟨table, replayed, file, size, opens⟩

end

theorem Replayed.logged (replayed : Replayed args table groups.flatten)
    (recordable : ∀ group ∈ groups, ∀ record ∈ group, Recordable args record ∧ record.id ≠ 0)
    (file : table.file = fileOf args groups) (size : table.size = (fileOf args groups).length) :
    Logged args table groups where
  file := file
  header := replayed.header
  recordable := recordable
  holds := ⟨replayed.sound, replayed.rows, by rw [file, size]⟩

theorem Replayed.snapshot {records : List Record} (replayed : Replayed args table records) :
    Logged args (sdbSaveSnapShot args table) (snapshotGroups args table.index) ∧
      (∀ key, sdbGetRow (sdbSaveSnapShot args table) key = sdbGetRow table key) ∧
      (sdbSaveSnapShot args table).numOfRows = table.numOfRows ∧
      (sdbSaveSnapShot args table).id = table.id ∧
      (sdbSaveSnapShot args table).autoIndex = table.autoIndex := by
  have rows : ∀ key, sdbGetRow (sdbSaveSnapShot args table) key = sdbGetRow table key :=
    fun key => rfl
  have count : (sdbSaveSnapShot args table).numOfRows = table.numOfRows := by
    rw [replayed.sound.count, <- (sdbFetchRows_perm args table.index).length_eq]
    rfl
  refine ⟨⟨sdbSaveSnapShot_file replayed.header, replayed.header,
    snapshot_recordable replayed.sound replayed.below, ?_, ?_, rfl⟩, rows, count, rfl, rfl⟩
  · exact replayed.sound.keep rfl count le_rfl
  · intro key
    rw [rows, snapshot_rows replayed.sound]

theorem newTable_logged (args : TableArgs Obj) : Logged args (newTable args) [] where
  file := by
    rw [fileOf, List.flatMap_nil, List.append_nil]
    rfl
  header := rfl
  recordable := by simp
  holds := ⟨emptyTable_sound _ _, fun key => rfl, newFile_length⟩

theorem Logged.runOp (logged : Logged args table groups) {op : Op args}
    (newKey : TakesNewKey table op) {code : Int} (run : runOp args table op = some (code, next)) :
    opRecords table op = [] ∧ next = table ∨ Appends args table (opRecords table op) next ∧
        Logged args next (groups ++ [opRecords table op]) := by
  rcases runOp_appends logged.holds newKey run with refused | ⟨appends, holds⟩
  · exact Or.inl refused
  · refine Or.inr ⟨appends, ⟨?_, ?_, ?_, ?_⟩⟩
    · rw [appends.file, logged.file, fileOf_append]
    · rw [appends.header, logged.header]
    · intro group member
      rcases List.mem_append.mp member with early | late
      · exact logged.recordable group early
      · rw [List.mem_singleton.mp late]
        exact appends.recordable
    · rw [List.flatten_append, List.flatten_singleton, rowsOf_append]
      exact holds

def runRecords (args : TableArgs Obj) : SdbTable Obj -> List (Op args) -> List Record
  | _, [] => []
  | table, op :: ops =>
    match Engine.runOp args table op with
    | none => []
    | some result => opRecords table op ++ runRecords args result.2 ops

theorem runOps_logged (notAuto : args.keyType ≠ .auto) (ops : List (Op args)) :
    ∀ {table last : SdbTable Obj} {groups : List (List Record)}, Logged args table groups ->
      Numbered 0 groups.flatten -> table.id = groups.flatten.length ->
      runOps args table ops = some last ->
        ∃ later, Logged args last later ∧ Numbered 0 later.flatten ∧
          last.id = later.flatten.length ∧
          later.flatten = groups.flatten ++ runRecords args table ops := by
  induction ops with
  | nil =>
    intro table last groups logged numbered id run
    cases run
    exact ⟨groups, logged, numbered, id, by rw [runRecords, List.append_nil]⟩
  | cons op ops ih =>
    intro table last groups logged numbered id run
    obtain ⟨⟨code, next⟩, step, rest⟩ := Option.bind_eq_some_iff.mp run
    have records : runRecords args table (op :: ops) =
        opRecords table op ++ runRecords args next ops := by
      rw [runRecords, step]
    rw [records]
    rcases logged.runOp (takesNewKey_of_notAuto notAuto table op) step with
      ⟨refused, rfl⟩ | ⟨appends, nextLogged⟩
    · rw [refused, List.nil_append]
      exact ih logged numbered id rest
    · have flat : (groups ++ [opRecords table op]).flatten = groups.flatten ++ opRecords table op := by
        rw [List.flatten_append, List.flatten_singleton]
      rw [<- List.append_assoc, <- flat]
      refine ih nextLogged ?_ ?_ rest
      · rw [flat, numbered_append, zero_add, <- id]
        exact ⟨numbered, appends.numbered⟩
      · rw [flat, appends.id, id, List.length_append]
        push_cast
        rfl

structure ClosedTable (args : TableArgs Obj) where
  ops : List (Op args)
  table : SdbTable Obj
  indexed : args.keyType = .string ∨ args.keyType = .uint32
  run : runOps args (newTable args) ops = some table

structure Same (left right : SdbTable Obj) : Prop where
  rows : ∀ key, sdbGetRow left key = sdbGetRow right key
  numOfRows : sdbGetNumOfRows left = sdbGetNumOfRows right
  id : sdbGetId left = sdbGetId right

def KeptTwice (args : TableArgs Obj) (table : SdbTable Obj) : Prop :=
  ∃ first second, reopen args table = some first ∧ Same table first ∧
    reopen args first = some second ∧ Same table second

section

variable (logged : Logged args table groups) (numbered : Numbered 0 groups.flatten)
  (id : table.id = groups.flatten.length)

include logged numbered id

theorem Logged.reopen :
    ∃ replayed, Replayed args replayed groups.flatten ∧ Logged args replayed groups ∧
      Same table replayed ∧
      Recovery.reopen args table = some (compacted args replayed groups.flatten) := by
  obtain ⟨replayed, result, file, size, opens⟩ := @sdbOpenTable_whole _ args groups logged.recordable
  rw [<- logged.file] at opens
  have rows : ∀ key, sdbGetRow table key = sdbGetRow replayed key := fun key =>
    (logged.holds.rows key).trans (result.rows key).symm
  refine ⟨replayed, result, result.logged logged.recordable file size, ⟨rows, ?_, ?_⟩, opens⟩
  · exact logged.holds.sound.length_eq result.sound rows
  · rw [sdbGetId, sdbGetId, id, result.id, foldl_max_numbered numbered, zero_add]

theorem Logged.keptTwice_iff : KeptTwice args table ↔
      numOfDels args groups.flatten ≤ args.maxRows / 4 ∨ LastInserts args groups.flatten := by
  obtain ⟨replayed, result, replayedLogged, same, opens⟩ := logged.reopen numbered id
  by_cases few : numOfDels args groups.flatten ≤ args.maxRows / 4
  · refine ⟨fun _ => Or.inl few, fun _ => ?_⟩
    rw [compacted, if_neg (not_lt.mpr few)] at opens
    have again : Recovery.reopen args replayed = some replayed := by
      rw [Recovery.reopen, replayedLogged.file, <- logged.file]
      exact opens
    exact ⟨replayed, replayed, opens, same, again, same⟩
  · have many := not_le.mp few
    rw [compacted, if_pos many] at opens
    obtain ⟨snapLogged, snapRows, snapCount, snapId, -⟩ := result.snapshot
    have positive : 0 < replayed.id := by
      have nonneg := result.sound.idNonneg
      refine lt_of_le_of_ne nonneg fun zero => ?_
      have length : groups.flatten.length = 0 := by
        have sameId : table.id = replayed.id := same.id
        omega
      rw [List.eq_nil_of_length_eq_zero length] at many
      exact absurd many (Nat.not_lt_zero _)
    obtain ⟨second, secondResult, -, -, secondOpens⟩ :=
      @sdbOpenTable_whole _ args (snapshotGroups args replayed.index) snapLogged.recordable
    obtain ⟨noDels, -⟩ := snapshot_tally result.sound
    rw [compacted, noDels, if_neg (Nat.not_lt_zero _), <- snapLogged.file] at secondOpens
    have secondRows : ∀ key, sdbGetRow table key = sdbGetRow second key := by
      intro key
      rw [same.rows, secondResult.rows, snapshot_rows result.sound]
    have secondCount := logged.holds.sound.length_eq secondResult.sound secondRows
    have firstSame : Same table (sdbSaveSnapShot args replayed) :=
      ⟨same.rows, same.numOfRows.trans snapCount.symm, same.id⟩
    have newest := snapshot_ids result.sound positive
    rw [<- secondResult.id] at newest
    rw [<- result.newest numbered, <- newest]
    constructor
    · rintro ⟨first, other, firstOpens, -, otherOpens, otherSame⟩
      cases firstOpens.symm.trans opens
      cases otherOpens.symm.trans secondOpens
      exact Or.inr (otherSame.id.symm.trans same.id)
    · intro condition
      have sameId := condition.resolve_left few
      exact ⟨_, second, opens, firstSame, secondOpens, secondRows, secondCount,
        same.id.trans sameId.symm⟩

end

theorem ClosedTable.logged (closed : ClosedTable args) :
    ∃ groups, Logged args closed.table groups ∧ Numbered 0 groups.flatten ∧
      closed.table.id = groups.flatten.length ∧
      groups.flatten = runRecords args (newTable args) closed.ops := by
  have notAuto : args.keyType ≠ .auto := by
    rcases closed.indexed with string | uint32
    · rw [string]
      exact KeyType.noConfusion
    · rw [uint32]
      exact KeyType.noConfusion
  exact runOps_logged notAuto closed.ops (newTable_logged args) trivial rfl closed.run

end Reopen

structure PlainRow where
  bytes : Bytes
  size : bytes.length = 8

def plainTool (keyType : KeyType) (indexed : keyType ≠ .string) : AppTool PlainRow keyType 8 where
  encode row := row.bytes
  decode row := ⟨(row ++ List.replicate 8 0).take 8, by simp⟩
  decode_encode row := by
    obtain ⟨bytes, size⟩ := row
    simp only [PlainRow.mk.injEq]
    exact List.take_left' size
  fits row := le_of_eq row.size
  keyed row := by
    cases keyType with
    | string => exact absurd rfl indexed
    | uint32 => exact le_trans (by decide) (le_of_eq row.size.symm)
    | auto => exact le_of_eq row.size.symm
  decodeKey row keyed fits := by
    have long : 4 ≤ row.length := by
      cases keyType with
      | string => exact absurd rfl indexed
      | uint32 => exact keyed
      | auto => exact le_trans (by decide) (show 8 ≤ row.length from keyed)
    have front : ((row ++ List.replicate 8 0).take 8).take 4 = row.take 4 := by
      rw [List.take_take]
      exact List.take_append_of_le_length long
    cases keyType with
    | string => exact absurd rfl indexed
    | uint32 => exact front
    | auto => exact front
  setAutoKey key row := ⟨leBytes 4 key.toNat ++ row.bytes.drop 4, by simp [row.size]⟩
  autoKey auto key row := by
    subst auto
    exact List.take_left' (leBytes_length _ _)

def plainArgs (keyType : KeyType) (indexed : keyType ≠ .string) : TableArgs PlainRow where
  keyType := keyType
  maxRows := 4
  maxRowSize := 8
  appTool := plainTool keyType indexed
  version := List.replicate 8 0
  crc32c := fun _ => 0
  maxRowsPos := by decide
  rowSizeInt := by decide
  versionSize := rfl

theorem uint32_indexed : KeyType.uint32 ≠ .string := by decide

def updatedOps : List (Op (plainArgs .uint32 (by decide))) :=
  let row : PlainRow := ⟨[1, 0, 0, 0, 0, 0, 0, 0], rfl⟩
  [.insert (.object row), .update (.object row), .update (.object row)]

def updatedTable : ClosedTable (plainArgs .uint32 (by decide)) where
  ops := updatedOps
  table := (runOps (plainArgs .uint32 (by decide)) (newTable _) updatedOps).get (by decide +kernel)
  indexed := Or.inr rfl
  run := (Option.some_get _).symm

end Luomi.Sdb.Reopen
