import Luomi.Sdb.Replay

/-!
# Tables and the records of their files

To a reader of rows a table is a function from keys to rows.  A record sets or
clears one key, whether an operation writes it or a replay reads it.
-/

namespace Luomi.Sdb.History

open HashIndex Engine Recovery Replay

section History

variable {Obj : Type} {args : TableArgs Obj}

abbrev Rows (Obj : Type) := Bytes -> Option Obj

def stepRows (args : TableArgs Obj) (rows : Rows Obj) (record : Record) : Rows Obj :=
  fun key =>
    if key = keyAt args.keyType record.data then
      if record.id < 0 then none else some (args.appTool.decode record.data)
    else rows key

def rowsOf (args : TableArgs Obj) (records : List Record) : Rows Obj :=
  records.foldl (stepRows args) fun _ => none

/-- The index has one entry for each key, the rows are counted, and no entry is
newer than the table. -/
structure Sound (args : TableArgs Obj) (table : SdbTable Obj) : Prop where
  distinct : (table.index.map Entry.key).Nodup
  keys : ∀ entry ∈ table.index, entry.key = objKey args entry.row
  count : table.numOfRows = table.index.length
  ids : ∀ entry ∈ table.index, 0 < entry.id ∧ entry.id ≤ table.id
  idNonneg : 0 ≤ table.id

def history (args : TableArgs Obj) (header file : Bytes) (records : List Record) : Replay Obj :=
  records.foldl (applyRecord args) ⟨emptyTable header file, 0⟩

theorem emptyTable_sound (header file : Bytes) : Sound args (emptyTable header file) :=
  ⟨List.nodup_nil, by simp [emptyTable], rfl, by simp [emptyTable], le_rfl⟩

theorem sdbGetRow_eq_none {table : SdbTable Obj} {key : Bytes} :
    sdbGetRow table key = none ↔ key ∉ table.index.map Entry.key := by
  rw [sdbGetRow, Option.map_eq_none_iff, sdbGetIndex_eq_none]

theorem Sound.length_eq {left right : SdbTable Obj} (leftSound : Sound args left)
    (rightSound : Sound args right) (same : ∀ key, sdbGetRow left key = sdbGetRow right key) :
    left.numOfRows = right.numOfRows := by
  have members : ∀ key, key ∈ left.index.map Entry.key ↔ key ∈ right.index.map Entry.key := by
    intro key
    rw [<- not_iff_not, <- sdbGetRow_eq_none, <- sdbGetRow_eq_none, same key]
  have permuted := (List.perm_ext_iff_of_nodup leftSound.distinct rightSound.distinct).mpr members
  have lengths := permuted.length_eq
  rw [List.length_map, List.length_map] at lengths
  rw [leftSound.count, rightSound.count, lengths]

theorem decoded_key {data : Bytes} (keyed : Keyed args.keyType data)
    (fits : data.length ≤ args.maxRowSize) :
    objKey args (args.appTool.decode data) = keyAt args.keyType data :=
  args.appTool.decodeKey data keyed fits

theorem encoded_key (obj : Obj) :
    keyAt args.keyType (args.appTool.encode obj) = objKey args obj := rfl

section Change

variable {table next : SdbTable Obj}

section

variable (sound : Sound args table)
include sound

theorem Sound.add {obj : Obj} {id : Int}
    (absent : sdbGetRow table (objKey args obj) = none) (positive : 0 < id)
    (index : next.index = sdbAddIndex table.index ⟨objKey args obj, id, obj⟩)
    (count : next.numOfRows = table.numOfRows + 1) (newest : id ≤ next.id)
    (above : table.id ≤ next.id) :
    Sound args next ∧ ∀ key, sdbGetRow next key =
      if key = objKey args obj then some obj else sdbGetRow table key := by
  refine ⟨⟨?_, ?_, ?_, ?_, ?_⟩, ?_⟩
  · rw [index, sdbAddIndex, List.map_cons, List.nodup_cons]
    exact ⟨sdbGetRow_eq_none.mp absent, sound.distinct⟩
  · rw [index]
    intro entry member
    rcases List.mem_cons.mp member with rfl | old
    · rfl
    · exact sound.keys entry old
  · rw [count, index, sdbAddIndex, sound.count, List.length_cons]
    push_cast
    rfl
  · rw [index]
    intro entry member
    rcases List.mem_cons.mp member with rfl | old
    · exact ⟨positive, newest⟩
    · have bounds := sound.ids entry old
      omega
  · omega
  · intro key
    rw [sdbGetRow, index, sdbGetIndex_add]
    split <;> rfl

theorem Sound.set {obj : Obj}
    (present : sdbGetRow table (objKey args obj) ≠ none) (change : Entry Obj -> Entry Obj)
    (changed : ∀ entry, (change entry).key = entry.key ∧ (change entry).row = obj ∧
      ((change entry).id = entry.id ∨ 0 < (change entry).id ∧ (change entry).id ≤ next.id))
    (index : next.index = setIndex table.index (objKey args obj) change)
    (count : next.numOfRows = table.numOfRows) (above : table.id ≤ next.id) :
    Sound args next ∧ ∀ key, sdbGetRow next key =
      if key = objKey args obj then some obj else sdbGetRow table key := by
  have sameKey : ∀ entry, (change entry).key = entry.key := fun entry => (changed entry).1
  refine ⟨⟨?_, ?_, ?_, ?_, ?_⟩, ?_⟩
  · rw [index, keys_setIndex sameKey]
    exact sound.distinct
  · rw [index]
    intro entry member
    rcases mem_setIndex member with old | ⟨before, -, own, rfl⟩
    · exact sound.keys entry old
    · rw [sameKey, (changed before).2.1, own]
  · have length := congrArg List.length (@keys_setIndex _ table.index (objKey args obj) _ sameKey)
    rw [List.length_map, List.length_map] at length
    rw [count, sound.count, index, length]
  · rw [index]
    intro entry member
    rcases mem_setIndex member with old | ⟨before, old, -, rfl⟩
    · have bounds := sound.ids entry old
      omega
    · have bounds := sound.ids before old
      have changedId := (changed before).2.2
      omega
  · have nonneg := sound.idNonneg
    omega
  · intro key
    rw [sdbGetRow, index, sdbGetIndex_set sameKey]
    obtain ⟨obj', found⟩ := Option.ne_none_iff_exists'.mp present
    obtain ⟨entry, entryFound, -⟩ := Option.map_eq_some_iff.mp found
    split
    · rw [entryFound, Option.map_some, Option.map_some, (changed entry).2.1]
    · rfl

theorem Sound.keep (index : next.index = table.index)
    (count : next.numOfRows = table.numOfRows) (above : table.id ≤ next.id) : Sound args next := by
  refine ⟨?_, ?_, ?_, ?_, ?_⟩
  · rw [index]
    exact sound.distinct
  · rw [index]
    exact sound.keys
  · rw [index, count]
    exact sound.count
  · rw [index]
    intro entry member
    have bounds := sound.ids entry member
    omega
  · have nonneg := sound.idNonneg
    omega

theorem Sound.delete {key : Bytes} (present : sdbGetRow table key ≠ none)
    (index : next.index = sdbDeleteIndex table.index key)
    (count : next.numOfRows = table.numOfRows - 1) (above : table.id ≤ next.id) :
    Sound args next ∧ ∀ other, sdbGetRow next other =
      if other = key then none else sdbGetRow table other := by
  have inIndex : sdbGetIndex table.index key ≠ none := by
    intro absent
    rw [sdbGetRow, absent] at present
    exact present rfl
  refine ⟨⟨?_, ?_, ?_, ?_, ?_⟩, ?_⟩
  · rw [index]
    exact ((sdbDeleteIndex_sublist _ _).map _).nodup sound.distinct
  · rw [index]
    exact fun entry member => sound.keys entry ((sdbDeleteIndex_sublist _ _).mem member)
  · have length := length_sdbDeleteIndex inIndex
    rw [count, index, sound.count, <- length]
    push_cast
    ring
  · rw [index]
    intro entry member
    have bounds := sound.ids entry ((sdbDeleteIndex_sublist _ _).mem member)
    omega
  · have nonneg := sound.idNonneg
    omega
  · intro other
    rw [sdbGetRow, index, sdbGetIndex_delete sound.distinct]
    split <;> rfl

end

end Change

theorem applyRecord_id (replay : Replay Obj) (record : Record) :
    (applyRecord args replay record).table.id = max replay.table.id |record.id| := by
  have same : (applyRow args replay record.id (keyAt args.keyType record.data) record.data).table.id
      = replay.table.id := by
    unfold applyRow
    simp only
    split
    · split <;> rfl
    · split <;> rfl
  rw [applyRecord, raiseId, same]

theorem applyRecord_file (replay : Replay Obj) (record : Record) :
    (applyRecord args replay record).table.header = replay.table.header ∧
      (applyRecord args replay record).table.file = replay.table.file ∧
      (applyRecord args replay record).table.size = replay.table.size := by
  unfold applyRecord applyRow
  simp only
  split
  · split <;> exact ⟨rfl, rfl, rfl⟩
  · split <;> exact ⟨rfl, rfl, rfl⟩

theorem applyRecord_sound {replay : Replay Obj} (sound : Sound args replay.table) {record : Record}
    (recordable : Recordable args record) (nonzero : record.id ≠ 0) :
    Sound args (applyRecord args replay record).table ∧
      ∀ key, sdbGetRow (applyRecord args replay record).table key =
        stepRows args (sdbGetRow replay.table) record key := by
  have keyEq := decoded_key recordable.keyed recordable.fits
  have idEq := @applyRecord_id _ args replay record
  have above : replay.table.id ≤ (applyRecord args replay record).table.id := by
    rw [idEq]
    exact le_max_left _ _
  have newest : record.id ≤ (applyRecord args replay record).table.id := by
    rw [idEq]
    exact le_trans (le_abs_self _) (le_max_right _ _)
  unfold stepRows
  by_cases absent : sdbGetRow replay.table (keyAt args.keyType record.data) = none
  · have isNone : (sdbGetRow replay.table (keyAt args.keyType record.data)).isNone := by
      rw [absent]
      rfl
    by_cases negative : record.id < 0
    · have index : (applyRecord args replay record).table.index = replay.table.index := by
        simp only [applyRecord, applyRow, if_pos isNone, if_pos negative, raiseId]
      have count : (applyRecord args replay record).table.numOfRows = replay.table.numOfRows := by
        simp only [applyRecord, applyRow, if_pos isNone, if_pos negative, raiseId]
      refine ⟨sound.keep index count above, ?_⟩
      intro key
      have same : sdbGetRow (applyRecord args replay record).table key =
          sdbGetRow replay.table key := by
        rw [sdbGetRow, index]
        rfl
      rw [same, if_pos negative]
      split
      · rename_i own
        rw [own, absent]
      · rfl
    · rw [if_neg negative, <- keyEq]
      refine sound.add (by rw [keyEq]; exact absent) (by omega) ?_ ?_ newest above
      · simp only [applyRecord, applyRow, if_pos isNone, if_neg negative, raiseId]
      · simp only [applyRecord, applyRow, if_pos isNone, if_neg negative, raiseId]
  · have isSome : ¬ (sdbGetRow replay.table (keyAt args.keyType record.data)).isNone := by
      rw [Option.isNone_iff_eq_none]
      exact absent
    by_cases negative : record.id < 0
    · rw [if_pos negative]
      refine sound.delete absent ?_ ?_ above
      · simp only [applyRecord, applyRow, if_neg isSome, if_pos negative, raiseId]
      · simp only [applyRecord, applyRow, if_neg isSome, if_pos negative, raiseId]
    · rw [if_neg negative, <- keyEq]
      refine sound.set (by rw [keyEq]; exact absent)
        (fun entry => { entry with row := args.appTool.decode record.data })
        (fun entry => ⟨rfl, rfl, Or.inl rfl⟩) ?_ ?_ above
      · simp only [applyRecord, applyRow, if_neg isSome, if_neg negative, raiseId, keyEq]
      · simp only [applyRecord, applyRow, if_neg isSome, if_neg negative, raiseId]

theorem history_file (header file : Bytes) (records : List Record) :
    (history args header file records).table.header = header ∧
      (history args header file records).table.file = file ∧
      (history args header file records).table.size = sizeofHeader + sdbEcommit.length ∧
      (history args header file records).table.id =
        records.foldl (fun id record => max id |record.id|) 0 := by
  induction records using List.reverseRecOn with
  | nil => exact ⟨rfl, rfl, rfl, rfl⟩
  | append_singleton records record ih =>
    have last : history args header file (records ++ [record]) =
        applyRecord args (history args header file records) record := by
      rw [history, List.foldl_append]
      rfl
    obtain ⟨sameHeader, sameFile, sameSize⟩ :=
      @applyRecord_file _ args (history args header file records) record
    rw [last, sameHeader, sameFile, sameSize, applyRecord_id, List.foldl_append]
    exact ⟨ih.1, ih.2.1, ih.2.2.1, by rw [ih.2.2.2]; rfl⟩

section

variable {records : List Record}
  (recordable : ∀ record ∈ records, Recordable args record ∧ record.id ≠ 0)

include recordable

theorem foldl_applyRecord_sound {replay : Replay Obj} (sound : Sound args replay.table) :
    Sound args (records.foldl (applyRecord args) replay).table ∧
      ∀ key, sdbGetRow (records.foldl (applyRecord args) replay).table key =
        records.foldl (stepRows args) (sdbGetRow replay.table) key := by
  induction records generalizing replay with
  | nil => exact ⟨sound, fun key => rfl⟩
  | cons record records ih =>
    obtain ⟨ok, nonzero⟩ := recordable record List.mem_cons_self
    obtain ⟨nextSound, nextRows⟩ := applyRecord_sound sound ok nonzero
    have rest := ih (fun other member => recordable other (List.mem_cons_of_mem _ member)) nextSound
    rw [funext nextRows] at rest
    exact rest

theorem history_sound (header file : Bytes) : Sound args (history args header file records).table ∧
      ∀ key, sdbGetRow (history args header file records).table key = rowsOf args records key :=
  foldl_applyRecord_sound recordable (emptyTable_sound header file)

end

end History

end Luomi.Sdb.History
