import Luomi.Sdb.OpenFile

/-!
# What a replay counts

A replay counts the records that reset or delete a row, and with auto keys those
that insert one.  Both counts are functions of the records alone.
-/

namespace Luomi.Sdb.Tally

open HashIndex Engine Recovery Replay History

section Tally

variable {Obj : Type} {args : TableArgs Obj}

def Inserts (args : TableArgs Obj) (rows : Rows Obj) (record : Record) : Prop :=
  (rows (keyAt args.keyType record.data)).isNone ∧ 0 < record.id

instance (rows : Rows Obj) (record : Record) : Decidable (Inserts args rows record) := by
  unfold Inserts
  infer_instance

/-- What a record adds to `numOfDels`. -/
def delsOf (args : TableArgs Obj) (rows : Rows Obj) (record : Record) : Nat :=
  if (rows (keyAt args.keyType record.data)).isNone then 0 else if record.id < 0 then 2 else 1

def insertsFrom (args : TableArgs Obj) : Rows Obj -> List Record -> Nat
  | _, [] => 0
  | rows, record :: later =>
    (if Inserts args rows record then 1 else 0) +
      insertsFrom args (stepRows args rows record) later

def delsFrom (args : TableArgs Obj) : Rows Obj -> List Record -> Nat
  | _, [] => 0
  | rows, record :: later =>
    delsOf args rows record + delsFrom args (stepRows args rows record) later

def numOfInserts (args : TableArgs Obj) (records : List Record) : Nat :=
  insertsFrom args (fun _ => none) records

def numOfDels (args : TableArgs Obj) (records : List Record) : Nat :=
  delsFrom args (fun _ => none) records

def Numbered : Int -> List Record -> Prop
  | _, [] => True
  | id, record :: later => |record.id| = id + 1 ∧ Numbered (id + 1) later

def LastInserts (args : TableArgs Obj) (records : List Record) : Prop :=
  match records.getLast? with
  | none => False
  | some record => Inserts args (rowsOf args records.dropLast) record

instance (records : List Record) : Decidable (LastInserts args records) := by
  unfold LastInserts
  split <;> infer_instance

theorem insertsFrom_append (records later : List Record) (rows : Rows Obj) :
    insertsFrom args rows (records ++ later) =
      insertsFrom args rows records + insertsFrom args (records.foldl (stepRows args) rows) later := by
  induction records generalizing rows with
  | nil => rw [List.nil_append, insertsFrom, Nat.zero_add, List.foldl_nil]
  | cons record records ih =>
    rw [List.cons_append, insertsFrom, insertsFrom, ih, List.foldl_cons, Nat.add_assoc]

theorem delsFrom_append (records later : List Record) (rows : Rows Obj) :
    delsFrom args rows (records ++ later) =
      delsFrom args rows records + delsFrom args (records.foldl (stepRows args) rows) later := by
  induction records generalizing rows with
  | nil => rw [List.nil_append, delsFrom, Nat.zero_add, List.foldl_nil]
  | cons record records ih =>
    rw [List.cons_append, delsFrom, delsFrom, ih, List.foldl_cons, Nat.add_assoc]

theorem numOfInserts_concat (records : List Record) (record : Record) :
    numOfInserts args (records ++ [record]) = numOfInserts args records +
      if Inserts args (rowsOf args records) record then 1 else 0 := by
  rw [numOfInserts, insertsFrom_append]
  rfl

theorem numOfDels_concat (records : List Record) (record : Record) :
    numOfDels args (records ++ [record]) =
      numOfDels args records + delsOf args (rowsOf args records) record := by
  rw [numOfDels, delsFrom_append]
  rfl

theorem numbered_append (records later : List Record) (id : Int) :
    Numbered id (records ++ later) ↔ Numbered id records ∧ Numbered (id + records.length) later := by
  induction records generalizing id with
  | nil => simp [Numbered]
  | cons record records ih =>
    have shift : id + 1 + (records.length : Int) = id + ((record :: records).length : Int) := by
      rw [List.length_cons]
      push_cast
      ring
    rw [List.cons_append, Numbered, Numbered, ih, shift, and_assoc]

theorem foldl_max_numbered {records : List Record} {id : Int} (numbered : Numbered id records) :
    records.foldl (fun id record => max id |record.id|) id = id + records.length := by
  induction records generalizing id with
  | nil => simp
  | cons record records ih =>
    obtain ⟨own, later⟩ := numbered
    have newest : max id |record.id| = id + 1 := by
      rw [own]
      omega
    rw [List.foldl_cons, newest, ih later, List.length_cons]
    push_cast
    ring

theorem applyRecord_numOfDels (replay : Replay Obj) (record : Record) :
    (applyRecord args replay record).numOfDels =
      replay.numOfDels + delsOf args (sdbGetRow replay.table) record := by
  unfold applyRecord applyRow delsOf
  simp only
  split
  · split <;> rfl
  · split <;> rfl

variable {record : Record}

theorem applyRecord_autoIndex (auto : args.keyType = .auto) (replay : Replay Obj) (nonzero : record.id ≠ 0) :
    (applyRecord args replay record).table.autoIndex = replay.table.autoIndex +
      UInt32.ofNat (if Inserts args (sdbGetRow replay.table) record then 1 else 0) := by
  have noMore : replay.table.autoIndex + UInt32.ofNat 0 = replay.table.autoIndex := by simp
  by_cases absent : (sdbGetRow replay.table (keyAt args.keyType record.data)).isNone
  · by_cases negative : record.id < 0
    · have inserts : ¬ Inserts args (sdbGetRow replay.table) record :=
        fun both => absurd both.2 (not_lt_of_gt negative)
      simp only [applyRecord, applyRow, if_pos absent, if_pos negative, raiseId, if_neg inserts,
        noMore]
    · have inserts : Inserts args (sdbGetRow replay.table) record := ⟨absent, by omega⟩
      simp only [applyRecord, applyRow, if_pos absent, if_neg negative, raiseId, if_pos inserts,
        if_pos auto]
      rfl
  · have inserts : ¬ Inserts args (sdbGetRow replay.table) record := fun both => absent both.1
    by_cases negative : record.id < 0
    · simp only [applyRecord, applyRow, if_neg absent, if_pos negative, raiseId, if_neg inserts,
        noMore]
    · simp only [applyRecord, applyRow, if_neg absent, if_neg negative, raiseId, if_neg inserts,
        noMore]

theorem applyRecord_newest {replay : Replay Obj} (sound : Sound args replay.table) (nonzero : record.id ≠ 0) (newer : replay.table.id < |record.id|) :
    (∃ entry ∈ (applyRecord args replay record).table.index, entry.id = |record.id|) ↔
      Inserts args (sdbGetRow replay.table) record := by
  have older : ∀ entry ∈ replay.table.index, entry.id ≠ |record.id| := by
    intro entry member
    have bounds := sound.ids entry member
    omega
  unfold Inserts
  by_cases absent : (sdbGetRow replay.table (keyAt args.keyType record.data)).isNone
  · by_cases negative : record.id < 0
    · have index : (applyRecord args replay record).table.index = replay.table.index := by
        simp only [applyRecord, applyRow, if_pos absent, if_pos negative, raiseId]
      rw [index]
      constructor
      · rintro ⟨entry, member, same⟩
        exact absurd same (older entry member)
      · rintro ⟨-, positive⟩
        omega
    · have positive : 0 < record.id := by omega
      refine ⟨fun _ => ⟨absent, positive⟩, fun _ => ?_⟩
      refine ⟨⟨objKey args (args.appTool.decode record.data), record.id,
        args.appTool.decode record.data⟩, ?_, (abs_of_pos positive).symm⟩
      simp only [applyRecord, applyRow, if_pos absent, if_neg negative, raiseId, sdbAddIndex]
      exact List.mem_cons_self
  · have present : ¬ ((sdbGetRow replay.table (keyAt args.keyType record.data)).isNone ∧
        0 < record.id) := fun both => absent both.1
    refine ⟨?_, fun inserts => absurd inserts present⟩
    rintro ⟨entry, member, same⟩
    exfalso
    by_cases negative : record.id < 0
    · simp only [applyRecord, applyRow, if_neg absent, if_pos negative, raiseId] at member
      exact older entry ((sdbDeleteIndex_sublist _ _).mem member) same
    · simp only [applyRecord, applyRow, if_neg absent, if_neg negative, raiseId] at member
      rcases mem_setIndex member with old | ⟨before, old, -, rfl⟩
      · exact older entry old same
      · exact older before old same

theorem history_append (header file : Bytes) (records : List Record) (record : Record) :
    history args header file (records ++ [record]) =
      applyRecord args (history args header file records) record := by
  rw [history, List.foldl_append]
  rfl

theorem rowsOf_append (records later : List Record) :
    rowsOf args (records ++ later) = later.foldl (stepRows args) (rowsOf args records) := by
  rw [rowsOf, List.foldl_append, rowsOf]

section History

variable {records : List Record} (recordable : ∀ record ∈ records, Recordable args record ∧
  record.id ≠ 0) (header file : Bytes)
include recordable

theorem history_tally : (history args header file records).numOfDels = numOfDels args records ∧
      (args.keyType = .auto -> (history args header file records).table.autoIndex =
        UInt32.ofNat (numOfInserts args records)) ∧
      (history args header file records).table.numOfRows ≤ numOfInserts args records := by
  induction records using List.reverseRecOn with
  | nil => exact ⟨rfl, fun _ => rfl, le_rfl⟩
  | append_singleton records record ih =>
    have front : ∀ other ∈ records, Recordable args other ∧ other.id ≠ 0 := fun other member =>
      recordable other (List.mem_append_left _ member)
    obtain ⟨-, nonzero⟩ := recordable record (by simp)
    obtain ⟨dels, auto, rows⟩ := ih front
    have same : sdbGetRow (history args header file records).table = rowsOf args records :=
      funext (history_sound front header file).2
    rw [history_append, numOfDels_concat, numOfInserts_concat]
    refine ⟨?_, ?_, ?_⟩
    · rw [applyRecord_numOfDels, dels, same]
    · intro isAuto
      rw [applyRecord_autoIndex isAuto _ nonzero, auto isAuto, same, UInt32.ofNat_add]
    · have count : (applyRecord args (history args header file records) record).table.numOfRows ≤
          (history args header file records).table.numOfRows +
            (if Inserts args (rowsOf args records) record then 1 else 0) := by
        rw [<- same]
        unfold applyRecord applyRow Inserts
        simp only
        by_cases absent : (sdbGetRow (history args header file records).table
            (keyAt args.keyType record.data)).isNone
        · by_cases negative : record.id < 0
          · simp only [absent, negative, if_true, raiseId]
            split <;> omega
          · have positive : 0 < record.id := by omega
            simp [absent, negative, positive, raiseId]
        · by_cases negative : record.id < 0
          · simp only [absent, negative, if_true, raiseId]
            simp
          · simp only [absent, negative, if_false, raiseId]
            simp
      push_cast
      split at count <;> simp_all <;> omega

/-- With consecutive ids an entry has the last one if and only if the last record
inserts a row. -/
theorem history_newest (numbered : Numbered 0 records) :
    (∃ entry ∈ (history args header file records).table.index,
      entry.id = (history args header file records).table.id) ↔ LastInserts args records := by
  induction records using List.reverseRecOn with
  | nil =>
    constructor
    · rintro ⟨entry, member, -⟩
      cases member
    · exact False.elim
  | append_singleton records record _ =>
    have front : ∀ other ∈ records, Recordable args other ∧ other.id ≠ 0 := fun other member =>
      recordable other (List.mem_append_left _ member)
    obtain ⟨-, nonzero⟩ := recordable record (by simp)
    obtain ⟨frontNumbered, own, -⟩ := (numbered_append records [record] 0).mp numbered
    obtain ⟨sound, rows⟩ := history_sound front header file
    have id : (history args header file records).table.id = records.length := by
      rw [(history_file header file records).2.2.2, foldl_max_numbered frontNumbered, zero_add]
    have newer : (history args header file records).table.id < |record.id| := by
      rw [id, own]
      omega
    have last : (history args header file (records ++ [record])).table.id = |record.id| := by
      rw [history_append, applyRecord_id]
      exact max_eq_right (le_of_lt newer)
    rw [last, history_append, applyRecord_newest sound nonzero newer, funext rows]
    simp [LastInserts]

end History

end Tally

end Luomi.Sdb.Tally
