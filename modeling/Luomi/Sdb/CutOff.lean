import Luomi.Sdb.Usage

/-!
# Operations cut off

A crash leaves a proper prefix of the bytes of the last operation.  Opening the
file keeps these bytes up to the last place that looks like a mark.  Where there
is none, the table is as it was before the operation.
-/

namespace Luomi.Sdb.CutOff

open HashIndex Engine Recovery Replay History OpenFile Tally Operations Reopen Usage

section CutOff

variable {Obj : Type} {args : TableArgs Obj}

/-- A table in use, an operation on it, and some but not all of the bytes that the
operation appends. -/
structure CutOp (args : TableArgs Obj) where
  events : List (Event args)
  used : Used Obj
  run : runEvents args (newUsed args) events = some used
  newKeys : args.keyType = .auto -> KeysApart args (newUsed args) events
  op : Op args
  opNewKey : args.keyType = .auto -> TakesNewKey used.table op
  code : Int
  next : SdbTable Obj
  step : runOp args used.table op = some (code, next)
  size : Nat
  proper : used.table.file.length + size < next.file.length

namespace CutOp

variable (cut : CutOp args)

def file : Bytes := cut.next.file.take (cut.used.table.file.length + cut.size)

def tail : Bytes := (groupBytes args (opRecords cut.used.table cut.op)).take cut.size

/-- The records of the operation that opening finds whole, and how many bytes it
keeps behind them. -/
def survivors : List Record × Nat :=
  wholeRecords args (opRecords cut.used.table cut.op) (kept cut.tail).length

/-- Opening succeeds, gives the rows before the operation and the size of the
file. -/
def Restored : Prop :=
  ∃ opened, sdbOpenTable args cut.file = some opened ∧
    (∀ key, sdbGetRow opened key = sdbGetRow cut.used.table key) ∧
    opened.file.length = opened.size

/-- The surviving records change no row, and what stands behind them is shorter
than a head or makes room for a snapshot. -/
def Harmless : Prop :=
  (∀ key, cut.survivors.1.foldl (stepRows args) (sdbGetRow cut.used.table) key =
      sdbGetRow cut.used.table key) ∧
    (cut.survivors.2 < sizeofRowHead ∨
      numOfDels args (cut.used.groups.flatten ++ cut.survivors.1) > args.maxRows / 4)

theorem logged : Logged args cut.used.table cut.used.groups ∧
    TakesNewKey cut.used.table cut.op := by
  by_cases auto : args.keyType = .auto
  · exact ⟨runEvents_logged cut.events (newUsed_logged args) (cut.newKeys auto) cut.run,
      cut.opNewKey auto⟩
  · exact ⟨runEvents_logged cut.events (newUsed_logged args)
      (keysApart_of_notAuto auto cut.events (newUsed_logged args)) cut.run,
      takesNewKey_of_notAuto auto cut.used.table cut.op⟩

theorem appends : opRecords cut.used.table cut.op ≠ [] ∧
    Appends args cut.used.table (opRecords cut.used.table cut.op) cut.next := by
  obtain ⟨logged, newKey⟩ := cut.logged
  have proper := cut.proper
  rcases logged.runOp newKey cut.step with ⟨-, same⟩ | ⟨appends, -⟩
  · rw [same] at proper
    omega
  · refine ⟨fun refused => ?_, appends⟩
    have same := Option.some.inj ((runOp_refused refused).symm.trans cut.step)
    rw [<- (Prod.mk.inj same).2] at proper
    omega

theorem file_eq : cut.file = fileOf args cut.used.groups ++ cut.tail := by
  rw [file, cut.appends.2.file, List.take_length_add_append, tail, cut.logged.1.file]

theorem opens : ∃ table, Replayed args table (cut.used.groups.flatten ++ cut.survivors.1) ∧
    table.file = fileOf args cut.used.groups ++ kept cut.tail ∧
    table.size = (fileOf args cut.used.groups).length +
      (if cut.survivors.2 < sizeofRowHead then (kept cut.tail).length
        else (kept cut.tail).length - cut.survivors.2) ∧
    sdbOpenTable args cut.file = some (compacted args table
      (cut.used.groups.flatten ++ cut.survivors.1)) := by
  obtain ⟨some', appends⟩ := cut.appends
  rw [cut.file_eq]
  exact sdbOpenTable_cut cut.logged.1.recordable appends.recordable
    (groupBytes_startsRecord some' cut.size) (List.take_prefix _ _)

theorem restored_iff_harmless : cut.Restored ↔ cut.Harmless := by
  obtain ⟨table, replayed, file, size, opens⟩ := cut.opens
  have logged := cut.logged.1
  have before : sdbGetRow cut.used.table = rowsOf args cut.used.groups.flatten :=
    funext logged.holds.rows
  have rows : ∀ key, sdbGetRow table key =
      cut.survivors.1.foldl (stepRows args) (sdbGetRow cut.used.table) key := by
    intro key
    rw [replayed.rows, rowsOf_append, before]
  have left : cut.survivors.2 ≤ (kept cut.tail).length := wholeRecords_size _ _
  rw [Restored, Harmless, opens]
  by_cases many : numOfDels args (cut.used.groups.flatten ++ cut.survivors.1) > args.maxRows / 4
  · obtain ⟨snapLogged, snapRows, -, -, -⟩ := replayed.snapshot
    rw [compacted, if_pos many]
    constructor
    · rintro ⟨opened, same, sameRows, -⟩
      cases same
      exact ⟨fun key => by rw [<- rows, <- snapRows, sameRows], Or.inr many⟩
    · rintro ⟨sameRows, -⟩
      exact ⟨_, rfl, fun key => by rw [snapRows, rows, sameRows], snapLogged.holds.size⟩
  · have sizes : table.file.length = table.size ↔ cut.survivors.2 < sizeofRowHead := by
      have head : sizeofRowHead = 16 := rfl
      rw [file, size, List.length_append]
      split
      · rename_i short
        exact ⟨fun _ => short, fun _ => rfl⟩
      · rename_i long
        constructor
        · intro same
          omega
        · exact fun short => absurd short long
    rw [compacted, if_neg many]
    constructor
    · rintro ⟨opened, same, sameRows, sameSize⟩
      cases same
      exact ⟨fun key => by rw [<- rows, sameRows], Or.inl (sizes.mp sameSize)⟩
    · rintro ⟨sameRows, short⟩
      exact ⟨table, rfl, fun key => by rw [rows, sameRows], sizes.mpr (short.resolve_right many)⟩

end CutOp

end CutOff

/-- An insert of a row that ends with what looks like a mark. -/
def imitatingInsert : Op (plainArgs .uint32 uint32_indexed) :=
  .insert (.object ⟨[1, 0, 0, 0, 0xAF, 0xAA, 0xFF, 0xAF], rfl⟩)

theorem imitatingInsert_runs :
    (runOp (plainArgs .uint32 uint32_indexed) (newTable (plainArgs .uint32 uint32_indexed))
      imitatingInsert).isSome := by decide +kernel

def imitatingResult : Int × SdbTable PlainRow :=
  (runOp (plainArgs .uint32 uint32_indexed) (newTable (plainArgs .uint32 uint32_indexed))
    imitatingInsert).get imitatingInsert_runs

def imitatedCut : CutOp (plainArgs .uint32 uint32_indexed) where
  events := []
  used := newUsed _
  run := rfl
  newKeys := fun auto => KeyType.noConfusion auto
  op := imitatingInsert
  opNewKey := fun auto => KeyType.noConfusion auto
  code := imitatingResult.1
  next := imitatingResult.2
  step := (Option.some_get imitatingInsert_runs).symm
  size := 24
  proper := by decide +kernel

end Luomi.Sdb.CutOff
