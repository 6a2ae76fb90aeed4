import Luomi.Sdb.Reopen

/-!
# Tables in use

A table is used, closed and opened again, in any order.  Beside it stand the
groups of records its file is made of: an operation adds a group, and an opening
that saves a snapshot replaces them all.
-/

namespace Luomi.Sdb.Usage

open HashIndex Engine Recovery Replay History OpenFile Tally Operations Snapshot Reopen
open Function (update update_apply)

section Usage

variable {Obj : Type} (args : TableArgs Obj)

structure Used (Obj : Type) where
  table : SdbTable Obj
  groups : List (List Record)

inductive Event (args : TableArgs Obj) where
  | op (op : Op args)
  | reopen

def openedGroups (groups : List (List Record)) (opened : SdbTable Obj) : List (List Record) :=
  if numOfDels args groups.flatten > args.maxRows / 4 then snapshotGroups args opened.index
  else groups

def newUsed : Used Obj := ⟨newTable args, []⟩

def stepEvent (used : Used Obj) : Event args -> Option (Used Obj)
  | .op op => do
      let result <- runOp args used.table op
      return ⟨result.2, if opRecords used.table op = [] then used.groups
        else used.groups ++ [opRecords used.table op]⟩
  | .reopen => do
      let opened <- reopen args used.table
      return ⟨opened, openedGroups args used.groups opened⟩

def runEvents : Used Obj -> List (Event args) -> Option (Used Obj)
  | used, [] => some used
  | used, event :: events => do
      let next <- stepEvent args used event
      runEvents next events

def NewKey (used : Used Obj) : Event args -> Prop
  | .op op => TakesNewKey used.table op
  | .reopen => True

/-- Along a run the keys in the table are distinct and every insert takes a new
one. -/
def KeysApart : Used Obj -> List (Event args) -> Prop
  | used, [] => (used.table.index.map Entry.key).Nodup
  | used, event :: events =>
    (used.table.index.map Entry.key).Nodup ∧ NewKey args used event ∧
      ∀ next, stepEvent args used event = some next -> KeysApart next events

variable {args} {used next : Used Obj}

theorem newUsed_logged (args : TableArgs Obj) :
    Logged args (newUsed args).table (newUsed args).groups :=
  newTable_logged args

section

variable (logged : Logged args used.table used.groups)
include logged

theorem stepEvent_op {op : Op args}
    (newKey : TakesNewKey used.table op) (step : stepEvent args used (.op op) = some next) :
    (∃ code, runOp args used.table op = some (code, next.table)) ∧
      Logged args next.table next.groups := by
  obtain ⟨⟨code, table⟩, run, result⟩ := Option.bind_eq_some_iff.mp step
  cases result
  refine ⟨⟨code, run⟩, ?_⟩
  by_cases refused : opRecords used.table op = []
  · have same := Option.some.inj ((runOp_refused refused).symm.trans run)
    cases same
    simp only [if_pos refused]
    exact logged
  · simp only [if_neg refused]
    exact ((logged.runOp newKey run).resolve_left fun both => refused both.1).2

theorem stepEvent_reopen (step : stepEvent args used .reopen = some next) :
    Logged args next.table next.groups ∧
      (∀ key, sdbGetRow next.table key = sdbGetRow used.table key) ∧
      (args.keyType = .auto -> next.table.autoIndex =
        UInt32.ofNat (numOfInserts args used.groups.flatten)) := by
  obtain ⟨opened, run, result⟩ := Option.bind_eq_some_iff.mp step
  cases result
  obtain ⟨replayed, replay, file, size, opens⟩ :=
    @sdbOpenTable_whole _ args used.groups logged.recordable
  rw [reopen, logged.file, opens] at run
  cases run
  have rows : ∀ key, sdbGetRow replayed key = sdbGetRow used.table key := fun key =>
    (replay.rows key).trans (logged.holds.rows key).symm
  rw [openedGroups, compacted]
  by_cases many : numOfDels args used.groups.flatten > args.maxRows / 4
  · obtain ⟨snapLogged, snapRows, -, -, snapIndex⟩ := replay.snapshot
    simp only [if_pos many]
    exact ⟨snapLogged, fun key => (snapRows key).trans (rows key),
      fun auto => snapIndex.trans (replay.autoIndex auto)⟩
  · simp only [if_neg many]
    exact ⟨replay.logged logged.recordable file size, rows, replay.autoIndex⟩

theorem stepEvent_logged {event : Event args}
    (newKey : NewKey args used event) (step : stepEvent args used event = some next) :
    Logged args next.table next.groups := by
  cases event with
  | op op => exact (stepEvent_op logged newKey step).2
  | reopen => exact (stepEvent_reopen logged step).1

end

theorem runEvents_logged (events : List (Event args)) : ∀ {used last : Used Obj},
    Logged args used.table used.groups -> KeysApart args used events ->
      runEvents args used events = some last -> Logged args last.table last.groups := by
  induction events with
  | nil =>
    intro used last logged _ run
    cases run
    exact logged
  | cons event events ih =>
    intro used last logged apart run
    obtain ⟨next, step, rest⟩ := Option.bind_eq_some_iff.mp run
    exact ih (stepEvent_logged logged apart.2.1 step) (apart.2.2 next step) rest

theorem keysApart_of_notAuto (notAuto : args.keyType ≠ .auto) (events : List (Event args)) :
    ∀ {used : Used Obj}, Logged args used.table used.groups -> KeysApart args used events := by
  induction events with
  | nil => exact fun logged => logged.holds.sound.distinct
  | cons event events ih =>
    intro used logged
    have newKey : NewKey args used event := by
      cases event with
      | op op => exact takesNewKey_of_notAuto notAuto used.table op
      | reopen => trivial
    exact ⟨logged.holds.sound.distinct, newKey,
      fun next step => ih (stepEvent_logged logged newKey step)⟩

end Usage

section Dictionary

variable {Obj : Type} (args : TableArgs Obj)

/-- What a table is for: one row for each key, and an operation on a key that is not there, or an
insert of one that is, changes nothing. -/
def opRows (rows : Rows Obj) : Op args -> Rows Obj
  | .insert row =>
    if (rows (objKey args row.obj)).isSome then rows
    else update rows (objKey args row.obj) (some row.obj)
  | .delete row => update rows (keyAt args.keyType row.bytes) none
  | .update row =>
    if (rows (objKey args row.obj)).isNone then rows
    else update rows (objKey args row.obj) (some row.obj)
  | .batchUpdate first later =>
    if (rows (objKey args first)).isNone then rows
    else (first :: later).foldl (fun rows obj => update rows (objKey args obj) (some obj)) rows

def eventRows (rows : Rows Obj) : Event args -> Rows Obj
  | .op op => opRows args rows op
  | .reopen => rows

def dictionary (events : List (Event args)) : Rows Obj :=
  events.foldl (eventRows args) fun _ => none

structure Answers (table : SdbTable Obj) (rows : Rows Obj) : Prop where
  found : sdbGetRow table = rows
  count : ∃ keys : List Bytes, keys.Nodup ∧ sdbGetNumOfRows table = keys.length ∧
    ∀ key, key ∈ keys ↔ rows key ≠ none

variable {args} {table : SdbTable Obj} {rows : Rows Obj}

theorem answers_of_logged {groups : List (List Record)} (logged : Logged args table groups)
    (same : sdbGetRow table = rows) : Answers table rows := by
  have sound := logged.holds.sound
  subst same
  refine ⟨rfl, _, sound.distinct, by rw [List.length_map]; exact sound.count, fun key => ?_⟩
  rw [ne_eq, sdbGetRow_eq_none, not_not]

theorem stepRows_encoded {id : Int} (nonneg : 0 ≤ id) (obj : Obj) (rows : Rows Obj) :
    stepRows args rows ⟨id + 1, args.appTool.encode obj⟩ =
      update rows (objKey args obj) (some obj) := by
  funext key
  rw [stepRows_of_pos (by omega), encoded_key, args.appTool.decode_encode, update_apply]

theorem batchRecords_rows (objs : List Obj) : ∀ {id : Int} {rows : Rows Obj}, 0 ≤ id ->
    (batchRecords args id objs).foldl (stepRows args) rows =
      objs.foldl (fun rows obj => update rows (objKey args obj) (some obj)) rows := by
  induction objs with
  | nil => exact fun _ => rfl
  | cons obj later ih =>
    intro id rows nonneg
    rw [batchRecords, List.foldl_cons, List.foldl_cons, stepRows_encoded nonneg]
    exact ih (by omega)

theorem opRecords_rows (notAuto : args.keyType ≠ .auto) (holds : Holds args table rows)
    (op : Op args) : (opRecords table op).foldl (stepRows args) rows = opRows args rows op := by
  have nonneg := holds.sound.idNonneg
  have absent (key : Bytes) : (sdbGetIndex table.index key).isNone ↔ (rows key).isNone := by
    rw [sdbGetIndex_isNone, holds.rows, Option.isNone_iff_eq_none]
  cases op with
  | insert row =>
    have refused : InsertRefused table row ↔ (rows (objKey args row.obj)).isSome := by
      rw [InsertRefused, holds.rows, RowArg.objKey_obj row]
      exact and_iff_right (Or.inl notAuto)
    have own : insertedObj table row = row.obj := if_neg notAuto
    simp only [opRecords, opRows, refused, own]
    split
    · rfl
    · exact stepRows_encoded nonneg ..
  | delete row =>
    simp only [opRecords, opRows, absent]
    split
    · rename_i none'
      exact (Function.update_eq_self_iff.mpr (Option.isNone_iff_eq_none.mp none').symm).symm
    · funext key
      rw [List.foldl_cons, List.foldl_nil, stepRows_of_neg (by omega), (take_keySize row.keyed).2,
        update_apply]
  | update row =>
    simp only [opRecords, opRows, absent, RowArg.objKey_obj row]
    split
    · rfl
    · funext key
      rw [List.foldl_cons, List.foldl_nil, stepRows_of_pos (by omega), RowArg.decode_bytes,
        update_apply]
  | batchUpdate first later =>
    simp only [opRecords, opRows, absent]
    split
    · rfl
    · exact batchRecords_rows _ nonneg

theorem stepEvent_rows (notAuto : args.keyType ≠ .auto) {used next : Used Obj}
    (logged : Logged args used.table used.groups) {event : Event args}
    (step : stepEvent args used event = some next) :
    sdbGetRow next.table = eventRows args (sdbGetRow used.table) event := by
  funext key
  cases event with
  | reopen => exact (stepEvent_reopen logged step).2.1 key
  | op op =>
    have newKey := takesNewKey_of_notAuto notAuto used.table op
    have holds : Holds args used.table (sdbGetRow used.table) :=
      ⟨logged.holds.sound, fun _ => rfl, logged.holds.size⟩
    obtain ⟨⟨code, run⟩, -⟩ := stepEvent_op logged newKey step
    rw [eventRows, <- opRecords_rows notAuto holds]
    rcases runOp_appends holds newKey run with ⟨nothing, same⟩ | ⟨-, after⟩
    · rw [nothing, same]
      rfl
    · exact after.rows key

theorem runEvents_rows (notAuto : args.keyType ≠ .auto) (events : List (Event args)) :
    ∀ {used last : Used Obj}, Logged args used.table used.groups ->
      runEvents args used events = some last -> Logged args last.table last.groups ∧
        sdbGetRow last.table = events.foldl (eventRows args) (sdbGetRow used.table) := by
  induction events with
  | nil =>
    intro used last logged run
    cases run
    exact ⟨logged, rfl⟩
  | cons event events ih =>
    intro used last logged run
    obtain ⟨next, step, rest⟩ := Option.bind_eq_some_iff.mp run
    have apart := keysApart_of_notAuto notAuto [event] logged
    obtain ⟨lastLogged, rows⟩ := ih (stepEvent_logged logged apart.2.1 step) rest
    exact ⟨lastLogged, by rw [rows, stepEvent_rows notAuto logged step, List.foldl_cons]⟩

end Dictionary

abbrev keyedArgs : TableArgs PlainRow := plainArgs .uint32 uint32_indexed

def replacedRow (last : UInt8) : PlainRow := ⟨[1, 0, 0, 0, 0, 0, 0, last], rfl⟩

def replacedEvents : List (Event keyedArgs) :=
  [.op (.insert (.object (replacedRow 0))), .reopen, .op (.update (.object (replacedRow 7)))]

end Luomi.Sdb.Usage
