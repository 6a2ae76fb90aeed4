import Luomi.Sdb.Usage

/-!
# Auto keys

With auto keys an insert takes the successor of the largest key there has been,
as long as the counter does not wrap.  An opening counts the inserts in the file
instead; behind a snapshot that is the number of rows, which can be less than a
key in use.
-/

namespace Luomi.Sdb.AutoKeys

open LittleEndian HashIndex Engine Recovery Replay History Tally Operations Reopen Usage

section AutoKeys

variable {Obj : Type} {args : TableArgs Obj}

/-- An insert finds a counter that does not wrap, and an opening finds no key above
the number of inserts in the file, which is counted in 32 bits. -/
def CounterAhead (args : TableArgs Obj) (used : Used Obj) : Event args -> Prop
  | .op (.insert _) => used.table.autoIndex.toNat + 1 < 2 ^ 32
  | .op _ => True
  | .reopen => ∀ entry ∈ used.table.index,
      leValue entry.key ≤ numOfInserts args used.groups.flatten % 2 ^ 32

def AlwaysAhead (args : TableArgs Obj) : Used Obj -> List (Event args) -> Prop
  | _, [] => True
  | used, event :: events => CounterAhead args used event ∧
      ∀ next, stepEvent args used event = some next -> AlwaysAhead args next events

def Counted (table : SdbTable Obj) : Prop :=
  ∀ key ∈ table.index.map Entry.key, leValue key ≤ table.autoIndex.toNat

variable {table next : SdbTable Obj} {rows : Rows Obj}

theorem insertedKey (auto : args.keyType = .auto) (table : SdbTable Obj) (row : RowArg args) :
    objKey args (insertedObj table row) = leBytes 4 (table.autoIndex + 1).toNat := by
  rw [insertedObj, if_pos auto, nextAutoIndex, if_pos auto]
  exact args.appTool.autoKey auto _ _

theorem leValue_insertedKey (auto : args.keyType = .auto)
    (noWrap : table.autoIndex.toNat + 1 < 2 ^ 32) (row : RowArg args) :
    leValue (objKey args (insertedObj table row)) = table.autoIndex.toNat + 1 := by
  have sum : (table.autoIndex + 1).toNat = table.autoIndex.toNat + 1 := by
    rw [UInt32.toNat_add]
    exact Nat.mod_eq_of_lt noWrap
  rw [insertedKey auto, sum]
  exact leValue_leBytes_of_lt noWrap

theorem Counted.takesNewKey (counted : Counted table) (auto : args.keyType = .auto)
    (noWrap : table.autoIndex.toNat + 1 < 2 ^ 32) (row : RowArg args) :
    TakesNewKey table (.insert row) := by
  intro _
  rw [sdbGetRow_eq_none]
  intro member
  have bound := counted _ member
  rw [leValue_insertedKey auto noWrap] at bound
  omega

theorem batchRows_keys (objs : List Obj) : ∀ {table next : SdbTable Obj},
    batchRows args table objs = some next ->
      next.index.map Entry.key = table.index.map Entry.key ∧ next.autoIndex = table.autoIndex := by
  induction objs with
  | nil =>
    intro table next run
    cases run
    exact ⟨rfl, rfl⟩
  | cons obj later ih =>
    intro table next run
    unfold batchRows at run
    split at run
    · cases run
    · obtain ⟨id, -, run⟩ := Option.bind_eq_some_iff.mp run
      obtain ⟨keys, autoIndex⟩ := ih run
      rw [keys, autoIndex]
      exact ⟨keys_setIndex fun entry => rfl, rfl⟩

theorem runOp_keys (holds : Holds args table rows) {op : Op args} {code : Int}
    (run : runOp args table op = some (code, next)) : (∃ row, op = .insert row ∧
      next.index.map Entry.key = objKey args (insertedObj table row) :: table.index.map Entry.key ∧
      next.autoIndex = nextAutoIndex args table) ∨
      next.index.map Entry.key ⊆ table.index.map Entry.key ∧ next.autoIndex = table.autoIndex := by
  cases op with
  | insert row =>
    rcases sdbInsertRow_cases holds.size run with ⟨-, rfl⟩ | ⟨-, -, nextEq, -⟩
    · exact Or.inr ⟨List.Subset.refl _, rfl⟩
    · rw [nextEq]
      exact Or.inl ⟨row, rfl, rfl, rfl⟩
  | delete row =>
    right
    rcases sdbDeleteRow_cases holds.size run with ⟨-, rfl⟩ | ⟨-, -, nextEq, -⟩
    · exact ⟨List.Subset.refl _, rfl⟩
    · rw [nextEq]
      exact ⟨((sdbDeleteIndex_sublist _ _).map _).subset, rfl⟩
  | update row =>
    right
    rcases sdbUpdateRow_cases holds.size run with ⟨-, rfl⟩ | ⟨-, -, nextEq, -⟩
    · exact ⟨List.Subset.refl _, rfl⟩
    · rw [nextEq]
      refine ⟨fun key member => ?_, rfl⟩
      simp only at member
      rw [keys_setIndex] at member
      · exact member
      · exact fun entry => rfl
  | batchUpdate first later =>
    right
    change sdbBatchUpdateRow args table first later = some (code, next) at run
    unfold sdbBatchUpdateRow at run
    split at run
    · cases run
      exact ⟨List.Subset.refl _, rfl⟩
    · obtain ⟨middle, walked, run⟩ := Option.bind_eq_some_iff.mp run
      obtain ⟨last, commit, run⟩ := Option.bind_eq_some_iff.mp run
      cases run
      obtain ⟨keys, autoIndex⟩ := batchRows_keys _ walked
      unfold sdbFinishCommit at commit
      split at commit
      · cases commit
        exact ⟨keys ▸ List.Subset.refl _, autoIndex⟩
      · cases commit

variable {used last : Used Obj}
  {event : Event args}

theorem newKey_of_ahead (auto : args.keyType = .auto) (counted : Counted used.table) (ahead : CounterAhead args used event) : NewKey args used event := by
  cases event with
  | reopen => trivial
  | op op =>
    cases op with
    | insert row => exact counted.takesNewKey auto ahead row
    | delete row => trivial
    | update row => trivial
    | batchUpdate first later => trivial

theorem counted_step (auto : args.keyType = .auto) (logged : Logged args used.table used.groups)
    (counted : Counted used.table) (ahead : CounterAhead args used event)
    (step : stepEvent args used event = some last) : Counted last.table := by
  have newKey := newKey_of_ahead auto counted ahead
  cases event with
  | op op =>
    obtain ⟨⟨code, run⟩, -⟩ := stepEvent_op logged newKey step
    rcases runOp_keys logged.holds run with ⟨row, rfl, keys, autoIndex⟩ | ⟨keys, autoIndex⟩
    · have noWrap : used.table.autoIndex.toNat + 1 < 2 ^ 32 := ahead
      have counter : last.table.autoIndex.toNat = used.table.autoIndex.toNat + 1 := by
        rw [autoIndex, nextAutoIndex, if_pos auto, UInt32.toNat_add]
        exact Nat.mod_eq_of_lt noWrap
      intro key member
      rw [keys] at member
      rw [counter]
      rcases List.mem_cons.mp member with rfl | old
      · exact le_of_eq (leValue_insertedKey auto noWrap row)
      · exact Nat.le_succ_of_le (counted key old)
    · intro key member
      rw [autoIndex]
      exact counted key (keys member)
  | reopen =>
    obtain ⟨-, rows, autoIndex⟩ := stepEvent_reopen logged step
    have counter : last.table.autoIndex.toNat = numOfInserts args used.groups.flatten % 2 ^ 32 := by
      rw [autoIndex auto]
      exact UInt32.toNat_ofNat'
    intro key member
    have live : key ∈ used.table.index.map Entry.key := by
      by_contra missing
      rw [<- sdbGetRow_eq_none, <- rows, sdbGetRow_eq_none] at missing
      exact missing member
    obtain ⟨entry, entryMember, rfl⟩ := List.mem_map.mp live
    rw [counter]
    exact ahead entry entryMember

theorem keysApart_of_ahead (auto : args.keyType = .auto) (events : List (Event args)) :
    ∀ {used : Used Obj}, Logged args used.table used.groups -> Counted used.table ->
      AlwaysAhead args used events -> KeysApart args used events := by
  induction events with
  | nil => exact fun logged _ _ => logged.holds.sound.distinct
  | cons event events ih =>
    intro used logged counted ahead
    have newKey := newKey_of_ahead auto counted ahead.1
    refine ⟨logged.holds.sound.distinct, newKey, fun next step => ?_⟩
    exact ih (stepEvent_logged logged newKey step)
      (counted_step auto logged counted ahead.1 step) (ahead.2 next step)

structure AheadRun (args : TableArgs Obj) where
  auto : args.keyType = .auto
  events : List (Event args)
  ahead : AlwaysAhead args (newUsed args) events

theorem newKey_after {events : List (Event args)} (apart : KeysApart args used (events ++ [event]))
    (run : runEvents args used events = some last) : NewKey args last event := by
  induction events generalizing used with
  | nil =>
    cases run
    exact apart.2.1
  | cons first events ih =>
    obtain ⟨next, step, rest⟩ := Option.bind_eq_some_iff.mp run
    exact ih (apart.2.2 next step) rest

end AutoKeys

abbrev autoArgs : TableArgs PlainRow := plainArgs .auto (by decide)

def unkeyedRow : RowArg autoArgs := .object ⟨List.replicate 8 0, autoArgs.versionSize⟩

/-- Three rows, the first of which is deleted, opened twice. -/
def forgottenEvents : List (Event autoArgs) :=
  [.op (.insert unkeyedRow), .op (.insert unkeyedRow), .op (.insert unkeyedRow),
    .op (.delete ⟨[1, 0, 0, 0, 0, 0, 0, 0], le_of_eq rfl⟩), .reopen, .reopen]

end Luomi.Sdb.AutoKeys
