import Luomi.Client.InsertPlan

/-!
# A distinguished statement is routed

With the tables told apart, every block holds the rows of one table, and so does
every part of a message.
-/

namespace Luomi.Client.InsertDelivery

open KeyedGroups InsertRouting InsertBlocks InsertRows InsertPlan
open List (flatMap_cons map_append map_cons mem_append mem_filter mem_map mem_map_of_mem
  mem_singleton)

variable {statement : InsertStatement}

theorem rowsOf_sizes {table : Table} :
    ∀ row ∈ statement.rowsOf table, row.length = table.rowSize := by
  intro row member
  obtain ⟨clause, inFilter, inRows⟩ := List.mem_flatMap.mp member
  obtain ⟨inClauses, same⟩ := mem_filter.mp inFilter
  rw [<- of_decide_eq_true same]
  exact statement.sizes clause inClauses row inRows

theorem rowsOf_ne_nil {table : Table} (named : table ∈ statement.tables) :
    statement.rowsOf table ≠ [] := by
  obtain ⟨clause, inClauses, same⟩ := mem_map.mp named
  obtain ⟨row, inRows⟩ := List.exists_mem_of_ne_nil _ (statement.values clause inClauses)
  apply List.ne_nil_of_mem
  apply List.mem_flatMap.mpr
  exact ⟨clause, mem_filter.mpr ⟨inClauses, decide_eq_true same⟩, inRows⟩

theorem length_flatMap_filter_le (p : Clause -> Bool) (clauses : List Clause) :
    3 * ((clauses.filter p).flatMap Clause.rows).length ≤
      (clauses.map fun clause => 3 * clause.rows.length).sum := by
  induction clauses with
  | nil => simp
  | cons clause clauses ih =>
    rw [List.filter_cons, map_cons, List.sum_cons]
    split
    · rw [flatMap_cons, List.length_append]
      omega
    · omega

theorem filtered_fits (statement : InsertStatement) (p : Clause -> Bool) :
    ((statement.clauses.filter p).flatMap Clause.rows).length < 2 ^ 15 := by
  have bound := length_flatMap_filter_le p statement.clauses
  have text := statement.text
  rw [maxSqlLen] at text
  omega

theorem clause_fits {clause : Clause} (member : clause ∈ statement.clauses) :
    clause.rows.length < 2 ^ 15 := by
  have part : 3 * clause.rows.length ≤
      (statement.clauses.map fun clause => 3 * clause.rows.length).sum :=
    List.le_sum_of_mem (mem_map.mpr ⟨clause, member, rfl⟩)
  have text := statement.text
  rw [maxSqlLen] at text
  omega

def OneTable (statement : InsertStatement) (k : BitVec 32) (taken : List Clause)
    (dataBuf : STableDataBlocks SShellSubmitBlock) : Prop :=
  ∃ table ∈ statement.tables, keyOf table = k ∧ (∀ clause ∈ taken, clause.table = table) ∧
    Holds table (taken.flatMap Clause.rows) dataBuf

theorem parse_groups (distinguished : Distinguished statement) :
    ∃ groups, gather tableKey tableStart fillBlock statement.clauses = some groups ∧
      Grouped tableKey (OneTable statement) statement.clauses groups := by
  apply exists_gather
  · intro clause member
    obtain ⟨dataBuf, filled, holds⟩ := fillBlock_holds (open_created clause.table)
      (statement.values clause member) (clause_fits member)
    refine ⟨dataBuf, filled, clause.table, mem_map_of_mem member, rfl, by simp, ?_⟩
    rw [List.flatMap_singleton]
    exact holds
  · rintro clause member taken dataBuf ⟨table, named, key, one, holds⟩
    have same : clause.table = table :=
      distinguished.apart _ (mem_map_of_mem member) _ named key.symm
    subst same
    obtain ⟨dataBuf', filled, holds'⟩ := fillBlock_holds holds.open
      (statement.values clause member) (clause_fits member)
    refine ⟨dataBuf', filled, clause.table, named, key, ?_, ?_⟩
    · intro other inTaken
      rcases mem_append.mp inTaken with earlier | last
      · exact one other earlier
      · rw [mem_singleton.mp last]
    · rw [List.flatMap_append, List.flatMap_singleton]
      exact holds'

theorem table_of_group {groups : List (BitVec 32 × STableDataBlocks SShellSubmitBlock)}
    (grouped : Grouped tableKey (OneTable statement) statement.clauses groups)
    {group : BitVec 32 × STableDataBlocks SShellSubmitBlock} (member : group ∈ groups) :
    ∃ table ∈ statement.tables, keyOf table = group.1 ∧
      Holds table (statement.rowsOf table) group.2 := by
  obtain ⟨table, named, key, one, holds⟩ := grouped.holds group member
  have filters : statement.clauses.filter (tableKey · = group.1) =
      statement.clauses.filter (·.table = table) := by
    apply List.filter_congr
    intro clause inClauses
    by_cases sameKey : tableKey clause = group.1
    · have same := one clause (mem_filter.mpr ⟨inClauses, decide_eq_true sameKey⟩)
      simp [sameKey, same]
    · have other : clause.table ≠ table := by
        intro same
        apply sameKey
        rw [<- key, <- same]
        rfl
      simp [sameKey, other]
  rw [filters] at holds
  exact ⟨table, named, key, holds⟩

structure Part (statement : InsertStatement) (k : BitVec 32)
    (taken : List (STableDataBlocks SShellSubmitBlock))
    (message : STableDataBlocks (List SShellSubmitBlock))
    (entries : List (Table × List Row)) : Prop where
  delivers : Delivers k entries message
  keys : (entries.map Prod.fst).map keyOf = taken.map signature
  named : ∀ entry ∈ entries, entry.1 ∈ statement.tables
  rows : ∀ entry ∈ entries, Kept (statement.rowsOf entry.1) entry.2

def Complete (statement : InsertStatement)
    (dataBuf : STableDataBlocks SShellSubmitBlock) : Prop :=
  ∃ table ∈ statement.tables, Holds table (statement.rowsOf table) dataBuf

theorem appendBlock_part {qsort : Qsort} {k : BitVec 32}
    {taken : List (STableDataBlocks SShellSubmitBlock)}
    {dataBuf : STableDataBlocks SShellSubmitBlock}
    {message : STableDataBlocks (List SShellSubmitBlock)} {entries : List (Table × List Row)}
    (complete : Complete statement dataBuf) (key : vnodeKey dataBuf = k)
    (destination : ∃ first, (entries.head? = some first ∨
      entries = [] ∧ first.1.name = dataBuf.meterId) ∧ message.meterId = first.1.name)
    (vgroup : ∀ entry ∈ entries, entry.1.vgid = k)
    (numOfMeters : message.numOfMeters = entries.length)
    (blocks : List.Forall₂ (fun entry block => Carries entry.1 entry.2 block) entries message.pData)
    (keys : (entries.map Prod.fst).map keyOf = taken.map signature)
    (named : ∀ entry ∈ entries, entry.1 ∈ statement.tables)
    (rows : ∀ entry ∈ entries, Kept (statement.rowsOf entry.1) entry.2) :
    ∃ message', appendBlock qsort message dataBuf = some message' ∧
      ∃ entries', Part statement k (taken ++ [dataBuf]) message' entries' := by
  obtain ⟨table, tableNamed, holds⟩ := complete
  obtain ⟨sorted, kept, ran, keeps, carries⟩ := networkBlock_carries holds
    (filtered_fits statement _) rowsOf_sizes (rowsOf_ne_nil tableNamed)
  have tableVgid : table.vgid = k := by
    rw [<- key, vnodeKey, holds.vgid, truncate_signExtend]
  refine ⟨_, by rw [appendBlock, ran]; rfl, entries ++ [(table, kept)], ?_, ?_, ?_, ?_⟩
  · refine ⟨?_, ?_, ?_, ?_⟩
    · obtain ⟨first, found | ⟨nothing, name⟩, meterId⟩ := destination
      · exact ⟨first, by rw [List.head?_append, found]; rfl, meterId⟩
      · refine ⟨(table, kept), by rw [nothing]; rfl, ?_⟩
        exact meterId.trans (name.trans holds.meterId)
    · intro entry member
      rcases mem_append.mp member with earlier | last
      · exact vgroup entry earlier
      · rw [mem_singleton.mp last]
        exact tableVgid
    · simp [numOfMeters]
    · exact List.rel_append blocks (List.Forall₂.cons carries List.Forall₂.nil)
  · rw [map_append, map_append, keys, map_append]
    simp [signature, keyOf, holds.uid]
  · intro entry member
    rcases mem_append.mp member with earlier | last
    · exact named entry earlier
    · rw [mem_singleton.mp last]
      exact tableNamed
  · intro entry member
    rcases mem_append.mp member with earlier | last
    · exact rows entry earlier
    · rw [mem_singleton.mp last]
      exact keeps

theorem merge_groups {qsort : Qsort} {tsInsertHeadSize : Nat}
    {tables : List (STableDataBlocks SShellSubmitBlock)}
    (complete : ∀ dataBuf ∈ tables, Complete statement dataBuf) :
    ∃ groups, gather vnodeKey (vnodeStart tsInsertHeadSize) (appendBlock qsort) tables =
        some groups ∧
      Grouped vnodeKey (fun k taken message => ∃ entries, Part statement k taken message entries)
        tables groups := by
  apply exists_gather
  · intro dataBuf member
    obtain ⟨table, named, holds⟩ := complete dataBuf member
    have nothing : List.Forall₂ (fun (entry : Table × List Row) block =>
        Carries entry.1 entry.2 block) [] (vnodeStart tsInsertHeadSize dataBuf).pData :=
      List.Forall₂.nil
    have first : ∃ message',
        appendBlock qsort (vnodeStart tsInsertHeadSize dataBuf) dataBuf = some message' ∧
          ∃ entries, Part statement (vnodeKey dataBuf) ([] ++ [dataBuf]) message' entries := by
      apply appendBlock_part (complete dataBuf member) rfl _ _ rfl nothing rfl _ _
      · exact ⟨(table, []), .inr ⟨rfl, holds.meterId.symm⟩, holds.meterId⟩
      · simp
      · simp
      · simp
    exact first
  · rintro dataBuf member taken message ⟨entries, part⟩
    obtain ⟨first, found, meterId⟩ := part.delivers.destination
    exact appendBlock_part (complete dataBuf member) rfl ⟨first, .inl found, meterId⟩
      part.delivers.vgroup part.delivers.numOfMeters part.delivers.blocks part.keys part.named
      part.rows

theorem exists_forall₂ {α β : Type} {R : α -> β -> Prop} {list : List α}
    (related : ∀ a ∈ list, ∃ b, R a b) : ∃ list', List.Forall₂ R list list' := by
  induction list with
  | nil => exact ⟨[], List.Forall₂.nil⟩
  | cons a list ih =>
    obtain ⟨b, first⟩ := related a (by simp)
    obtain ⟨list', rest⟩ := ih fun other member => related other (List.mem_cons_of_mem _ member)
    exact ⟨b :: list', List.Forall₂.cons first rest⟩

abbrev Planned (statement : InsertStatement)
    (blocks : List (STableDataBlocks SShellSubmitBlock))
    (group : BitVec 32 × STableDataBlocks (List SShellSubmitBlock))
    (part : BitVec 32 × List (Table × List Row)) : Prop :=
  part.1 = group.1 ∧
    Part statement group.1 (blocks.filter (vnodeKey · = group.1)) group.2 part.2

section Plan

variable {blocks : List (STableDataBlocks SShellSubmitBlock)}
variable {groups : List (BitVec 32 × STableDataBlocks (List SShellSubmitBlock))}
variable {plan : List (BitVec 32 × List (Table × List Row))}

section

variable (planned : List.Forall₂ (Planned statement blocks) groups plan)
include planned

theorem planned_delivers : List.Forall₂ (fun part message => Delivers part.1 part.2 message) plan
      (groups.map Prod.snd) := by
  induction planned with
  | nil => exact List.Forall₂.nil
  | cons here _ ih =>
    apply List.Forall₂.cons _ ih
    rw [here.1]
    exact here.2.delivers

theorem planned_keys : plan.map Prod.fst = groups.map Prod.fst := by
  induction planned with
  | nil => rfl
  | cons here _ ih => rw [map_cons, map_cons, here.1, ih]

theorem planned_signatures : ((plan.flatMap Prod.snd).map Prod.fst).map keyOf =
      ((groups.map Prod.fst).flatMap fun k => blocks.filter (vnodeKey · = k)).map signature := by
  induction planned with
  | nil => rfl
  | cons here _ ih =>
    rw [flatMap_cons, map_append, map_append, ih, here.2.keys, map_cons, flatMap_cons, map_append]

theorem planned_entries : ∀ entry ∈ plan.flatMap Prod.snd,
      entry.1 ∈ statement.tables ∧ Kept (statement.rowsOf entry.1) entry.2 := by
  induction planned with
  | nil =>
    intro entry member
    simp at member
  | cons here _ ih =>
    intro entry member
    rw [flatMap_cons] at member
    rcases mem_append.mp member with first | later
    · exact ⟨here.2.named entry first, here.2.rows entry first⟩
    · exact ih entry later

end

end Plan

theorem routed_of_distinguished (qsort : Qsort) (tsInsertHeadSize : Nat)
    (distinguished : Distinguished statement) :
    ∃ messages plan, insertMessages qsort tsInsertHeadSize statement.clauses = some messages ∧
      RoutedBy statement plan messages := by
  obtain ⟨tables, parsed, oneTable⟩ := parse_groups distinguished
  have complete : ∀ dataBuf ∈ tables.map Prod.snd, Complete statement dataBuf := by
    intro dataBuf member
    obtain ⟨group, inTables, rfl⟩ := mem_map.mp member
    obtain ⟨table, named, -, holds⟩ := table_of_group oneTable inTables
    exact ⟨table, named, holds⟩
  obtain ⟨vnodes, merged, parts⟩ := @merge_groups _ qsort tsInsertHeadSize _ complete
  have chosen : ∃ plan, List.Forall₂ (Planned statement (tables.map Prod.snd)) vnodes plan := by
    apply exists_forall₂
    intro group member
    obtain ⟨entries, part⟩ := parts.holds group member
    exact ⟨(group.1, entries), rfl, part⟩
  obtain ⟨plan, planned⟩ := chosen
  have signatures : (tables.map Prod.snd).map signature = tables.map Prod.fst := by
    rw [List.map_map]
    apply List.map_congr_left
    intro group member
    obtain ⟨table, -, key, holds⟩ := table_of_group oneTable member
    rw [Function.comp_apply, signature, holds.uid, <- key]
    rfl
  have covered : ∀ dataBuf ∈ tables.map Prod.snd, vnodeKey dataBuf ∈ vnodes.map Prod.fst := by
    intro dataBuf member
    rw [parts.keys]
    exact mem_map_of_mem member
  have keys : (((plan.flatMap Prod.snd).map Prod.fst).map keyOf).Perm (tables.map Prod.fst) := by
    rw [planned_signatures planned, <- signatures]
    exact (flatMap_filter_perm vnodeKey parts.nodup covered).map _
  have entries := planned_entries planned
  have ran : Ran qsort tsInsertHeadSize statement (vnodes.map Prod.snd) tables vnodes := by
    refine ⟨?_, ?_, parsed, merged, rfl⟩
    · intro clause member
      exact distinguished.tableSlots _ (mem_map_of_mem member)
    · intro dataBuf member
      obtain ⟨table, named, holds⟩ := complete dataBuf member
      rw [vnodeKey, holds.vgid, truncate_signExtend]
      exact distinguished.vnodeSlots table named
  refine ⟨vnodes.map Prod.snd, plan, messages_of_ran ran, planned_delivers planned, ?_, ?_, ?_, ?_⟩
  · rw [planned_keys planned]
    exact parts.nodup
  · apply List.Nodup.of_map keyOf
    exact keys.nodup_iff.mpr oneTable.nodup
  · intro table
    constructor
    · intro member
      obtain ⟨entry, inPlan, rfl⟩ := mem_map.mp member
      exact (entries entry inPlan).1
    · intro named
      obtain ⟨clause, inClauses, sameTable⟩ := mem_map.mp named
      have known : keyOf table ∈ ((plan.flatMap Prod.snd).map Prod.fst).map keyOf := by
        rw [keys.mem_iff, oneTable.keys, <- sameTable]
        exact mem_map.mpr ⟨clause, inClauses, rfl⟩
      obtain ⟨other, inPlan, sameKey⟩ := mem_map.mp known
      obtain ⟨entry, inEntries, rfl⟩ := mem_map.mp inPlan
      rw [<- distinguished.apart _ (entries entry inEntries).1 _ named sameKey]
      exact inPlan
  · intro entry inPlan
    exact (entries entry inPlan).2

/-- The messages carry the statement's rows as they should exactly when the hash
tells its tables and vgroups apart. -/
theorem routed_iff (qsort : Qsort) (tsInsertHeadSize : Nat) (statement : InsertStatement) :
    (∃ messages plan, insertMessages qsort tsInsertHeadSize statement.clauses = some messages ∧
      RoutedBy statement plan messages) ↔ Distinguished statement := by
  constructor
  · rintro ⟨messages, plan, ran, routed⟩
    exact distinguished_of_routed ran routed
  · exact routed_of_distinguished qsort tsInsertHeadSize

theorem tsKey_trans (a b c : Row) (first : decide (tsKey a ≤ tsKey b) = true)
    (second : decide (tsKey b ≤ tsKey c) = true) : decide (tsKey a ≤ tsKey c) = true := by
  simp only [decide_eq_true_eq] at first second ⊢
  exact first.trans second

/-- A merge sort is a `qsort`. -/
def mergeQsort : Qsort where
  sort := fun rows => rows.mergeSort fun left right => decide (tsKey left ≤ tsKey right)
  perm := fun rows => List.mergeSort_perm rows _
  sorted := fun rows => by
    have sorted := List.pairwise_mergeSort tsKey_trans
      (fun left right => by simp [Int.le_total]) rows
    exact sorted.imp fun le => of_decide_eq_true le

/-- Meter 1 of vgroup 2 and meter 1 of vgroup 3, created at the same version. -/
def collidingTable (vgid : BitVec 32) (name : String) : Table :=
  { name := name
    sid := 1
    sversion := 0
    uid := (vgid.zeroExtend 64 <<< 40) + 0x10005
    vgid := vgid
    rowSize := 8 }

def collidingStatement : InsertStatement where
  clauses :=
    [ { table := collidingTable 2 "acct.db.left", rows := [[1, 0, 0, 0, 0, 0, 0, 0]] },
      { table := collidingTable 3 "acct.db.right", rows := [[2, 0, 0, 0, 0, 0, 0, 0]] } ]
  values := by simp
  sizes := by simp [collidingTable]
  text := by decide

theorem rows_misrouted :
    ¬ ∃ messages plan, insertMessages mergeQsort 0 collidingStatement.clauses = some messages ∧
      RoutedBy collidingStatement plan messages := by
  rintro ⟨messages, plan, ran, routed⟩
  have apart := (distinguished_of_routed ran routed).apart
  have same := apart (collidingTable 2 "acct.db.left")
    (by simp [collidingStatement, InsertStatement.tables])
    (collidingTable 3 "acct.db.right")
    (by simp [collidingStatement, InsertStatement.tables]) (by decide)
  have vgroups := congrArg Table.vgid same
  revert vgroups
  decide

end Luomi.Client.InsertDelivery
