import Luomi.Client.InsertBlocks
import Luomi.Client.InsertRows

/-!
# Every row in the message of its vgroup

A plan says, for each vgroup, which tables its message carries with which rows.
`RoutedBy` compares it with the statement and with the messages that are sent.
The messages are routed exactly when no two tables of the statement agree in the
low 32 bits of their uids and every key has a slot in its hash.
-/

namespace Luomi.Client.InsertPlan

open Luomi.KeyedGroups
open Luomi.Util.IntHash
open Luomi.Client.InsertRouting
open Luomi.Client.InsertBlocks
open Luomi.Client.InsertRows
open List (map_append map_cons mem_map mem_map_of_mem)
open Option (bind_eq_some_iff some.inj)

def maxSqlLen : Nat := 65380

/-- The clauses of a statement that parses: every table gets rows, each as long as
its table's rows are and written with three characters at least. -/
structure InsertStatement where
  clauses : List Clause
  values : ∀ clause ∈ clauses, clause.rows ≠ []
  sizes : ∀ clause ∈ clauses, ∀ row ∈ clause.rows, row.length = clause.table.rowSize
  text : (clauses.map fun clause => 3 * clause.rows.length).sum ≤ maxSqlLen

namespace InsertStatement

def tables (statement : InsertStatement) : List Table :=
  statement.clauses.map Clause.table

def rowsOf (statement : InsertStatement) (table : Table) : List Row :=
  (statement.clauses.filter (·.table = table)).flatMap Clause.rows

end InsertStatement

/-- A message carries the given tables of a vgroup.  It goes to the vnode of the
meter whose name it bears. -/
structure Delivers (vgid : BitVec 32) (entries : List (Table × List Row))
    (message : STableDataBlocks (List SShellSubmitBlock)) : Prop where
  destination : ∃ first, entries.head? = some first ∧ message.meterId = first.1.name
  vgroup : ∀ entry ∈ entries, entry.1.vgid = vgid
  numOfMeters : message.numOfMeters = entries.length
  blocks : List.Forall₂ (fun entry block => Carries entry.1 entry.2 block) entries message.pData

/-- Each vgroup has one message, each table one block, and each block the rows of
its table in order of time, less rows of equal time stamps. -/
structure RoutedBy (statement : InsertStatement)
    (plan : List (BitVec 32 × List (Table × List Row)))
    (messages : List (STableDataBlocks (List SShellSubmitBlock))) : Prop where
  delivered : List.Forall₂ (fun part message => Delivers part.1 part.2 message) plan messages
  vgroups : (plan.map Prod.fst).Nodup
  tables : ((plan.flatMap Prod.snd).map Prod.fst).Nodup
  named : ∀ table, table ∈ (plan.flatMap Prod.snd).map Prod.fst ↔ table ∈ statement.tables
  rows : ∀ entry ∈ plan.flatMap Prod.snd, Kept (statement.rowsOf entry.1) entry.2

def keyOf (table : Table) : BitVec 32 :=
  table.uid.truncate 32

structure Distinguished (statement : InsertStatement) : Prop where
  apart : ∀ left ∈ statement.tables, ∀ right ∈ statement.tables,
    keyOf left = keyOf right -> left = right
  tableSlots : ∀ table ∈ statement.tables, 0 ≤ taosHashInt 128 (keyOf table)
  vnodeSlots : ∀ table ∈ statement.tables, 0 ≤ taosHashInt 8 table.vgid

theorem truncate_signExtend (vgid : BitVec 32) : (vgid.signExtend 64).truncate 32 = vgid := by
  ext i bound
  rw [BitVec.truncate_eq_setWidth, BitVec.getElem_setWidth, BitVec.getLsbD_signExtend]
  simp [bound, Nat.lt_trans bound (by omega : 32 < 64)]

section Traces

variable {statement : InsertStatement}

def Signed (taken : List Clause) (dataBuf : STableDataBlocks SShellSubmitBlock) : Prop :=
  ∃ clause ∈ taken, dataBuf.pData.uid = clause.table.uid ∧
    dataBuf.vgid = clause.table.vgid.signExtend 64

theorem signed_groups {clauses : List Clause}
    {groups : List (BitVec 32 × STableDataBlocks SShellSubmitBlock)}
    (ran : gather tableKey tableStart fillBlock clauses = some groups) :
    Grouped tableKey (fun _ => Signed) clauses groups := by
  apply grouped_gather _ _ ran
  · intro clause _ dataBuf filled
    exact ⟨clause, by simp, fillBlock_signs filled⟩
  · intro clause _ taken dataBuf dataBuf' _ filled
    exact ⟨clause, by simp, fillBlock_signs filled⟩

def signature (dataBuf : STableDataBlocks SShellSubmitBlock) : BitVec 32 :=
  dataBuf.pData.uid.truncate 32

theorem signature_eq {clauses : List Clause}
    {groups : List (BitVec 32 × STableDataBlocks SShellSubmitBlock)}
    (signed : Grouped tableKey (fun _ => Signed) clauses groups) :
    (groups.map Prod.snd).map signature = groups.map Prod.fst := by
  rw [List.map_map]
  apply List.map_congr_left
  intro group member
  obtain ⟨clause, inGroup, uid, -⟩ := signed.holds group member
  have key := of_decide_eq_true (List.mem_filter.mp inGroup).2
  rw [Function.comp_apply, signature, uid]
  exact key

def Traced (taken : List (STableDataBlocks SShellSubmitBlock))
    (message : STableDataBlocks (List SShellSubmitBlock)) : Prop :=
  message.pData.map (fun block => (htobe64 block.uid).truncate 32) = taken.map signature

theorem appendBlock_traced {qsort : Qsort} {taken : List (STableDataBlocks SShellSubmitBlock)}
    {dataBuf : STableDataBlocks SShellSubmitBlock}
    {message message' : STableDataBlocks (List SShellSubmitBlock)} (traced : Traced taken message)
    (appended : appendBlock qsort message dataBuf = some message') :
    Traced (taken ++ [dataBuf]) message' := by
  rw [appendBlock] at appended
  obtain ⟨sorted, ran, result⟩ := bind_eq_some_iff.mp appended
  cases some.inj result
  have last : (htobe64 (networkBlock sorted).uid).truncate 32 = signature dataBuf := by
    rw [networkBlock, htobe64_htobe64, sortRemoveDuplicates_uid ran, signature]
  rw [Traced, map_append, traced, map_append]
  simp only [map_cons, List.map_nil, last]

section

variable {tables : List (STableDataBlocks SShellSubmitBlock)}
  {groups : List (BitVec 32 × STableDataBlocks (List SShellSubmitBlock))}

theorem traced_groups {qsort : Qsort} {tsInsertHeadSize : Nat}
    (ran : gather vnodeKey (vnodeStart tsInsertHeadSize) (appendBlock qsort) tables = some groups) :
    Grouped vnodeKey (fun _ => Traced) tables groups := by
  apply grouped_gather _ _ ran
  · intro dataBuf _ message appended
    have started : Traced [] (vnodeStart tsInsertHeadSize dataBuf) := rfl
    exact appendBlock_traced started appended
  · intro dataBuf _ taken message message' traced appended
    exact appendBlock_traced traced appended

theorem blockKeys_perm (traced : Grouped vnodeKey (fun _ => Traced) tables groups) :
    ((groups.map Prod.snd).flatMap fun message =>
      message.pData.map fun block => (htobe64 block.uid).truncate 32).Perm
      (tables.map signature) := by
  have parts : ((groups.map Prod.snd).flatMap fun message =>
      message.pData.map fun block => (htobe64 block.uid).truncate 32) =
      ((groups.map Prod.fst).flatMap fun k => tables.filter (vnodeKey · = k)).map signature := by
    rw [List.map_flatMap, List.flatMap_map, List.flatMap_map]
    apply List.flatMap_congr
    intro group member
    exact traced.holds group member
  rw [parts]
  apply List.Perm.map
  apply flatMap_filter_perm vnodeKey traced.nodup
  intro dataBuf member
  rw [traced.keys]
  exact mem_map_of_mem member

end

theorem planKeys_eq {plan : List (BitVec 32 × List (Table × List Row))}
    {messages : List (STableDataBlocks (List SShellSubmitBlock))}
    (delivered : List.Forall₂ (fun part message => Delivers part.1 part.2 message) plan messages) :
    ((plan.flatMap Prod.snd).map Prod.fst).map keyOf =
      messages.flatMap fun message =>
        message.pData.map fun block => (htobe64 block.uid).truncate 32 := by
  induction delivered with
  | nil => rfl
  | @cons part message plan messages here _ ih =>
    have blocks : (part.2.map Prod.fst).map keyOf =
        message.pData.map fun block => (htobe64 block.uid).truncate 32 := by
      have carried := here.blocks
      generalize part.2 = entries at carried ⊢
      generalize message.pData = sent at carried ⊢
      induction carried with
      | nil => rfl
      | cons carries _ ih =>
        rw [map_cons, map_cons, map_cons, ih, carries.uid]
        rfl
    rw [List.flatMap_cons, map_append, map_append, ih, blocks, List.flatMap_cons]

end Traces

section Necessity

variable {qsort : Qsort} {tsInsertHeadSize : Nat} {statement : InsertStatement}
variable {messages : List (STableDataBlocks (List SShellSubmitBlock))}

structure Ran (qsort : Qsort) (tsInsertHeadSize : Nat) (statement : InsertStatement)
    (messages : List (STableDataBlocks (List SShellSubmitBlock)))
    (tables : List (BitVec 32 × STableDataBlocks SShellSubmitBlock))
    (vnodes : List (BitVec 32 × STableDataBlocks (List SShellSubmitBlock))) : Prop where
  tableSlots : ∀ clause ∈ statement.clauses, 0 ≤ taosHashInt 128 (tableKey clause)
  vnodeSlots : ∀ dataBuf ∈ tables.map Prod.snd, 0 ≤ taosHashInt 8 (vnodeKey dataBuf)
  parsed : gather tableKey tableStart fillBlock statement.clauses = some tables
  merged : gather vnodeKey (vnodeStart tsInsertHeadSize) (appendBlock qsort)
    (tables.map Prod.snd) = some vnodes
  sent : messages = vnodes.map Prod.snd

theorem ran_of_messages
    (ran : insertMessages qsort tsInsertHeadSize statement.clauses = some messages) :
    ∃ tables vnodes, Ran qsort tsInsertHeadSize statement messages tables vnodes := by
  obtain ⟨tables, parsed, ran⟩ := bind_eq_some_iff.mp ran
  obtain ⟨vnodes, merged, ran⟩ := bind_eq_some_iff.mp ran
  cases some.inj ran
  have tableSlots := inside_of_parse parsed
  have vnodeSlots := inside_of_merge merged
  rcases parse_follows tableSlots with ⟨fails, -⟩ | ⟨blocks, groups, ranBlocks, gathered, refines⟩
  · rw [parsed] at fails
    cases fails
  · rw [parsed] at ranBlocks
    cases some.inj ranBlocks
    rw [refines.held] at merged vnodeSlots
    rcases merge_follows vnodeSlots with ⟨fails, -⟩ | ⟨blocks', groups', ran', gathered', refines'⟩
    · rw [merged] at fails
      cases fails
    · rw [merged] at ran'
      cases some.inj ran'
      exact ⟨groups, groups', tableSlots, vnodeSlots, gathered, gathered', refines'.held⟩

section

variable {tables : List (BitVec 32 × STableDataBlocks SShellSubmitBlock)}
  {vnodes : List (BitVec 32 × STableDataBlocks (List SShellSubmitBlock))}
  (ran : Ran qsort tsInsertHeadSize statement messages tables vnodes)

include ran

theorem messages_of_ran :
    insertMessages qsort tsInsertHeadSize statement.clauses = some messages := by
  rcases parse_follows ran.tableSlots with
    ⟨-, fails⟩ | ⟨blocks, groups, ranBlocks, gathered, refines⟩
  · rw [ran.parsed] at fails
    cases fails
  · rw [ran.parsed] at gathered
    cases some.inj gathered
    have vnodeSlots := ran.vnodeSlots
    rcases merge_follows vnodeSlots with
      ⟨-, fails⟩ | ⟨blocks', groups', ranBlocks', gathered', refines'⟩
    · rw [ran.merged] at fails
      cases fails
    · rw [ran.merged] at gathered'
      cases some.inj gathered'
      rw [insertMessages]
      refine bind_eq_some_iff.mpr ⟨blocks, ranBlocks, bind_eq_some_iff.mpr ⟨blocks', ?_, ?_⟩⟩
      · rw [refines.held]
        exact ranBlocks'
      · rw [ran.sent, <- refines'.held]

theorem apart_of_routed {plan : List (BitVec 32 × List (Table × List Row))}
    (routed : RoutedBy statement plan messages) :
    ∀ left ∈ statement.tables, ∀ right ∈ statement.tables,
      keyOf left = keyOf right -> left = right := by
  have signed := signed_groups ran.parsed
  have keys : (((plan.flatMap Prod.snd).map Prod.fst).map keyOf).Nodup := by
    rw [planKeys_eq routed.delivered, ran.sent,
      (blockKeys_perm (traced_groups ran.merged)).nodup_iff, signature_eq signed]
    exact signed.nodup
  intro left leftNamed right rightNamed same
  exact List.inj_on_of_nodup_map keys ((routed.named left).mpr leftNamed)
    ((routed.named right).mpr rightNamed) same

end

theorem own_block {clauses : List Clause}
    {groups : List (BitVec 32 × STableDataBlocks SShellSubmitBlock)}
    (signed : Grouped tableKey (fun _ => Signed) clauses groups)
    (apart : ∀ left ∈ clauses.map Clause.table, ∀ right ∈ clauses.map Clause.table,
      keyOf left = keyOf right -> left = right)
    {table : Table} (named : table ∈ clauses.map Clause.table) :
    ∃ dataBuf ∈ groups.map Prod.snd, vnodeKey dataBuf = table.vgid := by
  obtain ⟨clause, inClauses, rfl⟩ := mem_map.mp named
  have known : tableKey clause ∈ groups.map Prod.fst := by
    rw [signed.keys]
    exact mem_map_of_mem inClauses
  obtain ⟨group, member, key⟩ := mem_map.mp known
  obtain ⟨signer, inGroup, -, vgid⟩ := signed.holds group member
  obtain ⟨signerNamed, sameKey⟩ := List.mem_filter.mp inGroup
  have same : signer.table = clause.table := by
    apply apart _ (mem_map_of_mem signerNamed) _ named
    exact (of_decide_eq_true sameKey).trans key
  refine ⟨group.2, mem_map_of_mem member, ?_⟩
  rw [vnodeKey, vgid, truncate_signExtend, same]

theorem distinguished_of_routed {plan : List (BitVec 32 × List (Table × List Row))}
    (ran : insertMessages qsort tsInsertHeadSize statement.clauses = some messages)
    (routed : RoutedBy statement plan messages) : Distinguished statement := by
  obtain ⟨tables, vnodes, ran⟩ := ran_of_messages ran
  have apart := apart_of_routed ran routed
  refine ⟨apart, ?_, ?_⟩
  · intro table named
    obtain ⟨clause, inClauses, rfl⟩ := mem_map.mp named
    exact ran.tableSlots clause inClauses
  · intro table named
    obtain ⟨dataBuf, member, vgroup⟩ := own_block (signed_groups ran.parsed) apart named
    rw [<- vgroup]
    exact ran.vnodeSlots dataBuf member

end Necessity

end Luomi.Client.InsertPlan
