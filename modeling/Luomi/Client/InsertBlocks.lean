import Luomi.Base.KeyedGroups
import Luomi.Client.InsertRouting

/-!
# Blocks found through the integer hash are groups by key

`doParseInsertStatement` and the loop of `tscMergeTableDataBlocks` take one item
after the other to the block of its key.  As long as every key has a slot in the
hash they do what `KeyedGroups.gather` does with the low 32 bits as the key; with
a key without a slot they fail.
-/

namespace Luomi.Client.InsertBlocks

open KeyedGroups Util.IntHash InsertRouting
open List (foldlM_cons map_append map_cons)
open Option (bind_eq_bind bind_eq_some_iff bind_some some.inj)

variable {Data ι : Type}

def throughHash (blocks : SDataBlockList Data) (id : BitVec 64) (startOffset rowSize : Nat)
    (tableId : String) (cleared : Data)
    (absorb : STableDataBlocks Data -> Option (STableDataBlocks Data)) :
    Option (SDataBlockList Data) := do
  let (blocks, place) <- tscGetDataBlockFromList blocks id startOffset rowSize tableId cleared
  let dataBuf <- blocks.pData[place]?
  let dataBuf <- absorb dataBuf
  some { blocks with pData := blocks.pData.set place dataBuf }

structure Refines (maxSessions : Nat) (blocks : SDataBlockList Data)
    (groups : List (BitVec 32 × STableDataBlocks Data)) : Prop where
  sessions : blocks.hash.maxSessions = maxSessions
  held : blocks.pData = groups.map Prod.snd
  nodup : (groups.map Prod.fst).Nodup
  numbers : Numbers blocks.hash (groups.map Prod.fst)

theorem refines_init (Data : Type) (maxSessions : Nat) : Refines maxSessions
      ({ hash := taosInitIntHash Nat maxSessions, pData := [] } : SDataBlockList Data) [] where
  sessions := rfl
  held := rfl
  nodup := List.nodup_nil
  numbers := numbers_init maxSessions

def Follows {S T : Type} (R : S -> T -> Prop) (left : Option S) (right : Option T) : Prop :=
  (left = none ∧ right = none) ∨ ∃ s t, left = some s ∧ right = some t ∧ R s t

section Step

variable {maxSessions : Nat} {blocks : SDataBlockList Data}
variable {groups : List (BitVec 32 × STableDataBlocks Data)}
variable {id : BitVec 64} {startOffset rowSize : Nat} {tableId : String} {cleared : Data}
variable {key : ι -> BitVec 32} {start : ι -> STableDataBlocks Data}
variable {absorb : STableDataBlocks Data -> ι -> Option (STableDataBlocks Data)} {item : ι}

theorem throughHash_new (refines : Refines maxSessions blocks groups)
    (keyIs : key item = id.truncate 32)
    (startIs : start item = tscCreateDataBlockEx rowSize startOffset tableId cleared)
    (inside : 0 ≤ taosHashInt maxSessions (key item))
    (absent : key item ∉ groups.map Prod.fst) :
    Follows (Refines maxSessions)
      (throughHash blocks id startOffset rowSize tableId cleared fun dataBuf =>
        absorb dataBuf item)
      (place key start absorb groups item) := by
  have inside' : 0 ≤ taosHashInt blocks.hash.maxSessions (key item) := by
    rw [refines.sessions]
    exact inside
  have looked := refines.numbers (key item) inside'
  rw [if_neg absent, keyIs] at looked
  obtain ⟨hash, added, sessions, numbers⟩ := numbers_add refines.numbers inside' absent
  have places : blocks.pData.length = (groups.map Prod.fst).length := by
    rw [refines.held, List.length_map, List.length_map]
  rw [<- places, keyIs] at added
  have got : tscGetDataBlockFromList blocks id startOffset rowSize tableId cleared =
      some ({ hash := hash, pData := blocks.pData ++ [start item] }, blocks.pData.length) := by
    simp only [tscGetDataBlockFromList, looked, added, startIs, bind_eq_bind, bind_some]
  rw [place_absent absent, throughHash, got]
  simp only [bind_eq_bind, bind_some, List.getElem?_concat_length]
  cases absorbed : absorb (start item) item with
  | none => exact .inl ⟨rfl, rfl⟩
  | some group =>
    refine .inr ⟨_, _, rfl, rfl, ?_, ?_, ?_, ?_⟩
    · exact sessions.trans refines.sessions
    · simp [refines.held]
    · rw [map_append, List.nodup_append]
      refine ⟨refines.nodup, by simp, ?_⟩
      intro k member k' member' same
      simp only [map_cons, List.map_nil, List.mem_singleton] at member'
      apply absent
      rw [<- member', <- same]
      exact member
    · rw [map_append]
      exact numbers

theorem throughHash_known {before after : List (BitVec 32 × STableDataBlocks Data)}
    {group : STableDataBlocks Data}
    (refines : Refines maxSessions blocks (before ++ (key item, group) :: after))
    (keyIs : key item = id.truncate 32)
    (inside : 0 ≤ taosHashInt maxSessions (key item))
    (fresh : key item ∉ before.map Prod.fst) :
    Follows (Refines maxSessions)
      (throughHash blocks id startOffset rowSize tableId cleared fun dataBuf =>
        absorb dataBuf item)
      (place key start absorb (before ++ (key item, group) :: after) item) := by
  have inside' : 0 ≤ taosHashInt blocks.hash.maxSessions (key item) := by
    rw [refines.sessions]
    exact inside
  have looked := refines.numbers (key item) inside'
  have numbered : ((before ++ (key item, group) :: after).map Prod.fst).idxOf (key item) =
      before.length := by
    rw [map_append, List.idxOf_append_of_notMem fresh]
    simp
  rw [if_pos (by simp), numbered, keyIs] at looked
  have got : tscGetDataBlockFromList blocks id startOffset rowSize tableId cleared =
      some (blocks, before.length) := by
    simp only [tscGetDataBlockFromList, looked, bind_eq_bind, bind_some]
  have held : blocks.pData = before.map Prod.snd ++ group :: after.map Prod.snd := by
    rw [refines.held, map_append, map_cons]
  have stored : blocks.pData[before.length]? = some group := by
    rw [held]
    simp
  rw [place_present fresh, throughHash, got]
  simp only [bind_eq_bind, bind_some, stored]
  cases absorbed : absorb group item with
  | none => exact .inl ⟨rfl, rfl⟩
  | some group' =>
    have nodup := refines.nodup
    have numbers := refines.numbers
    rw [map_append, map_cons] at nodup numbers
    refine .inr ⟨_, _, rfl, rfl, refines.sessions, ?_, ?_, ?_⟩
    · simp [held]
    · rw [map_append, map_cons]
      exact nodup
    · rw [map_append, map_cons]
      exact numbers

theorem throughHash_follows (refines : Refines maxSessions blocks groups)
    (keyIs : key item = id.truncate 32)
    (startIs : start item = tscCreateDataBlockEx rowSize startOffset tableId cleared)
    (inside : 0 ≤ taosHashInt maxSessions (key item)) :
    Follows (Refines maxSessions)
      (throughHash blocks id startOffset rowSize tableId cleared fun dataBuf =>
        absorb dataBuf item)
      (place key start absorb groups item) := by
  rcases absent_or_split groups (key item) with absent | ⟨before, group, after, split, fresh⟩
  · exact throughHash_new refines keyIs startIs inside absent
  · subst split
    exact throughHash_known refines keyIs inside fresh

theorem inside_of_throughHash {blocks' : SDataBlockList Data}
    {fill : STableDataBlocks Data -> Option (STableDataBlocks Data)}
    (ran : throughHash blocks id startOffset rowSize tableId cleared fill = some blocks') :
    0 ≤ taosHashInt blocks.hash.maxSessions (id.truncate 32) ∧
      blocks'.hash.maxSessions = blocks.hash.maxSessions := by
  rw [throughHash] at ran
  obtain ⟨⟨middle, place⟩, got, ran⟩ := bind_eq_some_iff.mp ran
  obtain ⟨dataBuf, -, ran⟩ := bind_eq_some_iff.mp ran
  obtain ⟨filled, -, result⟩ := bind_eq_some_iff.mp ran
  cases some.inj result
  have inside : 0 ≤ taosHashInt blocks.hash.maxSessions (id.truncate 32) := by
    by_contra outside
    simp only [tscGetDataBlockFromList, get_none (not_le.mp outside), bind_eq_bind,
      Option.bind_none] at got
    cases got
  refine ⟨inside, ?_⟩
  rw [tscGetDataBlockFromList] at got
  obtain ⟨found, -, got⟩ := bind_eq_some_iff.mp got
  cases found with
  | some place =>
    cases some.inj got
    rfl
  | none =>
    obtain ⟨hash, added, got⟩ := bind_eq_some_iff.mp got
    cases some.inj got
    rw [taosAddIntHash, if_neg (not_lt.mpr inside)] at added
    cases some.inj added
    rfl

end Step

section Runs

variable {S T : Type} {R : S -> T -> Prop} {stepS : S -> ι -> Option S} {stepT : T -> ι -> Option T}
  {items : List ι}

theorem follows_foldlM
    (steps : ∀ item ∈ items, ∀ s t, R s t -> Follows R (stepS s item) (stepT t item))
    {s : S} {t : T} (related : R s t) :
    Follows R (items.foldlM stepS s) (items.foldlM stepT t) := by
  induction items generalizing s t with
  | nil => exact .inr ⟨s, t, rfl, rfl, related⟩
  | cons item items ih =>
    rw [foldlM_cons, foldlM_cons]
    rcases steps item (by simp) s t related with ⟨fails, fails'⟩ | ⟨s', t', ran, ran', next⟩
    · left
      rw [fails, fails']
      exact ⟨rfl, rfl⟩
    · rw [ran, ran']
      apply ih _ next
      intro other member
      exact steps other (List.mem_cons_of_mem _ member)

theorem step_of_foldlM {P : S -> Prop}
    (keeps : ∀ item ∈ items, ∀ s s', P s -> stepS s item = some s' -> P s')
    {s s' : S} (initially : P s) (ran : items.foldlM stepS s = some s') :
    ∀ item ∈ items, ∃ before after, P before ∧ stepS before item = some after := by
  induction items generalizing s with
  | nil =>
    intro item member
    simp at member
  | cons first items ih =>
    rw [foldlM_cons] at ran
    obtain ⟨next, stepped, ran⟩ := bind_eq_some_iff.mp ran
    intro item member
    rcases List.mem_cons.mp member with rfl | later
    · exact ⟨s, next, initially, stepped⟩
    · apply ih _ (keeps first (by simp) s next initially stepped) ran item later
      intro other member
      exact keeps other (List.mem_cons_of_mem _ member)

end Runs

def tableKey (clause : Clause) : BitVec 32 :=
  clause.table.uid.truncate 32

def tableStart (clause : Clause) : STableDataBlocks SShellSubmitBlock :=
  tscCreateDataBlockEx clause.table.rowSize submitBlockSize clause.table.name clearedBlock

def vnodeKey (dataBuf : STableDataBlocks SShellSubmitBlock) : BitVec 32 :=
  dataBuf.vgid.truncate 32

def vnodeStart (tsInsertHeadSize : Nat) (dataBuf : STableDataBlocks SShellSubmitBlock) :
    STableDataBlocks (List SShellSubmitBlock) :=
  tscCreateDataBlockEx 0 tsInsertHeadSize dataBuf.meterId []

variable {clauses : List Clause}

theorem parse_follows (inside : ∀ clause ∈ clauses, 0 ≤ taosHashInt 128 (tableKey clause)) :
    Follows (Refines 128) (tsParseInsertStatement clauses)
      (gather tableKey tableStart fillBlock clauses) := by
  apply follows_foldlM _ (refines_init _ 128)
  intro clause member blocks groups refines
  exact throughHash_follows refines rfl rfl (inside clause member)

variable {tables : List (STableDataBlocks SShellSubmitBlock)} {tsInsertHeadSize : Nat}
  {qsort : Qsort}

theorem merge_follows (inside : ∀ dataBuf ∈ tables, 0 ≤ taosHashInt 8 (vnodeKey dataBuf)) :
    Follows (Refines 8) (tscMergeTableDataBlocks qsort tsInsertHeadSize tables)
      (gather vnodeKey (vnodeStart tsInsertHeadSize) (appendBlock qsort) tables) := by
  apply follows_foldlM _ (refines_init _ 8)
  intro dataBuf member blocks groups refines
  exact throughHash_follows refines rfl rfl (inside dataBuf member)

theorem inside_of_parse {blocks : SDataBlockList SShellSubmitBlock}
    (ran : tsParseInsertStatement clauses = some blocks) :
    ∀ clause ∈ clauses, 0 ≤ taosHashInt 128 (tableKey clause) := by
  have keeps : ∀ clause ∈ clauses, ∀ s s' : SDataBlockList SShellSubmitBlock,
      s.hash.maxSessions = 128 -> doParseInsertStatement s clause = some s' ->
        s'.hash.maxSessions = 128 := by
    intro clause _ s s' sessions ran
    exact (inside_of_throughHash ran).2.trans sessions
  intro clause member
  obtain ⟨before, after, sessions, stepped⟩ := step_of_foldlM keeps rfl ran clause member
  have inside := (inside_of_throughHash stepped).1
  rw [sessions] at inside
  exact inside

theorem inside_of_merge {blocks : SDataBlockList (List SShellSubmitBlock)}
    (ran : tscMergeTableDataBlocks qsort tsInsertHeadSize tables = some blocks) :
    ∀ dataBuf ∈ tables, 0 ≤ taosHashInt 8 (vnodeKey dataBuf) := by
  have keeps : ∀ dataBuf ∈ tables, ∀ s s' : SDataBlockList (List SShellSubmitBlock),
      s.hash.maxSessions = 8 -> mergeTableBlock qsort tsInsertHeadSize s dataBuf = some s' ->
        s'.hash.maxSessions = 8 := by
    intro dataBuf _ s s' sessions ran
    exact (inside_of_throughHash ran).2.trans sessions
  intro dataBuf member
  obtain ⟨before, after, sessions, stepped⟩ := step_of_foldlM keeps rfl ran dataBuf member
  have inside := (inside_of_throughHash stepped).1
  rw [sessions] at inside
  exact inside

end Luomi.Client.InsertBlocks
