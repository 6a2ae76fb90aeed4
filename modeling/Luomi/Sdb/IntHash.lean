import Luomi.Base.HashChains
import Luomi.Sdb.HashIndex

/-!
# The chains of the integer index (`hashint.c`)

The nodes are the blocks of a pool of `maxSessions` blocks.  `sdbAddIntHash` does not check
whether there is one left.
-/

namespace Luomi.Sdb.IntHash

open Buckets HashChains HashIndex LinkedPath
open Function (update update_of_ne update_self)
open List (mem_append mem_cons mem_cons_self nodup_append)

/-- `SHashObj` with the fields of every `SLongHash`; the free blocks of the pool are given in
their order. -/
structure SHashObj where
  maxSessions : Nat
  chains : ChainTable
  key : Nat -> UInt32
  hash : Nat -> Nat
  data : Nat -> Bytes
  freeList : List Nat

def sdbOpenIntHash (maxSessions : Nat) : Option SHashObj :=
  if maxSessions ≤ 1 then none
  else some
    { maxSessions := maxSessions
      chains := ⟨fun _ => none, fun _ => none, fun _ => none⟩
      key := fun _ => 0
      hash := fun _ => 0
      data := fun _ => []
      freeList := List.range maxSessions }

def slotOf (pObj : SHashObj) (key : UInt32) : Nat := sdbHashLong pObj.maxSessions key.toNat

/-- `none` when `taosMemPoolMalloc` returns NULL, to which the key is then written. -/
def sdbAddIntHash (pObj : SHashObj) (key : UInt32) (data : Bytes) : Option SHashObj :=
  let hash := slotOf pObj key
  match pObj.freeList with
  | [] => none
  | pNode :: freeList => some
    { pObj with
      chains := pObj.chains.push hash pNode
      key := update pObj.key pNode key
      hash := update pObj.hash pNode hash
      data := update pObj.data pNode data
      freeList := freeList }

/-- The loop that looks for a key; `none` when it does not end within the fuel. -/
def findNode (pObj : SHashObj) (key : UInt32) : Nat -> Option Nat -> Option (Option Nat)
  | 0, _ => none
  | _ + 1, none => some none
  | fuel + 1, some pNode =>
    if pObj.key pNode = key then some (some pNode)
    else findNode pObj key fuel (pObj.chains.next pNode)

def nodeOf (pObj : SHashObj) (key : UInt32) : Option (Option Nat) :=
  findNode pObj key (pObj.maxSessions + 1) (pObj.chains.head (slotOf pObj key))

def sdbDeleteIntHash (pObj : SHashObj) (key : UInt32) : Option SHashObj :=
  match nodeOf pObj key with
  | none => none
  | some none => some pObj
  | some (some pNode) => some
    { pObj with
      chains := pObj.chains.unlink (slotOf pObj key) pNode
      freeList := pObj.freeList ++ [pNode] }

def sdbGetIntHashData (pObj : SHashObj) (key : UInt32) : Option (Option Bytes) :=
  (nodeOf pObj key).map fun pNode => pNode.map pObj.data

def sdbFetchIntHashData (pObj : SHashObj) (ptr : Option Nat) : Option Nat :=
  let hash := match ptr with
    | some pNode => pObj.hash pNode + 1
    | none => 0
  match ptr.bind pObj.chains.next with
  | some pNode => some pNode
  | none => (List.range' hash (pObj.maxSessions - hash)).findSome? pObj.chains.head

/-- Repeated calls until one returns NULL. -/
def fetchAll (pObj : SHashObj) : Nat -> Option Nat -> Option (List Nat)
  | 0, _ => none
  | fuel + 1, ptr =>
    match sdbFetchIntHashData pObj ptr with
    | none => some []
    | some pNode => (fetchAll pObj fuel (some pNode)).map (pNode :: ·)

/-- What `sdbInsertRow` and `sdbDeleteRow` do with the index of a table. -/
inductive SdbEvent where
  | insertRow (key : UInt32) (data : Bytes)
  | deleteRow (key : UInt32)

def sdbStep (pObj : SHashObj) : SdbEvent -> Option SHashObj
  | .insertRow key data =>
    match sdbGetIntHashData pObj key with
    | none => none
    | some (some _) => some pObj
    | some none => sdbAddIntHash pObj key data
  | .deleteRow key =>
    match sdbGetIntHashData pObj key with
    | none => none
    | some none => some pObj
    | some (some _) => sdbDeleteIntHash pObj key

abbrev Row := UInt32 × Bytes

def rowsAfter (rows : List Row) : SdbEvent -> List Row
  | .insertRow key data => if key ∈ rows.map Prod.fst then rows else (key, data) :: rows
  | .deleteRow key => rows.filter fun row => row.1 ≠ key

def rowOf (pObj : SHashObj) (pNode : Nat) : Row := (pObj.key pNode, pObj.data pNode)

structure Answers (pObj : SHashObj) (rows : List Row) : Prop where
  unique : (rows.map Prod.fst).Nodup
  get : ∀ key, ∃ found, sdbGetIntHashData pObj key = some found ∧
    ∀ data, found = some data ↔ (key, data) ∈ rows
  fetch : ∃ nodes, fetchAll pObj (rows.length + 1) none = some nodes ∧
    (nodes.map (rowOf pObj)).Perm rows

/-- The index answers as the map does in all states, and no step stops at NULL. -/
def AnswersRun (pObj : SHashObj) (rows : List Row) : List SdbEvent -> Prop
  | [] => Answers pObj rows
  | event :: rest => Answers pObj rows ∧
    ∃ next, sdbStep pObj event = some next ∧ AnswersRun next (rowsAfter rows event) rest

def Room (maxSessions : Nat) (rows : List Row) : SdbEvent -> Prop
  | .insertRow key _ => key ∉ rows.map Prod.fst -> rows.length < maxSessions
  | .deleteRow _ => True

def RoomRun (maxSessions : Nat) (rows : List Row) : List SdbEvent -> Prop
  | [] => True
  | event :: rest =>
    Room maxSessions rows event ∧ RoomRun maxSessions (rowsAfter rows event) rest

structure Holds (pObj : SHashObj) (lists : Nat -> List Nat) (rows : List Row) : Prop where
  linked : Linked pObj.chains pObj.maxSessions lists
  some_ : 0 < pObj.maxSessions
  pool : (pObj.freeList ++ elements pObj.maxSessions lists).Perm (List.range pObj.maxSessions)
  own : ∀ hash < pObj.maxSessions, ∀ pNode ∈ lists hash, pObj.hash pNode = hash ∧
    slotOf pObj (pObj.key pNode) = hash
  held : ((elements pObj.maxSessions lists).map (rowOf pObj)).Perm rows
  unique : (rows.map Prod.fst).Nodup

variable {pObj next : SHashObj} {lists : Nat -> List Nat} {rows : List Row} {key : UInt32}
  {hash : Nat}
  {nodes : List Nat}

theorem findNode_path : ∀ {place : Ref Nat} {fuel : Nat},
    Path (pObj.chains.forward hash) pObj.chains.backward place nodes -> nodes.length < fuel ->
      findNode pObj key fuel (pObj.chains.forward hash place) =
        some (nodes.find? fun pNode => pObj.key pNode = key) := by
  induction nodes with
  | nil =>
    intro place fuel path enough
    obtain ⟨fuel, rfl⟩ := Nat.exists_eq_succ_of_ne_zero (Nat.ne_of_gt enough)
    rw [show pObj.chains.forward hash place = none from path]
    rfl
  | cons pNode rest ih =>
    intro place fuel path enough
    obtain ⟨fuel, rfl⟩ := Nat.exists_eq_succ_of_ne_zero (Nat.ne_of_gt (Nat.zero_lt_of_lt enough))
    rw [path.1, findNode, List.find?_cons]
    by_cases same : pObj.key pNode = key
    · simp [same]
    · have later : findNode pObj key fuel (pObj.chains.next pNode) = _ :=
        ih path.2.2 (Nat.lt_of_succ_lt_succ enough)
      simp [same, later]

def nodesFrom (pObj : SHashObj) (lists : Nat -> List Nat) (hash : Nat) : List Nat :=
  (List.range' hash (pObj.maxSessions - hash)).flatMap lists

variable {pNode : Nat} {more : List Nat}

theorem nodesFrom_cons {count : Nat} : (List.range' hash count).flatMap lists = pNode :: more ->
      ∃ slot rest, slot < hash + count ∧ lists slot = pNode :: rest ∧
        more = rest ++ (List.range' (slot + 1) (hash + count - (slot + 1))).flatMap lists := by
  induction count generalizing hash with
  | zero => exact fun none => nomatch none
  | succ count ih =>
    intro isNodes
    rw [List.range'_succ, List.flatMap_cons] at isNodes
    cases listed : lists hash with
    | nil =>
      rw [listed, List.nil_append] at isNodes
      obtain ⟨slot, rest, inside, isSlot, isMore⟩ := ih isNodes
      rw [Nat.succ_add_eq_add_succ] at inside isMore
      exact ⟨slot, rest, inside, isSlot, isMore⟩
    | cons first rest =>
      rw [listed, List.cons_append] at isNodes
      cases isNodes
      refine ⟨hash, rest, Nat.lt_add_of_pos_right (Nat.succ_pos _), listed, ?_⟩
      rw [show hash + (count + 1) - (hash + 1) = count by omega]

/-- The nodes that the calls from a pointer on return. -/
inductive Behind (pObj : SHashObj) (lists : Nat -> List Nat) : Option Nat -> List Nat -> Prop
  | start : Behind pObj lists none (nodesFrom pObj lists 0)
  | node {hash pNode : Nat} {front rest : List Nat} (inside : hash < pObj.maxSessions)
    (listed : lists hash = front ++ pNode :: rest) :
    Behind pObj lists (some pNode) (rest ++ nodesFrom pObj lists (hash + 1))

variable {ptr : Option Nat}

theorem Behind.later (behind : Behind pObj lists ptr (pNode :: more)) :
    Behind pObj lists (some pNode) more := by
  have first : ∀ hash ≤ pObj.maxSessions, nodesFrom pObj lists hash = pNode :: more ->
      Behind pObj lists (some pNode) more := by
    intro hash inside isNodes
    obtain ⟨slot, rest, below, listed, rfl⟩ := nodesFrom_cons isNodes
    rw [Nat.add_sub_cancel' inside] at below ⊢
    exact .node below (listed.trans (List.nil_append _).symm)
  generalize isNodes : pNode :: more = nodes at behind
  cases behind with
  | start => exact first 0 (Nat.zero_le _) isNodes.symm
  | @node hash other front rest inside listed =>
    cases rest with
    | nil => exact first (hash + 1) inside isNodes.symm
    | cons later rest =>
      cases isNodes
      exact .node inside (listed.trans (List.append_cons _ _ _))

section

variable (holds : Holds pObj lists rows)
include holds

theorem Holds.length_le (inside : hash < pObj.maxSessions) :
    (lists hash).length ≤ pObj.maxSessions := by
  have total := holds.pool.length_eq
  have split := (@elements_split _ _ lists hash inside).length_eq
  simp only [List.length_append, List.length_range] at total split
  omega

theorem Holds.slot_lt (key : UInt32) :
    slotOf pObj key < pObj.maxSessions := Nat.mod_lt _ holds.some_

theorem Holds.nodeOf_eq (key : UInt32) :
    nodeOf pObj key = some ((lists (slotOf pObj key)).find? fun pNode => pObj.key pNode = key) := by
  have inside := holds.slot_lt key
  exact findNode_path (holds.linked.path _ inside) (Nat.lt_succ_of_le (holds.length_le inside))

theorem Holds.mem_rows {row : Row} :
    row ∈ rows ↔ ∃ hash < pObj.maxSessions, ∃ pNode ∈ lists hash, rowOf pObj pNode = row := by
  rw [<- holds.held.mem_iff, List.mem_map]
  simp only [mem_elements]
  exact ⟨fun ⟨pNode, ⟨hash, inside, member⟩, same⟩ => ⟨hash, inside, pNode, member, same⟩,
    fun ⟨hash, inside, pNode, member, same⟩ => ⟨pNode, ⟨hash, inside, member⟩, same⟩⟩

variable {data : Bytes}

theorem Holds.key_mem : (key, data) ∈ rows ↔ ((lists (slotOf pObj key)).find?
      fun pNode => pObj.key pNode = key).map pObj.data = some data := by
  rw [Option.map_eq_some_iff]
  constructor
  · intro member
    obtain ⟨hash, inside, pNode, isIn, same⟩ := holds.mem_rows.mp member
    have isKey : pObj.key pNode = key := congrArg Prod.fst same
    have isHash := (holds.own hash inside pNode isIn).2
    rw [isKey] at isHash
    subst isHash
    have some_ : ((lists (slotOf pObj key)).find? fun pNode => pObj.key pNode = key).isSome :=
      List.find?_isSome.mpr ⟨pNode, isIn, decide_eq_true isKey⟩
    obtain ⟨found, isFound⟩ := Option.isSome_iff_exists.mp some_
    have foundKey : pObj.key found = key := by simpa using List.find?_some isFound
    have foundRow := holds.mem_rows.mpr ⟨_, inside, found, List.mem_of_find?_eq_some isFound, rfl⟩
    have equal := List.inj_on_of_nodup_map holds.unique foundRow member foundKey
    exact ⟨found, isFound, congrArg Prod.snd equal⟩
  · rintro ⟨pNode, isFound, isData⟩
    have isKey : pObj.key pNode = key := by simpa using List.find?_some isFound
    exact holds.mem_rows.mpr ⟨_, holds.slot_lt key, pNode, List.mem_of_find?_eq_some isFound,
      Prod.ext isKey isData⟩

theorem Holds.get_eq (key : UInt32) : ∃ found, sdbGetIntHashData pObj key = some found ∧
      ∀ data, found = some data ↔ (key, data) ∈ rows := by
  refine ⟨_, congrArg (Option.map _) (holds.nodeOf_eq key), fun data => ?_⟩
  exact holds.key_mem.symm

theorem Holds.findSome_head :
    (List.range' hash (pObj.maxSessions - hash)).findSome? pObj.chains.head =
      (nodesFrom pObj lists hash).head? := by
  have heads : ∀ slot < pObj.maxSessions, pObj.chains.head slot = (lists slot).head? := by
    intro slot below
    have path := holds.linked.path slot below
    cases listed : lists slot with
    | nil => exact (listed ▸ path : Path _ _ _ [])
    | cons first rest => exact (listed ▸ path : Path _ _ _ (first :: rest)).1
  rw [nodesFrom, List.head?_flatMap]
  generalize isCount : pObj.maxSessions - hash = count
  induction count generalizing hash with
  | zero => rfl
  | succ count ih =>
    rw [List.range'_succ, List.findSome?_cons, List.findSome?_cons, heads hash (by omega),
      ih (by omega)]

theorem Holds.fetch_behind
    (behind : Behind pObj lists ptr nodes) : sdbFetchIntHashData pObj ptr = nodes.head? := by
  cases behind with
  | start => exact holds.findSome_head
  | @node hash pNode front rest inside listed =>
    have isHash := (holds.own hash inside pNode (by simp [listed])).1
    have path := holds.linked.path hash inside
    rw [listed] at path
    have isNext := path.behind.2.2
    simp only [sdbFetchIntHashData, Option.bind_some, isHash]
    cases rest with
    | nil =>
      rw [show pObj.chains.next pNode = none from isNext]
      exact holds.findSome_head
    | cons later more =>
      rw [show pObj.chains.next pNode = some later from isNext.1]
      rfl

theorem Holds.fetchAll_behind :
    ∀ {ptr : Option Nat} {fuel : Nat}, Behind pObj lists ptr nodes -> nodes.length < fuel ->
      fetchAll pObj fuel ptr = some nodes := by
  induction nodes with
  | nil =>
    intro ptr fuel behind enough
    obtain ⟨fuel, rfl⟩ := Nat.exists_eq_succ_of_ne_zero (Nat.ne_of_gt enough)
    rw [fetchAll, holds.fetch_behind behind]
    rfl
  | cons pNode more ih =>
    intro ptr fuel behind enough
    obtain ⟨fuel, rfl⟩ := Nat.exists_eq_succ_of_ne_zero (Nat.ne_of_gt (Nat.zero_lt_of_lt enough))
    rw [fetchAll, holds.fetch_behind behind, List.head?_cons]
    simp only
    rw [ih (behind.later) (Nat.lt_of_succ_lt_succ enough)]
    rfl

theorem Holds.answers : Answers pObj rows := by
  have isAll : nodesFrom pObj lists 0 = elements pObj.maxSessions lists := by
    rw [nodesFrom, elements, List.range_eq_range', Nat.sub_zero]
  have length := holds.held.length_eq
  rw [List.length_map, <- isAll] at length
  refine ⟨holds.unique, holds.get_eq, _, holds.fetchAll_behind .start ?_, isAll ▸ holds.held⟩
  omega

theorem Holds.fresh {freeList : List Nat} (free : pObj.freeList = pNode :: freeList) :
    pNode ∉ elements pObj.maxSessions lists := by
  have distinct := holds.pool.nodup_iff.mpr List.nodup_range
  rw [free] at distinct
  exact fun member => (nodup_append.mp distinct).2.2 pNode mem_cons_self pNode member rfl

theorem Holds.insert
    (fresh : key ∉ rows.map Prod.fst) (added : sdbAddIntHash pObj key data = some next) :
    ∃ lists, Holds next lists ((key, data) :: rows) := by
  unfold sdbAddIntHash at added
  cases free : pObj.freeList with
  | nil => simp [free] at added
  | cons pNode freeList =>
    rw [free] at added
    cases added
    have isNew := holds.fresh free
    have inside := holds.slot_lt key
    have grown := @elements_perm_cons _ _ lists (update lists _ (pNode :: lists _)) _ pNode inside
      (by rw [update_self]) fun other differs => update_of_ne differs _ _
    have kept : ∀ other ∈ elements pObj.maxSessions lists, other ≠ pNode :=
      fun other member same => isNew (same ▸ member)
    refine ⟨_, holds.linked.push inside isNew, holds.some_, ?_, ?_, ?_,
      List.nodup_cons.mpr ⟨fresh, holds.unique⟩⟩
    · have pool := holds.pool
      rw [free] at pool
      exact ((grown.append_left freeList).trans List.perm_middle).trans pool
    · intro hash below other member
      by_cases same : other = pNode
      · subst same
        simp only [update_self]
        by_cases here : hash = slotOf pObj key
        · exact ⟨here.symm, here.symm⟩
        · rw [update_of_ne here] at member
          exact absurd (mem_elements.mpr ⟨hash, below, member⟩) isNew
      · simp only [update_of_ne same]
        apply holds.own hash below
        by_cases here : hash = slotOf pObj key
        · subst here
          rw [update_self] at member
          exact (mem_cons.mp member).resolve_left same
        · rwa [update_of_ne here] at member
    · refine (grown.map _).trans ?_
      rw [List.map_cons, List.map_congr_left (g := rowOf pObj)]
      · simp only [rowOf, update_self]
        exact holds.held.cons _
      · intro other member
        simp only [rowOf, update_of_ne (kept other member)]

theorem Holds.delete (present : key ∈ rows.map Prod.fst) :
    ∃ next lists, sdbDeleteIntHash pObj key = some next ∧ next.maxSessions = pObj.maxSessions ∧
      Holds next lists (rows.filter fun row => row.1 ≠ key) := by
  obtain ⟨⟨key', data⟩, member, same⟩ := List.mem_map.mp present
  obtain rfl : key = key' := same.symm
  obtain ⟨pNode, isFound, _⟩ := Option.map_eq_some_iff.mp (holds.key_mem.mp member)
  have inside := holds.slot_lt key
  have isKey : pObj.key pNode = key := by simpa using List.find?_some isFound
  obtain ⟨front, rest, parts⟩ := List.append_of_mem (List.mem_of_find?_eq_some isFound)
  unfold sdbDeleteIntHash
  rw [holds.nodeOf_eq, isFound]
  have shrunk : (elements pObj.maxSessions lists).Perm (pNode :: elements pObj.maxSessions
      (update lists (slotOf pObj key) (front ++ rest))) := by
    apply elements_perm_cons inside
    · rw [update_self, parts]
      exact List.perm_middle
    · exact fun other differs => (update_of_ne differs _ _).symm
  have isRows := (shrunk.map (rowOf pObj)).symm.trans holds.held
  have unique := (isRows.map Prod.fst).nodup_iff.mpr holds.unique
  have others := (List.nodup_cons.mp unique).1
  refine ⟨_, _, rfl, rfl, holds.linked.unlink inside parts, holds.some_, ?_, ?_, ?_,
    holds.unique.sublist (List.filter_sublist.map _)⟩
  · rw [List.append_assoc]
    exact (shrunk.symm.append_left _).trans holds.pool
  · intro hash below other member
    apply holds.own hash below
    by_cases here : hash = slotOf pObj key
    · subst here
      rw [update_self] at member
      rw [parts]
      exact (List.Sublist.append_left (List.sublist_cons_self _ _) _).subset member
    · rwa [update_of_ne here] at member
  · refine List.Perm.trans ?_ (isRows.filter _)
    rw [List.map_cons, List.filter_cons_of_neg (by simp [rowOf, isKey]), List.filter_eq_self.mpr]
    · exact List.Perm.refl _
    · exact fun row isRow => decide_eq_true fun same =>
        others (List.mem_map.mpr ⟨row, isRow, same.trans isKey.symm⟩)

theorem Holds.get_none : sdbGetIntHashData pObj key = some none ↔ key ∉ rows.map Prod.fst := by
  obtain ⟨found, isFound, iff⟩ := holds.get_eq key
  rw [isFound, Option.some_inj]
  constructor
  · rintro rfl present
    obtain ⟨⟨_, data⟩, member, rfl⟩ := List.mem_map.mp present
    exact nomatch (iff data).mpr member
  · intro absent
    cases found with
    | none => rfl
    | some data => exact absurd (List.mem_map_of_mem ((iff data).mp rfl)) absent

variable {event : SdbEvent}

theorem Holds.step
    (room : Room pObj.maxSessions rows event) : ∃ next lists, sdbStep pObj event = some next ∧
      next.maxSessions = pObj.maxSessions ∧ Holds next lists (rowsAfter rows event) := by
  cases event with
  | insertRow key data =>
    by_cases fresh : key ∈ rows.map Prod.fst
    · obtain ⟨found, isFound, iff⟩ := holds.get_eq key
      cases found with
      | none => exact absurd fresh (holds.get_none.mp isFound)
      | some old =>
        refine ⟨pObj, lists, ?_, rfl, ?_⟩
        · rw [sdbStep, isFound]
        · rwa [rowsAfter, if_pos fresh]
    · have small := room fresh
      rw [<- holds.held.length_eq, List.length_map] at small
      have total := holds.pool.length_eq
      rw [List.length_append, List.length_range] at total
      rw [sdbStep, holds.get_none.mpr fresh, rowsAfter, if_neg fresh]
      cases free : pObj.freeList with
      | nil =>
        rw [free, List.length_nil] at total
        omega
      | cons pNode freeList =>
        have added : ∃ next, sdbAddIntHash pObj key data = some next ∧
            next.maxSessions = pObj.maxSessions := by
          simp only [sdbAddIntHash, free]
          exact ⟨_, rfl, rfl⟩
        obtain ⟨next, isNext, sessions⟩ := added
        obtain ⟨lists, kept⟩ := holds.insert fresh isNext
        exact ⟨next, lists, isNext, sessions, kept⟩
  | deleteRow key =>
    by_cases present : key ∈ rows.map Prod.fst
    · obtain ⟨found, isFound, iff⟩ := holds.get_eq key
      cases found with
      | none => exact absurd present (holds.get_none.mp isFound)
      | some old =>
        rw [sdbStep, isFound]
        exact holds.delete present
    · refine ⟨pObj, lists, ?_, rfl, ?_⟩
      · rw [sdbStep, holds.get_none.mpr present]
      · rwa [rowsAfter, List.filter_eq_self.mpr]
        exact fun row member => decide_eq_true fun same =>
          present (List.mem_map.mpr ⟨row, member, same⟩)

theorem Holds.full (room : ¬ Room pObj.maxSessions rows event) : sdbStep pObj event = none := by
  cases event with
  | deleteRow key => exact absurd trivial room
  | insertRow key data =>
    obtain ⟨fresh, many⟩ := Classical.not_imp.mp room
    have total := holds.pool.length_eq
    have length := holds.held.length_eq
    rw [List.length_append, List.length_range] at total
    rw [List.length_map] at length
    have free : pObj.freeList = [] := List.eq_nil_of_length_eq_zero (by omega)
    rw [sdbStep, holds.get_none.mpr fresh]
    simp only [sdbAddIntHash, free]

end

theorem Holds.run {events : List SdbEvent} : ∀ {pObj : SHashObj} {lists : Nat -> List Nat}
    {rows : List Row}, Holds pObj lists rows ->
      (AnswersRun pObj rows events ↔ RoomRun pObj.maxSessions rows events) := by
  induction events with
  | nil => exact fun holds => iff_of_true holds.answers trivial
  | cons event rest ih =>
    intro pObj lists rows holds
    by_cases room : Room pObj.maxSessions rows event
    · obtain ⟨next, lists, isNext, sessions, kept⟩ := holds.step room
      rw [AnswersRun, RoomRun, isNext, <- sessions, <- ih kept]
      constructor
      · rintro ⟨_, _, same, answers⟩
        cases same
        exact ⟨sessions ▸ room, answers⟩
      · exact fun both => ⟨holds.answers, next, rfl, both.2⟩
    · apply iff_of_false
      · rintro ⟨_, next, isNext, _⟩
        rw [holds.full room] at isNext
        cases isNext
      · exact fun both => room both.1

theorem sdbOpenIntHash_holds {maxSessions : Nat} (opened : sdbOpenIntHash maxSessions = some pObj) :
    pObj.maxSessions = maxSessions ∧ Holds pObj (fun _ => []) [] := by
  unfold sdbOpenIntHash at opened
  split at opened
  · cases opened
  · cases opened
    have none : ∀ count, elements count (fun _ => ([] : List Nat)) = [] :=
      fun count => List.flatMap_eq_nil_iff.mpr fun _ _ => rfl
    refine ⟨rfl, ⟨fun _ _ => rfl, ?_⟩, by simp only; omega, ?_, fun _ _ _ none => (nomatch none),
      ?_, List.nodup_nil⟩
    · rw [none]
      exact List.nodup_nil
    · rw [none, List.append_nil]
    · rw [none]
      exact List.Perm.refl _

/-- The index is a map as long as every new row finds fewer than `maxSessions` rows. -/
theorem answersRun_iff {maxSessions : Nat} (opened : sdbOpenIntHash maxSessions = some pObj)
    (events : List SdbEvent) : AnswersRun pObj [] events ↔ RoomRun maxSessions [] events := by
  obtain ⟨rfl, holds⟩ := sdbOpenIntHash_holds opened
  exact holds.run

def threeRows : List SdbEvent := [.insertRow 1 [1], .insertRow 2 [2], .insertRow 3 [3]]

theorem answersRun_iff_two : ∃ pObj, sdbOpenIntHash 2 = some pObj ∧
    (AnswersRun pObj [] threeRows ↔ RoomRun 2 [] threeRows) :=
  ⟨_, rfl, answersRun_iff rfl threeRows⟩

/-- The third row of a table for two is written to NULL. -/
theorem threeRows_not_answersRun :
    ¬ ∀ maxSessions pObj events, sdbOpenIntHash maxSessions = some pObj ->
      AnswersRun pObj [] events := by
  intro always
  obtain ⟨-, next, first, -, later, second, -, last, third, -⟩ := always 2 _ threeRows rfl
  cases first
  cases second
  cases third

end Luomi.Sdb.IntHash
