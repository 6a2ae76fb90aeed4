import Luomi.Base.Buckets
import Luomi.Base.LinkedPath

/-!
# Tables of doubly linked chains

A node enters a chain at its head and leaves it anywhere.  The chains are given as lists
beside the pointers.
-/

set_option autoImplicit false

namespace Luomi.HashChains

open Buckets LinkedPath
open Function (update update_apply update_of_ne update_self)
open List (mem_append nodup_append nodup_cons)

/-- The first node of every chain and the two pointers of every node. -/
structure ChainTable where
  head : Nat -> Option Nat
  next : Nat -> Option Nat
  prev : Nat -> Option Nat

namespace ChainTable

def push (table : ChainTable) (hash node : Nat) : ChainTable where
  head := update table.head hash (some node)
  next := update table.next node (table.head hash)
  prev := match table.head hash with
    | some first => update (update table.prev node none) first (some node)
    | none => update table.prev node none

def unlink (table : ChainTable) (hash node : Nat) : ChainTable where
  head := match table.prev node with
    | some _ => table.head
    | none => update table.head hash (table.next node)
  next := match table.prev node with
    | some before => update table.next before (table.next node)
    | none => table.next
  prev := match table.next node with
    | some behind => update table.prev behind (table.prev node)
    | none => table.prev

def forward (table : ChainTable) (hash : Nat) : Ref Nat -> Option Nat
  | .head => table.head hash
  | .node id => table.next id

def place : Option Nat -> Ref Nat
  | none => .head
  | some id => .node id

def backward (table : ChainTable) (node : Nat) : Option (Ref Nat) := some (place (table.prev node))

end ChainTable

structure Linked (table : ChainTable) (count : Nat) (lists : Nat -> List Nat) : Prop where
  path : ∀ hash < count, Path (table.forward hash) table.backward .head (lists hash)
  distinct : (elements count lists).Nodup

variable {table next : ChainTable} {count hash node : Nat} {lists : Nat -> List Nat}
  {front rest : List Nat}

section

variable (linked : Linked table count lists) (inside : hash < count)

include linked inside

theorem Linked.parts : (lists hash ++ elements count (update lists hash [])).Nodup :=
  (elements_split inside).nodup_iff.mp linked.distinct

theorem Linked.apart {other a b : Nat} (below : other < count) (differs : other ≠ hash)
    (ha : a ∈ lists hash) (hb : b ∈ lists other) : b ≠ a := by
  rintro rfl
  refine (nodup_append.mp (linked.parts inside)).2.2 b ha b (mem_elements.mpr ⟨other, below, ?_⟩) rfl
  rwa [update_of_ne differs]

theorem Linked.change (path : Path (next.forward hash) next.backward .head front)
    (heads : ∀ other, other ≠ hash -> next.head other = table.head other)
    (kept : ∀ id, id ∈ elements count lists -> id ∉ lists hash -> next.next id = table.next id ∧
      next.prev id = table.prev id)
    (distinct : (front ++ elements count (update lists hash [])).Nodup) :
    Linked next count (update lists hash front) := by
  refine ⟨fun other below => ?_, (elements_update inside front).nodup_iff.mpr distinct⟩
  by_cases differs : other = hash
  · subst differs
    rwa [update_self]
  · rw [update_of_ne differs]
    have stays : ∀ id ∈ lists other, next.next id = table.next id ∧ next.prev id = table.prev id :=
      fun id member => kept id (mem_elements.mpr ⟨other, below, member⟩)
        fun own => linked.apart inside below differs own member rfl
    apply (linked.path other below).congr (heads other differs) fun id member => (stays id member).1
    intro id member
    simp only [ChainTable.backward, (stays id member).2]

end

theorem push_kept {id : Nat} (path : Path (table.forward hash) table.backward .head (lists hash))
    (notNode : id ≠ node) (notOwn : id ∉ lists hash) :
    (table.push hash node).next id = table.next id ∧
      (table.push hash node).prev id = table.prev id := by
  refine ⟨update_of_ne notNode _ _, ?_⟩
  simp only [ChainTable.push]
  cases listed : lists hash with
  | nil =>
    rw [listed] at path
    rw [show table.head hash = none from path]
    exact update_of_ne notNode _ _
  | cons first later =>
    rw [listed] at path notOwn
    rw [show table.head hash = some first from path.1]
    exact (update_of_ne (List.ne_of_not_mem_cons notOwn) _ _).trans (update_of_ne notNode _ _)

theorem unlink_kept {id : Nat}
    (path : Path (table.forward hash) table.backward .head (front ++ node :: rest))
    (notOwn : id ∉ front ++ node :: rest) : (table.unlink hash node).next id = table.next id ∧
      (table.unlink hash node).prev id = table.prev id := by
  have behind := path.behind
  have isPrev : ChainTable.place (table.prev node) = endOf .head front :=
    Option.some.inj behind.2.1
  have notIn : ∀ other ∈ front ++ node :: rest, id ≠ other :=
    fun other member same => notOwn (same ▸ member)
  simp only [ChainTable.unlink]
  constructor
  · cases isBefore : table.prev node with
    | none => rfl
    | some before =>
      rw [isBefore] at isPrev
      rcases endOf_mem .head front with isHead | ⟨last, inFront, isLast⟩
      · exact nomatch isPrev.trans isHead
      · cases isPrev.trans isLast
        exact update_of_ne (notIn before (List.mem_append_left _ inFront)) _ _
  · cases rest with
    | nil => rw [show table.next node = none from behind.2.2]
    | cons later more =>
      rw [show table.next node = some later from behind.2.2.1]
      exact update_of_ne (notIn later (by simp)) _ _

theorem unlink_head {other : Nat} (differs : other ≠ hash) :
    (table.unlink hash node).head other = table.head other := by
  simp only [ChainTable.unlink]
  cases table.prev node with
  | none => exact update_of_ne differs _ _
  | some before => rfl

theorem Linked.push (linked : Linked table count lists) (inside : hash < count)
    (fresh : node ∉ elements count lists) :
    Linked (table.push hash node) count (update lists hash (node :: lists hash)) := by
  have path := linked.path hash inside
  have own := linked.parts inside
  have isNext : (table.push hash node).forward hash = linkNext (table.forward hash) .head node := by
    funext ref
    cases ref <;> simp [ChainTable.forward, ChainTable.push, linkNext, update_apply]
  have isBack : (table.push hash node).backward =
      linkBack (table.forward hash) table.backward .head node := by
    funext id
    simp only [ChainTable.backward, ChainTable.push, linkBack, ChainTable.forward]
    cases table.head hash with
    | none => by_cases same : id = node <;> simp [same, ChainTable.place, ChainTable.backward]
    | some first =>
      by_cases isFirst : id = first
      · simp [isFirst, ChainTable.place]
      · rcases eq_or_ne id node with rfl | same
        · simp [isFirst, ChainTable.place]
        · simp [isFirst, same, ChainTable.backward]
  refine linked.change inside ?_ (fun other differs => update_of_ne differs _ _) ?_ ?_
  · rw [isNext, isBack]
    exact @Path.link _ _ _ _ .head [] _ _ path (nodup_append.mp own).1
      (fun other _ => head_ne_node other)
      (fun member => fresh (mem_elements.mpr ⟨hash, inside, member⟩)) (head_ne_node node)
  · exact fun id member => push_kept path fun same => fresh (same ▸ member)
  · refine nodup_cons.mpr ⟨fun member => fresh ?_, own⟩
    exact (elements_split inside).mem_iff.mpr member

theorem Linked.unlink (linked : Linked table count lists) (inside : hash < count)
    (parts : lists hash = front ++ node :: rest) :
    Linked (table.unlink hash node) count (update lists hash (front ++ rest)) := by
  have path := linked.path hash inside
  have own := linked.parts inside
  rw [parts] at path own
  have isPrev : ChainTable.place (table.prev node) = endOf .head front :=
    Option.some.inj path.behind.2.1
  have isNext : (table.unlink hash node).forward hash =
      unlinkNext (table.forward hash) (endOf .head front) node := by
    rw [<- isPrev]
    funext ref
    simp only [ChainTable.unlink, unlinkNext]
    cases table.prev node with
    | none => cases ref <;> simp [ChainTable.forward, ChainTable.place]
    | some before => cases ref <;> simp [ChainTable.forward, ChainTable.place, update_apply]
  have isBack : (table.unlink hash node).backward =
      unlinkBack (table.forward hash) table.backward (endOf .head front) node := by
    rw [<- isPrev]
    funext id
    simp only [ChainTable.backward, ChainTable.unlink, unlinkBack, ChainTable.forward]
    cases table.next node with
    | none => rfl
    | some later => by_cases same : id = later <;> simp [same, ChainTable.backward]
  refine linked.change inside ?_ (fun _ => unlink_head) ?_ ?_
  · rw [isNext, isBack]
    exact path.unlink (nodup_append.mp own).1 fun other _ => head_ne_node other
  · exact fun id _ notOwn => unlink_kept path (parts ▸ notOwn)
  · refine own.sublist (List.Sublist.append_right ?_ _)
    exact List.Sublist.append_left (List.sublist_cons_self _ _) _

end Luomi.HashChains
