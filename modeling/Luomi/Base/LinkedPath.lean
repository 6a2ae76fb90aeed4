import Mathlib.Tactic

/-!
# Doubly linked lists on a heap

The links of a list are two functions on the heap: the node behind a place and
the place in front of a node.  A path follows them from a place through some
nodes to the end.  Nodes are linked in and out at a place of the path.
-/

set_option autoImplicit false

namespace Luomi.LinkedPath

open Function (update update_of_ne update_self)
open List (mem_cons_of_mem mem_cons_self nodup_cons)

inductive Ref (ι : Type) where
  | head
  | node (id : ι)
  deriving DecidableEq

section Path

variable {ι : Type}

theorem head_ne_node (id : ι) : Ref.head ≠ Ref.node id := fun same => by cases same

def Path (next : Ref ι -> Option ι) (back : ι -> Option (Ref ι)) : Ref ι -> List ι -> Prop
  | place, [] => next place = none
  | place, id :: rest =>
    next place = some id ∧ back id = some place ∧ Path next back (.node id) rest

def endOf : Ref ι -> List ι -> Ref ι
  | place, [] => place
  | _, id :: rest => endOf (.node id) rest

variable {next other : Ref ι -> Option ι} {back otherBack : ι -> Option (Ref ι)}

theorem endOf_append (place : Ref ι) (front rest : List ι) :
    endOf place (front ++ rest) = endOf (endOf place front) rest := by
  induction front generalizing place with
  | nil => rfl
  | cons id front ih => exact ih (.node id)

theorem endOf_mem (place : Ref ι) (front : List ι) :
    endOf place front = place ∨ ∃ id ∈ front, endOf place front = .node id := by
  induction front generalizing place with
  | nil => exact Or.inl rfl
  | cons id front ih =>
    right
    rcases ih (.node id) with same | ⟨later, member, same⟩
    · exact ⟨id, mem_cons_self, same⟩
    · exact ⟨later, mem_cons_of_mem _ member, same⟩

variable {place : Ref ι} {front : List ι}

theorem endOf_ne {id : ι} (start : place ≠ .node id)
    (absent : id ∉ front) : endOf place front ≠ .node id := by
  rcases endOf_mem place front with same | ⟨later, member, same⟩
  · rw [same]
    exact start
  · rw [same]
    intro equal
    cases equal
    exact absent member

variable {rest : List ι}

theorem Path.behind
    (path : Path next back place (front ++ rest)) : Path next back (endOf place front) rest := by
  induction front generalizing place with
  | nil => exact path
  | cons id front ih => exact ih path.2.2

theorem Path.congr {nodes : List ι} (path : Path next back place nodes)
    (sameStart : other place = next place)
    (sameNext : ∀ id ∈ nodes, other (.node id) = next (.node id))
    (sameBack : ∀ id ∈ nodes, otherBack id = back id) : Path other otherBack place nodes := by
  induction nodes generalizing place with
  | nil => exact sameStart.trans path
  | cons id rest ih =>
    obtain ⟨forward, backward, later⟩ := path
    refine ⟨sameStart.trans forward, (sameBack id mem_cons_self).trans backward, ?_⟩
    apply ih later (sameNext id mem_cons_self)
    · exact fun later member => sameNext later (mem_cons_of_mem _ member)
    · exact fun later member => sameBack later (mem_cons_of_mem _ member)

theorem Path.replace {tail : List ι}
    (path : Path next back place (front ++ rest)) (distinct : front.Nodup)
    (start : ∀ id ∈ front, place ≠ .node id)
    (sameNext : ∀ ref, ref ≠ endOf place front -> (ref = place ∨ ∃ id ∈ front, ref = .node id) ->
      other ref = next ref) (sameBack : ∀ id ∈ front, otherBack id = back id)
    (behind : Path other otherBack (endOf place front) tail) :
    Path other otherBack place (front ++ tail) := by
  induction front generalizing place with
  | nil => exact behind
  | cons id front ih =>
    obtain ⟨forward, backward, later⟩ := path
    obtain ⟨fresh, frontDistinct⟩ := nodup_cons.mp distinct
    have notEnd : place ≠ endOf (.node id) front := by
      rcases endOf_mem (.node id) front with same | ⟨other, member, same⟩
      · rw [same]
        exact start id mem_cons_self
      · rw [same]
        exact start other (mem_cons_of_mem _ member)
    refine ⟨(sameNext place notEnd (Or.inl rfl)).trans forward,
      (sameBack id mem_cons_self).trans backward, ?_⟩
    apply ih later frontDistinct
    · intro other member same
      cases same
      exact fresh member
    · intro ref differs inside
      refine sameNext ref differs (Or.inr ?_)
      rcases inside with rfl | ⟨other, member, rfl⟩
      · exact ⟨id, mem_cons_self, rfl⟩
      · exact ⟨other, mem_cons_of_mem _ member, rfl⟩
    · exact fun other member => sameBack other (mem_cons_of_mem _ member)
    · exact behind

section Link

variable [DecidableEq ι]

def linkNext (next : Ref ι -> Option ι) (place : Ref ι) (id : ι) : Ref ι -> Option ι :=
  update (update next (.node id) (next place)) place (some id)

def linkBack (next : Ref ι -> Option ι) (back : ι -> Option (Ref ι)) (place : Ref ι) (id : ι) :
    ι -> Option (Ref ι) :=
  match next place with
  | some later => update (update back id (some place)) later (some (.node id))
  | none => update back id (some place)

theorem Path.link {place : Ref ι} {front rest : List ι} {id : ι}
    (path : Path next back place (front ++ rest)) (distinct : (front ++ rest).Nodup)
    (start : ∀ other ∈ front ++ rest, place ≠ .node other) (fresh : id ∉ front ++ rest)
    (notStart : place ≠ .node id) :
    Path (linkNext next (endOf place front) id) (linkBack next back (endOf place front) id) place
      (front ++ id :: rest) := by
  obtain ⟨freshFront, freshRest⟩ := not_or.mp (List.mem_append.not.mp fresh)
  obtain ⟨frontDistinct, restDistinct, apart⟩ := List.nodup_append.mp distinct
  have notEnd : Ref.node id ≠ endOf place front := (endOf_ne notStart freshFront).symm
  have restNotEnd : ∀ other ∈ rest, Ref.node other ≠ endOf place front := by
    intro other member
    refine (endOf_ne (start other (List.mem_append_right _ member)) ?_).symm
    exact fun inFront => apart other inFront other member rfl
  have atEnd : linkNext next (endOf place front) id (endOf place front) = some id :=
    update_self _ _ _
  have atNode : linkNext next (endOf place front) id (.node id) = next (endOf place front) := by
    rw [linkNext, update_of_ne notEnd, update_self]
  have elsewhere : ∀ ref, ref ≠ endOf place front -> ref ≠ .node id ->
      linkNext next (endOf place front) id ref = next ref := by
    intro ref notAtEnd notAtNode
    rw [linkNext, update_of_ne notAtEnd, update_of_ne notAtNode]
  have behind := path.behind
  refine path.replace frontDistinct (fun other member => start other (List.mem_append_left _ member))
    ?_ ?_ ?_
  · intro ref differs inside
    apply elsewhere ref differs
    rcases inside with rfl | ⟨other, member, rfl⟩
    · exact notStart
    · intro same
      cases same
      exact freshFront member
  · intro other member
    have notId : other ≠ id := fun same => freshFront (same ▸ member)
    rw [linkBack]
    cases rest with
    | nil =>
      have stop : next (endOf place front) = none := behind
      rw [stop]
      exact update_of_ne notId _ _
    | cons later rest =>
      have notLater : other ≠ later := apart other member later mem_cons_self
      rw [behind.1]
      simp only
      rw [update_of_ne notLater, update_of_ne notId]
  · cases rest with
    | nil =>
      have stop : next (endOf place front) = none := behind
      refine ⟨atEnd, ?_, ?_⟩
      · rw [linkBack, stop]
        exact update_self _ _ _
      · exact atNode.trans stop
    | cons later rest =>
      obtain ⟨forward, -, more⟩ := behind
      obtain ⟨laterFresh, -⟩ := nodup_cons.mp restDistinct
      have notLater : id ≠ later := fun same => freshRest (same ▸ mem_cons_self)
      refine ⟨atEnd, ?_, atNode.trans forward, ?_, ?_⟩
      · rw [linkBack, forward]
        simp only
        rw [update_of_ne notLater, update_self]
      · rw [linkBack, forward]
        exact update_self _ _ _
      · apply more.congr
        · apply elsewhere
          · exact restNotEnd later mem_cons_self
          · intro same
            cases same
            exact notLater rfl
        · intro other member
          apply elsewhere
          · exact restNotEnd other (mem_cons_of_mem _ member)
          · intro same
            cases same
            exact freshRest (mem_cons_of_mem _ member)
        · intro other member
          have notFirst : other ≠ later := fun same => laterFresh (same ▸ member)
          have notId : other ≠ id :=
            fun same => freshRest (same ▸ mem_cons_of_mem _ member)
          rw [linkBack, forward]
          simp only
          rw [update_of_ne notFirst, update_of_ne notId]

def unlinkNext (next : Ref ι -> Option ι) (place : Ref ι) (id : ι) : Ref ι -> Option ι :=
  update next place (next (.node id))

def unlinkBack (next : Ref ι -> Option ι) (back : ι -> Option (Ref ι)) (place : Ref ι) (id : ι) :
    ι -> Option (Ref ι) :=
  match next (.node id) with
  | some later => update back later (some place)
  | none => back

theorem Path.unlink {id : ι}
    (path : Path next back place (front ++ id :: rest)) (distinct : (front ++ id :: rest).Nodup)
    (start : ∀ other ∈ front ++ id :: rest, place ≠ .node other) :
    Path (unlinkNext next (endOf place front) id) (unlinkBack next back (endOf place front) id) place
      (front ++ rest) := by
  obtain ⟨frontDistinct, restDistinct, apart⟩ := List.nodup_append.mp distinct
  have restNotEnd : ∀ other ∈ rest, Ref.node other ≠ endOf place front := by
    intro other member
    have inside : other ∈ id :: rest := mem_cons_of_mem _ member
    refine (endOf_ne (start other (List.mem_append_right _ inside)) ?_).symm
    exact fun inFront => apart other inFront other inside rfl
  have atEnd : unlinkNext next (endOf place front) id (endOf place front) = next (.node id) :=
    update_self _ _ _
  have elsewhere : ∀ ref, ref ≠ endOf place front ->
      unlinkNext next (endOf place front) id ref = next ref :=
    fun ref differs => update_of_ne differs _ _
  obtain ⟨-, -, behind⟩ := path.behind
  refine path.replace frontDistinct (fun other member => start other (List.mem_append_left _ member))
    ?_ ?_ ?_
  · exact fun ref differs _ => elsewhere ref differs
  · intro other member
    rw [unlinkBack]
    cases rest with
    | nil =>
      have stop : next (.node id) = none := behind
      rw [stop]
    | cons later rest =>
      have notLater : other ≠ later :=
        apart other member later (mem_cons_of_mem _ mem_cons_self)
      rw [behind.1]
      exact update_of_ne notLater _ _
  · cases rest with
    | nil => exact atEnd.trans behind
    | cons later rest =>
      obtain ⟨forward, -, more⟩ := behind
      obtain ⟨-, laterDistinct⟩ := nodup_cons.mp restDistinct
      obtain ⟨laterFresh, -⟩ := nodup_cons.mp laterDistinct
      refine ⟨atEnd.trans forward, ?_, ?_⟩
      · rw [unlinkBack, forward]
        exact update_self _ _ _
      · apply more.congr
        · exact elsewhere _ (restNotEnd later mem_cons_self)
        · exact fun other member => elsewhere _ (restNotEnd other (mem_cons_of_mem _ member))
        · intro other member
          have notFirst : other ≠ later := fun same => laterFresh (same ▸ member)
          rw [unlinkBack, forward]
          exact update_of_ne notFirst _ _

end Link

end Path

end Luomi.LinkedPath
