import Luomi.Util.SkipList

/-!
# Equal keys in a skip list (`tskiplist.c`)

`tSkipListPut` looks for an equal key in front of the new node, where the search leaves
only smaller ones.
-/

namespace Luomi.SkipList

open LinkedPath
open Function (update_of_ne update_self)
open Option (bind_eq_some_iff)

variable {Data : Type} {list next : TSkipList Data} {key : Int}

def Passed (list : TSkipList Data) (key : Int) (place : Ref Nat) : Prop :=
  ∀ id node, place = .node id -> list.node id = some node -> node.key < key

variable {i : Nat}

theorem walk_passed {fuel : Nat} {px last : Ref Nat}
    (walked : walk list key i fuel px = some last) (passed : Passed list key px) :
    Passed list key last := by
  induction fuel generalizing px with
  | zero => cases walked
  | succ fuel ih =>
    unfold walk at walked
    obtain ⟨forward, isForward, walked⟩ := bind_eq_some_iff.mp walked
    cases forward with
    | none =>
      cases walked
      exact passed
    | some id =>
      obtain ⟨node, isNode, walked⟩ := bind_eq_some_iff.mp walked
      by_cases smaller : node.key < key
      · rw [if_pos smaller] at walked
        apply ih walked
        intro other otherNode same isOther
        cases same
        rw [isNode] at isOther
        cases isOther
        exact smaller
      · rw [if_neg smaller] at walked
        cases walked
        exact passed

variable {forward : Places}

theorem search_passed {level : Nat} {px : Ref Nat} {found : Places}
    (searched : search list key level px forward = some found) (passed : Passed list key px)
    (before : ∀ place, forward 0 = some place -> Passed list key place) :
    ∀ place, found 0 = some place -> Passed list key place := by
  induction level generalizing px forward with
  | zero =>
    cases searched
    exact before
  | succ level ih =>
    obtain ⟨last, walked, searched⟩ := bind_eq_some_iff.mp searched
    have reached := walk_passed walked passed
    apply ih searched reached
    intro place isPlace
    by_cases bottom : 0 = level
    · subst bottom
      rw [update_self] at isPlace
      cases isPlace
      exact reached
    · rw [update_of_ne bottom] at isPlace
      exact before place isPlace

variable {insertIdenticalKey : Int}

theorem identicalNode_passed {identical : Option Nat}
    (passed : ∀ place, forward 0 = some place -> Passed list key place)
    (tested : identicalNode list forward key insertIdenticalKey = some identical) :
    identical = none := by
  unfold identicalNode at tested
  by_cases unique : insertIdenticalKey = 0
  · rw [if_pos unique] at tested
    obtain ⟨place, isPlace, tested⟩ := bind_eq_some_iff.mp tested
    cases place with
    | head =>
      cases tested
      rfl
    | node id =>
      obtain ⟨node, isNode, tested⟩ := bind_eq_some_iff.mp tested
      have smaller := passed _ isPlace id node rfl isNode
      rw [if_neg (Int.ne_of_lt smaller)] at tested
      cases tested
      rfl
  · rw [if_neg unique] at tested
    cases tested
    rfl

def nodesOf (list : TSkipList Data) : (Nat -> Option (TSkipListNode Data)) × Nat :=
  (list.node, list.nodesMade)

theorem setForward_nodes {place : Ref Nat} {target : Option Nat}
    (set : setForward list i place target = some next) : nodesOf next = nodesOf list := by
  obtain ⟨_, same⟩ := Option.ite_none_right_eq_some.mp set
  cases same
  rfl

variable {id : Nat}

theorem setBackward_nodes {target : Ref Nat}
    (set : setBackward list i id target = some next) : nodesOf next = nodesOf list := by
  obtain ⟨_, same⟩ := Option.ite_none_right_eq_some.mp set
  cases same
  rfl

theorem insertLevel_nodes
    (inserted : insertLevel forward id list i = some next) : nodesOf next = nodesOf list := by
  obtain ⟨_, inserted⟩ := Option.ite_none_left_eq_some.mp inserted
  cases place : forward i with
  | none =>
    rw [place] at inserted
    obtain ⟨first, set, inserted⟩ := bind_eq_some_iff.mp inserted
    exact (setBackward_nodes inserted).trans (setForward_nodes set)
  | some x =>
    rw [place] at inserted
    obtain ⟨first, set, inserted⟩ := bind_eq_some_iff.mp inserted
    obtain ⟨behind, _, inserted⟩ := bind_eq_some_iff.mp inserted
    have rest : ∀ {second : TSkipList Data}, nodesOf second = nodesOf first ->
        ((getForward second i x).bind fun target =>
          (setForward second i (.node id) target).bind fun third =>
            setForward third i x (some id)) = some next -> nodesOf next = nodesOf list := by
      intro second middle inserted
      obtain ⟨target, _, inserted⟩ := bind_eq_some_iff.mp inserted
      obtain ⟨third, own, inserted⟩ := bind_eq_some_iff.mp inserted
      exact (setForward_nodes inserted).trans
        ((setForward_nodes own).trans (middle.trans (setBackward_nodes set)))
    cases behind with
    | none => exact rest rfl inserted
    | some other =>
      obtain ⟨second, linked, inserted⟩ := bind_eq_some_iff.mp inserted
      exact rest (setBackward_nodes linked) inserted

theorem insertLevels_nodes (levels : List Nat) :
    ∀ {list : TSkipList Data}, levels.foldlM (insertLevel forward id) list = some next ->
      nodesOf next = nodesOf list := by
  induction levels with
  | nil =>
    intro list run
    cases run
    rfl
  | cons level levels ih =>
    intro list run
    rw [List.foldlM_cons] at run
    obtain ⟨first, inserted, rest⟩ := bind_eq_some_iff.mp run
    exact (ih rest).trans (insertLevel_nodes inserted)

theorem level_nodes {rand : Nat -> Nat} :
    nodesOf (getSkipListNodeLevel list rand).2 = nodesOf list := by
  unfold getSkipListNodeLevel
  by_cases empty : list.nSize = 0
  · rw [if_pos empty]
    rfl
  · rw [if_neg empty]
    split
    · rfl
    · rfl

variable {rand : Nat -> Nat} {pData : Data}

theorem put_nodes (run : tSkipListPut list pData key insertIdenticalKey rand = some (id, next)) :
    next.nodesMade = list.nodesMade + 1 ∧ ∃ nLevel,
      next.node = Function.update list.node list.nodesMade (some ⟨nLevel, pData, key⟩) := by
  obtain ⟨forward, searched, run⟩ := bind_eq_some_iff.mp run
  obtain ⟨identical, tested, run⟩ := bind_eq_some_iff.mp run
  have passed := search_passed searched (fun _ _ same => nomatch same)
    fun _ isPlace => nomatch isPlace
  obtain rfl := identicalNode_passed passed tested
  obtain ⟨linked, inserted, run⟩ := bind_eq_some_iff.mp run
  obtain ⟨nodes, made⟩ := Prod.mk.inj (insertLevels_nodes _ inserted)
  cases run
  obtain ⟨oldNodes, oldMade⟩ := Prod.mk.inj (@level_nodes _ list rand)
  refine ⟨made.trans (congrArg (· + 1) oldMade), (getSkipListNodeLevel list rand).1, ?_⟩
  rw [<- oldNodes, <- oldMade]
  exact nodes

def DistinctKeys (list : TSkipList Data) : Prop :=
  ∀ id other node otherNode, list.node id = some node -> list.node other = some otherNode ->
    node.key = otherNode.key -> id = other

/-- Along a run the keys are distinct, and a put of a key that is there returns its node
and leaves the list as it is. -/
def AlwaysDistinct : TSkipList Data -> List (Data × Int × (Nat -> Nat)) -> Prop
  | list, [] => DistinctKeys list
  | list, (pData, key, rand) :: puts => DistinctKeys list ∧
      (∀ id node, list.node id = some node -> node.key = key ->
        tSkipListPut list pData key 0 rand = some (id, list)) ∧
      ∀ id next, tSkipListPut list pData key 0 rand = some (id, next) ->
        AlwaysDistinct next puts

def AlwaysNewKey : TSkipList Data -> List (Data × Int × (Nat -> Nat)) -> Prop
  | _, [] => True
  | list, (pData, key, rand) :: puts =>
      (∀ id node, list.node id = some node -> node.key ≠ key) ∧
      ∀ id next, tSkipListPut list pData key 0 rand = some (id, next) -> AlwaysNewKey next puts

theorem DistinctKeys.put
    (distinct : DistinctKeys list) (isNew : ∀ id node, list.node id = some node -> node.key ≠ key)
    (run : tSkipListPut list pData key 0 rand = some (id, next)) : DistinctKeys next := by
  obtain ⟨_, nLevel, nodes⟩ := put_nodes run
  intro one other node otherNode isNode isOther equal
  rw [nodes] at isNode isOther
  by_cases first : one = list.nodesMade
  · subst first
    rw [update_self] at isNode
    cases isNode
    by_contra apart
    rw [update_of_ne (Ne.symm apart)] at isOther
    exact isNew other otherNode isOther equal.symm
  · rw [update_of_ne first] at isNode
    by_cases second : other = list.nodesMade
    · subst second
      rw [update_self] at isOther
      cases isOther
      exact absurd equal (isNew one node isNode)
    · rw [update_of_ne second] at isOther
      exact distinct one other node otherNode isNode isOther equal

theorem distinct_iff_newKey (puts : List (Data × Int × (Nat -> Nat))) :
    ∀ {list : TSkipList Data}, DistinctKeys list ->
      (AlwaysDistinct list puts ↔ AlwaysNewKey list puts) := by
  induction puts with
  | nil => exact fun distinct => iff_of_true distinct trivial
  | cons put puts ih =>
    obtain ⟨pData, key, rand⟩ := put
    intro list distinct
    constructor
    · rintro ⟨_, returned, rest⟩
      have isNew : ∀ id node, list.node id = some node -> node.key ≠ key := by
        intro id node isNode same
        have more := (put_nodes (returned id node isNode same)).1
        exact absurd more (Nat.ne_of_lt (Nat.lt_succ_self _))
      exact ⟨isNew, fun id next run => (ih (distinct.put isNew run)).mp (rest id next run)⟩
    · rintro ⟨isNew, rest⟩
      refine ⟨distinct, fun id node isNode same => absurd same (isNew id node isNode), ?_⟩
      exact fun id next run => (ih (distinct.put isNew run)).mpr (rest id next run)

theorem created_distinct_iff (nMaxLevel : Nat) (puts : List (Data × Int × (Nat -> Nat))) :
    AlwaysDistinct (tSkipListCreate Data nMaxLevel) puts ↔
      AlwaysNewKey (tSkipListCreate Data nMaxLevel) puts :=
  distinct_iff_newKey puts fun _ _ _ _ isNode => nomatch isNode

/-- The second put of a key makes a second node. -/
theorem repeated_key_not_distinct :
    ¬ ∀ nMaxLevel puts, AlwaysDistinct (tSkipListCreate Unit nMaxLevel) puts := by
  intro always
  have repeated := always 20 [((), 1, fun _ => 1), ((), 1, fun _ => 1)]
  have run : ((tSkipListPut (tSkipListCreate Unit 20) () 1 0 fun _ => 1).bind fun first =>
      (first.2.node 0).map TSkipListNode.key) = some 1 := by decide
  obtain ⟨⟨id, first⟩, firstRun, isFirst⟩ := bind_eq_some_iff.mp run
  obtain ⟨node, isNode, same⟩ := Option.map_eq_some_iff.mp isFirst
  have returned := (repeated.2.2 id first firstRun).2.1 0 node isNode same
  exact absurd (put_nodes returned).1 (Nat.ne_of_lt (Nat.lt_succ_self _))

end Luomi.SkipList
