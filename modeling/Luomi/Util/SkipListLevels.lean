import Luomi.Util.SkipList

/-!
# The levels of a skip list

The nodes of a skip list are in a chain, ordered by their keys, and each level
links those nodes of the chain that reach it.  A search finds at each level the
last node with a smaller key; there the loops of an insert link a node in, and
the loops of a removal link the next node out.
-/

namespace Luomi.SkipList

open LinkedPath
open Function (update update_idem update_of_ne update_self)
open List (mem_cons mem_cons_self)
open Option (bind_eq_bind bind_some)

section Levels

variable {Data : Type}

def keyOf (list : TSkipList Data) (id : Nat) : Int :=
  ((list.node id).map TSkipListNode.key).getD 0

def levelList (list : TSkipList Data) (chain : List Nat) (i : Nat) : List Nat :=
  chain.filter fun id => i < levelsOf list (.node id)

/-- A list whose nodes, the allocated ones, are a chain in the order of their keys,
and whose levels link sub-lists of it. -/
structure Ordered (list : TSkipList Data) (chain : List Nat) : Prop where
  live : ∀ id, id ∈ chain ↔ list.node id ≠ none
  distinct : chain.Nodup
  sorted : chain.Pairwise fun left right => keyOf list left ≤ keyOf list right
  paths : ∀ i < maxSkipListLevel,
    Path (list.pForward i) (list.pBackward i) .head (levelList list chain i)
  size : list.nSize = chain.length
  levels : ∀ id ∈ chain, 1 ≤ levelsOf list (.node id) ∧ levelsOf list (.node id) ≤ list.nLevel
  top : list.nLevel ≤ list.nMaxLevel
  room : 1 ≤ list.nMaxLevel ∧ list.nMaxLevel ≤ maxSkipListLevel
  made : ∀ id ∈ chain, id < list.nodesMade

variable {list : TSkipList Data} {chain front rest : List Nat} {key : Int}

theorem levelList_append (list : TSkipList Data) (front rest : List Nat) (i : Nat) :
    levelList list (front ++ rest) i = levelList list front i ++ levelList list rest i :=
  List.filter_append _ _

variable {i id : Nat}

theorem mem_levelList :
    id ∈ levelList list chain i ↔ id ∈ chain ∧ i < levelsOf list (.node id) := by
  rw [levelList, List.mem_filter, decide_eq_true_iff]

theorem node_of_levels (reaches : i < levelsOf list (.node id)) :
    ∃ node, list.node id = some node ∧ i < node.nLevel ∧ keyOf list id = node.key := by
  rw [levelsOf] at reaches
  cases found : list.node id with
  | none =>
    rw [found] at reaches
    exact absurd reaches (Nat.not_lt_zero _)
  | some node =>
    rw [found] at reaches
    refine ⟨node, rfl, reaches, ?_⟩
    rw [keyOf, found]
    rfl

theorem walk_spec {place : Ref Nat} {fuel : Nat}
    (path : Path (list.pForward i) (list.pBackward i) place (front ++ rest))
    (owns : i < levelsOf list place) (reach : ∀ id ∈ front ++ rest, i < levelsOf list (.node id))
    (below : ∀ id ∈ front, keyOf list id < key) (above : ∀ id ∈ rest, key ≤ keyOf list id)
    (enough : front.length < fuel) : walk list key i fuel place = some (endOf place front) := by
  induction front generalizing place fuel with
  | nil =>
    obtain ⟨less, rfl⟩ : ∃ less, fuel = less + 1 := ⟨fuel - 1, by omega⟩
    rw [walk, getForward, if_pos owns]
    cases rest with
    | nil =>
      have stop : list.pForward i place = none := path
      rw [stop]
      rfl
    | cons id rest =>
      obtain ⟨node, found, -, own⟩ := node_of_levels (reach id mem_cons_self)
      have notBelow : ¬ node.key < key := by
        rw [<- own]
        exact not_lt.mpr (above id mem_cons_self)
      rw [path.1]
      simp only [bind_eq_bind, bind_some, found]
      rw [if_neg notBelow]
      rfl
  | cons id front ih =>
    obtain ⟨less, rfl⟩ : ∃ less, fuel = less + 1 := ⟨fuel - 1, by omega⟩
    have reaches := reach id mem_cons_self
    obtain ⟨node, found, -, own⟩ := node_of_levels reaches
    have isBelow : node.key < key := by
      rw [<- own]
      exact below id mem_cons_self
    obtain ⟨forward, -, later⟩ := path
    rw [walk, getForward, if_pos owns, forward]
    simp only [bind_eq_bind, bind_some, found]
    rw [if_pos isBelow, endOf]
    apply ih later reaches
    · exact fun other member => reach other (List.mem_cons_of_mem _ member)
    · exact fun other member => below other (List.mem_cons_of_mem _ member)
    · exact Nat.lt_of_succ_lt_succ enough

theorem Ordered.length_le (ordered : Ordered list chain) : chain.length ≤ list.nodesMade := by
  have inside : chain ⊆ List.range list.nodesMade :=
    fun id member => List.mem_range.mpr (ordered.made id member)
  have short := (ordered.distinct.subperm inside).length_le
  rwa [List.length_range] at short

def placeAt (list : TSkipList Data) (front : List Nat) (i : Nat) : Ref Nat :=
  endOf .head (levelList list front i)

theorem search_spec (ordered : Ordered list (front ++ rest))
    (below : ∀ id ∈ front, keyOf list id < key) (above : ∀ id ∈ rest, key ≤ keyOf list id)
    (i : Nat) : ∀ {px : Ref Nat} {forward : Places}, i ≤ maxSkipListLevel ->
      (px = .head ∨ ∃ id ∈ front, px = .node id ∧ i ≤ levelsOf list (.node id)) ->
      search list key i px forward =
        some fun j => if j < i then some (placeAt list front j) else forward j := by
  induction i with
  | zero =>
    intro px forward _ _
    exact congrArg some (funext fun j => (if_neg (Nat.not_lt_zero j)).symm)
  | succ i ih =>
    intro px forward inside start
    have path := ordered.paths i inside
    rw [levelList_append] at path
    -- the part of the level the search has passed already
    obtain ⟨passed, ahead, split, atPx⟩ : ∃ passed ahead,
        levelList list front i = passed ++ ahead ∧ endOf .head passed = px := by
      rcases start with rfl | ⟨id, member, rfl, reaches⟩
      · exact ⟨[], _, rfl, rfl⟩
      · obtain ⟨passed, ahead, split⟩ :=
          List.append_of_mem (mem_levelList.mpr ⟨member, reaches⟩)
        refine ⟨passed ++ [id], ahead, ?_, ?_⟩
        · rw [split, List.append_assoc]
          rfl
        · rw [endOf_append]
          rfl
    have owns : i < levelsOf list px := by
      rcases start with rfl | ⟨id, member, rfl, reaches⟩
      · exact inside
      · exact reaches
    rw [split, List.append_assoc] at path
    have behind := path.behind
    rw [atPx] at behind
    have subset : ∀ id ∈ ahead, id ∈ front ∧ i < levelsOf list (.node id) := by
      intro id member
      apply mem_levelList.mp
      rw [split]
      exact List.mem_append_right _ member
    have length : ahead.length < list.nodesMade + 1 := by
      have whole := ordered.length_le
      have part : (levelList list front i).length ≤ front.length := List.length_filter_le _ _
      rw [split, List.length_append] at part
      rw [List.length_append] at whole
      omega
    have step : walk list key i (list.nodesMade + 1) px = some (placeAt list front i) := by
      have stop : placeAt list front i = endOf px ahead := by
        rw [placeAt, split, endOf_append, atPx]
      rw [stop]
      apply walk_spec behind owns _ _ _ length
      · intro id member
        rcases List.mem_append.mp member with early | late
        · exact (subset id early).2
        · exact (mem_levelList.mp late).2
      · exact fun id member => below id (subset id member).1
      · exact fun id member => above id (mem_levelList.mp member).1
    rw [search, step]
    simp only [bind_eq_bind, bind_some]
    rw [ih (Nat.le_of_succ_le inside)]
    · refine congrArg some (funext fun j => ?_)
      rcases Nat.lt_trichotomy j i with less | rfl | more
      · rw [if_pos less, if_pos (Nat.lt_succ_of_lt less)]
      · rw [if_neg (Nat.lt_irrefl j), if_pos (Nat.lt_succ_self j), update_self]
      · rw [if_neg (Nat.lt_asymm more), if_neg (Nat.not_lt.mpr more),
          update_of_ne (Nat.ne_of_gt more)]
    · rcases endOf_mem .head (levelList list front i) with same | ⟨id, member, same⟩
      · exact Or.inl same
      · obtain ⟨inFront, reaches⟩ := mem_levelList.mp member
        exact Or.inr ⟨id, inFront, same, Nat.le_of_lt reaches⟩

def withLevel (list : TSkipList Data) (i : Nat) (next : Ref Nat -> Option Nat)
    (back : Nat -> Option (Ref Nat)) : TSkipList Data :=
  { list with
    pForward := update list.pForward i next
    pBackward := update list.pBackward i back }

def withLevels (list : TSkipList Data) (inside : Nat -> Prop) [DecidablePred inside]
    (next : Nat -> Ref Nat -> Option Nat) (back : Nat -> Nat -> Option (Ref Nat)) : TSkipList Data :=
  { list with
    pForward := fun i => if inside i then next i else list.pForward i
    pBackward := fun i => if inside i then back i else list.pBackward i }

theorem foldlM_levels {step : TSkipList Data -> Nat -> Option (TSkipList Data)}
    {next : Nat -> Ref Nat -> Option Nat} {back : Nat -> Nat -> Option (Ref Nat)} (levels : List Nat) :
    ∀ {list : TSkipList Data}, levels.Nodup ->
      (∀ i ∈ levels, ∀ current : TSkipList Data, current.node = list.node ->
        current.pForward i = list.pForward i -> current.pBackward i = list.pBackward i ->
        step current i = some (withLevel current i (next i) (back i))) ->
      levels.foldlM step list = some (withLevels list (fun i => i ∈ levels) next back) := by
  induction levels with
  | nil =>
    intro list _ _
    have same : withLevels list (fun i => i ∈ ([] : List Nat)) next back = list := by
      simp [withLevels]
    rw [same]
    rfl
  | cons i levels ih =>
    intro list distinct turns
    obtain ⟨fresh, laterDistinct⟩ := List.nodup_cons.mp distinct
    rw [List.foldlM_cons, turns i mem_cons_self list rfl rfl rfl]
    simp only [bind_eq_bind, bind_some]
    rw [ih laterDistinct]
    · refine congrArg some ?_
      have nexts : (fun j => if j ∈ levels then next j else
          update list.pForward i (next i) j) =
          fun j => if j ∈ i :: levels then next j else list.pForward j := by
        funext j
        by_cases same : j = i
        · subst same
          rw [if_neg fresh, if_pos mem_cons_self, update_self]
        · rw [update_of_ne same]
          simp only [mem_cons, same, false_or]
      have backs : (fun j => if j ∈ levels then back j else
          update list.pBackward i (back i) j) =
          fun j => if j ∈ i :: levels then back j else list.pBackward j := by
        funext j
        by_cases same : j = i
        · subst same
          rw [if_neg fresh, if_pos mem_cons_self, update_self]
        · rw [update_of_ne same]
          simp only [mem_cons, same, false_or]
      simp only [withLevels, withLevel, nexts, backs]
    · intro j member current nodes forward backward
      have differs : j ≠ i := fun same => fresh (same ▸ member)
      apply turns j (List.mem_cons_of_mem _ member) current nodes
      · exact forward.trans (update_of_ne differs _ _)
      · exact backward.trans (update_of_ne differs _ _)

variable {forward : Places} {x : Ref Nat}

theorem insertLevel_behind
    (inside : i < maxSkipListLevel) (found : forward i = some x) (owns : i < levelsOf list x)
    (own : i < levelsOf list (.node id))
    (next : ∀ later, list.pForward i x = some later -> i < levelsOf list (.node later)) :
    insertLevel forward id list i = some (withLevel list i (linkNext (list.pForward i) x id)
      (linkBack (list.pForward i) (list.pBackward i) x id)) := by
  have levels : ∀ (place : Ref Nat) (pForward : Nat -> Ref Nat -> Option Nat)
      (pBackward : Nat -> Nat -> Option (Ref Nat)),
      levelsOf { list with pForward := pForward, pBackward := pBackward } place =
        levelsOf list place := fun place _ _ => by cases place <;> rfl
  rw [insertLevel, if_neg (not_le.mpr inside), found]
  simp only [setBackward, getForward, setForward, if_pos own, bind_eq_bind,
    bind_some, levels, if_pos owns]
  cases target : list.pForward i x with
  | none =>
    simp only [target, update_self, update_idem, linkNext, linkBack, withLevel]
  | some later =>
    simp only [bind_some, levels, if_pos owns, if_pos own, if_pos (next later target),
      target, update_self, update_idem, linkNext, linkBack, withLevel]

theorem insertLevel_head (inside : i < maxSkipListLevel)
    (missing : forward i = none) (own : i < levelsOf list (.node id))
    (empty : list.pForward i .head = none) (null : list.pForward i (.node id) = none) :
    insertLevel forward id list i = some (withLevel list i (linkNext (list.pForward i) .head id)
      (linkBack (list.pForward i) (list.pBackward i) .head id)) := by
  have levels : ∀ (place : Ref Nat) (pForward : Nat -> Ref Nat -> Option Nat),
      levelsOf { list with pForward := pForward } place = levelsOf list place :=
    fun place _ => by cases place <;> rfl
  have same : update (list.pForward i) (.node id) none = list.pForward i :=
    Function.update_eq_self_iff.mpr null.symm
  have head : i < levelsOf list .head := inside
  rw [insertLevel, if_neg (not_le.mpr inside), missing]
  simp only [setForward, if_pos head, bind_eq_bind, bind_some, setBackward, levels,
    if_pos own, linkNext, linkBack, empty, same, withLevel]

theorem removeLevel_behind {j : Nat}
    (found : forward j = some x) (owns : j < levelsOf list x) (own : j < levelsOf list (.node id))
    (first : list.pForward j x = some id)
    (next : ∀ later, list.pForward j (.node id) = some later -> j < levelsOf list (.node later)) :
    removeLevel forward list j = some (withLevel list j (unlinkNext (list.pForward j) x id)
      (unlinkBack (list.pForward j) (list.pBackward j) x id)) := by
  have levels : ∀ (place : Ref Nat) (pBackward : Nat -> Nat -> Option (Ref Nat)),
      levelsOf { list with pBackward := pBackward } place = levelsOf list place :=
    fun place _ => by cases place <;> rfl
  rw [removeLevel, found]
  simp only [bind_eq_bind, bind_some, getForward, if_pos owns, first, if_pos own]
  cases target : list.pForward j (.node id) with
  | none =>
    simp only [setForward, if_pos owns, unlinkNext, unlinkBack, target, withLevel,
      Function.update_eq_self]
  | some later =>
    simp only [bind_some, setForward, setBackward, if_pos (next later target), levels,
      if_pos owns, unlinkNext, unlinkBack, target, withLevel]

end Levels

end Luomi.SkipList
