import Luomi.Util.SkipListLevels

/-!
# Runs of a skip list

Every operation keeps the chain of a skip list and its levels in order, as long
as a node that is put in gets no more levels than the list can have.  A height
above `nMaxLevel` is not cut down once the list has all its levels.
-/

namespace Luomi.SkipList

open LinkedPath
open List (append_nil mem_append mem_append_left mem_append_right mem_cons mem_cons_self
  mem_range mem_reverse not_mem_nil pairwise_cons)
open Function (update update_of_ne update_self)
open Option (bind_eq_bind bind_some map_eq_some_iff some_ne_none)

section Runs

variable {Data : Type}

def Clamped (list : TSkipList Data) : Op Data -> Prop
  | .put _ _ _ rand => list.nSize = 0 ∨ getSkipListNodeRandomHeight rand ≤ list.nLevel ∨
      list.nLevel < list.nMaxLevel
  | .remove _ => True
  | .removeNode _ => True

def Effect (list : TSkipList Data) (op : Op Data) (next : TSkipList Data) : Prop :=
  match op with
  | .put pData key _ _ => ∃ id nLevel, list.node id = none ∧
      next.node = update list.node id (some ⟨nLevel, pData, key⟩)
  | .remove key =>
    (∃ id node, list.node id = some node ∧ node.key = key ∧ next.node = update list.node id none) ∨
    next = list ∧ ∀ id node, list.node id = some node -> node.key ≠ key
  | .removeNode pNode => list.node pNode ≠ none ∧ next.node = update list.node pNode none

variable {list next : TSkipList Data} {chain front rest : List Nat} {key : Int}

theorem Ordered.split (ordered : Ordered list chain) (key : Int) :
    ∃ front rest, chain = front ++ rest ∧ (∀ id ∈ front, keyOf list id < key) ∧
      ∀ id ∈ rest, key ≤ keyOf list id := by
  have sorted := ordered.sorted
  clear ordered
  induction chain with
  | nil => exact ⟨[], [], rfl, by simp, by simp⟩
  | cons id chain ih =>
    obtain ⟨first, later⟩ := pairwise_cons.mp sorted
    by_cases below : keyOf list id < key
    · obtain ⟨front, rest, rfl, fronts, rests⟩ := ih later
      refine ⟨id :: front, rest, rfl, ?_, rests⟩
      intro other member
      rcases mem_cons.mp member with rfl | inFront
      · exact below
      · exact fronts other inFront
    · refine ⟨[], id :: chain, rfl, by simp, ?_⟩
      intro other member
      rcases mem_cons.mp member with rfl | inChain
      · exact not_lt.mp below
      · exact le_trans (not_lt.mp below) (first other inChain)

variable {i : Nat}

theorem Ordered.reaches_lt (ordered : Ordered list chain) {id : Nat}
    (reaches : i < levelsOf list (.node id)) : id ∈ chain ∧ i < list.nLevel := by
  obtain ⟨node, found, -⟩ := node_of_levels reaches
  have member : id ∈ chain := (ordered.live id).mpr (by rw [found]; exact some_ne_none node)
  exact ⟨member, lt_of_lt_of_le reaches (ordered.levels id member).2⟩

theorem Ordered.levelList_eq_nil (ordered : Ordered list chain) (above : list.nLevel ≤ i)
    (part : List Nat) : levelList list part i = [] := by
  rw [List.eq_nil_iff_forall_not_mem]
  intro id member
  have below := (ordered.reaches_lt (mem_levelList.mp member).2).2
  omega

theorem placeAt_owns (inside : i < maxSkipListLevel) (front : List Nat) :
    i < levelsOf list (placeAt list front i) := by
  rcases endOf_mem .head (levelList list front i) with same | ⟨id, member, same⟩
  · rw [placeAt, same]
    exact inside
  · rw [placeAt, same]
    exact (mem_levelList.mp member).2

def found (list : TSkipList Data) (front : List Nat) : Places :=
  fun j => if j < list.nLevel then some (placeAt list front j) else none

theorem Ordered.search (ordered : Ordered list (front ++ rest))
    (below : ∀ id ∈ front, keyOf list id < key) (above : ∀ id ∈ rest, key ≤ keyOf list id) :
    SkipList.search list key list.nLevel .head (fun _ => none) = some (found list front) :=
  search_spec ordered below above list.nLevel (le_trans ordered.top ordered.room.2) (Or.inl rfl)

theorem heightFrom_bounds (rand : Nat -> Nat) (left n : Nat) :
    n ≤ heightFrom rand left n ∧ heightFrom rand left n ≤ n + left := by
  induction left generalizing n with
  | zero => exact ⟨le_rfl, le_rfl⟩
  | succ left ih =>
    rw [heightFrom]
    split
    · have later := ih (n + 1)
      omega
    · omega

variable {rand : Nat -> Nat}

theorem getSkipListNodeLevel_fits (ordered : Ordered list chain)
    (clamped : list.nSize = 0 ∨ getSkipListNodeRandomHeight rand ≤ list.nLevel ∨
      list.nLevel < list.nMaxLevel) :
    ∃ nLevel top, getSkipListNodeLevel list rand = (nLevel, { list with nLevel := top }) ∧
      1 ≤ nLevel ∧ nLevel ≤ top ∧ top ≤ list.nMaxLevel ∧ (chain = [] ∨ list.nLevel ≤ top) := by
  have positive : 1 ≤ getSkipListNodeRandomHeight rand := (heightFrom_bounds rand _ 1).1
  have room := ordered.room
  unfold getSkipListNodeLevel
  simp only
  by_cases empty : list.nSize = 0
  · have nothing : chain = [] := List.eq_nil_of_length_eq_zero (ordered.size.symm.trans empty)
    rw [if_pos empty]
    exact ⟨1, 1, rfl, le_rfl, le_rfl, room.1, Or.inl nothing⟩
  · rw [if_neg empty]
    by_cases grows : list.nLevel < getSkipListNodeRandomHeight rand ∧ list.nLevel < list.nMaxLevel
    · rw [if_pos grows]
      exact ⟨_, _, rfl, Nat.succ_pos _, le_rfl, grows.2, Or.inr (Nat.le_succ _)⟩
    · rw [if_neg grows]
      refine ⟨_, list.nLevel, rfl, positive, ?_, ordered.top, Or.inr le_rfl⟩
      rcases clamped with none' | low | more
      · exact absurd none' empty
      · exact low
      · exact not_lt.mp fun above => grows ⟨above, more⟩

section Insert

variable (ordered : Ordered list (front ++ rest)) {nLevel top : Nat} {pData : Data}
include ordered

theorem created_facts : (∀ id ∈ front ++ rest,
      levelsOf (tSkipListCreateNode { list with nLevel := top } ⟨nLevel, pData, key⟩).2 (.node id) =
          levelsOf list (.node id) ∧
        keyOf (tSkipListCreateNode { list with nLevel := top } ⟨nLevel, pData, key⟩).2 id =
          keyOf list id) ∧
      list.nodesMade ∉ front ++ rest ∧
      ∀ i < maxSkipListLevel,
        Path ((tSkipListCreateNode { list with nLevel := top } ⟨nLevel, pData, key⟩).2.pForward i)
          ((tSkipListCreateNode { list with nLevel := top } ⟨nLevel, pData, key⟩).2.pBackward i)
          .head (levelList list (front ++ rest) i) := by
  have older : ∀ id ∈ front ++ rest, id ≠ list.nodesMade :=
    fun id member => Nat.ne_of_lt (ordered.made id member)
  refine ⟨?_, fun member => older _ member rfl, ?_⟩
  · intro id member
    simp only [tSkipListCreateNode, levelsOf, keyOf, update_of_ne (older id member), and_self]
  · intro i inside
    apply (ordered.paths i inside).congr
    · simp only [tSkipListCreateNode, update_of_ne (head_ne_node list.nodesMade)]
    · intro id member
      refine update_of_ne ?_ _ _
      intro same
      cases same
      exact older _ (mem_levelList.mp member).1 rfl
    · intro id member
      exact update_of_ne (older id (mem_levelList.mp member).1) _ _

theorem doInsert_eq (low : nLevel ≤ top) (room : top ≤ list.nMaxLevel) :
    tSkipListDoInsert (tSkipListCreateNode { list with nLevel := top } ⟨nLevel, pData, key⟩).2
      (found list front) nLevel list.nodesMade =
      some (withLevels (tSkipListCreateNode { list with nLevel := top } ⟨nLevel, pData, key⟩).2
        (fun i => i ∈ List.range nLevel) (fun i => linkNext
          ((tSkipListCreateNode { list with nLevel := top } ⟨nLevel, pData, key⟩).2.pForward i)
          (placeAt list front i) list.nodesMade) (fun i => linkBack
          ((tSkipListCreateNode { list with nLevel := top } ⟨nLevel, pData, key⟩).2.pForward i)
          ((tSkipListCreateNode { list with nLevel := top } ⟨nLevel, pData, key⟩).2.pBackward i)
          (placeAt list front i) list.nodesMade)) := by
  obtain ⟨old, fresh, paths⟩ := @created_facts _ _ _ _ key ordered nLevel top pData
  refine foldlM_levels (List.range nLevel) List.nodup_range ?_
  intro i member current nodes forward backward
  have inside : i < maxSkipListLevel :=
    lt_of_lt_of_le (mem_range.mp member) (le_trans low (le_trans room ordered.room.2))
  have levels : ∀ place, levelsOf current place =
      levelsOf (tSkipListCreateNode { list with nLevel := top } ⟨nLevel, pData, key⟩).2 place := by
    intro place
    cases place with
    | head => rfl
    | node id => rw [levelsOf, levelsOf, nodes]
  have own : i < levelsOf current (.node list.nodesMade) := by
    rw [levels]
    simp only [tSkipListCreateNode, levelsOf, update_self, Option.map_some, Option.getD_some]
    exact mem_range.mp member
  have path := paths i inside
  by_cases searched : i < list.nLevel
  · have atPlace : found list front i = some (placeAt list front i) := if_pos searched
    rw [levelList_append] at path
    have behind := path.behind
    have owns : i < levelsOf current (placeAt list front i) := by
      rw [levels]
      rcases endOf_mem .head (levelList list front i) with same | ⟨id, inFront, same⟩
      · rw [placeAt, same]
        exact inside
      · obtain ⟨here, reaches⟩ := mem_levelList.mp inFront
        rw [placeAt, same, (old id (mem_append_left _ here)).1]
        exact reaches
    rw [insertLevel_behind inside atPlace owns own, forward, backward]
    intro later isNext
    rw [forward] at isNext
    have reached : later ∈ levelList list rest i := by
      cases split : levelList list rest i with
      | nil =>
        rw [split] at behind
        have stop := behind.symm.trans isNext
        cases stop
      | cons id others =>
        rw [split] at behind
        have first := behind.1.symm.trans isNext
        cases first
        exact mem_cons_self
    obtain ⟨here, reaches⟩ := mem_levelList.mp reached
    rw [levels, (old later (mem_append_right _ here)).1]
    exact reaches
  · have missing : found list front i = none := if_neg searched
    have nothing := ordered.levelList_eq_nil (not_lt.mp searched)
    have atHead : placeAt list front i = .head := by
      rw [placeAt, nothing]
      rfl
    rw [nothing] at path
    rw [insertLevel_head inside missing own, forward, backward, atHead]
    · rw [forward]
      exact path
    · rw [forward]
      exact update_self _ _ _

theorem Ordered.inserted {final : TSkipList Data} (below : ∀ id ∈ front, keyOf list id < key)
    (above : ∀ id ∈ rest, key ≤ keyOf list id) (positive : 1 ≤ nLevel) (low : nLevel ≤ top)
    (room : top ≤ list.nMaxLevel) (higher : front ++ rest = [] ∨ list.nLevel ≤ top)
    (nodes : final.node = update list.node list.nodesMade (some ⟨nLevel, pData, key⟩))
    (made : final.nodesMade = list.nodesMade + 1) (size : final.nSize = list.nSize + 1)
    (most : final.nMaxLevel = list.nMaxLevel) (tops : final.nLevel = top)
    (paths : ∀ i < maxSkipListLevel, Path (final.pForward i) (final.pBackward i) .head
      (levelList list front i ++ (if i < nLevel then [list.nodesMade] else []) ++
        levelList list rest i)) :
    Ordered final (front ++ list.nodesMade :: rest) := by
  have older : ∀ id ∈ front ++ rest, id ≠ list.nodesMade :=
    fun id member => Nat.ne_of_lt (ordered.made id member)
  have old : ∀ id ∈ front ++ rest,
      levelsOf final (.node id) = levelsOf list (.node id) ∧ keyOf final id = keyOf list id := by
    intro id member
    rw [levelsOf, levelsOf, keyOf, keyOf, nodes, update_of_ne (older id member)]
    exact ⟨rfl, rfl⟩
  have ownLevels : levelsOf final (.node list.nodesMade) = nLevel := by
    rw [levelsOf, nodes, update_self]
    rfl
  have ownKey : keyOf final list.nodesMade = key := by
    rw [keyOf, nodes, update_self]
    rfl
  have members : ∀ id, id ∈ front ++ list.nodesMade :: rest ↔
      id = list.nodesMade ∨ id ∈ front ++ rest := by
    intro id
    simp only [mem_append, mem_cons]
    tauto
  have part : ∀ i, ∀ nodes' : List Nat, nodes' ⊆ front ++ rest ->
      levelList final nodes' i = levelList list nodes' i := by
    intro i nodes' inside
    refine List.filter_congr fun id member => ?_
    rw [(old id (inside member)).1]
  refine ⟨?_, ?_, ?_, ?_, ?_, ?_, ?_, ?_, ?_⟩
  · intro id
    rw [members, nodes]
    by_cases same : id = list.nodesMade
    · rw [same, update_self]
      exact ⟨fun _ => some_ne_none _, fun _ => Or.inl rfl⟩
    · rw [update_of_ne same, <- ordered.live id]
      exact ⟨fun either => either.resolve_left same, Or.inr⟩
  · rw [List.nodup_middle, List.nodup_cons]
    exact ⟨fun member => older _ member rfl, ordered.distinct⟩
  · have sorted := ordered.sorted
    rw [List.pairwise_append] at sorted ⊢
    obtain ⟨frontSorted, restSorted, across⟩ := sorted
    refine ⟨?_, ?_, ?_⟩
    · refine frontSorted.imp_of_mem fun leftMember rightMember smaller => ?_
      rw [(old _ (mem_append_left rest leftMember)).2, (old _ (mem_append_left rest rightMember)).2]
      exact smaller
    · rw [pairwise_cons]
      constructor
      · intro id member
        rw [ownKey, (old id (mem_append_right _ member)).2]
        exact above id member
      · refine restSorted.imp_of_mem fun leftMember rightMember smaller => ?_
        rw [(old _ (mem_append_right front leftMember)).2,
          (old _ (mem_append_right front rightMember)).2]
        exact smaller
    · intro left leftMember right rightMember
      rw [(old left (mem_append_left _ leftMember)).2]
      rcases mem_cons.mp rightMember with rfl | inRest
      · rw [ownKey]
        exact le_of_lt (below left leftMember)
      · rw [(old right (mem_append_right _ inRest)).2]
        exact across left leftMember right inRest
  · intro i inside
    have split : levelList final (front ++ list.nodesMade :: rest) i =
        levelList list front i ++ (if i < nLevel then [list.nodesMade] else []) ++
          levelList list rest i := by
      have own : levelList final [list.nodesMade] i =
          if i < nLevel then [list.nodesMade] else [] := by
        rw [levelList, List.filter_singleton, ownLevels]
        by_cases reaches : i < nLevel <;> simp [reaches]
      rw [List.append_cons, levelList_append, levelList_append, own,
        part i front (List.subset_append_left _ _), part i rest (List.subset_append_right _ _)]
    rw [split]
    exact paths i inside
  · rw [size, ordered.size, List.length_append, List.length_append, List.length_cons]
    rfl
  · intro id member
    rw [tops]
    rcases (members id).mp member with rfl | inChain
    · rw [ownLevels]
      exact ⟨positive, low⟩
    · rw [(old id inChain).1]
      obtain ⟨one, atMost⟩ := ordered.levels id inChain
      refine ⟨one, ?_⟩
      rcases higher with empty | above'
      · rw [empty] at inChain
        cases inChain
      · exact le_trans atMost above'
  · rw [tops, most]
    exact room
  · rw [most]
    exact ordered.room
  · intro id member
    rw [made]
    rcases (members id).mp member with rfl | inChain
    · exact Nat.lt_succ_self _
    · exact Nat.lt_succ_of_lt (ordered.made id inChain)

theorem insert_ordered (below : ∀ id ∈ front, keyOf list id < key)
    (above : ∀ id ∈ rest, key ≤ keyOf list id) (positive : 1 ≤ nLevel) (low : nLevel ≤ top)
    (room : top ≤ list.nMaxLevel) (higher : front ++ rest = [] ∨ list.nLevel ≤ top) :
    ∃ next, tSkipListDoInsert
        (tSkipListCreateNode { list with nLevel := top } ⟨nLevel, pData, key⟩).2
        (found list front) nLevel list.nodesMade = some next ∧
      Ordered { next with nSize := next.nSize + 1 } (front ++ list.nodesMade :: rest) ∧
      next.node = update list.node list.nodesMade (some ⟨nLevel, pData, key⟩) := by
  obtain ⟨-, fresh, paths⟩ := @created_facts _ _ _ _ key ordered nLevel top pData
  refine ⟨_, doInsert_eq ordered low room, ?_, rfl⟩
  refine @Ordered.inserted _ _ _ _ _ ordered nLevel top pData _ below above positive low room higher
    rfl rfl rfl rfl rfl ?_
  intro i inside
  have path := paths i inside
  rw [levelList_append] at path
  by_cases reaches : i < nLevel
  · have member : i ∈ List.range nLevel := mem_range.mpr reaches
    simp only [withLevels, if_pos member, if_pos reaches]
    rw [List.append_assoc, List.singleton_append]
    apply path.link
    · rw [<- levelList_append]
      exact ordered.distinct.filter _
    · exact fun _ _ => head_ne_node _
    · rw [<- levelList_append]
      exact fun inside => fresh (mem_levelList.mp inside).1
    · exact head_ne_node _
  · have notMember : ¬ i ∈ List.range nLevel := fun member => reaches (mem_range.mp member)
    simp only [withLevels, if_neg notMember, if_neg reaches, append_nil]
    exact path

end Insert

theorem identicalNode_eq (below : ∀ id ∈ front, keyOf list id < key) (insertIdenticalKey : Int) :
    identicalNode list (found list front) key insertIdenticalKey =
      if insertIdenticalKey = 0 ∧ list.nLevel = 0 then none else some none := by
  unfold identicalNode found
  by_cases looks : insertIdenticalKey = 0
  · by_cases some' : 0 < list.nLevel
    · have levels : ¬ (insertIdenticalKey = 0 ∧ list.nLevel = 0) := by omega
      rw [if_pos looks, if_pos some', if_neg levels]
      simp only [bind_eq_bind, bind_some]
      rcases endOf_mem .head (levelList list front 0) with same | ⟨id, member, same⟩
      · rw [placeAt, same]
        rfl
      · obtain ⟨inFront, reaches⟩ := mem_levelList.mp member
        obtain ⟨node, isNode, -, own⟩ := node_of_levels reaches
        have smaller := below id inFront
        have differs : ¬ node.key = key := by omega
        rw [placeAt, same]
        simp only [isNode, bind_some, if_neg differs]
        rfl
    · rw [if_pos looks, if_neg some', if_pos ⟨looks, Nat.eq_zero_of_not_pos some'⟩]
      rfl
  · rw [if_neg looks, if_neg fun both => looks both.1]

/-- What `tSkipListPut` does: without levels it fails to look for an identical key,
otherwise it puts a node in. -/
theorem put_spec (ordered : Ordered list chain) {pData : Data} {insertIdenticalKey : Int} (clamped : Clamped list (.put pData key insertIdenticalKey rand)) :
    (insertIdenticalKey = 0 ∧ list.nLevel = 0 ∧
      tSkipListPut list pData key insertIdenticalKey rand = none) ∨ ∃ next longer nLevel,
      tSkipListPut list pData key insertIdenticalKey rand = some (list.nodesMade, next) ∧
      Ordered next longer ∧
      next.node = update list.node list.nodesMade (some ⟨nLevel, pData, key⟩) := by
  obtain ⟨front, rest, rfl, below, above⟩ := ordered.split key
  obtain ⟨nLevel, top, drawn, positive, low, room, higher⟩ := getSkipListNodeLevel_fits ordered clamped
  obtain ⟨next, links, nextOrdered, nodes⟩ :=
    @insert_ordered _ _ _ _ key ordered nLevel top pData below above positive low room higher
  have looked := identicalNode_eq below insertIdenticalKey
  by_cases fails : insertIdenticalKey = 0 ∧ list.nLevel = 0
  · rw [if_pos fails] at looked
    refine Or.inl ⟨fails.1, fails.2, ?_⟩
    rw [tSkipListPut, ordered.search below above]
    simp only [bind_eq_bind, bind_some, looked]
    rfl
  · rw [if_neg fails] at looked
    refine Or.inr ⟨_, _, nLevel, ?_, nextOrdered, nodes⟩
    have created : (tSkipListCreateNode { list with nLevel := top } ⟨nLevel, pData, key⟩).1 =
        list.nodesMade := rfl
    rw [tSkipListPut, ordered.search below above]
    simp only [bind_eq_bind, bind_some, looked, drawn, created, links]
    rfl

theorem compress_le (list : TSkipList Data) (level : Nat) : compress list level ≤ level := by
  induction level with
  | zero => exact le_rfl
  | succ level ih =>
    rw [compress]
    split
    · exact le_trans ih (Nat.le_succ _)
    · exact le_rfl

theorem lt_compress {level : Nat} (below : i < level) (linked : list.pForward i .head ≠ none) :
    i < compress list level := by
  induction level with
  | zero => exact absurd below (Nat.not_lt_zero _)
  | succ level ih =>
    rw [compress]
    by_cases empty : list.pForward level .head = none
    · rw [if_pos empty]
      have differs : i ≠ level := fun same => linked (by rw [same]; exact empty)
      exact ih (by omega)
    · rw [if_neg empty]
      exact below

section Remove

variable {id : Nat} {node : TSkipListNode Data} {forward : Places}

section

variable (ordered : Ordered list (front ++ id :: rest))
include ordered

theorem Ordered.removed {before final : TSkipList Data}
    (nodes : final.node = update list.node id none)
    (made : final.nodesMade = list.nodesMade) (size : final.nSize = list.nSize - 1)
    (most : final.nMaxLevel = list.nMaxLevel) (tops : final.nLevel = compress before list.nLevel)
    (links : before.pForward = final.pForward)
    (paths : ∀ i < maxSkipListLevel, Path (final.pForward i) (final.pBackward i) .head
      (levelList list (front ++ rest) i)) : Ordered final (front ++ rest) := by
  have distinct := ordered.distinct
  rw [List.nodup_middle, List.nodup_cons] at distinct
  obtain ⟨gone, restDistinct⟩ := distinct
  have inside : ∀ other ∈ front ++ rest, other ∈ front ++ id :: rest := by
    intro other member
    simp only [mem_append, mem_cons] at member ⊢
    tauto
  have others : ∀ other ∈ front ++ rest, other ≠ id := fun other member same => gone (same ▸ member)
  have old : ∀ other ∈ front ++ rest, levelsOf final (.node other) = levelsOf list (.node other) ∧
      keyOf final other = keyOf list other := by
    intro other member
    rw [levelsOf, levelsOf, keyOf, keyOf, nodes, update_of_ne (others other member)]
    exact ⟨rfl, rfl⟩
  have same : ∀ i, levelList final (front ++ rest) i = levelList list (front ++ rest) i := by
    intro i
    refine List.filter_congr fun other member => ?_
    rw [(old other member).1]
  refine ⟨?_, restDistinct, ?_, ?_, ?_, ?_, ?_, ?_, ?_⟩
  · intro other
    rw [nodes]
    by_cases own : other = id
    · rw [own, update_self]
      exact ⟨fun member => absurd member gone, fun some' => absurd rfl some'⟩
    · rw [update_of_ne own, <- ordered.live other]
      simp only [mem_append, mem_cons]
      tauto
  · have sublist : (front ++ rest).Sublist (front ++ id :: rest) :=
      (List.Sublist.refl front).append (List.sublist_cons_self id rest)
    refine (ordered.sorted.sublist sublist).imp_of_mem fun leftMember rightMember smaller => ?_
    rw [(old _ leftMember).2, (old _ rightMember).2]
    exact smaller
  · intro i below
    rw [same]
    exact paths i below
  · rw [size, ordered.size, List.length_append, List.length_append, List.length_cons]
    omega
  · intro other member
    obtain ⟨one, atMost⟩ := ordered.levels other (inside other member)
    rw [(old other member).1]
    refine ⟨one, ?_⟩
    obtain ⟨level, reach⟩ : ∃ level, levelsOf list (.node other) = level + 1 :=
      ⟨levelsOf list (.node other) - 1, by omega⟩
    have top := le_trans ordered.top ordered.room.2
    have path := paths level (by omega)
    have reached : other ∈ levelList list (front ++ rest) level :=
      mem_levelList.mpr ⟨member, by omega⟩
    have linked : before.pForward level .head ≠ none := by
      rw [links]
      cases split : levelList list (front ++ rest) level with
      | nil =>
        rw [split] at reached
        cases reached
      | cons first later =>
        rw [split] at path
        rw [path.1]
        exact some_ne_none first
    rw [tops, reach]
    exact lt_compress (by omega) linked
  · rw [tops, most]
    exact le_trans (compress_le _ _) ordered.top
  · rw [most]
    exact ordered.room
  · intro other member
    rw [made]
    exact ordered.made other (inside other member)

section

variable (isNode : list.node id = some node)
  (places : ∀ j < node.nLevel, forward j = some (placeAt list front j))

include isNode places

theorem doRemove_ordered : ∃ next, doRemove list id forward = some next ∧
      Ordered { next with nLevel := compress next next.nLevel } (front ++ rest) ∧
      next.node = update list.node id none := by
  have ownLevels : levelsOf list (.node id) = node.nLevel := by
    rw [levelsOf, isNode]
    rfl
  have inChain : id ∈ front ++ id :: rest := by simp
  have top : node.nLevel ≤ maxSkipListLevel := by
    rw [<- ownLevels]
    exact le_trans (ordered.levels id inChain).2 (le_trans ordered.top ordered.room.2)
  have split : ∀ j < node.nLevel, levelList list (front ++ id :: rest) j =
      levelList list front j ++ id :: levelList list rest j := by
    intro j reaches
    rw [levelList_append, levelList, levelList, List.filter_cons_of_pos]
    · rfl
    · rw [decide_eq_true_iff, ownLevels]
      exact reaches
  have loop := @foldlM_levels _ (removeLevel forward)
    (fun j => unlinkNext (list.pForward j) (placeAt list front j) id)
    (fun j => unlinkBack (list.pForward j) (list.pBackward j) (placeAt list front j) id)
    (List.range node.nLevel).reverse list (List.nodup_reverse.mpr List.nodup_range) (by
      intro j member current nodes forwards backwards
      have reaches : j < node.nLevel := mem_range.mp (mem_reverse.mp member)
      have inside := lt_of_lt_of_le reaches top
      have levels : ∀ place, levelsOf current place = levelsOf list place := by
        intro place
        cases place with
        | head => rfl
        | node other => rw [levelsOf, levelsOf, nodes]
      have path := ordered.paths j inside
      rw [split j reaches] at path
      obtain ⟨first, -, behind⟩ := path.behind
      rw [removeLevel_behind (places j reaches), forwards, backwards]
      · rw [levels]
        exact placeAt_owns inside front
      · rw [levels, ownLevels]
        exact reaches
      · rw [forwards]
        exact first
      · intro later isNext
        rw [forwards] at isNext
        rw [levels]
        cases others : levelList list rest j with
        | nil =>
          rw [others] at behind
          have stop := behind.symm.trans isNext
          cases stop
        | cons other more =>
          rw [others] at behind
          have isOther := behind.1.symm.trans isNext
          cases isOther
          have reached : later ∈ levelList list rest j := by
            rw [others]
            exact mem_cons_self
          exact (mem_levelList.mp reached).2)
  rw [doRemove, isNode]
  simp only [bind_eq_bind, bind_some, loop]
  refine ⟨_, rfl, ?_, rfl⟩
  refine @Ordered.removed _ _ _ _ _ ordered _ _ rfl rfl rfl rfl rfl rfl ?_
  intro i inside
  have path := ordered.paths i inside
  by_cases reaches : i < node.nLevel
  · have member : i ∈ (List.range node.nLevel).reverse :=
      mem_reverse.mpr (mem_range.mpr reaches)
    rw [split i reaches] at path
    simp only [withLevels, if_pos member]
    rw [levelList_append]
    apply path.unlink
    · rw [<- split i reaches]
      exact ordered.distinct.filter _
    · exact fun _ _ => head_ne_node _
  · have notMember : ¬ i ∈ (List.range node.nLevel).reverse := fun member =>
      reaches (mem_range.mp (mem_reverse.mp member))
    have skipped : levelList list (front ++ id :: rest) i = levelList list (front ++ rest) i := by
      rw [levelList_append, levelList_append, levelList, levelList, levelList,
        List.filter_cons_of_neg]
      rw [decide_eq_true_iff, ownLevels]
      exact reaches
    rw [skipped] at path
    simp only [withLevels, if_neg notMember]
    exact path

theorem removeSupport_spec :
    (node.key = key ∧ ∃ next, removeSupport list forward key = some (true, next) ∧
      Ordered next (front ++ rest) ∧ next.node = update list.node id none) ∨
    node.key ≠ key ∧ removeSupport list forward key = some (false, list) := by
  have inChain : id ∈ front ++ id :: rest := by simp
  have reaches : 0 < levelsOf list (.node id) := (ordered.levels id inChain).1
  have positive : 0 < node.nLevel := by
    rw [levelsOf, isNode] at reaches
    exact reaches
  have first : getForward list 0 (placeAt list front 0) = some (some id) := by
    have path := ordered.paths 0 (by decide)
    have own : levelList list (id :: rest) 0 = id :: levelList list rest 0 :=
      List.filter_cons_of_pos (decide_eq_true reaches)
    rw [levelList_append, own] at path
    rw [getForward, if_pos (placeAt_owns (by decide) front)]
    exact congrArg some path.behind.1
  rw [removeSupport, places 0 positive]
  simp only [bind_eq_bind, bind_some, first, isNode]
  by_cases same : node.key = key
  · obtain ⟨next, run, nextOrdered, nodes⟩ := doRemove_ordered ordered isNode places
    left
    rw [if_pos same, run]
    exact ⟨same, _, rfl, nextOrdered, nodes⟩
  · right
    rw [if_neg same]
    exact ⟨same, rfl⟩

end

end

theorem remove_spec (ordered : Ordered list chain) (key : Int) :
    ((∀ id ∈ chain, keyOf list id < key) ∧ tSkipListRemove list key = none) ∨
    ∃ removed next shorter, tSkipListRemove list key = some (removed, next) ∧
      Ordered next shorter ∧ Effect list (.remove key) next := by
  obtain ⟨front, rest, rfl, below, above⟩ := ordered.split key
  rw [tSkipListRemove, ordered.search below above]
  simp only [bind_eq_bind, bind_some]
  cases rest with
  | nil =>
    left
    rw [append_nil] at ordered ⊢
    refine ⟨below, ?_⟩
    unfold removeSupport found
    by_cases some' : 0 < list.nLevel
    · have path := ordered.paths 0 (by decide)
      have stop : list.pForward 0 (placeAt list front 0) = none := by
        have whole : levelList list front 0 = levelList list front 0 ++ [] :=
          (append_nil _).symm
        rw [whole] at path
        exact path.behind
      have nothing : getForward list 0 (placeAt list front 0) = some none := by
        rw [getForward, if_pos (placeAt_owns (by decide) front), stop]
      rw [if_pos some']
      simp only [bind_eq_bind, bind_some, nothing]
      rfl
    · rw [if_neg some']
      rfl
  | cons id rest =>
    right
    have inChain : id ∈ front ++ id :: rest := by simp
    obtain ⟨one, atMost⟩ := ordered.levels id inChain
    obtain ⟨node, isNode, -, ownKey⟩ := node_of_levels one
    have ownLevels : levelsOf list (.node id) = node.nLevel := by
      rw [levelsOf, isNode]
      rfl
    have places : ∀ j < node.nLevel, found list front j = some (placeAt list front j) := by
      intro j reaches
      exact if_pos (by omega)
    rcases @removeSupport_spec _ _ _ _ key _ _ _ ordered isNode places with
      ⟨same, next, run, nextOrdered, nodes⟩ | ⟨differs, run⟩
    · exact ⟨true, next, _, run, nextOrdered, Or.inl ⟨id, node, isNode, same, nodes⟩⟩
    · refine ⟨false, list, _, run, ordered, Or.inr ⟨rfl, ?_⟩⟩
      -- every node behind has a larger key still
      intro other otherNode isOther equal
      have live : other ∈ front ++ id :: rest :=
        (ordered.live other).mpr (by rw [isOther]; exact some_ne_none _)
      have otherKey : keyOf list other = key := by
        rw [keyOf, isOther, <- equal]
        rfl
      have first := above id mem_cons_self
      have sorted := (List.pairwise_append.mp ordered.sorted).2.1
      have later := (pairwise_cons.mp sorted).1
      rcases mem_append.mp live with inFront | inRest
      · have smaller := below other inFront
        omega
      · rcases mem_cons.mp inRest with rfl | inRest
        · omega
        · have larger := later other inRest
          omega

theorem removeNode_spec (ordered : Ordered list chain) (isNode : list.node id = some node) :
    ∃ next shorter, tSkipListRemoveNode list id = some next ∧ Ordered next shorter ∧
      next.node = update list.node id none := by
  have inChain : id ∈ chain := (ordered.live id).mpr (by rw [isNode]; exact some_ne_none _)
  obtain ⟨front, rest, rfl⟩ := List.append_of_mem inChain
  have ownLevels : levelsOf list (.node id) = node.nLevel := by
    rw [levelsOf, isNode]
    rfl
  have places : ∀ j < node.nLevel,
      (if j < node.nLevel then list.pBackward j id else none) = some (placeAt list front j) := by
    intro j reaches
    have inside : j < maxSkipListLevel := by
      have atMost := (ordered.levels id inChain).2
      have top := le_trans ordered.top ordered.room.2
      omega
    have path := ordered.paths j inside
    have own : levelList list (id :: rest) j = id :: levelList list rest j :=
      List.filter_cons_of_pos (decide_eq_true (by rw [ownLevels]; exact reaches))
    rw [levelList_append, own] at path
    rw [if_pos reaches]
    exact path.behind.2.1
  rw [tSkipListRemoveNode, isNode]
  simp only [bind_eq_bind, bind_some]
  rcases @removeSupport_spec _ _ _ _ node.key _ _ _ ordered isNode places with
    ⟨-, next, run, nextOrdered, nodes⟩ | ⟨differs, -⟩
  · rw [run]
    exact ⟨next, _, rfl, nextOrdered, nodes⟩
  · exact absurd rfl differs

end Remove

/-- The allocated nodes are a chain in the order of their keys, and the levels are
its sub-lists. -/
def WellFormed (list : TSkipList Data) : Prop := ∃ chain, Ordered list chain

theorem create_wellFormed {nMaxLevel : Nat} (room : 1 ≤ nMaxLevel ∧ nMaxLevel ≤ maxSkipListLevel) :
    WellFormed (tSkipListCreate Data nMaxLevel) := by
  refine ⟨[], ?_, List.nodup_nil, List.Pairwise.nil, fun i _ => rfl, rfl, ?_, room.1, room, ?_⟩
  · intro id
    exact iff_of_false not_mem_nil fun live => live rfl
  all_goals exact fun id member => absurd member not_mem_nil

theorem step_wellFormed (wellFormed : WellFormed list) {op : Op Data} (clamped : Clamped list op)
    (run : runOp list op = some next) : WellFormed next ∧ Effect list op next := by
  obtain ⟨chain, ordered⟩ := wellFormed
  cases op with
  | put pData key insertIdenticalKey rand =>
    obtain ⟨⟨id, result⟩, put, same⟩ := map_eq_some_iff.mp run
    cases same
    rcases put_spec ordered clamped with ⟨-, -, fails⟩ | ⟨next, longer, nLevel, works, more, nodes⟩
    · rw [put] at fails
      cases fails
    · rw [put] at works
      cases works
      have fresh : list.node list.nodesMade = none := by
        by_contra live
        exact absurd (ordered.made _ ((ordered.live _).mpr live)) (Nat.lt_irrefl _)
      exact ⟨⟨longer, more⟩, list.nodesMade, nLevel, fresh, nodes⟩
  | remove key =>
    obtain ⟨⟨removed, result⟩, remove, same⟩ := map_eq_some_iff.mp run
    cases same
    rcases remove_spec ordered key with ⟨-, fails⟩ | ⟨removed, next, shorter, works, less, effect⟩
    · rw [remove] at fails
      cases fails
    · rw [remove] at works
      cases works
      exact ⟨⟨shorter, less⟩, effect⟩
  | removeNode pNode =>
    have remove : tSkipListRemoveNode list pNode = some next := run
    cases isNode : list.node pNode with
    | none =>
      rw [tSkipListRemoveNode, isNode] at remove
      cases remove
    | some node =>
      obtain ⟨result, shorter, works, less, nodes⟩ := removeNode_spec ordered isNode
      rw [remove] at works
      cases works
      exact ⟨⟨shorter, less⟩, by rw [isNode]; exact some_ne_none node, nodes⟩

/-- Along a run every height is cut down. -/
def AlwaysClamped : TSkipList Data -> List (Op Data) -> Prop
  | _, [] => True
  | list, op :: ops => Clamped list op ∧ ∀ next, runOp list op = some next -> AlwaysClamped next ops

def AlwaysWellFormed : TSkipList Data -> List (Op Data) -> Prop
  | list, [] => WellFormed list
  | list, op :: ops => WellFormed list ∧
      ∀ next, runOp list op = some next -> Effect list op next ∧ AlwaysWellFormed next ops

theorem alwaysWellFormed (ops : List (Op Data)) : ∀ {list : TSkipList Data}, WellFormed list ->
    AlwaysClamped list ops -> AlwaysWellFormed list ops := by
  induction ops with
  | nil => exact fun wellFormed _ => wellFormed
  | cons op ops ih =>
    intro list wellFormed clamped
    refine ⟨wellFormed, fun next run => ?_⟩
    obtain ⟨nextFormed, effect⟩ := step_wellFormed wellFormed clamped.1 run
    exact ⟨effect, ih nextFormed (clamped.2 next run)⟩

/-- Calls on a new list whose heights are all cut down. -/
structure ClampedRun (Data : Type) where
  nMaxLevel : Nat
  room : 1 ≤ nMaxLevel ∧ nMaxLevel ≤ maxSkipListLevel
  ops : List (Op Data)
  clamped : AlwaysClamped (tSkipListCreate Data nMaxLevel) ops

end Runs

end Luomi.SkipList
