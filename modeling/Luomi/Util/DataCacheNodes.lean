import Luomi.Util.DataCache

/-!
# What the steps of a data cache keep

A node is in the list of its hash value or in the trash.  Every function is shown to
have a result, and the result is as sound as the cache before.
-/

namespace Luomi.DataCache

open Function (update update_of_ne update_self)

structure Good (obj : SCacheObj) : Prop where
  positive : 0 < obj.maxSessions
  distinct : (hashNodes obj).Nodup
  once : obj.pTrash.Nodup
  placed : ∀ (hash pNode : Nat), pNode ∈ obj.hashList hash ↔
    ∃ node, obj.memory pNode = some node ∧ node.hashVal = hash
  trashed : ∀ pNode, pNode ∈ obj.pTrash ↔
    ∃ node, obj.memory pNode = some node ∧ node.hashVal = hashValueInTrash
  signed : ∀ pNode node, obj.memory pNode = some node ->
    node.signature = pNode ∧ pNode < obj.allocated
  hashed : ∀ pNode node, obj.memory pNode = some node -> node.hashVal ≠ hashValueInTrash ->
    node.hashVal = taosHashKey obj.maxSessions node.key
  keys : ∀ pNode node, obj.memory pNode = some node -> node.hashVal ≠ hashValueInTrash ->
    ∀ other otherNode, obj.memory other = some otherNode ->
      otherNode.hashVal ≠ hashValueInTrash -> node.key = otherNode.key -> pNode = other
  total : obj.total = (hashNodes obj).length
  totalSize : obj.totalSize = ((hashNodes obj).map (sizeOf obj.memory)).sum
  trash : obj.numOfElemsInTrash = obj.pTrash.length
  freed : ∀ entry ∈ obj.freed, entry.2 = 0

variable {obj : SCacheObj} {pNode : Nat} {node : SDataNode}

theorem taosHashKey_lt (positive : 0 < obj.maxSessions) (key : List UInt8) :
    taosHashKey obj.maxSessions key < obj.maxSessions := by
  have bound : taosHashKey obj.maxSessions key ≤ obj.maxSessions - 1 := Nat.and_le_right
  omega

theorem natCast_ne_inTrash (hash : Nat) : (hash : Int) ≠ hashValueInTrash := by
  unfold hashValueInTrash
  omega

theorem alive_iff {pList : List Nat} :
    alive obj pList = true ↔ ∀ pNode ∈ pList, ∃ node, obj.memory pNode = some node := by
  unfold alive
  rw [List.all_eq_true]
  apply forall₂_congr
  intro pNode _
  exact Option.isSome_iff_exists

theorem Good.alive_list (good : Good obj) (hash : Nat) : alive obj (obj.hashList hash) = true := by
  rw [alive_iff]
  intro pNode member
  obtain ⟨node, isNode, -⟩ := (good.placed hash pNode).mp member
  exact ⟨node, isNode⟩

theorem Good.alive_trash (good : Good obj) : alive obj obj.pTrash = true := by
  rw [alive_iff]
  intro pNode member
  obtain ⟨node, isNode, -⟩ := (good.trashed pNode).mp member
  exact ⟨node, isNode⟩

theorem Good.mem_hashNodes (good : Good obj) : pNode ∈ hashNodes obj ↔
    ∃ node, obj.memory pNode = some node ∧ node.hashVal ≠ hashValueInTrash := by
  unfold hashNodes
  rw [Buckets.mem_elements]
  constructor
  · rintro ⟨hash, -, member⟩
    obtain ⟨node, isNode, isHash⟩ := (good.placed hash pNode).mp member
    exact ⟨node, isNode, by rw [isHash]; exact natCast_ne_inTrash hash⟩
  · rintro ⟨node, isNode, outside⟩
    have isHash := good.hashed pNode node isNode outside
    exact ⟨_, taosHashKey_lt good.positive node.key,
      (good.placed _ pNode).mpr ⟨node, isNode, isHash⟩⟩

theorem Good.consistent (good : Good obj) : Consistent obj := by
  refine ⟨?_, good.total, good.totalSize, good.trash, good.freed⟩
  rw [List.nodup_map_iff_inj_on good.distinct]
  intro pNode member other otherMember same
  obtain ⟨node, isNode, outside⟩ := good.mem_hashNodes.mp member
  obtain ⟨otherNode, isOther, otherOutside⟩ := good.mem_hashNodes.mp otherMember
  unfold keyOf at same
  rw [isNode, isOther] at same
  exact good.keys pNode node isNode outside other otherNode isOther otherOutside
    (Option.some_inj.mp same)

theorem sizeOf_congr (memory changed : Nat -> Option SDataNode) (pList : List Nat)
    (same : ∀ pNode ∈ pList, changed pNode = memory pNode) :
    (pList.map (sizeOf changed)).sum = (pList.map (sizeOf memory)).sum := by
  have maps : pList.map (sizeOf changed) = pList.map (sizeOf memory) := by
    apply List.map_congr_left
    intro pNode member
    unfold sizeOf
    rw [same pNode member]
  rw [maps]

section

variable (good : Good obj)
include good

theorem Good.place (isNode : obj.memory pNode = some node)
    (outside : node.hashVal ≠ hashValueInTrash) :
    ∃ hash : Nat, hash < obj.maxSessions ∧ node.hashVal = hash ∧ node.hashVal.toNat = hash ∧
      hash = taosHashKey obj.maxSessions node.key ∧ pNode ∈ obj.hashList hash := by
  have isHash := good.hashed pNode node isNode outside
  refine ⟨_, taosHashKey_lt good.positive node.key, isHash, ?_, rfl, ?_⟩
  · rw [isHash, Int.toNat_natCast]
  · exact (good.placed _ pNode).mpr ⟨node, isNode, isHash⟩

theorem Good.counted (isNode : obj.memory pNode = some node)
    (refCount : UInt32) : Good (setNode obj pNode { node with refCount := refCount }) := by
  let changed := update obj.memory pNode (some { node with refCount := refCount })
  have back : ∀ x now, changed x = some now -> ∃ old, obj.memory x = some old ∧
      now = { old with refCount := now.refCount } := by
    intro x now isNow
    by_cases same : x = pNode
    · subst same
      simp only [changed, update_self, Option.some.injEq] at isNow
      exact ⟨node, isNode, by rw [<- isNow]⟩
    · simp only [changed, update_of_ne same] at isNow
      exact ⟨now, isNow, rfl⟩
  have forth : ∀ x old, obj.memory x = some old -> ∃ now, changed x = some now ∧
      now = { old with refCount := now.refCount } := by
    intro x old isOld
    by_cases same : x = pNode
    · subst same
      rw [isNode] at isOld
      cases isOld
      exact ⟨_, update_self _ _ _, rfl⟩
    · exact ⟨old, (update_of_ne same _ _).trans isOld, rfl⟩
  have found : ∀ x (hashVal : Int), (∃ now, changed x = some now ∧ now.hashVal = hashVal) ↔
      ∃ old, obj.memory x = some old ∧ old.hashVal = hashVal := by
    intro x hashVal
    constructor
    · rintro ⟨now, isNow, isHash⟩
      obtain ⟨old, isOld, same⟩ := back x now isNow
      rw [same] at isHash
      exact ⟨old, isOld, isHash⟩
    · rintro ⟨old, isOld, isHash⟩
      obtain ⟨now, isNow, same⟩ := forth x old isOld
      exact ⟨now, isNow, by rw [same]; exact isHash⟩
  refine ⟨good.positive, good.distinct, good.once, ?_, ?_, ?_, ?_, ?_, good.total, ?_,
    good.trash, good.freed⟩
  · intro hash x
    exact (good.placed hash x).trans (found x hash).symm
  · intro x
    exact (good.trashed x).trans (found x _).symm
  · intro x now isNow
    obtain ⟨old, isOld, same⟩ := back x now isNow
    rw [same]
    exact good.signed x old isOld
  · intro x now isNow
    obtain ⟨old, isOld, same⟩ := back x now isNow
    rw [same]
    exact good.hashed x old isOld
  · intro x now isNow outside y nowY isNowY outsideY
    obtain ⟨old, isOld, same⟩ := back x now isNow
    obtain ⟨oldY, isOldY, sameY⟩ := back y nowY isNowY
    rw [same] at outside ⊢
    rw [sameY] at outsideY ⊢
    exact good.keys x old isOld outside y oldY isOldY outsideY
  · have sizes : (hashNodes obj).map (sizeOf changed) =
        (hashNodes obj).map (sizeOf obj.memory) := by
      apply List.map_congr_left
      intro x _
      unfold sizeOf
      by_cases same : x = pNode
      · simp only [changed, same, update_self, isNode, Option.map_some]
      · simp only [changed, update_of_ne same]
    have sum := good.totalSize
    rw [<- sizes] at sum
    exact sum

theorem Good.leaves (other : SCacheObj) (isNode : obj.memory pNode = some node)
    (outside : node.hashVal ≠ hashValueInTrash)
    (sessions : other.maxSessions = obj.maxSessions)
    (lists : other.hashList = update obj.hashList node.hashVal.toNat
      ((obj.hashList node.hashVal.toNat).erase pNode))
    (total : other.total = obj.total - 1)
    (totalSize : other.totalSize = obj.totalSize - node.nodeSize.toNat)
    (allocated : other.allocated = obj.allocated)
    (elsewhere : ∀ x, x ≠ pNode -> other.memory x = obj.memory x)
    (freed : ∀ entry ∈ other.freed, entry.2 = 0)
    (own : other.memory pNode = none ∧ other.pTrash = obj.pTrash ∧
        other.numOfElemsInTrash = obj.numOfElemsInTrash ∨
      other.memory pNode = some { node with hashVal := hashValueInTrash } ∧
        other.pTrash = pNode :: obj.pTrash ∧
        other.numOfElemsInTrash = obj.numOfElemsInTrash + 1) :
    Good other ∧ (hashNodes obj).Perm (pNode :: hashNodes other) := by
  obtain ⟨hash, below, isHash, toHash, -, member⟩ := good.place isNode outside
  rw [toHash] at lists
  have perm : (hashNodes obj).Perm (pNode :: hashNodes other) := by
    unfold hashNodes
    rw [sessions]
    apply Buckets.elements_perm_cons below
    · rw [lists, update_self]
      exact List.perm_cons_erase member
    · intro another differs
      rw [lists, update_of_ne differs]
  obtain ⟨absent, distinct⟩ := List.nodup_cons.mp (perm.nodup_iff.mp good.distinct)
  -- what the node is afterwards is in no list
  have ownHash : ∀ now, other.memory pNode = some now -> now.hashVal = hashValueInTrash := by
    intro now isNow
    rcases own with ⟨gone, -⟩ | ⟨moved, -⟩
    · rw [gone] at isNow
      cases isNow
    · rw [moved] at isNow
      cases isNow
      rfl
  have notOwn : ∀ x now, other.memory x = some now -> now.hashVal ≠ hashValueInTrash ->
      x ≠ pNode := by
    intro x now isNow outsideNow same
    subst same
    exact outsideNow (ownHash now isNow)
  have notTrashed : pNode ∉ obj.pTrash := by
    intro inTrash
    obtain ⟨old, isOld, inside⟩ := (good.trashed pNode).mp inTrash
    rw [isNode] at isOld
    cases isOld
    exact outside inside
  refine ⟨⟨?_, distinct, ?_, ?_, ?_, ?_, ?_, ?_, ?_, ?_, ?_, freed⟩, perm⟩
  · rw [sessions]
    exact good.positive
  · rcases own with ⟨-, same, -⟩ | ⟨-, grown, -⟩
    · rw [same]
      exact good.once
    · rw [grown]
      exact List.nodup_cons.mpr ⟨notTrashed, good.once⟩
  · intro bucket x
    by_cases same : x = pNode
    · subst same
      apply iff_of_false
      · intro inList
        by_cases here : bucket = hash
        · apply absent
          unfold hashNodes
          rw [Buckets.mem_elements, sessions]
          exact ⟨bucket, by rw [here]; exact below, inList⟩
        · rw [lists, update_of_ne here] at inList
          obtain ⟨old, isOld, oldHash⟩ := (good.placed bucket x).mp inList
          rw [isNode] at isOld
          cases isOld
          exact here (Int.natCast_inj.mp (oldHash.symm.trans isHash))
      · rintro ⟨now, isNow, nowHash⟩
        exact natCast_ne_inTrash bucket (nowHash.symm.trans (ownHash now isNow))
    · rw [elsewhere x same, <- good.placed, lists]
      by_cases here : bucket = hash
      · rw [here, update_self, List.mem_erase_of_ne same]
      · rw [update_of_ne here]
  · intro x
    by_cases same : x = pNode
    · subst same
      rcases own with ⟨gone, sameTrash, -⟩ | ⟨moved, grown, -⟩
      · rw [gone, sameTrash]
        exact iff_of_false notTrashed (fun ⟨_, isNow, _⟩ => nomatch isNow)
      · rw [moved, grown]
        exact iff_of_true List.mem_cons_self ⟨_, rfl, rfl⟩
    · rw [elsewhere x same, <- good.trashed]
      rcases own with ⟨-, sameTrash, -⟩ | ⟨-, grown, -⟩
      · rw [sameTrash]
      · rw [grown, List.mem_cons, or_iff_right same]
  · intro x now isNow
    rw [allocated]
    by_cases same : x = pNode
    · subst same
      have old := good.signed x node isNode
      rcases own with ⟨gone, -⟩ | ⟨moved, -⟩
      · rw [gone] at isNow
        cases isNow
      · rw [moved] at isNow
        cases isNow
        exact old
    · rw [elsewhere x same] at isNow
      exact good.signed x now isNow
  · intro x now isNow outsideNow
    rw [elsewhere x (notOwn x now isNow outsideNow)] at isNow
    rw [sessions]
    exact good.hashed x now isNow outsideNow
  · intro x now isNow outsideNow y nowY isNowY outsideY
    rw [elsewhere x (notOwn x now isNow outsideNow)] at isNow
    rw [elsewhere y (notOwn y nowY isNowY outsideY)] at isNowY
    exact good.keys x now isNow outsideNow y nowY isNowY outsideY
  · have count := perm.length_eq
    rw [List.length_cons] at count
    rw [total, good.total]
    omega
  · have sum := (perm.map (sizeOf obj.memory)).sum_eq
    have ownSize : sizeOf obj.memory pNode = node.nodeSize.toNat := by
      unfold sizeOf
      rw [isNode]
      rfl
    have others := sizeOf_congr obj.memory other.memory (hashNodes other) fun x inNodes =>
        elsewhere x fun same => absent (by rw [<- same]; exact inNodes)
    rw [List.map_cons, List.sum_cons, ownSize] at sum
    rw [totalSize, good.totalSize, others]
    omega
  · rcases own with ⟨-, sameTrash, count⟩ | ⟨-, grown, count⟩
    · rw [sameTrash, count]
      exact good.trash
    · rw [grown, count, good.trash, List.length_cons, Nat.cast_succ]

theorem Good.reordered (lists : Nat -> List Nat)
    (alike : ∀ hash, (lists hash).Perm (obj.hashList hash)) :
    Good { obj with hashList := lists } := by
  have perm : (Buckets.elements obj.maxSessions lists).Perm (hashNodes obj) :=
    Buckets.elements_perm alike
  refine ⟨good.positive, perm.nodup_iff.mpr good.distinct, good.once, ?_, good.trashed,
    good.signed, good.hashed, good.keys, ?_, ?_, good.trash, good.freed⟩
  · intro hash x
    exact (alike hash).mem_iff.trans (good.placed hash x)
  · have total := good.total
    rw [<- perm.length_eq] at total
    exact total
  · have totalSize := good.totalSize
    rw [<- (perm.map (sizeOf obj.memory)).sum_eq] at totalSize
    exact totalSize

theorem Good.enters (fresh : SDataNode) (signature : fresh.signature = obj.allocated)
    (hashVal : fresh.hashVal = taosHashKey obj.maxSessions fresh.key)
    (unknown : ∀ x old, obj.memory x = some old -> old.hashVal ≠ hashValueInTrash ->
      old.key ≠ fresh.key) :
    Good
      { setNode obj obj.allocated fresh with
        allocated := obj.allocated + 1
        hashList := update obj.hashList fresh.hashVal.toNat
          (obj.allocated :: obj.hashList fresh.hashVal.toNat)
        total := obj.total + 1
        totalSize := obj.totalSize + fresh.nodeSize.toNat } := by
  have below := taosHashKey_lt good.positive fresh.key
  have outside : fresh.hashVal ≠ hashValueInTrash := by
    rw [hashVal]
    exact natCast_ne_inTrash _
  have toHash : fresh.hashVal.toNat = taosHashKey obj.maxSessions fresh.key := by
    rw [hashVal, Int.toNat_natCast]
  let changed := update obj.memory obj.allocated (some fresh)
  have own : changed obj.allocated = some fresh := update_self _ _ _
  have elsewhere : ∀ x, x ≠ obj.allocated -> changed x = obj.memory x :=
    fun x differs => update_of_ne differs _ _
  have unused : obj.memory obj.allocated = none := by
    cases isNode : obj.memory obj.allocated with
    | none => rfl
    | some node => exact absurd (good.signed _ node isNode).2 (Nat.lt_irrefl _)
  have perm : (Buckets.elements obj.maxSessions (update obj.hashList fresh.hashVal.toNat
          (obj.allocated :: obj.hashList fresh.hashVal.toNat))).Perm
      (obj.allocated :: hashNodes obj) := by
    rw [<- toHash] at below
    apply Buckets.elements_perm_cons below
    · rw [update_self]
    · intro another differs
      exact update_of_ne differs _ _
  have absent : obj.allocated ∉ hashNodes obj := by
    intro member
    obtain ⟨node, isNode, -⟩ := good.mem_hashNodes.mp member
    rw [unused] at isNode
    cases isNode
  refine ⟨good.positive, perm.nodup_iff.mpr (List.nodup_cons.mpr ⟨absent, good.distinct⟩),
    good.once, ?_, ?_, ?_, ?_, ?_, ?_, ?_, good.trash, good.freed⟩
  · intro hash x
    by_cases same : x = obj.allocated
    · subst same
      simp only [setNode, update_self, Option.some.injEq, exists_eq_left']
      by_cases here : hash = fresh.hashVal.toNat
      · rw [here, update_self, toHash, hashVal]
        exact iff_of_true List.mem_cons_self rfl
      · rw [update_of_ne here]
        apply iff_of_false
        · intro inList
          obtain ⟨node, isNode, -⟩ := (good.placed hash _).mp inList
          rw [unused] at isNode
          cases isNode
        · intro isHash
          apply here
          rw [isHash, Int.toNat_natCast]
    · simp only [setNode, update_of_ne same]
      rw [<- good.placed]
      by_cases here : hash = fresh.hashVal.toNat
      · rw [here, update_self, List.mem_cons, or_iff_right same]
      · rw [update_of_ne here]
  · intro x
    have inTrash := good.trashed x
    apply inTrash.trans
    by_cases same : x = obj.allocated
    · subst same
      simp only [setNode, update_self, Option.some.injEq, exists_eq_left', unused]
      exact iff_of_false (fun ⟨_, isNode, _⟩ => nomatch isNode) outside
    · simp only [setNode, update_of_ne same]
  · intro x now isNow
    simp only [setNode] at isNow ⊢
    by_cases same : x = obj.allocated
    · subst same
      cases own.symm.trans isNow
      exact ⟨signature, Nat.lt_succ_self _⟩
    · obtain ⟨isSigned, earlier⟩ := good.signed x now ((elsewhere x same).symm.trans isNow)
      exact ⟨isSigned, Nat.lt_succ_of_lt earlier⟩
  · intro x now isNow outsideNow
    simp only [setNode] at isNow ⊢
    by_cases same : x = obj.allocated
    · subst same
      cases own.symm.trans isNow
      exact hashVal
    · exact good.hashed x now ((elsewhere x same).symm.trans isNow) outsideNow
  · intro x now isNow outsideNow y nowY isNowY outsideY sameKey
    simp only [setNode] at isNow isNowY
    by_cases same : x = obj.allocated
    · subst same
      cases own.symm.trans isNow
      by_contra differs
      have old := (elsewhere y (Ne.symm differs)).symm.trans isNowY
      exact unknown y nowY old outsideY sameKey.symm
    · have oldX := (elsewhere x same).symm.trans isNow
      by_cases sameY : y = obj.allocated
      · subst sameY
        cases own.symm.trans isNowY
        exact absurd sameKey (unknown x now oldX outsideNow)
      · have oldY := (elsewhere y sameY).symm.trans isNowY
        exact good.keys x now oldX outsideNow y nowY oldY outsideY sameKey
  · have length := perm.length_eq
    rw [List.length_cons] at length
    have total := good.total
    simp only [hashNodes, setNode] at total ⊢
    rw [length, total, Nat.cast_succ]
    rfl
  · have sum := (perm.map (sizeOf changed)).sum_eq
    have ownSize : sizeOf changed obj.allocated = fresh.nodeSize.toNat := by
      unfold sizeOf
      rw [own]
      rfl
    have others := sizeOf_congr obj.memory changed (hashNodes obj) fun x inNodes =>
        elsewhere x fun same => absent (by rw [<- same]; exact inNodes)
    rw [List.map_cons, List.sum_cons, ownSize, others] at sum
    have cast := congrArg (fun size : Nat => (size : Int)) sum
    simp only [Nat.cast_add] at cast
    rw [<- good.totalSize, Int.add_comm] at cast
    exact cast.symm

end

end Luomi.DataCache
