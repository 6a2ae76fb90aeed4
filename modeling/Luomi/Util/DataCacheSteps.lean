import Luomi.Util.DataCacheNodes

/-!
# The functions of a data cache

Each function has a result on a sound cache.  What matters of a result is who still
has a reference: the reference counts stay, but for nodes without one that are freed
and for the node that is given to a user.
-/

namespace Luomi.DataCache

open Function (update update_of_ne update_self)
open List (mem_cons_of_mem mem_cons_self)
open Option (bind_eq_bind bind_some)

variable {obj next : SCacheObj} {pNode : Nat} {node : SDataNode}

def refOf (obj : SCacheObj) (pNode : Nat) : Option UInt32 :=
  (obj.memory pNode).map SDataNode.refCount

/-- A node keeps its reference count or is, without a reference, freed. -/
def Survives (obj next : SCacheObj) (frees : Nat -> Prop) (pNode : Nat) : Prop :=
  refOf next pNode = refOf obj pNode ∨
    next.memory pNode = none ∧ refOf obj pNode = some 0 ∧ frees pNode

theorem refOf_eq (isNode : obj.memory pNode = some node) :
    refOf obj pNode = some node.refCount := by
  rw [refOf, isNode]
  rfl

section Update

variable {changed : Option SDataNode}
  (memory : next.memory = update obj.memory pNode changed)

include memory

theorem refOf_update_self : refOf next pNode = changed.map SDataNode.refCount := by
  rw [refOf, memory, update_self]

theorem refOf_update_of_ne {x : Nat} (differs : x ≠ pNode) : refOf next x = refOf obj x := by
  rw [refOf, memory, update_of_ne differs, refOf]

end Update

def unhashed (obj : SCacheObj) (pNode : Nat) (node : SDataNode) : SCacheObj :=
  { obj with
    hashList := update obj.hashList node.hashVal.toNat
      ((obj.hashList node.hashVal.toNat).erase pNode)
    total := obj.total - 1
    totalSize := obj.totalSize - node.nodeSize.toNat }

section

variable (good : Good obj) (isNode : obj.memory pNode = some node)

include good isNode

theorem taosRemoveNodeInHashTable_eq (outside : node.hashVal ≠ hashValueInTrash) :
    taosRemoveNodeInHashTable obj pNode = some (unhashed obj pNode node) := by
  unfold taosRemoveNodeInHashTable
  simp only [isNode, bind_eq_bind, bind_some]
  rw [if_neg outside, if_pos (good.alive_list _)]
  rfl

theorem Good.released (outside : node.hashVal ≠ hashValueInTrash) (unused : node.refCount = 0) :
    taosCacheReleaseNode obj pNode = some (freeNode (unhashed obj pNode node) pNode node) ∧
      Good (freeNode (unhashed obj pNode node) pNode node) := by
  constructor
  · unfold taosCacheReleaseNode
    have stays : (unhashed obj pNode node).memory pNode = some node := isNode
    simp only [taosRemoveNodeInHashTable_eq good isNode outside, bind_eq_bind, bind_some, stays]
    exact if_neg (not_not.mpr (good.signed pNode node isNode).1)
  · have leaves := good.leaves (freeNode (unhashed obj pNode node) pNode node) isNode outside
      rfl rfl rfl rfl rfl
    refine (leaves ?_ ?_ (Or.inl ⟨update_self _ _ _, rfl, rfl⟩)).1
    · exact fun x differs => update_of_ne differs _ _
    · intro entry member
      rcases List.mem_append.mp member with old | new
      · exact good.freed entry old
      · rw [List.mem_singleton.mp new]
        exact unused

theorem Good.movedToTrash : ∃ next, taosCacheMoveNodeToTrash obj pNode = some next ∧ Good next ∧
      next.memory = update obj.memory pNode (some { node with hashVal := hashValueInTrash }) ∧
      next.maxSessions = obj.maxSessions ∧ next.allocated = obj.allocated := by
  unfold taosCacheMoveNodeToTrash
  by_cases inside : node.hashVal = hashValueInTrash
  · refine ⟨obj, ?_, good, ?_, rfl, rfl⟩
    · unfold taosRemoveNodeInHashTable taosAddToTrash
      simp only [isNode, bind_eq_bind, bind_some, if_pos inside]
    · rw [<- inside]
      exact (Function.update_eq_self_iff.mpr isNode.symm).symm
  · have stays : (unhashed obj pNode node).memory pNode = some node := isNode
    have alive : alive (unhashed obj pNode node) (unhashed obj pNode node).pTrash = true :=
      good.alive_trash
    let moved : SCacheObj :=
      { setNode (unhashed obj pNode node) pNode { node with hashVal := hashValueInTrash } with
        pTrash := pNode :: obj.pTrash
        numOfElemsInTrash := obj.numOfElemsInTrash + 1 }
    refine ⟨moved, ?_, ?_, rfl, rfl, rfl⟩
    · unfold taosAddToTrash
      simp only [taosRemoveNodeInHashTable_eq good isNode inside, bind_eq_bind, bind_some, stays]
      rw [if_neg inside, if_pos alive]
      rfl
    · have leaves := good.leaves moved isNode inside rfl rfl rfl rfl rfl
      refine (leaves ?_ good.freed (Or.inr ⟨update_self _ _ _, rfl, rfl⟩)).1
      exact fun x differs => update_of_ne differs _ _

theorem Good.removedFromTrash (inside : node.hashVal = hashValueInTrash)
    (unused : node.refCount = 0) : ∃ next, taosRemoveFromTrash obj pNode = some next ∧ Good next ∧
      next.memory = update obj.memory pNode none := by
  have member := (good.trashed pNode).mpr ⟨node, isNode, inside⟩
  let cleared : SCacheObj :=
    freeNode
      { obj with
        numOfElemsInTrash := obj.numOfElemsInTrash - 1
        pTrash := obj.pTrash.erase pNode }
      pNode node
  have elsewhere : ∀ x, x ≠ pNode -> cleared.memory x = obj.memory x :=
    fun x differs => update_of_ne differs _ _
  have gone : cleared.memory pNode = none := update_self _ _ _
  have old : ∀ x now, cleared.memory x = some now -> obj.memory x = some now ∧ x ≠ pNode := by
    intro x now isNow
    have differs : x ≠ pNode := by
      intro same
      rw [same, gone] at isNow
      cases isNow
    rw [elsewhere x differs] at isNow
    exact ⟨isNow, differs⟩
  have found : ∀ x (hashVal : Int), (∃ now, cleared.memory x = some now ∧ now.hashVal = hashVal) ↔
      x ≠ pNode ∧ ∃ now, obj.memory x = some now ∧ now.hashVal = hashVal := by
    intro x hashVal
    constructor
    · rintro ⟨now, isNow, isHash⟩
      obtain ⟨isOld, differs⟩ := old x now isNow
      exact ⟨differs, now, isOld, isHash⟩
    · rintro ⟨differs, now, isOld, isHash⟩
      exact ⟨now, (elsewhere x differs).trans isOld, isHash⟩
  refine ⟨cleared, ?_, ?_, rfl⟩
  · unfold taosRemoveFromTrash
    simp only [isNode, bind_eq_bind, bind_some]
    rw [if_neg (not_not.mpr (good.signed pNode node isNode).1), if_pos good.alive_trash]
  · refine ⟨good.positive, good.distinct, good.once.erase pNode, ?_, ?_, ?_, ?_, ?_, good.total,
      ?_, ?_, ?_⟩
    · intro hash x
      rw [found]
      refine (good.placed hash x).trans (Iff.symm (and_iff_right_of_imp ?_))
      rintro ⟨now, isNow, isHash⟩ same
      rw [same, isNode] at isNow
      cases isNow
      exact natCast_ne_inTrash hash (isHash.symm.trans inside)
    · intro x
      rw [found, <- good.trashed]
      exact good.once.mem_erase_iff
    · exact fun x now isNow => good.signed x now (old x now isNow).1
    · exact fun x now isNow => good.hashed x now (old x now isNow).1
    · intro x now isNow outside y nowY isNowY
      exact good.keys x now (old x now isNow).1 outside y nowY (old y nowY isNowY).1
    · have hashNode : ∀ x ∈ hashNodes obj, x ≠ pNode := by
        intro x inNodes same
        obtain ⟨now, isNow, outside⟩ := good.mem_hashNodes.mp inNodes
        rw [same, isNode] at isNow
        cases isNow
        exact outside inside
      have sizes := sizeOf_congr obj.memory cleared.memory (hashNodes obj) fun x inNodes =>
        elsewhere x (hashNode x inNodes)
      have sum := good.totalSize
      rw [<- sizes] at sum
      exact sum
    · have length := List.length_erase_of_mem member
      have positive := List.length_pos_of_mem member
      have count := good.trash
      simp only [cleared, freeNode]
      omega
    · intro entry inFreed
      rcases List.mem_append.mp inFreed with earlier | latest
      · exact good.freed entry earlier
      · rw [List.mem_singleton.mp latest]
        exact unused

end

theorem Survives.of_update {freed : Option SDataNode} (frees : Nat -> Prop)
    (memory : next.memory = update obj.memory pNode freed)
    (own : freed.map SDataNode.refCount = refOf obj pNode ∨
      freed = none ∧ refOf obj pNode = some 0 ∧ frees pNode) (x : Nat) :
    Survives obj next frees x := by
  unfold Survives refOf
  by_cases same : x = pNode
  · subst same
    rw [memory, update_self]
    exact own
  · rw [memory, update_of_ne same]
    exact Or.inl rfl

variable {later : SCacheObj} {frees : Nat -> Prop}

theorem Survives.trans {x : Nat}
    (first : Survives obj next frees x) (second : Survives next later frees x) :
    Survives obj later frees x := by
  rcases second with same | ⟨gone, unused, isFreed⟩
  · rcases first with kept | ⟨gone, unused, isFreed⟩
    · exact Or.inl (same.trans kept)
    · refine Or.inr ⟨?_, unused, isFreed⟩
      unfold refOf at same
      rw [gone] at same
      exact Option.map_eq_none_iff.mp same
  · rcases first with kept | ⟨before, -, -⟩
    · exact Or.inr ⟨gone, kept.symm.trans unused, isFreed⟩
    · rw [refOf, before] at unused
      cases unused

variable {pList : List Nat}
  {also : SDataNode -> Bool}

theorem mem_unreferenced : pNode ∈ unreferenced obj pList also ↔ pNode ∈ pList ∧
      ∃ node, obj.memory pNode = some node ∧ node.refCount = 0 ∧ also node = true := by
  unfold unreferenced
  rw [List.mem_filter, Option.any_eq_true]
  simp only [Bool.and_eq_true, beq_iff_eq]

/-- The nodes of a list that have no reference and are to go are freed, and nothing else
happens to a node. -/
def Swept (obj next : SCacheObj) (pList : List Nat) (also : SDataNode -> Bool) : Prop :=
  ∀ x, next.memory x = if x ∈ unreferenced obj pList also then none else obj.memory x

theorem Swept.survives (swept : Swept obj next pList also) (x : Nat) :
    Survives obj next (fun pNode => pNode ∈ unreferenced obj pList also) x := by
  have after := swept x
  by_cases goes : x ∈ unreferenced obj pList also
  · rw [if_pos goes] at after
    obtain ⟨-, node, isNode, unused, -⟩ := mem_unreferenced.mp goes
    exact Or.inr ⟨after, by rw [refOf_eq isNode, unused], goes⟩
  · rw [if_neg goes] at after
    exact Or.inl (by rw [refOf, after, refOf])

/-- A loop that frees those nodes of a list that have no reference and are to go. -/
theorem Good.swept {loop : List Nat -> SCacheObj -> Option SCacheObj} (free : SCacheObj -> Nat -> Option SCacheObj)
    (there : SDataNode -> Prop) (nil : ∀ obj, loop [] obj = some obj)
    (cons : ∀ pNode rest obj node, obj.memory pNode = some node -> loop (pNode :: rest) obj =
        if node.refCount = 0 ∧ also node = true then (free obj pNode).bind (loop rest)
        else loop rest obj)
    (frees : ∀ {obj pNode node}, Good obj -> obj.memory pNode = some node -> there node ->
      node.refCount = 0 -> ∃ next, free obj pNode = some next ∧ Good next ∧
        next.memory = update obj.memory pNode none) :
    ∀ {obj : SCacheObj}, Good obj -> pList.Nodup ->
      (∀ pNode ∈ pList, ∃ node, obj.memory pNode = some node ∧ there node) ->
      ∃ next, loop pList obj = some next ∧ Good next ∧ Swept obj next pList also := by
  induction pList with
  | nil => exact fun good _ _ => ⟨_, nil _, good, fun _ => (if_neg List.not_mem_nil).symm⟩
  | cons pNode rest ih =>
    intro obj good distinct live
    obtain ⟨absent, distinctRest⟩ := List.nodup_cons.mp distinct
    obtain ⟨node, isNode, isThere⟩ := live pNode mem_cons_self
    rw [cons pNode rest obj node isNode]
    by_cases goes : node.refCount = 0 ∧ also node = true
    · rw [if_pos goes]
      obtain ⟨cleared, isCleared, goodCleared, memory⟩ := frees good isNode isThere goes.1
      have elsewhere : ∀ x ∈ rest, cleared.memory x = obj.memory x := by
        intro x member
        rw [memory]
        exact update_of_ne (fun same => absent (by rw [<- same]; exact member)) _ _
      obtain ⟨next, isNext, goodNext, swept⟩ := ih goodCleared distinctRest fun x member => by
        rw [elsewhere x member]
        exact live x (mem_cons_of_mem _ member)
      refine ⟨next, by rw [isCleared]; exact isNext, goodNext, ?_⟩
      have same : unreferenced cleared rest also = unreferenced obj rest also :=
        List.filter_congr fun x member => by rw [elsewhere x member]
      have own : unreferenced obj (pNode :: rest) also = pNode :: unreferenced obj rest also :=
        List.filter_cons_of_pos (by simp [isNode, goes])
      intro x
      rw [swept x, same, own]
      by_cases isOwn : x = pNode
      · subst isOwn
        rw [if_pos mem_cons_self, memory, update_self, ite_self]
      · simp only [List.mem_cons, isOwn, false_or, memory, update_of_ne isOwn]
    · rw [if_neg goes]
      obtain ⟨next, isNext, goodNext, swept⟩ := ih good distinctRest fun x member =>
        live x (mem_cons_of_mem _ member)
      have stays : unreferenced obj (pNode :: rest) also = unreferenced obj rest also :=
        List.filter_cons_of_neg (by simpa [isNode] using goes)
      exact ⟨next, isNext, goodNext, fun x => by rw [swept x, stays]⟩

theorem Good.nodup_list (good : Good obj) (hash : Nat) : (obj.hashList hash).Nodup := by
  by_cases below : hash < obj.maxSessions
  · have distinct := good.distinct
    unfold hashNodes Buckets.elements at distinct
    exact (List.nodup_flatMap.mp distinct).1 hash (List.mem_range.mpr below)
  · have empty : obj.hashList hash = [] := by
      apply List.eq_nil_iff_forall_not_mem.mpr
      intro pNode member
      obtain ⟨node, isNode, isHash⟩ := (good.placed hash pNode).mp member
      have outside : node.hashVal ≠ hashValueInTrash := by
        rw [isHash]
        exact natCast_ne_inTrash hash
      have bound := taosHashKey_lt good.positive node.key
      have place := good.hashed pNode node isNode outside
      omega
    rw [empty]
    exact List.nodup_nil

theorem Good.listed (good : Good obj) (hash : Nat) : ∀ pNode ∈ obj.hashList hash,
    ∃ node, obj.memory pNode = some node ∧ node.hashVal ≠ hashValueInTrash := by
  intro pNode member
  obtain ⟨node, isNode, isHash⟩ := (good.placed hash pNode).mp member
  exact ⟨node, isNode, by rw [isHash]; exact natCast_ne_inTrash hash⟩

theorem Good.refreshed (good : Good obj) (time : UInt64) (hash : Nat) :
    ∃ next, refreshLoop time (obj.hashList hash) obj = some next ∧ Good next ∧
      Swept obj next (obj.hashList hash) fun node => decide (node.time ≤ time) := by
  apply Good.swept taosCacheReleaseNode (fun node => node.hashVal ≠ hashValueInTrash)
    (fun _ => rfl) ?_ ?_ good (good.nodup_list hash) (good.listed hash)
  · intro pNode rest obj node isNode
    rw [refreshLoop]
    simp only [isNode, bind_eq_bind, bind_some, decide_eq_true_eq]
    simp only [and_comm]
  · intro obj pNode node good isNode outside unused
    obtain ⟨result, released⟩ := good.released isNode outside unused
    exact ⟨_, result, released, rfl⟩

theorem Good.trashCleared (good : Good obj) :
    ∃ next, taosClearCacheTrash obj false = some next ∧ Good next ∧
      Swept obj next obj.pTrash fun _ => true := by
  unfold taosClearCacheTrash
  by_cases empty : obj.numOfElemsInTrash = 0
  · rw [if_pos empty]
    have count := good.trash
    have nothing : obj.pTrash = [] := List.length_eq_zero_iff.mp (by omega)
    refine ⟨obj, by rw [<- nothing], good, fun _ => ?_⟩
    rw [nothing]
    exact (if_neg List.not_mem_nil).symm
  · rw [if_neg empty]
    apply Good.swept taosRemoveFromTrash (fun node => node.hashVal = hashValueInTrash)
      (fun _ => rfl) ?_ ?_ good good.once (fun pNode => (good.trashed pNode).mp)
    · intro pNode rest obj node isNode
      rw [clearLoop]
      simp only [isNode, bind_eq_bind, bind_some, Bool.false_eq_true, false_or, and_true]
    · exact fun good isNode inside unused => good.removedFromTrash isNode inside unused

theorem Good.listTrashed :
    ∀ {obj : SCacheObj}, Good obj -> (∀ pNode ∈ pList, ∃ node, obj.memory pNode = some node) ->
      ∃ next, trashLoop pList obj = some next ∧ Good next ∧ (∀ x, refOf next x = refOf obj x) ∧
        ∀ x, x ∉ pList -> next.memory x = obj.memory x := by
  induction pList with
  | nil => exact fun good _ => ⟨_, rfl, good, fun _ => rfl, fun _ _ => rfl⟩
  | cons pNode rest ih =>
    intro obj good live
    obtain ⟨node, isNode⟩ := live pNode mem_cons_self
    obtain ⟨moved, isMoved, goodMoved, memory, -⟩ := good.movedToTrash isNode
    have same : ∀ x, refOf moved x = refOf obj x := by
      intro x
      unfold refOf
      rw [memory]
      by_cases own : x = pNode
      · rw [own, update_self, isNode]
        rfl
      · rw [update_of_ne own]
    obtain ⟨next, isNext, goodNext, kept, others⟩ := ih goodMoved fun x member => by
      obtain ⟨old, isOld⟩ := live x (mem_cons_of_mem _ member)
      have isSome := same x
      rw [refOf_eq isOld] at isSome
      obtain ⟨now, isNow, -⟩ := Option.map_eq_some_iff.mp isSome
      exact ⟨now, isNow⟩
    refine ⟨next, ?_, goodNext, fun x => (kept x).trans (same x), ?_⟩
    · unfold trashLoop
      rw [isMoved]
      exact isNext
    · intro x absent
      obtain ⟨differs, notRest⟩ := List.ne_and_not_mem_of_not_mem_cons absent
      rw [others x notRest, memory, update_of_ne differs]

theorem findKey_spec (key : List UInt8)
    (live : ∀ pNode ∈ pList, ∃ node, obj.memory pNode = some node) :
    (findKey obj key pList = some none ∧
        ∀ pNode ∈ pList, ∀ node, obj.memory pNode = some node -> node.key ≠ key) ∨
      ∃ pNode node, findKey obj key pList = some (some pNode) ∧ pNode ∈ pList ∧
        obj.memory pNode = some node ∧ node.key = key := by
  induction pList with
  | nil => exact Or.inl ⟨rfl, fun _ member => nomatch member⟩
  | cons first rest ih =>
    obtain ⟨node, isNode⟩ := live first mem_cons_self
    unfold findKey
    simp only [isNode, bind_eq_bind, bind_some]
    by_cases same : node.key = key
    · rw [if_pos same]
      exact Or.inr ⟨first, node, rfl, mem_cons_self, isNode, same⟩
    · rw [if_neg same]
      rcases ih fun x member => live x (mem_cons_of_mem _ member) with
        ⟨missing, others⟩ | ⟨pNode, found, isFound, member, isKey⟩
      · refine Or.inl ⟨missing, ?_⟩
        intro x inList old isOld
        rcases List.mem_cons.mp inList with rfl | inRest
        · rw [isNode] at isOld
          cases isOld
          exact same
        · exact others x inRest old isOld
      · exact Or.inr ⟨pNode, found, isFound, mem_cons_of_mem _ member, isKey⟩

theorem Good.lookedUp (good : Good obj) (key : List UInt8) :
    (taosGetNodeFromHashTable obj key = some none ∧
        ∀ x old, obj.memory x = some old -> old.hashVal ≠ hashValueInTrash -> old.key ≠ key) ∨
      ∃ pNode node, taosGetNodeFromHashTable obj key = some (some pNode) ∧
        obj.memory pNode = some node ∧ node.key = key ∧
        pNode ∈ obj.hashList (taosHashKey obj.maxSessions key) ∧
        node.hashVal = taosHashKey obj.maxSessions key := by
  unfold taosGetNodeFromHashTable
  have live : ∀ pNode ∈ obj.hashList (taosHashKey obj.maxSessions key),
      ∃ node, obj.memory pNode = some node :=
    fun pNode member => (good.listed _ pNode member).imp fun _ both => both.1
  rcases findKey_spec key live with
    ⟨missing, others⟩ | ⟨pNode, node, found, member, isNode, isKey⟩
  · refine Or.inl ⟨?_, ?_⟩
    · simp only [missing, bind_eq_bind, bind_some]
    · intro x old isOld outside same
      have place := good.hashed x old isOld outside
      rw [same] at place
      exact others x ((good.placed _ x).mpr ⟨old, isOld, place⟩) old isOld same
  · obtain ⟨listed, isListed, isHash⟩ := (good.placed _ pNode).mp member
    rw [isNode] at isListed
    cases isListed
    refine Or.inr ⟨pNode, node, ?_, isNode, isKey, member, isHash⟩
    simp only [found, bind_eq_bind, bind_some, isNode, isHash, if_true]

def Granted (obj next : SCacheObj) (frees : Nat -> Prop) (pNode : Nat) : Prop :=
  refOf next pNode = some ((refOf obj pNode).getD 0 + 1) ∧
    ∀ x, x ≠ pNode -> Survives obj next frees x

def newSize (key : List UInt8) (dataSize : Nat) : Nat :=
  dataSize + sizeofSDataNode + (key.length + 1)

/-- The node of new data, which was there before and unused, or not. -/
def IsPut (entry : Entry) (before : Option SDataNode) (node : SDataNode) : Prop :=
  node.key = entry.key ∧ node.hashVal ≠ hashValueInTrash ∧
    match before with
    | some old => node.time = old.time ∧ node.nodeSize = old.nodeSize
    | none => node.time = entry.now + entry.lifespan ∧
        node.nodeSize = UInt32.ofNat (newSize entry.key entry.dataSize)

/-- What a call leaves that gives a user a node nobody had, or NULL. -/
def Handed (obj next : SCacheObj) (frees : Nat -> Prop) (entry : Entry)
    (before : Option SDataNode) : Option Nat -> Prop
  | none => ∀ x, Survives obj next frees x
  | some pNode => ((refOf obj pNode).getD 0 = 0 ∧ Granted obj next frees pNode) ∧
      ∃ node, next.memory pNode = some node ∧ IsPut entry before node

variable {entry : Entry}

theorem Handed.imp {more : Nat -> Prop} {before : Option SDataNode}
    {result : Option Nat} (handed : Handed obj next frees entry before result)
    (imp : ∀ x, frees x -> more x) : Handed obj next more entry before result := by
  have weaken : ∀ x, Survives obj next frees x -> Survives obj next more x :=
    fun x survives => survives.imp_right fun gone => ⟨gone.1, gone.2.1, imp x gone.2.2⟩
  cases result with
  | none => exact fun x => weaken x (handed x)
  | some given =>
    obtain ⟨⟨nobody, own, others⟩, isPut⟩ := handed
    exact ⟨⟨nobody, own, fun x differs => weaken x (others x differs)⟩, isPut⟩

def Apart (obj next : SCacheObj) (key : List UInt8) : Prop :=
  ∀ x old, obj.memory x = some old -> old.key ≠ key -> next.memory x = some old

variable {key : List UInt8}

theorem Apart.of_update {changed : Option SDataNode}
    (memory : next.memory = update obj.memory pNode changed)
    (own : ∀ old ∈ obj.memory pNode, old.key = key) : Apart obj next key := by
  intro x old isOld otherKey
  rw [memory, update_of_ne, isOld]
  rintro rfl
  exact otherKey (own old isOld)

theorem Apart.trans (first : Apart obj next key)
    (second : Apart next later key) : Apart obj later key :=
  fun x old isOld otherKey => second x old (first x old isOld otherKey) otherKey

section

variable (good : Good obj)
include good

theorem Good.unused : obj.memory obj.allocated = none := by
  cases isNode : obj.memory obj.allocated with
  | none => rfl
  | some node => exact absurd (good.signed _ node isNode).2 (Nat.lt_irrefl _)

theorem Good.refOf_allocated : refOf obj obj.allocated = none := by
  rw [refOf, good.unused]
  rfl

theorem Good.apart_allocated {changed : Option SDataNode}
    (memory : next.memory = update obj.memory obj.allocated changed) : Apart obj next key :=
  Apart.of_update memory fun old isOld => by
    rw [good.unused] at isOld
    cases isOld

theorem Good.created (entry : Entry)
    (unknown : ∀ x old, obj.memory x = some old -> old.hashVal ≠ hashValueInTrash ->
      old.key ≠ entry.key) :
    ∃ next, createAndAdd obj entry (taosHashKey obj.maxSessions entry.key) =
        some (some obj.allocated, next) ∧ Good next ∧ next.memory = update obj.memory obj.allocated
        (some (taosCreateHashNode entry obj.allocated (taosHashKey obj.maxSessions entry.key))) ∧
      ∃ node, next.memory obj.allocated = some node ∧ IsPut entry none node := by
  let fresh := taosCreateHashNode entry obj.allocated (taosHashKey obj.maxSessions entry.key)
  have enters := good.enters fresh rfl rfl unknown
  refine ⟨_, ?_, enters, rfl, fresh, update_self _ _ _, rfl, natCast_ne_inTrash _, rfl, rfl⟩
  have own : (setNode obj obj.allocated fresh).memory obj.allocated = some fresh :=
    update_self _ _ _
  have alive : alive { setNode obj obj.allocated fresh with allocated := obj.allocated + 1 }
      (obj.hashList fresh.hashVal.toNat) = true := by
    rw [alive_iff]
    intro x member
    by_cases same : x = obj.allocated
    · rw [same]
      exact ⟨fresh, own⟩
    · obtain ⟨node, isNode, -⟩ := good.listed _ x member
      exact ⟨node, (update_of_ne same _ _).trans isNode⟩
  have nonneg : 0 ≤ fresh.hashVal := Int.natCast_nonneg _
  unfold createAndAdd taosAddToHashTable
  simp only [bind_eq_bind]
  rw [own]
  simp only [bind_some]
  rw [if_pos ⟨nonneg, alive⟩]
  rfl

theorem Good.reallocated (isNode : obj.memory pNode = some node)
    (unused : node.refCount = 0) (isKey : node.key = entry.key)
    (isHash : node.hashVal = taosHashKey obj.maxSessions entry.key)
    (member : pNode ∈ obj.hashList (taosHashKey obj.maxSessions entry.key)) :
    ∃ result next, reallocNode obj pNode node entry = some (result, next) ∧ Good next ∧
      Apart obj next entry.key ∧
      Handed obj next (fun x => entry.alloc = .moves ∧ x = pNode) entry (some node) result := by
  have outside : node.hashVal ≠ hashValueInTrash := by
    rw [isHash]
    exact natCast_ne_inTrash _
  have toHash : node.hashVal.toNat = taosHashKey obj.maxSessions entry.key := by
    rw [isHash, Int.toNat_natCast]
  have placed : 0 ≤ node.hashVal ∧ alive obj (obj.hashList node.hashVal.toNat) = true := by
    refine ⟨?_, good.alive_list _⟩
    rw [isHash]
    exact Int.natCast_nonneg _
  have sameKey : ∀ old ∈ obj.memory pNode, old.key = entry.key := by
    rintro old isOld
    cases isNode.symm.trans isOld
    exact isKey
  unfold reallocNode
  cases how : entry.alloc with
  | fails => exact ⟨none, obj, rfl, good, fun _ _ isOld _ => isOld, fun x => Or.inl rfl⟩
  | stays =>
    have counted := good.counted isNode (node.refCount + 1)
    have signature := (good.signed pNode node isNode).1
    have renewed : { node with
          signature := pNode, key := entry.key, refCount := node.refCount + 1 } =
        { node with refCount := node.refCount + 1 } := by
      rw [<- isKey, <- signature]
    have memory : (setNode obj pNode { node with refCount := node.refCount + 1 }).memory =
        update obj.memory pNode (some { node with refCount := node.refCount + 1 }) := rfl
    simp only
    rw [if_pos placed, renewed]
    refine ⟨_, _, rfl, counted, Apart.of_update memory sameKey, ⟨?_, ?_, ?_⟩,
      _, update_self _ _ _, isKey, outside, rfl, rfl⟩
    · rw [refOf_eq isNode, unused]
      rfl
    · rw [refOf_eq isNode]
      exact refOf_update_self memory
    · exact fun x differs => Or.inl (refOf_update_of_ne memory differs)
  | moves =>
    dsimp only
    rw [if_pos placed]
    let cleared := freeNode (unhashed obj pNode node) pNode node
    let fresh : SDataNode := { node with
      signature := obj.allocated, key := entry.key, refCount := node.refCount + 1 }
    have goodCleared : Good cleared := (good.released isNode outside unused).2
    have without : cleared.memory = update obj.memory pNode none := rfl
    have unknown : ∀ x old, cleared.memory x = some old -> old.hashVal ≠ hashValueInTrash ->
        old.key ≠ fresh.key := by
      intro x old isOld outsideOld same
      rw [without] at isOld
      by_cases own : x = pNode
      · rw [own, update_self] at isOld
        cases isOld
      · rw [update_of_ne own] at isOld
        exact own (good.keys x old isOld outsideOld pNode node isNode outside
          (same.trans isKey.symm))
    have enters := goodCleared.enters fresh rfl isHash unknown
    have ordered := enters.reordered
      (update obj.hashList node.hashVal.toNat
        ((obj.hashList node.hashVal.toNat).replace pNode obj.allocated)) ?_
    · let next : SCacheObj :=
        { setNode (freeNode obj pNode node) obj.allocated fresh with
          hashList := update obj.hashList node.hashVal.toNat
            ((obj.hashList node.hashVal.toNat).replace pNode obj.allocated)
          allocated := obj.allocated + 1 }
      have memory : next.memory = update cleared.memory obj.allocated (some fresh) := rfl
      refine ⟨some obj.allocated, next, rfl, ?_,
        (Apart.of_update without sameKey).trans (goodCleared.apart_allocated memory),
        ⟨?_, ?_, ?_⟩, fresh, update_self _ _ _, rfl, outside, rfl, rfl⟩
      · simp only [cleared, fresh, freeNode, unhashed, setNode, Int.sub_add_cancel] at ordered
        exact ordered
      · rw [good.refOf_allocated]
        rfl
      · have count := refOf_update_self memory
        rw [good.refOf_allocated, Option.getD_none, <- unused]
        exact count
      · intro x differs
        have kept := refOf_update_of_ne memory differs
        have first := Survives.of_update (fun x => Alloc.moves = .moves ∧ x = pNode) without
          (Or.inr ⟨rfl, by rw [refOf_eq isNode, unused], rfl, rfl⟩) x
        exact first.trans (Or.inl kept)
    · intro hash
      by_cases here : hash = node.hashVal.toNat
      · rw [here]
        simp only [cleared, fresh, freeNode, unhashed, update_self]
        rw [<- toHash] at member
        exact Buckets.replace_perm member
      · simp only [cleared, fresh, freeNode, unhashed, update_of_ne here]
        exact List.Perm.refl _

/-- A node that is still used goes into the trash, and a new one takes its key. -/
theorem Good.updated (isNode : obj.memory pNode = some node) (isKey : node.key = entry.key)
    (isHash : node.hashVal = taosHashKey obj.maxSessions entry.key)
    (member : pNode ∈ obj.hashList (taosHashKey obj.maxSessions entry.key)) :
    ∃ result next, taosUpdateCacheImpl obj pNode entry = some (result, next) ∧ Good next ∧
      Apart obj next entry.key ∧
      Handed obj next (fun x => entry.alloc = .moves ∧ x = pNode ∧ node.refCount = 0) entry
        (if node.refCount = 0 then some node else none) result := by
  unfold taosUpdateCacheImpl
  simp only [isNode, bind_eq_bind, bind_some]
  by_cases unused : node.refCount = 0
  · rw [if_pos unused]
    obtain ⟨result, next, isNext, goodNext, apart, handed⟩ :=
      good.reallocated isNode unused isKey isHash member
    refine ⟨result, next, isNext, goodNext, apart, ?_⟩
    simp only [unused, and_true, if_true]
    exact handed
  · rw [if_neg unused]
    obtain ⟨moved, isMoved, goodMoved, memory, sessions, allocated⟩ := good.movedToTrash isNode
    have kept : ∀ x, Survives obj moved
        (fun x => entry.alloc = .moves ∧ x = pNode ∧ node.refCount = 0) x := by
      apply Survives.of_update _ memory
      rw [refOf_eq isNode]
      exact Or.inl rfl
    have apart : Apart obj moved entry.key := Apart.of_update memory fun old isOld => by
      cases isNode.symm.trans isOld
      exact isKey
    rw [isMoved, bind_some, if_neg unused]
    by_cases fails : entry.alloc = .fails
    · rw [if_pos fails]
      exact ⟨none, moved, rfl, goodMoved, apart, kept⟩
    · rw [sessions, if_neg fails, if_pos isHash, isHash, <- sessions]
      have unknown : ∀ x old, moved.memory x = some old -> old.hashVal ≠ hashValueInTrash ->
          old.key ≠ entry.key := by
        intro x old isOld outsideOld same
        rw [memory] at isOld
        by_cases own : x = pNode
        · rw [own, update_self] at isOld
          cases isOld
          exact outsideOld rfl
        · rw [update_of_ne own] at isOld
          have outside : node.hashVal ≠ hashValueInTrash := by
            rw [isHash]
            exact natCast_ne_inTrash _
          exact own (good.keys x old isOld outsideOld pNode node isNode outside
            (same.trans isKey.symm))
      obtain ⟨next, isNext, goodNext, created, isPut⟩ := goodMoved.created entry unknown
      refine ⟨_, next, isNext, goodNext, apart.trans (goodMoved.apart_allocated created),
        ⟨?_, ?_, ?_⟩, isPut⟩
      · rw [allocated, good.refOf_allocated]
        rfl
      · rw [refOf_update_self created, allocated, good.refOf_allocated]
        rfl
      · exact fun x differs => (kept x).trans (Or.inl (refOf_update_of_ne created differs))

def unusedNode (obj : SCacheObj) (key : List UInt8) : Option SDataNode := do
  let pNode <- (taosGetNodeFromHashTable obj key).join
  let node <- obj.memory pNode
  if node.refCount = 0 then some node else none

/-- `taosAddDataIntoCache` and `taosUpdateDataFromCache`. -/
theorem Good.put (entry : Entry) :
    ∃ result next, putEntry obj entry = some (result, next) ∧ Good next ∧ Apart obj next entry.key ∧
      Handed obj next
        (fun x => entry.alloc = .moves ∧
          x ∈ unreferenced obj (obj.hashList (taosHashKey obj.maxSessions entry.key))
            fun node => node.key == entry.key) entry (unusedNode obj entry.key) result := by
  unfold putEntry unusedNode
  rcases good.lookedUp entry.key with
    ⟨missing, unknown⟩ | ⟨pNode, node, found, isNode, isKey, member, isHash⟩
  · simp only [missing, bind_eq_bind, bind_some, Option.join_some, Option.bind_none]
    unfold taosAddToCacheImpl
    by_cases fails : entry.alloc = .fails
    · rw [if_pos fails]
      exact ⟨none, obj, rfl, good, fun _ _ isOld _ => isOld, fun x => Or.inl rfl⟩
    · rw [if_neg fails]
      obtain ⟨next, isNext, goodNext, created, isPut⟩ := good.created entry unknown
      refine ⟨_, next, isNext, goodNext, good.apart_allocated created, ⟨?_, ?_, ?_⟩, isPut⟩
      · rw [good.refOf_allocated]
        rfl
      · rw [refOf_update_self created, good.refOf_allocated]
        rfl
      · exact fun x differs => Or.inl (refOf_update_of_ne created differs)
  · simp only [found, bind_eq_bind, bind_some, Option.join_some, isNode]
    obtain ⟨result, next, isNext, goodNext, apart, handed⟩ :=
      good.updated isNode isKey isHash member
    have frees : ∀ x, (entry.alloc = .moves ∧ x = pNode ∧ node.refCount = 0) ->
        entry.alloc = .moves ∧
          x ∈ unreferenced obj (obj.hashList (taosHashKey obj.maxSessions entry.key))
            fun node => node.key == entry.key := by
      rintro x ⟨moves, rfl, unused⟩
      exact ⟨moves, mem_unreferenced.mpr ⟨member, node, isNode, unused, beq_iff_eq.mpr isKey⟩⟩
    exact ⟨result, next, isNext, goodNext, apart, handed.imp frees⟩

theorem Good.gotten (key : List UInt8) : (taosGetDataFromCache obj key = some (none, obj)) ∨
      ∃ pNode node, obj.memory pNode = some node ∧ node.key = key ∧
        pNode ∈ obj.hashList (taosHashKey obj.maxSessions key) ∧
        taosGetDataFromCache obj key = some (some pNode,
          setNode obj pNode { node with refCount := node.refCount + 1 }) := by
  unfold taosGetDataFromCache
  rcases good.lookedUp key with ⟨missing, -⟩ | ⟨pNode, node, found, isNode, isKey, member, -⟩
  · simp only [missing, bind_eq_bind, bind_some, true_or]
  · refine Or.inr ⟨pNode, node, isNode, isKey, member, ?_⟩
    simp only [found, isNode, bind_eq_bind, bind_some]

theorem Good.unreferencedOnce (isNode : obj.memory pNode = some node) (used : 0 < node.refCount) :
    taosRemoveDataFromCache obj pNode =
      some (true, setNode obj pNode { node with refCount := node.refCount - 1 }) := by
  have there : obj.total + obj.numOfElemsInTrash ≠ 0 := by
    rw [good.total, good.trash]
    have member : pNode ∈ hashNodes obj ∨ pNode ∈ obj.pTrash := by
      by_cases inside : node.hashVal = hashValueInTrash
      · exact Or.inr ((good.trashed pNode).mpr ⟨node, isNode, inside⟩)
      · exact Or.inl (good.mem_hashNodes.mpr ⟨node, isNode, inside⟩)
    have positive := member.imp List.length_pos_of_mem List.length_pos_of_mem
    omega
  unfold taosRemoveDataFromCache
  rw [if_neg there]
  simp only [isNode, bind_eq_bind, bind_some]
  rw [if_neg (not_not.mpr (good.signed pNode node isNode).1), if_pos used]

end

end Luomi.DataCache
