import Luomi.Base.HashChains
import Luomi.Base.LinkedQueue
import Luomi.Client.ConnCache

/-!
# The lists of the connection cache

A node enters a list at its head, leaves it anywhere, and the end of a list is cut
off.  Each of the three leaves the lists linked, every node of the pool free or in
one list, the counts right and the newest node of a list first.
-/

namespace Luomi.Client.ConnCacheLists

open LinkedPath LinkedQueue Buckets ConnCache
open HashChains (ChainTable push_kept unlink_head unlink_kept)
open List (append_assoc append_nil length_append length_cons mem_append mem_cons mem_cons_self
  nodup_append)
open Function (update update_apply update_eq_self update_of_ne update_self)

section Lists

variable {δ : Type} {cache other : SConnCache δ} {lists : Nat -> List Nat} {hash slot time : Nat}

structure Linked (cache : SConnCache δ) (lists : Nat -> List Nat) : Prop where
  path : ∀ hash < cache.maxSessions, Path (nextOf cache hash) (backOf cache) .head (lists hash)
  pool : (cache.freeList ++ elements cache.maxSessions lists).Perm (List.range cache.maxSessions)
  count : ∀ hash < cache.maxSessions, cache.count hash = (lists hash).length
  total : cache.total = (elements cache.maxSessions lists).length
  newest : ∀ hash < cache.maxSessions, (lists hash).Pairwise fun early late =>
    (cache.nodes late).time ≤ (cache.nodes early).time

def label (cache : SConnCache δ) (slot : Nat) : UInt32 × UInt16 × Option δ × Nat :=
  ((cache.nodes slot).ip, (cache.nodes slot).port, (cache.nodes slot).data, (cache.nodes slot).time)

variable {nodes : List Nat}

theorem chain_of_path {next : Ref Nat -> Option Nat} {back : Nat -> Option (Ref Nat)} : ∀ {place : Ref Nat}, Path next back place nodes ->
      Chain (fun slot => next (.node slot)) (next place) nodes := by
  induction nodes with
  | nil => exact fun path => path
  | cons slot rest ih => exact fun path => ⟨path.1, ih path.2.2⟩

section

variable (linked : Linked cache lists)
include linked

theorem Linked.distinct_all : (cache.freeList ++ elements cache.maxSessions lists).Nodup :=
  linked.pool.nodup_iff.mpr List.nodup_range

section

variable (inside : hash < cache.maxSessions)
include inside

theorem Linked.split : (cache.freeList ++ (lists hash ++
      elements cache.maxSessions (update lists hash []))).Nodup := by
  have perm := (@elements_split _ _ lists _ inside).append_left cache.freeList
  exact perm.nodup_iff.mp linked.distinct_all

theorem Linked.distinct : (lists hash).Nodup :=
  (nodup_append.mp (nodup_append.mp (linked.split inside)).2.1).1

theorem Linked.elsewhere (member : slot ∈ elements cache.maxSessions (update lists hash [])) :
    slot ∉ lists hash ∧ slot ∉ cache.freeList := by
  have split := nodup_append.mp (linked.split inside)
  have own := nodup_append.mp split.2.1
  exact ⟨fun same => own.2.2 slot same slot member rfl,
    fun free => split.2.2 slot free slot (List.mem_append_right _ member) rfl⟩

theorem Linked.short : (lists hash).length ≤ cache.maxSessions := by
  have length := linked.pool.length_eq
  have perm := (@elements_split _ _ lists _ inside).length_eq
  rw [length_append, List.length_range] at length
  rw [length_append] at perm
  omega

end

end

variable {another : Nat}

theorem mem_others (below : another < cache.maxSessions) (differs : another ≠ hash)
    (member : slot ∈ lists another) : slot ∈ elements cache.maxSessions (update lists hash []) := by
  rw [mem_elements]
  refine ⟨another, below, ?_⟩
  rwa [update_of_ne differs]

theorem nextOf_congr (head : other.connHashList another = cache.connHashList another)
    (nodes : ∀ slot ∈ lists another, other.nodes slot = cache.nodes slot)
    (path : Path (nextOf cache another) (backOf cache) .head (lists another)) :
    Path (nextOf other another) (backOf other) .head (lists another) := by
  apply path.congr
  · exact head
  · intro slot member
    simp only [nextOf, nodes slot member]
  · intro slot member
    simp only [backOf, nodes slot member]

theorem Linked.change (linked : Linked cache lists) {fresh : List Nat}
    (inside : hash < cache.maxSessions) (sessions : other.maxSessions = cache.maxSessions)
    (nodes : ∀ slot, slot ∉ lists hash -> slot ∉ cache.freeList ->
      other.nodes slot = cache.nodes slot)
    (heads : ∀ another, another ≠ hash -> other.connHashList another = cache.connHashList another ∧
        other.count another = cache.count another)
    (path : Path (nextOf other hash) (backOf other) .head fresh)
    (pool : (other.freeList ++ fresh).Perm (cache.freeList ++ lists hash))
    (count : other.count hash = fresh.length)
    (total : other.total + (lists hash).length = cache.total + fresh.length)
    (newest : fresh.Pairwise fun early late => (other.nodes late).time ≤ (other.nodes early).time) :
    Linked other (update lists hash fresh) := by
  have sameNodes : ∀ another, another < cache.maxSessions -> another ≠ hash ->
      ∀ slot ∈ lists another, other.nodes slot = cache.nodes slot := by
    intro another below differs slot member
    obtain ⟨notOwn, notFree⟩ := linked.elsewhere inside (mem_others below differs member)
    exact nodes slot notOwn notFree
  have old := @elements_split _ _ lists _ inside
  have new := @elements_update _ _ lists _ inside fresh
  refine ⟨?_, ?_, ?_, ?_, ?_⟩
  · intro another below
    rw [sessions] at below
    by_cases differs : another = hash
    · subst differs
      rw [update_self]
      exact path
    · rw [update_of_ne differs]
      exact nextOf_congr (heads another differs).1 (sameNodes another below differs)
        (linked.path another below)
  · rw [sessions]
    refine (new.append_left _).trans ?_
    rw [<- append_assoc]
    refine (pool.append_right _).trans ?_
    rw [append_assoc]
    exact (old.symm.append_left _).trans linked.pool
  · intro another below
    rw [sessions] at below
    by_cases differs : another = hash
    · subst differs
      rw [update_self]
      exact count
    · rw [update_of_ne differs, (heads another differs).2]
      exact linked.count another below
  · have oldLength := old.length_eq
    have newLength := new.length_eq
    have before := linked.total
    rw [length_append] at oldLength newLength
    rw [sessions, newLength]
    push_cast
    omega
  · intro another below
    rw [sessions] at below
    by_cases differs : another = hash
    · subst differs
      rw [update_self]
      exact newest
    · rw [update_of_ne differs]
      refine (linked.newest another below).imp_of_mem ?_
      intro early late earlyMember lateMember ordered
      rw [sameNodes another below differs early earlyMember,
        sameNodes another below differs late lateMember]
      exact ordered

theorem slotsFrom_of_chain : ∀ {fuel : Nat} {start : Option Nat},
    Chain (fun slot => (cache.nodes slot).next) start nodes -> nodes.length ≤ fuel ->
      slotsFrom cache.nodes fuel start = nodes := by
  induction nodes with
  | nil =>
    intro fuel start chain _
    rw [show start = none from chain]
    cases fuel <;> rfl
  | cons slot rest ih =>
    intro fuel start chain enough
    obtain ⟨rfl, later⟩ := chain
    cases fuel with
    | zero => cases enough
    | succ fuel =>
      rw [slotsFrom, ih later (Nat.le_of_succ_le_succ enough)]

theorem Linked.slots_eq (linked : Linked cache lists) (inside : hash < cache.maxSessions) :
    slots cache hash = lists hash :=
  slotsFrom_of_chain (chain_of_path (linked.path hash inside)) (linked.short inside)

def drained (cache : SConnCache δ) (hash : Nat) (gone : List Nat) : SConnCache δ :=
  { cache with
    nodes := fun slot => if slot ∈ gone then zeroNode else cache.nodes slot
    freeList := cache.freeList ++ gone
    total := cache.total - gone.length
    count := update cache.count hash (cache.count hash - gone.length) }

theorem drained_cons (rest : List Nat) :
    drained (taosMemPoolFree (tally cache hash (-1)) slot) hash rest =
      drained cache hash (slot :: rest) := by
  have nodes : (fun other => if other ∈ rest then (zeroNode : SConnHash δ)
      else update cache.nodes slot zeroNode other) =
        fun other => if other ∈ slot :: rest then zeroNode else cache.nodes other := by
    funext other
    by_cases same : other = slot
    · subst same
      rw [update_self, if_pos mem_cons_self, ite_self]
    · rw [update_of_ne same]
      simp only [mem_cons, same, false_or]
  have number : cache.total + -1 - (rest.length : Int) =
      cache.total - ((rest.length + 1 : Nat) : Int) := by
    push_cast
    ring
  have counts : cache.count hash + -1 - (rest.length : Int) =
      cache.count hash - ((rest.length + 1 : Nat) : Int) := by
    push_cast
    ring
  simp only [drained, taosMemPoolFree, setNode, tally, nodes, number, counts, update_self,
    Function.update_idem, append_assoc, List.singleton_append, length_cons]

/-- The loop of `taosRemoveExpiredNodes` frees all nodes from one on. -/
theorem removeNodes_chain {nodes : List Nat} : ∀ {fuel : Nat} {cache : SConnCache δ}
    {start : Option Nat}, Chain (fun slot => (cache.nodes slot).next) start nodes -> nodes.Nodup ->
      nodes.length ≤ fuel -> removeNodes hash fuel cache start =
        some (drained cache hash nodes, nodes.map fun slot => (slot, cache.nodes slot)) := by
  induction nodes with
  | nil =>
    intro fuel cache start chain _ _
    have none' : drained cache hash [] = cache := by
      simp only [drained, List.not_mem_nil, if_false, append_nil, List.length_nil,
        Nat.cast_zero, sub_zero, update_eq_self]
    rw [show start = none from chain, none']
    cases fuel <;> rfl
  | cons slot rest ih =>
    intro fuel cache start chain distinct enough
    obtain ⟨rfl, later⟩ := chain
    obtain ⟨absent, restDistinct⟩ := List.nodup_cons.mp distinct
    have same : ∀ other ∈ rest, (taosMemPoolFree (tally cache hash (-1)) slot).nodes other =
        cache.nodes other := by
      intro other member
      exact update_of_ne (fun equal => absent (by rwa [<- equal])) _ _
    cases fuel with
    | zero => cases enough
    | succ fuel =>
      have chain : Chain (fun other => ((taosMemPoolFree (tally cache hash (-1)) slot).nodes
          other).next) (cache.nodes slot).next rest :=
        later.congr fun other member => by rw [same other member]
      rw [removeNodes, ih chain restDistinct (Nat.le_of_succ_le_succ enough), drained_cons]
      have held : (rest.map fun other => (other,
          (taosMemPoolFree (tally cache hash (-1)) slot).nodes other)) =
            rest.map fun other => (other, cache.nodes other) :=
        List.map_congr_left fun other member => by rw [same other member]
      rw [held]
      rfl

/-- The `prev` of a node behind a place. -/
def prevOf : Ref Nat -> Option Nat
  | .head => none
  | .node slot => some slot

def cutBehind (cache : SConnCache δ) (hash : Nat) (front gone : List Nat) : SConnCache δ :=
  setForward (drained cache hash gone) hash (prevOf (endOf .head front)) none

theorem prev_of_back {place : Ref Nat} (back : backOf cache slot = some place) :
    (cache.nodes slot).prev = prevOf place := by
  unfold backOf at back
  split at back
  · rename_i first
    cases back
    exact first
  · rename_i before second
    cases back
    exact second

variable {rest : List Nat}

/-- `taosRemoveExpiredNodes` behind a front part of a list: nothing happens, or the
end is cut off because its first node has expired. -/
theorem removeExpired_cases (linked : Linked cache lists) (inside : hash < cache.maxSessions)
    {front : List Nat} (parts : lists hash = front ++ rest) :
    (taosRemoveExpiredNodes cache rest.head? hash time = some (cache, []) ∧
      ∀ first, rest.head? = some first -> time < expiry cache first) ∨
    ((∃ first, rest.head? = some first ∧ expiry cache first ≤ time) ∧
      taosRemoveExpiredNodes cache rest.head? hash time = some (cutBehind cache hash front rest,
        rest.map fun slot => (slot, cache.nodes slot))) := by
  have path := linked.path hash inside
  rw [parts] at path
  have distinct := linked.distinct inside
  have short := linked.short inside
  rw [parts] at distinct short
  rw [length_append] at short
  cases rest with
  | nil => exact Or.inl ⟨rfl, fun first none' => by cases none'⟩
  | cons slot later =>
    by_cases fresh : time < expiry cache slot
    · left
      refine ⟨if_pos fresh, ?_⟩
      rintro first same
      cases same
      exact fresh
    · right
      refine ⟨⟨slot, rfl, not_lt.mp fresh⟩, ?_⟩
      have behind := path.behind
      have removed := @removeNodes_chain _ hash (slot :: later) cache.maxSessions cache
        (some slot) (behind.1 ▸ chain_of_path behind) (nodup_append.mp distinct).2.1 (by omega)
      rw [List.head?_cons, taosRemoveExpiredNodes, if_neg fresh, removed, prev_of_back behind.2.1]
      rfl

section

variable (place : Ref Nat)
include place

section

variable (next : Option Nat)

theorem setForward_nodes (slot : Nat) : (setForward cache hash (prevOf place) next).nodes slot =
      if place = .node slot then { cache.nodes slot with next := next } else cache.nodes slot := by
  cases place with
  | head => rfl
  | node before =>
    simp only [setForward, prevOf, setNext, setNode, Ref.node.injEq]
    by_cases same : before = slot
    · subst same
      rw [update_self, if_pos rfl]
    · rw [update_of_ne (Ne.symm same), if_neg same]

theorem setForward_head (another : Nat) :
    (setForward cache hash (prevOf place) next).connHashList another =
      if place = .head ∧ another = hash then next else cache.connHashList another := by
  cases place with
  | head =>
    simp only [setForward, prevOf, setHead, true_and]
    by_cases same : another = hash
    · subst same
      rw [update_self, if_pos rfl]
    · rw [update_of_ne same, if_neg same]
  | node before => simp [setForward, prevOf, setNext, setNode]

theorem setForward_rest :
    (setForward cache hash (prevOf place) next).maxSessions = cache.maxSessions ∧
      (setForward cache hash (prevOf place) next).freeList = cache.freeList ∧
      (setForward cache hash (prevOf place) next).total = cache.total ∧
      (setForward cache hash (prevOf place) next).count = cache.count ∧
      (setForward cache hash (prevOf place) next).keepTimer = cache.keepTimer := by
  cases place <;> exact ⟨rfl, rfl, rfl, rfl, rfl⟩

theorem setForward_next : nextOf (setForward cache hash (prevOf place) next) hash =
      update (nextOf cache hash) place next := by
  funext ref
  by_cases same : ref = place
  · subst same
    rw [update_self]
    cases ref with
    | head => simp only [nextOf, setForward_head, and_self, if_true]
    | node slot => simp only [nextOf, setForward_nodes, if_true]
  · rw [update_of_ne same]
    cases ref with
    | head =>
      simp only [nextOf, setForward_head, and_true]
      rw [if_neg (Ne.symm same)]
    | node slot =>
      simp only [nextOf, setForward_nodes]
      rw [if_neg (Ne.symm same)]

theorem setForward_label (slot : Nat) :
    label (setForward cache hash (prevOf place) next) slot = label cache slot ∧
      backOf (setForward cache hash (prevOf place) next) slot = backOf cache slot := by
  simp only [label, backOf, setForward_nodes]
  split <;> exact ⟨rfl, rfl⟩

end

end

theorem time_of_label (same : label other slot = label cache slot) :
    (other.nodes slot).time = (cache.nodes slot).time := by
  simp only [label, Prod.mk.injEq] at same
  exact same.2.2.2

variable {nodes : List Nat}

theorem newest_congr (same : ∀ slot ∈ nodes, label other slot = label cache slot)
    (newest : nodes.Pairwise fun early late =>
      (cache.nodes late).time ≤ (cache.nodes early).time) :
    nodes.Pairwise fun early late => (other.nodes late).time ≤ (other.nodes early).time := by
  refine newest.imp_of_mem ?_
  intro early late earlyMember lateMember ordered
  rw [time_of_label (same early earlyMember), time_of_label (same late lateMember)]
  exact ordered

variable {front : List Nat}

theorem Linked.cut (linked : Linked cache lists) (inside : hash < cache.maxSessions) (parts : lists hash = front ++ rest) :
    Linked (cutBehind cache hash front rest) (update lists hash front) ∧
      ∀ slot, slot ∉ rest -> label (cutBehind cache hash front rest) slot = label cache slot := by
  have distinct := linked.distinct inside
  have path := linked.path hash inside
  have newest := linked.newest hash inside
  rw [parts] at distinct path newest
  obtain ⟨frontDistinct, -, apart⟩ := nodup_append.mp distinct
  have kept : ∀ slot, slot ∉ rest -> (drained cache hash rest).nodes slot = cache.nodes slot :=
    fun slot absent => if_neg absent
  have frontKept : ∀ slot ∈ front, slot ∉ rest :=
    fun slot member gone => apart slot member slot gone rfl
  have labels : ∀ slot, slot ∉ rest ->
      label (cutBehind cache hash front rest) slot = label cache slot := by
    intro slot absent
    rw [cutBehind, (setForward_label _ _ _).1]
    simp only [label, kept slot absent]
  obtain ⟨sessions, free, total, count, -⟩ :=
    @setForward_rest _ (drained cache hash rest) hash (endOf .head front) none
  refine ⟨linked.change inside sessions ?_ ?_ ?_ ?_ ?_ ?_ ?_, labels⟩
  · intro slot notOwn _
    rw [parts, mem_append, not_or] at notOwn
    rw [cutBehind, setForward_nodes, kept slot notOwn.2]
    refine if_neg fun last => ?_
    exact endOf_ne (head_ne_node slot) notOwn.1 last
  · intro another differs
    rw [cutBehind, setForward_head, count, if_neg fun both => differs both.2]
    exact ⟨rfl, update_of_ne differs _ _⟩
  · rw [<- append_nil front]
    apply path.replace frontDistinct (fun slot _ => head_ne_node slot)
    · intro ref notLast place
      rw [cutBehind, append_nil, setForward_next, update_of_ne notLast]
      rcases place with rfl | ⟨slot, member, rfl⟩
      · rfl
      · simp only [nextOf, kept slot (frontKept slot member)]
    · intro slot member
      rw [cutBehind, (setForward_label _ _ _).2]
      simp only [backOf, kept slot (frontKept slot member)]
    · rw [cutBehind, append_nil]
      change nextOf (setForward _ hash (prevOf (endOf .head front)) none) hash (endOf .head front)
        = none
      rw [setForward_next, update_self]
  · rw [cutBehind, free, parts]
    change (cache.freeList ++ rest ++ front).Perm (cache.freeList ++ (front ++ rest))
    rw [append_assoc]
    exact List.perm_append_comm.append_left _
  · have before := linked.count hash inside
    rw [cutBehind, count]
    change update cache.count hash _ hash = _
    rw [update_self, before, parts, length_append]
    push_cast
    ring
  · rw [cutBehind, total, parts, length_append]
    change cache.total - (rest.length : Int) + ((front.length + rest.length : Nat) : Int) = _
    push_cast
    ring
  · exact newest_congr (fun slot member => labels slot (frontKept slot member))
      (List.pairwise_append.mp newest).1

def chains (cache : SConnCache δ) : ChainTable where
  head := cache.connHashList
  next slot := (cache.nodes slot).next
  prev slot := (cache.nodes slot).prev

theorem Linked.chains (linked : Linked cache lists) :
    HashChains.Linked (chains cache) cache.maxSessions lists := by
  refine ⟨fun hash inside => ?_, (nodup_append.mp linked.distinct_all).2.1⟩
  apply (linked.path hash inside).congr rfl fun _ _ => rfl
  intro slot _
  simp only [backOf, ChainTable.backward, ConnCacheLists.chains]
  cases (cache.nodes slot).prev <;> rfl

theorem path_of_chains {table : ChainTable}
    (path : Path (table.forward hash) table.backward .head nodes)
    (head : cache.connHashList hash = table.head hash)
    (same : ∀ slot ∈ nodes, (cache.nodes slot).next = table.next slot ∧
      (cache.nodes slot).prev = table.prev slot) :
    Path (nextOf cache hash) (backOf cache) .head nodes := by
  apply path.congr head fun slot member => (same slot member).1
  intro slot member
  simp only [backOf, (same slot member).2, ChainTable.backward]
  cases table.prev slot <;> rfl

theorem unlinkNode_rest : (unlinkNode cache slot hash).maxSessions = cache.maxSessions ∧
      (unlinkNode cache slot hash).freeList = cache.freeList ++ [slot] ∧
      (unlinkNode cache slot hash).total = cache.total + -1 ∧
      (unlinkNode cache slot hash).count = update cache.count hash (cache.count hash + -1) ∧
      (unlinkNode cache slot hash).connHashList = ((chains cache).unlink hash slot).head := by
  simp only [unlinkNode, chains, ChainTable.unlink]
  cases (cache.nodes slot).prev <;> split <;> exact ⟨rfl, rfl, rfl, rfl, rfl⟩

theorem unlinkNode_node (notSelf : (cache.nodes slot).prev ≠ some slot) {other : Nat}
    (differs : other ≠ slot) : (unlinkNode cache slot hash).nodes other =
      { cache.nodes other with
        next := ((chains cache).unlink hash slot).next other
        prev := ((chains cache).unlink hash slot).prev other } := by
  have same : (setForward cache hash (cache.nodes slot).prev (cache.nodes slot).next).nodes slot =
      cache.nodes slot := by
    cases before : (cache.nodes slot).prev with
    | none => rfl
    | some place => exact update_of_ne (fun self => notSelf (before.trans (by rw [self]))) _ _
  simp only [unlinkNode, same, chains, ChainTable.unlink]
  cases (cache.nodes slot).prev <;> cases (cache.nodes slot).next <;>
    simp only [tally, taosMemPoolFree, setForward, setHead, setNext, setPrev, setNode,
      update_of_ne differs, update_apply] <;> (repeat' split) <;> simp_all

theorem Linked.unlink (linked : Linked cache lists) (inside : hash < cache.maxSessions) (parts : lists hash = front ++ slot :: rest) :
    Linked (unlinkNode cache slot hash) (update lists hash (front ++ rest)) ∧
      ∀ other, other ≠ slot -> label (unlinkNode cache slot hash) other = label cache other := by
  have distinct := linked.distinct inside
  have newest := linked.newest hash inside
  have chained := linked.chains
  have path := chained.path hash inside
  rw [parts] at distinct newest path
  obtain ⟨-, restDistinct, apart⟩ := nodup_append.mp distinct
  have left : ∀ other ∈ front ++ rest, other ≠ slot := by
    rintro other member rfl
    rcases mem_append.mp member with early | late
    · exact apart other early other mem_cons_self rfl
    · exact (List.nodup_cons.mp restDistinct).1 late
  have isPrev : ChainTable.place (cache.nodes slot).prev = endOf .head front :=
    Option.some.inj path.behind.2.1
  have notSelf : (cache.nodes slot).prev ≠ some slot := by
    intro self
    rw [self] at isPrev
    exact endOf_ne (head_ne_node slot) (fun member => left slot (List.mem_append_left _ member) rfl)
      isPrev.symm
  have nodes := fun other differs => @unlinkNode_node _ cache hash slot notSelf other differs
  obtain ⟨sessions, free, total, count, heads⟩ := @unlinkNode_rest _ cache hash slot
  have labels : ∀ other, other ≠ slot ->
      label (unlinkNode cache slot hash) other = label cache other := by
    intro other differs
    simp only [label, nodes other differs]
  refine ⟨linked.change inside sessions ?_ ?_ ?_ ?_ ?_ ?_ ?_, labels⟩
  · intro other notOwn _
    rw [parts] at notOwn
    obtain ⟨next, prev⟩ := unlink_kept path notOwn
    rw [nodes other fun same => notOwn (by simp [same]), next, prev]
    rfl
  · intro another differs
    rw [heads, unlink_head differs, count, update_of_ne differs]
    exact ⟨rfl, rfl⟩
  · have unlinked := (chained.unlink inside parts).path hash inside
    rw [update_self] at unlinked
    refine path_of_chains unlinked (congrFun heads hash) fun other member => ?_
    rw [nodes other (left other member)]
    exact ⟨rfl, rfl⟩
  · rw [free, parts, append_assoc, List.singleton_append]
    exact List.perm_middle.symm.append_left _
  · rw [count, update_self, linked.count hash inside, parts]
    simp only [length_append, length_cons]
    push_cast
    ring
  · rw [total, parts]
    simp only [length_append, length_cons]
    push_cast
    ring
  · apply newest_congr (fun other member => labels other (left other member))
    exact newest.sublist (List.Sublist.append_left (List.sublist_cons_self _ _) _)

def filled (cache : SConnCache δ) (rest : List Nat) (slot : Nat) (node : SConnHash δ) :
    SConnCache δ :=
  setNode { cache with freeList := rest } slot node

theorem pushNode_rest : (pushNode cache slot hash).maxSessions = cache.maxSessions ∧
      (pushNode cache slot hash).freeList = cache.freeList ∧
      (pushNode cache slot hash).total = cache.total ∧
      (pushNode cache slot hash).count = cache.count ∧
      (pushNode cache slot hash).keepTimer = cache.keepTimer ∧ ∀ another, another ≠ hash ->
        (pushNode cache slot hash).connHashList another = cache.connHashList another := by
  simp only [pushNode]
  cases cache.connHashList hash <;>
    exact ⟨rfl, rfl, rfl, rfl, rfl, fun another differs => update_of_ne differs _ _⟩

theorem pushNode_node {node : SConnHash δ} (noPrev : node.prev = none) (other : Nat) :
    (pushNode (filled cache rest slot node) slot hash).nodes other =
      { (filled cache rest slot node).nodes other with
        next := ((chains cache).push hash slot).next other
        prev := ((chains cache).push hash slot).prev other } := by
  simp only [pushNode, chains, ChainTable.push]
  cases isFirst : cache.connHashList hash <;>
    simp only [filled, setHead, setPrev, setNode, isFirst, update_apply] <;> (repeat' split) <;>
    simp_all

theorem Linked.push (linked : Linked cache lists) (inside : hash < cache.maxSessions)
    (free : cache.freeList = slot :: rest) {node : SConnHash δ} (noPrev : node.prev = none)
    (newest : ∀ other ∈ lists hash, (cache.nodes other).time ≤ node.time) :
    let pushed := tally (pushNode (filled cache rest slot node) slot hash) hash 1
    Linked pushed (update lists hash (slot :: lists hash)) ∧
      label pushed slot = (node.ip, node.port, node.data, node.time) ∧
      ∀ other, other ≠ slot -> label pushed other = label cache other := by
  intro pushed
  have member : slot ∈ cache.freeList := by
    rw [free]
    exact mem_cons_self
  have fresh : slot ∉ elements cache.maxSessions lists := fun isIn =>
    (nodup_append.mp linked.distinct_all).2.2 slot member slot isIn rfl
  have chained := linked.chains
  have nodes : ∀ other, pushed.nodes other = _ := @pushNode_node _ cache hash slot rest node noPrev
  have atSlot : (filled cache rest slot node).nodes slot = node := update_self _ _ _
  have elsewhere : ∀ other, other ≠ slot ->
      (filled cache rest slot node).nodes other = cache.nodes other :=
    fun other differs => update_of_ne differs _ _
  obtain ⟨sessions, freeEq, total, count, -, heads⟩ :=
    @pushNode_rest _ (filled cache rest slot node) hash slot
  have ownLabel : label pushed slot = (node.ip, node.port, node.data, node.time) := by
    simp only [label, nodes, atSlot]
  have labels : ∀ other, other ≠ slot -> label pushed other = label cache other := by
    intro other differs
    simp only [label, nodes, elsewhere other differs]
  have others : ∀ other ∈ lists hash, other ≠ slot := by
    rintro other inList rfl
    exact fresh (mem_elements.mpr ⟨hash, inside, inList⟩)
  refine ⟨linked.change inside sessions ?_ ?_ ?_ ?_ ?_ ?_ ?_, ownLabel, labels⟩
  · intro other notOwn notFree
    have notSlot : other ≠ slot := fun same => notFree (same ▸ member)
    obtain ⟨next, prev⟩ := push_kept (chained.path hash inside) notSlot notOwn
    rw [nodes, next, prev, elsewhere other notSlot]
    rfl
  · intro another differs
    change (pushNode _ _ _).connHashList another = _ ∧
      update (pushNode _ _ _).count hash _ another = _
    rw [heads another differs, update_of_ne differs, count]
    exact ⟨rfl, rfl⟩
  · have pushedPath := (chained.push inside fresh).path hash inside
    rw [update_self] at pushedPath
    refine path_of_chains pushedPath ?_ fun other _ => ?_
    · simp only [pushed, tally, pushNode, setHead, ChainTable.push, update_self]
    · rw [nodes other]
      exact ⟨rfl, rfl⟩
  · change ((pushNode _ _ _).freeList ++ slot :: lists hash).Perm _
    rw [freeEq, free]
    exact List.perm_middle
  · change update (pushNode _ _ _).count hash ((pushNode _ _ _).count hash + 1) hash = _
    rw [update_self, count, length_cons]
    change cache.count hash + 1 = _
    rw [linked.count hash inside]
    push_cast
    rfl
  · change (pushNode _ _ _).total + 1 + _ = _
    rw [total, length_cons]
    change cache.total + 1 + _ = _
    push_cast
    ring
  · rw [List.pairwise_cons]
    constructor
    · intro other inList
      rw [time_of_label (labels other (others other inList))]
      have own := congrArg (fun held => held.2.2.2) ownLabel
      change (pushed.nodes slot).time = node.time at own
      rw [own]
      exact newest other inList
    · exact newest_congr (fun other inList => labels other (others other inList))
        (linked.newest hash inside)

end Lists

end Luomi.Client.ConnCacheLists
