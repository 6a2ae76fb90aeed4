import Luomi.Util.DataCacheSteps

/-!
# Runs of a data cache

A reference count is the number of the references that users hold, so that a node
without one is nobody's: only a user who is between the two parts of a release can
still come back to it.
-/

namespace Luomi.DataCache

def held (refs : List (Nat × Nat)) (pNode : Nat) : Nat :=
  refs.countP fun ref => ref.2 == pNode

/-- The reference counts are right, and who has given back a node to be removed will
find it. -/
structure Counted (shared : Shared) : Prop where
  good : Good shared.obj
  counts : ∀ pNode, held shared.refs pNode = ((refOf shared.obj pNode).getD 0).toNat
  waiting : ∀ pNode ∈ shared.removing, refOf shared.obj pNode ≠ none

variable {shared : Shared} {next : SCacheObj} {frees : Nat -> Prop} {pNode : Nat}

theorem held_cons (ref : Nat × Nat) (refs : List (Nat × Nat)) (pNode : Nat) :
    held (ref :: refs) pNode = held refs pNode + if ref.2 = pNode then 1 else 0 := by
  unfold held
  rw [List.countP_cons]
  simp only [beq_iff_eq]

theorem held_erase {ref : Nat × Nat} {refs : List (Nat × Nat)} (member : ref ∈ refs) (pNode : Nat) :
    held (refs.erase ref) pNode = held refs pNode - if ref.2 = pNode then 1 else 0 := by
  unfold held
  rw [List.countP_erase]
  simp only [member, true_and, beq_iff_eq]

theorem refOf_eq_none {obj : SCacheObj} (gone : obj.memory pNode = none) :
    refOf obj pNode = none := by
  rw [refOf, gone]
  rfl

theorem Survives.count {obj : SCacheObj} (survives : Survives obj next frees pNode) :
    (refOf next pNode).getD 0 = (refOf obj pNode).getD 0 := by
  rcases survives with same | ⟨gone, unused, -⟩
  · rw [same]
  · rw [refOf_eq_none gone, unused]
    rfl

section

variable (counted : Counted shared)
include counted

theorem Counted.survived (frees : Nat -> Prop) (good : Good next)
    (survives : ∀ x, Survives shared.obj next frees x)
    (safe : ∀ x ∈ shared.removing, ¬ frees x) : Counted { shared with obj := next } := by
  refine ⟨good, ?_, ?_⟩
  · intro x
    rw [(survives x).count]
    exact counted.counts x
  · intro x waits
    rcases survives x with same | ⟨-, -, isFreed⟩
    · rw [same]
      exact counted.waiting x waits
    · exact absurd isFreed (safe x waits)

theorem Counted.granted (frees : Nat -> Prop) (good : Good next)
    (granted : Granted shared.obj next frees pNode)
    (room : (refOf shared.obj pNode).getD 0 ≠ 4294967295)
    (safe : ∀ x ∈ shared.removing, ¬ frees x) (user : Nat) :
    Counted { shared with obj := next, refs := (user, pNode) :: shared.refs } := by
  obtain ⟨own, others⟩ := granted
  refine ⟨good, ?_, ?_⟩
  · intro x
    rw [held_cons, counted.counts x]
    by_cases same : pNode = x
    · subst same
      have below := UInt32.toNat_lt ((refOf shared.obj pNode).getD 0)
      have notLast : ((refOf shared.obj pNode).getD 0).toNat ≠ 4294967295 :=
        fun last => room (UInt32.toNat_inj.mp last)
      rw [if_pos rfl, own, Option.getD_some, UInt32.toNat_add, UInt32.toNat_one]
      omega
    · rw [if_neg same, (others x (Ne.symm same)).count]
      rfl
  · intro x waits
    by_cases same : x = pNode
    · rw [same, own]
      exact Option.some_ne_none _
    · rcases others x same with kept | ⟨-, -, isFreed⟩
      · rw [kept]
        exact counted.waiting x waits
      · exact absurd isFreed (safe x waits)

theorem Counted.handed (good : Good next) {entry : Entry} {before : Option SDataNode}
    {result : Option Nat} (handed : Handed shared.obj next frees entry before result)
    (safe : ∀ x ∈ shared.removing, ¬ frees x) (user : Nat) :
    Counted (given shared user (result, next)) := by
  cases result with
  | none => exact counted.survived frees good handed safe
  | some pNode =>
    obtain ⟨⟨nobody, granted⟩, -⟩ := handed
    refine counted.granted frees good granted ?_ safe user
    rw [nobody]
    exact ne_of_beq_false rfl

theorem Counted.released {user : Nat} (member : (user, pNode) ∈ shared.refs) (remove : Bool) :
    ∃ next, taosRemoveDataFromCache shared.obj pNode = some (true, next) ∧
      Counted
        { obj := next
          refs := shared.refs.erase (user, pNode)
          removing := if remove then pNode :: shared.removing else shared.removing } := by
  have before := counted.counts pNode
  have positive : 0 < held shared.refs pNode :=
    List.countP_pos_iff.mpr ⟨_, member, beq_self_eq_true pNode⟩
  rw [before] at positive
  cases isNode : shared.obj.memory pNode with
  | none =>
    rw [refOf_eq_none isNode] at positive
    exact absurd positive (Nat.lt_irrefl 0)
  | some node =>
    rw [refOf_eq isNode] at before positive
    simp only [Option.getD_some] at before positive
    have used : 0 < node.refCount := UInt32.lt_iff_toNat_lt.mpr positive
    have less : (node.refCount - 1).toNat = node.refCount.toNat - 1 :=
      UInt32.toNat_sub_of_le _ _ (UInt32.le_iff_toNat_le.mpr positive)
    have memory : (setNode shared.obj pNode { node with refCount := node.refCount - 1 }).memory =
        Function.update shared.obj.memory pNode
          (some { node with refCount := node.refCount - 1 }) := rfl
    have own := refOf_update_self memory
    have others : ∀ x, x ≠ pNode -> _ := fun x differs => refOf_update_of_ne memory differs
    refine ⟨_, counted.good.unreferencedOnce isNode used,
      counted.good.counted isNode (node.refCount - 1), ?_, ?_⟩
    · intro x
      rw [held_erase member, counted.counts x]
      by_cases same : pNode = x
      · subst same
        rw [own, refOf_eq isNode, if_pos rfl, Option.map_some, Option.getD_some, Option.getD_some]
        exact less.symm
      · rw [if_neg same, others x (Ne.symm same)]
        rfl
    · intro x waits
      by_cases same : x = pNode
      · rw [same, own]
        exact Option.some_ne_none _
      · rw [others x same]
        apply counted.waiting
        cases remove with
        | false => exact waits
        | true => exact (List.mem_cons.mp waits).resolve_left same

theorem Counted.trashed (member : pNode ∈ shared.removing) :
    ∃ next, taosCacheMoveNodeToTrash shared.obj pNode = some next ∧
      Counted { shared with obj := next, removing := shared.removing.erase pNode } := by
  have isThere := counted.waiting pNode member
  cases isNode : shared.obj.memory pNode with
  | none => exact absurd (refOf_eq_none isNode) isThere
  | some node =>
    obtain ⟨next, isNext, good, memory, -⟩ := counted.good.movedToTrash isNode
    have same : ∀ x, refOf next x = refOf shared.obj x := by
      intro x
      by_cases own : x = pNode
      · rw [own, refOf_update_self memory, refOf_eq isNode]
        rfl
      · exact refOf_update_of_ne memory own
    refine ⟨next, isNext, good, ?_, ?_⟩
    · intro x
      rw [same]
      exact counted.counts x
    · intro x waits
      rw [same]
      exact counted.waiting x (List.mem_of_mem_erase waits)

theorem Counted.put (entry : Entry) (user : Nat)
    (safe : entry.alloc = .moves -> ∀ pNode ∈ unreferenced shared.obj
      (shared.obj.hashList (taosHashKey shared.obj.maxSessions entry.key))
      (fun node => node.key == entry.key), pNode ∉ shared.removing) :
    ∃ result, putEntry shared.obj entry = some result ∧ Counted (given shared user result) := by
  obtain ⟨result, next, isNext, good, -, handed⟩ := counted.good.put entry
  refine ⟨(result, next), isNext, counted.handed good handed ?_ user⟩
  exact fun x waits frees => safe frees.1 x frees.2 waits

theorem Counted.step {event : CacheEvent}
    (safe : Safe shared event) : ∃ after, cacheStep shared event = some after ∧ Counted after := by
  obtain ⟨notWaiting, room⟩ := safe
  cases event with
  | get user key =>
    simp only [cacheStep]
    rcases counted.good.gotten key with
      missing | ⟨pNode, node, isNode, isKey, member, found⟩
    · rw [missing]
      exact ⟨_, rfl, counted⟩
    · rw [found]
      have memory : (setNode shared.obj pNode { node with refCount := node.refCount + 1 }).memory =
            Function.update shared.obj.memory pNode
              (some { node with refCount := node.refCount + 1 }) := rfl
      refine ⟨_, rfl, counted.granted (fun _ => False)
        (counted.good.counted isNode _) ⟨?_, ?_⟩ ?_ ?_ user⟩
      · rw [refOf_update_self memory, refOf_eq isNode]
        rfl
      · exact fun x differs => Or.inl (refOf_update_of_ne memory differs)
      · have counts := List.all_eq_true.mp room pNode member
        rw [isNode, Option.all_some, isKey, bne_self_eq_false, Bool.false_or] at counts
        rw [refOf_eq isNode]
        exact bne_iff_ne.mp counts
      · exact fun _ _ => not_false
  | add user key dataSize keepTime now alloc =>
    obtain ⟨result, isResult, after⟩ := counted.put
      ⟨key, dataSize, UInt64.ofInt (keepTime * 1000), now, alloc⟩ user (by
        rintro rfl
        exact notWaiting)
    refine ⟨_, ?_, after⟩
    simp only [cacheStep, taosAddDataIntoCache]
    rw [isResult]
    rfl
  | update user key size duration now alloc =>
    obtain ⟨result, isResult, after⟩ := counted.put
      ⟨key, size, UInt64.ofInt (duration * 1000), now, alloc⟩ user (by
        rintro rfl
        exact notWaiting)
    refine ⟨_, ?_, after⟩
    simp only [cacheStep, taosUpdateDataFromCache]
    rw [isResult]
    rfl
  | release user pNode remove =>
    simp only [cacheStep]
    by_cases member : (user, pNode) ∈ shared.refs
    · rw [if_pos member]
      obtain ⟨next, isNext, after⟩ := counted.released member remove
      rw [isNext]
      exact ⟨_, rfl, after⟩
    · rw [if_neg member]
      exact ⟨_, rfl, counted⟩
  | moveToTrash pNode =>
    simp only [cacheStep]
    by_cases member : pNode ∈ shared.removing
    · rw [if_pos member]
      obtain ⟨next, isNext, after⟩ := counted.trashed member
      rw [isNext]
      exact ⟨_, rfl, after⟩
    · rw [if_neg member]
      exact ⟨_, rfl, counted⟩
  | refreshList hash time =>
    obtain ⟨next, isNext, good, swept⟩ := counted.good.refreshed time hash
    refine ⟨_, ?_, counted.survived _ good swept.survives ?_⟩
    · simp only [cacheStep]
      rw [isNext]
      rfl
    · exact fun x waits frees => notWaiting x frees waits
  | clearList hash =>
    have live : ∀ pNode ∈ shared.obj.hashList hash, ∃ node, shared.obj.memory pNode = some node :=
      fun pNode member => (counted.good.listed hash pNode member).imp fun _ both => both.1
    obtain ⟨next, isNext, good, same, -⟩ := counted.good.listTrashed live
    refine ⟨_, ?_, counted.survived (fun _ => False) good
      (fun x => Or.inl (same x)) (fun _ _ => not_false)⟩
    simp only [cacheStep]
    rw [isNext]
    rfl
  | clearTrash =>
    obtain ⟨next, isNext, good, swept⟩ := counted.good.trashCleared
    refine ⟨_, ?_, counted.survived _ good swept.survives ?_⟩
    · simp only [cacheStep]
      rw [isNext]
      rfl
    · exact fun x waits frees => notWaiting x frees waits

end

theorem Counted.run {events : List CacheEvent} :
    ∀ {shared : Shared}, Counted shared -> SafeRun shared events ->
      ∃ after, cacheRun shared events = some after ∧ Counted after := by
  induction events with
  | nil => exact fun counted _ => ⟨_, rfl, counted⟩
  | cons event rest ih =>
    intro shared counted safe
    obtain ⟨next, isNext, countedNext⟩ := counted.step safe.1
    obtain ⟨after, isAfter, countedAfter⟩ := ih countedNext (safe.2 next isNext)
    refine ⟨after, ?_, countedAfter⟩
    unfold cacheRun
    rw [isNext]
    exact isAfter

theorem doubled_pos {length : Nat} : ∀ {fuel i : Nat}, 0 < i -> 0 < doubled length fuel i := by
  intro fuel
  induction fuel with
  | zero => exact fun positive => positive
  | succ fuel ih =>
    intro i positive
    unfold doubled
    split
    · exact ih (by omega)
    · exact positive

theorem fresh_counted (maxSessions : Nat) : Counted (fresh maxSessions) := by
  have empty : hashNodes (taosInitDataCache maxSessions) = [] := by
    apply List.eq_nil_iff_forall_not_mem.mpr
    intro pNode member
    obtain ⟨hash, -, inList⟩ := Buckets.mem_elements.mp member
    cases inList
  refine ⟨⟨doubled_pos (by omega), ?_, List.nodup_nil, ?_, ?_, ?_, ?_, ?_, ?_, ?_, rfl, ?_⟩,
    fun _ => rfl, ?_⟩
  · exact empty ▸ List.nodup_nil
  · exact fun hash pNode => iff_of_false List.not_mem_nil (fun ⟨_, isNode, _⟩ => nomatch isNode)
  · exact fun pNode => iff_of_false List.not_mem_nil (fun ⟨_, isNode, _⟩ => nomatch isNode)
  · exact fun _ _ isNode => nomatch isNode
  · exact fun _ _ isNode => nomatch isNode
  · exact fun _ _ isNode => nomatch isNode
  · simp only [fresh, empty]
    rfl
  · simp only [fresh, empty]
    rfl
  · exact fun _ member => nomatch member
  · exact fun _ member => nomatch member

/-- Without a node being freed under a release, and a reference count at its end, the
functions never come to a freed node and the cache stays consistent. -/
theorem safeRun_consistent (maxSessions : Nat) (events : List CacheEvent)
    (safe : SafeRun (fresh maxSessions) events) :
    ∃ after, cacheRun (fresh maxSessions) events = some after ∧ Consistent after.obj := by
  obtain ⟨after, isAfter, counted⟩ := (fresh_counted maxSessions).run safe
  exact ⟨after, isAfter, counted.good.consistent⟩

/-- Two users of one key: the node goes into the trash while one of them has it. -/
theorem sharedKey_consistent : ∃ after, cacheRun (fresh 1)
        [.add 1 [97] 4 0 100 .moves, .get 2 [97], .release 1 0 true, .moveToTrash 0,
          .update 3 [97] 8 60 200 .moves, .clearTrash, .release 2 0 false, .clearTrash,
          .refreshList (taosHashKey 4 [97]) 100] = some after ∧ Consistent after.obj :=
  safeRun_consistent 1 _ (by decide +kernel)

/-- A refresh frees a node between the two parts of its release. -/
theorem refreshedRelease_faults : ¬ ∃ after, cacheRun (fresh 1)
        [.add 1 [97] 4 0 100 .moves, .release 1 0 true,
          .refreshList (taosHashKey 4 [97]) 100, .moveToTrash 0] = some after ∧
      Consistent after.obj := by
  rintro ⟨after, isAfter, -⟩
  have faults : (cacheRun (fresh 1) [.add 1 [97] 4 0 100 .moves, .release 1 0 true,
        .refreshList (taosHashKey 4 [97]) 100, .moveToTrash 0]).isNone = true := by
    decide +kernel
  rw [isAfter] at faults
  cases faults

end Luomi.DataCache
