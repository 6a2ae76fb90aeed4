import Luomi.Util.IdPool

/-!
# The ids of a pool over its runs (`tidpool.c`)

A pool is set up, or rebuilt from marks that say which ids are taken.  From then on ids
are allocated and given back, and the pool never loses one and never hands one out twice.
-/

namespace Luomi.IdPool

open Function (update update_of_ne update_self)

def taosIdPoolNumOfUsed (pool : Pool) : Int :=
  pool.maxId - pool.numOfFree - 1

def taosIdPoolReinit (pool : Pool) : Pool :=
  { pool with
    numOfFree := 0
    freeSlot := 0
    freeList := fun slot => if slot < pool.maxId then 0 else pool.freeList slot }

def taosIdPoolMarkStatus (pool : Pool) (id status : Nat) : Pool :=
  { pool with freeList := update pool.freeList id status }

/-- One turn of the loop of `taosIdPoolSetFreeList`; pos is beside the pool. -/
def setFreeListTurn (state : Nat × Pool) (i : Nat) : Nat × Pool :=
  if state.2.freeList i = 0 then
    (state.1 + 1, { state.2 with
        freeList := update state.2.freeList state.1 i
        numOfFree := state.2.numOfFree + 1 })
  else state

def taosIdPoolSetFreeList (pool : Pool) : Pool :=
  ((List.range' 1 (pool.maxId - 1)).foldl setFreeListTurn
    (0, { pool with numOfFree := 0, freeSlot := 0 })).2

/-- `taosInitIdPool` writes every slot but the last one. -/
structure AsSetUp (maxId : Nat) (pool : Pool) : Prop where
  size : pool.maxId = (taosInitIdPool maxId).maxId
  count : pool.numOfFree = (taosInitIdPool maxId).numOfFree
  start : pool.freeSlot = (taosInitIdPool maxId).freeSlot
  written : ∀ slot, slot < max 3 maxId - 1 ->
    pool.freeList slot = (taosInitIdPool maxId).freeList slot

def rebuilt (pool : Pool) (marks : List Nat) : Pool :=
  taosIdPoolSetFreeList
    (marks.foldl (fun marked id => taosIdPoolMarkStatus marked id 1) (taosIdPoolReinit pool))

inductive Begins (maxId : Nat) : Pool -> Finset Nat -> Prop
  | setUp {pool : Pool} (asSetUp : AsSetUp maxId pool) : Begins maxId pool ∅
  | rebuilt {pool : Pool} {marks : List Nat} (size : pool.maxId = maxId)
      (ids : ∀ id ∈ marks, 0 < id ∧ id < maxId) :
      Begins maxId (rebuilt pool marks) marks.toFinset

inductive Reaches (maxId : Nat) : Pool -> Finset Nat -> Prop
  | begins {pool : Pool} {used : Finset Nat} (isBegin : Begins maxId pool used) :
      Reaches maxId pool used
  | allocate {pool : Pool} {used : Finset Nat} {id : Nat} (reached : Reaches maxId pool used)
      (given : (taosAllocateId pool).1 = some id) :
      Reaches maxId (taosAllocateId pool).2 (insert id used)
  | refused {pool : Pool} {used : Finset Nat} (reached : Reaches maxId pool used)
      (given : (taosAllocateId pool).1 = none) : Reaches maxId (taosAllocateId pool).2 used
  | free {pool : Pool} {used : Finset Nat} {id : Nat} (reached : Reaches maxId pool used)
      (allocated : id ∈ used) : Reaches maxId (taosFreeId pool id) (used.erase id)

structure Accounts (maxId : Nat) (pool : Pool) (used : Finset Nat) : Prop where
  range : ∀ id ∈ used, 0 < id ∧ id < maxId
  next : ∀ id, (taosAllocateId pool).1 = some id -> id ∉ used ∧ 0 < id ∧ id < maxId
  full : (taosAllocateId pool).1 = none ↔ used.card = maxId - 1
  count : taosIdPoolNumOfUsed pool = used.card

/-- The loop has passed the ids below `next`: those without a mark stand at the front of the
list, and the marks from `next` on are still there. -/
structure Compacted (marked pool : Pool) (pos next : Nat) : Prop where
  behind : pos < next
  size : pool.maxId = marked.maxId
  start : pool.freeSlot = 0
  count : pool.numOfFree = pos
  front : (List.range pos).map pool.freeList =
    (List.range' 1 (next - 1)).filter fun id => marked.freeList id = 0
  ahead : ∀ id, next ≤ id -> pool.freeList id = marked.freeList id

variable {maxId : Nat} {pool marked : Pool} {used : Finset Nat}

theorem Compacted.turn {pos next : Nat} (compacted : Compacted marked pool pos next) :
    Compacted marked (setFreeListTurn (pos, pool) next).2
      (setFreeListTurn (pos, pool) next).1 (next + 1) := by
  have positive : 1 ≤ next := Nat.one_le_of_lt compacted.behind
  have longer : List.range' 1 (next + 1 - 1) = List.range' 1 (next - 1) ++ [next] := by
    obtain ⟨before, rfl⟩ := Nat.exists_eq_add_of_le' positive
    rw [Nat.add_sub_cancel, Nat.add_sub_cancel, List.range'_concat, Nat.one_mul, Nat.add_comm]
  have own : pool.freeList next = marked.freeList next := compacted.ahead next (Nat.le_refl next)
  unfold setFreeListTurn
  by_cases isFree : pool.freeList next = 0
  · rw [if_pos isFree]
    refine ⟨Nat.succ_lt_succ compacted.behind, compacted.size, compacted.start,
      congrArg Nat.succ compacted.count, ?_, ?_⟩
    · have kept : (List.range pos).map (update pool.freeList pos next) =
          (List.range pos).map pool.freeList := by
        apply List.map_congr_left
        intro slot member
        exact update_of_ne (Nat.ne_of_lt (List.mem_range.mp member)) next pool.freeList
      rw [own] at isFree
      have put : update pool.freeList pos next pos = next :=
        update_self pos next pool.freeList
      rw [longer, List.filter_append, <- compacted.front, List.range_succ, List.map_append]
      change (List.range pos).map (update pool.freeList pos next) ++
        [update pool.freeList pos next pos] = _
      rw [kept, put]
      simp only [isFree, decide_true, List.filter_cons_of_pos, List.filter_nil]
    · intro id above
      have apart : id ≠ pos := by
        have behind := compacted.behind
        omega
      rw [<- compacted.ahead id (by omega)]
      exact update_of_ne apart next pool.freeList
  · rw [if_neg isFree]
    refine ⟨Nat.lt_succ_of_lt compacted.behind, compacted.size, compacted.start,
      compacted.count, ?_, fun id above => compacted.ahead id (by omega)⟩
    rw [own] at isFree
    rw [longer, List.filter_append, <- compacted.front]
    simp only [isFree, decide_false, Bool.false_eq_true, not_false_eq_true,
      List.filter_cons_of_neg, List.filter_nil, List.append_nil]

theorem Compacted.loop (turns : Nat) {pos next : Nat} (compacted : Compacted marked pool pos next) :
    ∃ last, Compacted marked
      ((List.range' next turns).foldl setFreeListTurn (pos, pool)).2 last (next + turns) := by
  induction turns generalizing pool pos next with
  | zero => exact ⟨pos, compacted⟩
  | succ turns ih =>
    obtain ⟨last, rest⟩ := ih compacted.turn
    rw [Nat.add_right_comm, Nat.add_assoc] at rest
    exact ⟨last, rest⟩

theorem taosIdPoolSetFreeList_spec (positive : 0 < marked.maxId) :
    Sound (taosIdPoolSetFreeList marked) ∧ (taosIdPoolSetFreeList marked).maxId = marked.maxId ∧
      ∀ id, InUse (taosIdPoolSetFreeList marked) id ↔
        0 < id ∧ id < marked.maxId ∧ marked.freeList id ≠ 0 := by
  have begins : Compacted marked { marked with numOfFree := 0, freeSlot := 0 } 0 1 :=
    ⟨Nat.one_pos, rfl, rfl, rfl, rfl, fun _ _ => rfl⟩
  obtain ⟨last, compacted⟩ := begins.loop (marked.maxId - 1)
  have whole : 1 + (marked.maxId - 1) = marked.maxId := by omega
  rw [whole] at compacted
  change Compacted marked (taosIdPoolSetFreeList marked) last marked.maxId at compacted
  have fits : (taosIdPoolSetFreeList marked).numOfFree ≤ (taosIdPoolSetFreeList marked).maxId := by
    rw [compacted.count, compacted.size]
    exact compacted.behind.le
  have free : freeIds (taosIdPoolSetFreeList marked) =
      (List.range' 1 (marked.maxId - 1)).filter fun id => marked.freeList id = 0 := by
    rw [<- compacted.front, <- compacted.count]
    unfold freeIds
    rw [compacted.start]
    exact FreeRing.window_zero fits
  have isFree : ∀ id, id ∈ freeIds (taosIdPoolSetFreeList marked) ↔
      (1 ≤ id ∧ id < marked.maxId) ∧ marked.freeList id = 0 := by
    intro id
    rw [free, List.mem_filter, List.mem_range'_1, whole, decide_eq_true_iff]
  refine ⟨⟨?_, ?_, ?_⟩, compacted.size, ?_⟩
  · rw [compacted.start, compacted.size]
    exact positive
  · rw [free]
    exact List.Nodup.filter _ List.nodup_range'
  · intro id member
    rw [compacted.size]
    exact ((isFree id).mp member).1
  · intro id
    unfold InUse
    rw [isFree, compacted.size]
    constructor
    · rintro ⟨above, below, taken⟩
      exact ⟨above, below, fun zero => taken ⟨⟨above, below⟩, zero⟩⟩
    · rintro ⟨above, below, mark⟩
      exact ⟨above, below, fun taken => mark taken.2⟩

theorem marks_spec (marks : List Nat) (pool : Pool) :
    (marks.foldl (fun marked id => taosIdPoolMarkStatus marked id 1) pool).maxId = pool.maxId ∧
      ∀ id, (marks.foldl (fun marked id => taosIdPoolMarkStatus marked id 1) pool).freeList id =
        if id ∈ marks then 1 else pool.freeList id := by
  induction marks generalizing pool with
  | nil => exact ⟨rfl, fun _ => rfl⟩
  | cons mark marks ih =>
    obtain ⟨size, statuses⟩ := ih (taosIdPoolMarkStatus pool mark 1)
    refine ⟨size, fun id => ?_⟩
    rw [List.foldl_cons, statuses id]
    by_cases later : id ∈ marks
    · rw [if_pos later, if_pos (List.mem_cons_of_mem mark later)]
    · rw [if_neg later]
      by_cases same : id = mark
      · rw [same, if_pos List.mem_cons_self]
        exact update_self mark 1 pool.freeList
      · rw [if_neg (by simp only [List.mem_cons, same, later, or_self, not_false_eq_true])]
        exact update_of_ne same 1 pool.freeList

structure Kept (maxId : Nat) (pool : Pool) (used : Finset Nat) : Prop where
  sound : Sound pool
  size : pool.maxId = maxId
  taken : ∀ id, id ∈ used ↔ InUse pool id

theorem AsSetUp.freeIds_eq (asSetUp : AsSetUp maxId pool) :
    freeIds pool = freeIds (taosInitIdPool maxId) := by
  have inside : (taosInitIdPool maxId).numOfFree ≤ (taosInitIdPool maxId).maxId :=
    Nat.sub_le (max 3 maxId) 1
  unfold freeIds
  rw [asSetUp.size, asSetUp.count, asSetUp.start]
  apply List.map_congr_left
  intro turn member
  have below : turn < max 3 maxId - 1 := List.mem_range.mp member
  have place : ((taosInitIdPool maxId).freeSlot + turn) % (taosInitIdPool maxId).maxId = turn := by
    rw [Nat.mod_eq_of_lt]
    · exact Nat.zero_add turn
    · have size : (taosInitIdPool maxId).freeSlot + turn = turn := Nat.zero_add turn
      rw [size]
      exact Nat.lt_of_lt_of_le below inside
  rw [place]
  exact asSetUp.written turn below

theorem Begins.kept (large : 3 ≤ maxId) (begins : Begins maxId pool used) :
    Kept maxId pool used := by
  cases begins with
  | setUp asSetUp =>
    have whole : (taosInitIdPool maxId).maxId = maxId := Nat.max_eq_right large
    have sound := taosInitIdPool_sound maxId
    have free := asSetUp.freeIds_eq
    refine ⟨⟨?_, ?_, ?_⟩, asSetUp.size.trans whole, fun id => ?_⟩
    · rw [asSetUp.size, asSetUp.start]
      exact sound.start
    · rw [free]
      exact sound.distinct
    · rw [free, asSetUp.size]
      exact sound.range
    · constructor
      · intro member
        exact absurd member (Finset.notMem_empty id)
      · intro inUse
        unfold InUse at inUse
        rw [free, asSetUp.size] at inUse
        exact absurd inUse (not_inUse_init maxId id)
  | @rebuilt before marks size ids =>
    obtain ⟨sameSize, statuses⟩ := marks_spec marks (taosIdPoolReinit before)
    have whole := sameSize.trans size
    have positive : 0 < (marks.foldl (fun marked id => taosIdPoolMarkStatus marked id 1)
        (taosIdPoolReinit before)).maxId := by
      rw [whole]
      omega
    obtain ⟨sound, kept, inUse⟩ := taosIdPoolSetFreeList_spec positive
    refine ⟨sound, kept.trans whole, fun id => ?_⟩
    rw [List.mem_toFinset]
    refine Iff.trans ?_ (inUse id).symm
    rw [whole, statuses]
    constructor
    · intro member
      rw [if_pos member]
      exact ⟨(ids id member).1, (ids id member).2, Nat.one_ne_zero⟩
    · rintro ⟨_, below, mark⟩
      by_contra absent
      apply mark
      rw [if_neg absent]
      exact if_pos (Nat.lt_of_lt_of_eq below size.symm)

theorem Kept.step_allocate (kept : Kept maxId pool used) {id : Nat}
    (given : (taosAllocateId pool).1 = some id) :
    Kept maxId (taosAllocateId pool).2 (insert id used) := by
  rcases taosAllocateId_spec kept.sound with
    ⟨refused, _⟩ | ⟨own, isGiven, _, _, _, size, _, sound, inUse⟩
  · rw [refused] at given
    cases given
  · obtain rfl : id = own := Option.some.inj (given.symm.trans isGiven)
    refine ⟨sound, size.trans kept.size, fun other => ?_⟩
    rw [Finset.mem_insert, kept.taken]
    exact (inUse other).symm

theorem Kept.step_free (kept : Kept maxId pool used) {id : Nat} (allocated : id ∈ used) :
    Kept maxId (taosFreeId pool id) (used.erase id) := by
  obtain ⟨sound, size, inUse⟩ := taosFreeId_spec kept.sound ((kept.taken id).mp allocated)
  refine ⟨sound, size.trans kept.size, fun other => ?_⟩
  rw [Finset.mem_erase, kept.taken]
  exact (inUse other).symm

theorem Reaches.kept (large : 3 ≤ maxId) (reached : Reaches maxId pool used) :
    Kept maxId pool used := by
  induction reached with
  | begins isBegin => exact isBegin.kept large
  | allocate _ given ih => exact ih.step_allocate given
  | refused _ given ih =>
    rcases taosAllocateId_spec ih.sound with ⟨same, _⟩ | ⟨own, isGiven, _⟩
    · rw [same]
      exact ih
    · rw [given] at isGiven
      cases isGiven
  | free _ allocated ih => exact ih.step_free allocated

theorem Kept.ledger (kept : Kept maxId pool used) : pool.numOfFree + used.card + 1 = maxId := by
  have positive : 0 < maxId := kept.size ▸ kept.sound.positive
  have parts : (freeIds pool).toFinset ∪ used = Finset.Ioo 0 maxId := by
    ext id
    rw [Finset.mem_union, List.mem_toFinset, kept.taken, Finset.mem_Ioo]
    constructor
    · rintro (isFree | inUse)
      · exact kept.size ▸ kept.sound.range id isFree
      · exact ⟨inUse.1, kept.size ▸ inUse.2.1⟩
    · intro inside
      by_cases isFree : id ∈ freeIds pool
      · exact Or.inl isFree
      · exact Or.inr ⟨inside.1, kept.size.symm ▸ inside.2, isFree⟩
  have apart : Disjoint (freeIds pool).toFinset used := by
    rw [Finset.disjoint_left]
    intro id isFree member
    exact ((kept.taken id).mp member).2.2 (List.mem_toFinset.mp isFree)
  have sizes := Finset.card_union_of_disjoint apart
  rw [parts, List.toFinset_card_of_nodup kept.sound.distinct, Nat.card_Ioo] at sizes
  have length : (freeIds pool).length = pool.numOfFree := FreeRing.length_window
  omega

theorem accounts_of_reached (large : 3 ≤ maxId) (reached : Reaches maxId pool used) :
    Accounts maxId pool used := by
  have kept := reached.kept large
  have ledger := kept.ledger
  refine ⟨fun id member => ?_, fun id given => ?_, ?_, ?_⟩
  · obtain ⟨positive, below, _⟩ := (kept.taken id).mp member
    exact ⟨positive, kept.size ▸ below⟩
  · rcases taosAllocateId_spec kept.sound with
      ⟨refused, _⟩ | ⟨own, isGiven, notUsed, positive, below, _⟩
    · rw [refused] at given
      cases given
    · obtain rfl : id = own := Option.some.inj (given.symm.trans isGiven)
      exact ⟨fun member => notUsed ((kept.taken id).mp member), positive, kept.size ▸ below⟩
  · rcases taosAllocateId_spec kept.sound with
      ⟨refused, empty⟩ | ⟨own, isGiven, _, _, _, _, fewer, _⟩
    · refine ⟨fun _ => by omega, fun _ => ?_⟩
      rw [refused]
    · refine ⟨fun given => ?_, fun full => by omega⟩
      rw [isGiven] at given
      cases given
  · unfold taosIdPoolNumOfUsed
    rw [kept.size]
    omega

/-- A pool of four slots with the id 2 marked, one allocation later. -/
theorem accounts_of_rebuilt :
    Accounts 4 (taosAllocateId (rebuilt (taosInitIdPool 4) [2])).2 {1, 2} :=
  accounts_of_reached (by decide)
    (Reaches.allocate (.begins (.rebuilt rfl (by decide))) (by decide))

end Luomi.IdPool
