import Luomi.Base.FreeRing

/-!
# The pool of ids (`tidpool.c`)

The free ids are a window of a ring: an id is taken from its front and goes back to
its end.
-/

namespace Luomi.IdPool

/-- `id_pool_t`. -/
structure Pool where
  maxId : Nat
  numOfFree : Nat
  freeSlot : Nat
  freeList : Nat -> Nat

def taosInitIdPool (maxId : Nat) : Pool where
  maxId := max 3 maxId
  numOfFree := max 3 maxId - 1
  freeSlot := 0
  freeList := fun slot => slot + 1

/-- `taosAllocateId`; none stands for -1. -/
def taosAllocateId (pool : Pool) : Option Nat × Pool :=
  if 0 < pool.numOfFree then
    (some (pool.freeList pool.freeSlot), { pool with
        freeSlot := (pool.freeSlot + 1) % pool.maxId, numOfFree := pool.numOfFree - 1 })
  else (none, pool)

def taosFreeId (pool : Pool) (id : Nat) : Pool :=
  if id = 0 ∨ pool.maxId ≤ id then pool
  else
    { pool with
      freeList := Function.update pool.freeList
        ((pool.freeSlot + pool.numOfFree) % pool.maxId) id
      numOfFree := pool.numOfFree + 1 }

def freeIds (pool : Pool) : List Nat :=
  (List.range pool.numOfFree).map fun turn =>
    pool.freeList ((pool.freeSlot + turn) % pool.maxId)

def InUse (pool : Pool) (id : Nat) : Prop :=
  0 < id ∧ id < pool.maxId ∧ id ∉ freeIds pool

structure Sound (pool : Pool) : Prop where
  start : pool.freeSlot < pool.maxId
  distinct : (freeIds pool).Nodup
  range : ∀ id ∈ freeIds pool, 0 < id ∧ id < pool.maxId

variable {pool : Pool}

theorem Sound.positive (sound : Sound pool) : 0 < pool.maxId :=
  Nat.zero_lt_of_lt sound.start

theorem Sound.room (sound : Sound pool) : pool.numOfFree < pool.maxId := by
  apply FreeRing.room_of_not_mem sound.distinct
    (fun id member => (sound.range id member).2) sound.positive
  intro member
  exact Nat.lt_irrefl 0 (sound.range 0 member).1

theorem freeIds_init (maxId : Nat) :
    freeIds (taosInitIdPool maxId) = List.range' 1 (max 3 maxId - 1) := by
  rw [List.range'_eq_map_range]
  apply List.map_congr_left
  intro turn member
  have below : turn < max 3 maxId - 1 := List.mem_range.mp member
  have inside : 0 + turn < max 3 maxId := by omega
  simp only [taosInitIdPool]
  rw [Nat.mod_eq_of_lt inside]
  omega

theorem taosInitIdPool_sound (maxId : Nat) : Sound (taosInitIdPool maxId) := by
  refine ⟨?_, ?_, ?_⟩
  · have positive : 0 < max 3 maxId := by omega
    exact positive
  · rw [freeIds_init]
    exact List.nodup_range'
  · intro id member
    rw [freeIds_init, List.mem_range'_1] at member
    have below : id < max 3 maxId := by omega
    exact ⟨by omega, below⟩

theorem not_inUse_init (maxId id : Nat) : ¬ InUse (taosInitIdPool maxId) id := by
  intro inUse
  obtain ⟨positive, below, taken⟩ := inUse
  rw [freeIds_init, List.mem_range'_1] at taken
  have inside : id < max 3 maxId := below
  omega

theorem freeIds_allocate (positive : 0 < pool.numOfFree) :
    freeIds pool = pool.freeList (pool.freeSlot % pool.maxId) ::
      freeIds (taosAllocateId pool).2 := by
  obtain ⟨count, isCount⟩ := Nat.exists_eq_succ_of_ne_zero (Nat.ne_of_gt positive)
  have taken : FreeRing.window pool.maxId pool.freeSlot (count + 1) pool.freeList = _ :=
    FreeRing.window_take
  unfold taosAllocateId
  rw [if_pos positive]
  unfold freeIds
  simp only [isCount, Nat.succ_sub_one]
  exact taken

theorem taosAllocateId_spec (sound : Sound pool) :
    (taosAllocateId pool = (none, pool) ∧ pool.numOfFree = 0) ∨
      ∃ id, (taosAllocateId pool).1 = some id ∧ ¬ InUse pool id ∧ 0 < id ∧ id < pool.maxId ∧
        (taosAllocateId pool).2.maxId = pool.maxId ∧
        (taosAllocateId pool).2.numOfFree < pool.numOfFree ∧ Sound (taosAllocateId pool).2 ∧
        ∀ other, InUse (taosAllocateId pool).2 other ↔ other = id ∨ InUse pool other := by
  by_cases positive : 0 < pool.numOfFree
  · right
    have first := freeIds_allocate positive
    rw [Nat.mod_eq_of_lt sound.start] at first
    have distinct := sound.distinct
    have range := sound.range
    rw [first] at distinct range
    obtain ⟨absent, rest⟩ := List.nodup_cons.mp distinct
    have size : (taosAllocateId pool).2.maxId = pool.maxId := by
      unfold taosAllocateId
      rw [if_pos positive]
    have own := range _ List.mem_cons_self
    refine ⟨pool.freeList pool.freeSlot, ?_, ?_, own.1, own.2, size, ?_, ⟨?_, rest, ?_⟩, ?_⟩
    · unfold taosAllocateId
      rw [if_pos positive]
    · intro inUse
      apply inUse.2.2
      rw [first]
      exact List.mem_cons_self
    · unfold taosAllocateId
      rw [if_pos positive]
      exact Nat.sub_lt positive Nat.one_pos
    · rw [size]
      unfold taosAllocateId
      rw [if_pos positive]
      exact Nat.mod_lt _ sound.positive
    · intro id member
      rw [size]
      exact range id (List.mem_cons_of_mem _ member)
    · intro other
      unfold InUse
      rw [size, first, List.mem_cons]
      constructor
      · intro inUse
        obtain ⟨isPositive, below, taken⟩ := inUse
        by_cases same : other = pool.freeList pool.freeSlot
        · exact Or.inl same
        · exact Or.inr ⟨isPositive, below, not_or.mpr ⟨same, taken⟩⟩
      · rintro (rfl | ⟨isPositive, below, taken⟩)
        · exact ⟨own.1, own.2, absent⟩
        · exact ⟨isPositive, below, (not_or.mp taken).2⟩
  · refine Or.inl ⟨?_, by omega⟩
    exact if_neg positive

theorem freeIds_free (room : pool.numOfFree < pool.maxId) {id : Nat} (positive : 0 < id)
    (below : id < pool.maxId) : freeIds (taosFreeId pool id) = freeIds pool ++ [id] := by
  have inside : ¬ (id = 0 ∨ pool.maxId ≤ id) := by omega
  unfold taosFreeId
  rw [if_neg inside]
  exact FreeRing.window_put room id

theorem taosFreeId_spec (sound : Sound pool) {id : Nat} (inUse : InUse pool id) :
    Sound (taosFreeId pool id) ∧ (taosFreeId pool id).maxId = pool.maxId ∧
      ∀ other, InUse (taosFreeId pool id) other ↔ other ≠ id ∧ InUse pool other := by
  obtain ⟨positive, below, taken⟩ := inUse
  have free := freeIds_free sound.room positive below
  have inside : ¬ (id = 0 ∨ pool.maxId ≤ id) := by omega
  have size : (taosFreeId pool id).maxId = pool.maxId := by
    unfold taosFreeId
    rw [if_neg inside]
  have start : (taosFreeId pool id).freeSlot = pool.freeSlot := by
    unfold taosFreeId
    rw [if_neg inside]
  refine ⟨⟨?_, ?_, ?_⟩, size, ?_⟩
  · rw [size, start]
    exact sound.start
  · rw [free]
    apply List.Nodup.append sound.distinct (List.nodup_singleton id)
    exact List.disjoint_singleton.mpr taken
  · intro other member
    rw [free] at member
    rw [size]
    rcases List.mem_append.mp member with old | new
    · exact sound.range other old
    · rw [List.mem_singleton.mp new]
      exact ⟨positive, below⟩
  · intro other
    unfold InUse
    rw [size, free, List.mem_append, List.mem_singleton, not_or]
    tauto

end Luomi.IdPool
