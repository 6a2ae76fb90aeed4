import Luomi.Vnode.MeterState

/-!
# The turns of the operations on a meter

A turn keeps the bit of its operation, takes it where the meter is ready, clears it, or marks
the meter for a drop, and it changes the count of the queries in one of four ways.  This needs
a condition on the turns that clear a bit or set it without a look at what was there.
-/

namespace Luomi.Vnode.MeterTurns

open MeterState
open Function (update update_of_ne update_self)

variable {system next : System} {a b : Nat} {outside : Outside}

def IsBit (bit : BitVec 32) : Prop :=
  bit = stateInsert ∨ bit = stateImporting ∨ bit = stateUpdating

theorem bit_insert : IsBit stateInsert := Or.inl rfl

theorem bit_importing : IsBit stateImporting := Or.inr (Or.inl rfl)

theorem bit_updating : IsBit stateUpdating := Or.inr (Or.inr rfl)

def Has (state bit : BitVec 32) : Prop := state &&& bit = bit

instance (state bit : BitVec 32) : Decidable (Has state bit) := inferInstanceAs (Decidable (_ = _))

def Small (state : BitVec 32) : Prop := state.toNat < 32

instance (state : BitVec 32) : Decidable (Small state) := inferInstanceAs (Decidable (_ < _))

def stateGone : BitVec 32 := 0x08

theorem Small.cases {state : BitVec 32} (small : Small state) :
    ∃ n : Fin 32, state = BitVec.ofNat 32 n :=
  ⟨⟨state.toNat, small⟩, by simp⟩

section Bits

variable {state bit : BitVec 32}

theorem has_ne_ready (isBit : IsBit bit) (held : Has state bit) : state ≠ stateReady := by
  rintro rfl
  rcases isBit with rfl | rfl | rfl
  all_goals exact absurd held (by decide)

theorem small_bit (isBit : IsBit bit) : Small bit := by
  rcases isBit with rfl | rfl | rfl
  all_goals decide

section

variable (small : Small state)
include small

theorem small_clear (bit : BitVec 32) : Small (vnodeClearMeterState state bit) := by
  unfold vnodeClearMeterState Small
  rw [BitVec.toNat_and]
  exact Nat.and_le_left.trans_lt small

theorem small_mark : Small (vnodeSetMeterDeleting state) := by
  obtain ⟨n, rfl⟩ := small.cases
  revert n
  decide

theorem has_mark (isBit : IsBit bit) (held : Has state bit) :
    Has (vnodeSetMeterDeleting state) bit := by
  obtain ⟨n, rfl⟩ := small.cases
  rcases isBit with rfl | rfl | rfl
  all_goals revert n; decide

theorem mark_has : Has (vnodeSetMeterDeleting state) stateDeleting := by
  obtain ⟨n, rfl⟩ := small.cases
  revert n
  decide

end

theorem isMeterState_bit (isBit : IsBit bit) :
    vnodeIsMeterState state bit = true ↔ Has state bit := by
  rcases isBit with rfl | rfl | rfl
  all_goals
    rw [vnodeIsMeterState, if_neg (by decide), if_neg (by decide)]
    exact decide_eq_true_iff

section

variable (small : Small state)
include small

theorem clear_unset (isBit : IsBit bit) (unset : ¬ Has state bit) :
    vnodeClearMeterState state bit = state := by
  obtain ⟨n, rfl⟩ := small.cases
  rcases isBit with rfl | rfl | rfl
  all_goals revert n; decide

theorem clear_gone (isBit : IsBit bit)
    (gone : Has (vnodeClearMeterState state bit) stateGone) : Has state stateGone := by
  obtain ⟨n, rfl⟩ := small.cases
  rcases isBit with rfl | rfl | rfl
  all_goals revert n; decide

theorem mark_gone (gone : Has (vnodeSetMeterDeleting state) stateGone) : Has state stateGone := by
  obtain ⟨n, rfl⟩ := small.cases
  revert n
  decide

theorem deleted_gone (isDeleted : vnodeIsMeterState state stateDeleted = true) :
    Has state stateGone := by
  obtain ⟨n, rfl⟩ := small.cases
  revert n
  decide

end

theorem bit_not_gone (isBit : IsBit bit) : ¬ Has bit stateGone := by
  rcases isBit with rfl | rfl | rfl
  all_goals decide

theorem passed_unset (small : Small state) (passed : ¬ stateInsert.slt state = true) :
    ¬ Has state stateImporting ∧ ¬ Has state stateUpdating ∧ ¬ Has state stateDeleting := by
  obtain ⟨n, rfl⟩ := small.cases
  revert n
  decide

theorem dropped_deleting (small : Small state)
    (going : ¬ (state ≠ stateReady ∧ state.slt stateDeleting = true)) :
    Has (vnodeSetMeterState state stateDeleting) stateDeleting ∧
      (state ≠ stateReady -> vnodeIsMeterState state stateDeleting = true) := by
  obtain ⟨n, rfl⟩ := small.cases
  revert n
  decide

theorem unset_of_none (small : Small state) (isBit : IsBit bit)
    (none' : state &&& (stateInsert ||| stateImporting ||| stateUpdating) = 0) :
    ¬ Has state bit := by
  obtain ⟨n, rfl⟩ := small.cases
  rcases isBit with rfl | rfl | rfl
  all_goals revert n; decide

end Bits

def bitOf : Place -> BitVec 32
  | .inserting | .insertingNewer => stateInsert
  | .imported | .importCounted _ | .importing | .importOver | .timerImporting | .timerOver =>
    stateImporting
  | .timerSet _ state | .timerCounted _ state _ | .timerFailed _ state =>
    if state = stateReady then stateImporting else 0
  | .updateSet state | .updateCounted state _ => if state = stateReady then stateUpdating else 0
  | .uncommitted | .updateOver | .updating => stateUpdating
  | _ => 0

def Quiet : Place -> Prop
  | .importCounted num => num = 0
  | .importing | .timerImporting | .updating => True
  | .timerCounted _ state num | .updateCounted state num => state = stateReady ∧ num = 0
  | _ => False

def Waiting (place : Place) : Prop :=
  place = .idle ∨ place = .updatePending ∨ place = .schemaTimer ∨ ∃ retry, place = .deferred retry

def Dropping (place : Place) : Prop := place = .dropSafe ∨ place = .dropDeleted

variable {place : Place}

theorem bitOf_isBit (nonzero : bitOf place ≠ 0) : IsBit (bitOf place) := by
  have set : ∀ {state bit : BitVec 32}, IsBit bit -> (if state = stateReady then bit else 0) ≠ 0 ->
      IsBit (if state = stateReady then bit else 0) := by
    intro state bit isBit some'
    by_cases isReady : state = stateReady
    · rwa [if_pos isReady]
    · rw [if_neg isReady] at some'
      exact absurd rfl some'
  cases place with
  | inserting | insertingNewer => exact bit_insert
  | imported | importCounted num | importing | importOver | timerImporting | timerOver =>
    exact bit_importing
  | timerSet retry state => exact set bit_importing nonzero
  | timerCounted retry state num => exact set bit_importing nonzero
  | timerFailed retry state => exact set bit_importing nonzero
  | updateSet state => exact set bit_updating nonzero
  | updateCounted state num => exact set bit_updating nonzero
  | uncommitted | updateOver | updating => exact bit_updating
  | _ => exact absurd rfl nonzero

theorem Quiet.bit (quiet : Quiet place) :
    bitOf place = stateImporting ∨ bitOf place = stateUpdating := by
  cases place with
  | importCounted num => exact Or.inl rfl
  | importing => exact Or.inl rfl
  | timerImporting => exact Or.inl rfl
  | updating => exact Or.inr rfl
  | timerCounted retry state num => exact Or.inl (if_pos quiet.1)
  | updateCounted state num => exact Or.inr (if_pos quiet.1)
  | _ => exact quiet.elim

theorem IsBit.ne_zero {bit : BitVec 32} (isBit : IsBit bit) : bit ≠ 0 := by
  rcases isBit with rfl | rfl | rfl
  all_goals decide

def Plain : Place -> Prop
  | .queryPassed | .querying | .dropSet | .dropSafe | .dropDeleted => False
  | _ => True

theorem Plain.ne (plain : Plain place) :
    place ≠ .queryPassed ∧ place ≠ .querying ∧ place ≠ .dropSet ∧ ¬ Dropping place := by
  refine ⟨?_, ?_, ?_, ?_⟩
  · rintro rfl
    exact plain
  · rintro rfl
    exact plain
  · rintro rfl
    exact plain
  · rintro (rfl | rfl)
    all_goals exact plain

theorem Waiting.bit (waits : Waiting place) : bitOf place = 0 := by
  rcases waits with rfl | rfl | rfl | ⟨retry, rfl⟩
  all_goals rfl

theorem Waiting.plain (waits : Waiting place) : Plain place ∧ ¬ Quiet place := by
  rcases waits with rfl | rfl | rfl | ⟨retry, rfl⟩
  all_goals exact ⟨trivial, id⟩

inductive StateChange (system next : System) (a : Nat) : Prop where
  | keep (state : next.state = system.state)
      (bit : bitOf (next.place a) = bitOf (system.place a) ∨ bitOf (next.place a) = 0)
  | take (was : system.state = stateReady) (state : next.state = bitOf (next.place a))
      (bit : IsBit (bitOf (next.place a)))
  | clear (own : IsBit (bitOf (system.place a)))
      (state : next.state = vnodeClearMeterState system.state (bitOf (system.place a)))
      (bit : bitOf (next.place a) = 0)
  | mark (state : next.state = vnodeSetMeterDeleting system.state)
      (bit : bitOf (next.place a) = 0)
  | delete (safe : system.place a = .dropSafe) (state : next.state = stateDeleted)
      (bit : bitOf (next.place a) = 0)

inductive QueryChange (system next : System) (a : Nat) : Prop where
  | keep (num : next.numOfQueries = system.numOfQueries) (lock : next.vmutex = system.vmutex)
      (was : system.place a ≠ .queryPassed ∧ system.place a ≠ .querying)
      (now : next.place a ≠ .queryPassed ∧ next.place a ≠ .querying)
  | pass (num : next.numOfQueries = system.numOfQueries) (free : system.vmutex = none)
      (lock : next.vmutex = some a) (state : ¬ stateInsert.slt system.state = true)
      (was : system.place a = .idle) (now : next.place a = .queryPassed)
  | enter (num : next.numOfQueries = system.numOfQueries + 1) (lock : next.vmutex = none)
      (was : system.place a = .queryPassed) (now : next.place a = .querying)
  | leave (num : next.numOfQueries = system.numOfQueries - 1) (lock : next.vmutex = system.vmutex)
      (was : system.place a = .querying) (now : next.place a = .idle)

/-- `numOfQueries` is read as 0. -/
def Unqueried (system : System) : Prop := system.vmutex = none ∧ system.numOfQueries = 0

structure Turned (system next : System) (a : Nat) : Prop where
  others : ∀ b, b ≠ a ->
    next.place b = system.place b ∨ system.place b = .idle ∧ Waiting (next.place b)
  state : StateChange system next a
  queries : QueryChange system next a
  quiet : Quiet (next.place a) -> Quiet (system.place a) ∨ Unqueried system
  dropSet : next.place a = .dropSet -> system.place a = .dropSet ∨
    Has next.state stateDeleting ∧ ∀ bit, IsBit bit -> ¬ Has system.state bit
  dropping : Dropping (next.place a) -> Dropping (system.place a) ∨ Has system.state stateGone ∨
    system.place a = .dropSet ∧ Unqueried system
  freed : next.freed = true -> system.freed = true ∨ system.place a = .dropDeleted

@[simp]
theorem goto_self (system : System) (a : Nat) (place : Place) :
    (system.goto a place).place a = place :=
  update_self ..

theorem goto_of_ne (differ : b ≠ a) (place : Place) :
    (system.goto a place).place b = system.place b :=
  update_of_ne differ ..

theorem others_goto (places : next.place = update system.place a place) : ∀ b, b ≠ a ->
      next.place b = system.place b ∨ system.place b = .idle ∧ Waiting (next.place b) := by
  intro b differ
  left
  rw [places, update_of_ne differ]

theorem Turned.plain (others : ∀ b, b ≠ a ->
      next.place b = system.place b ∨ system.place b = .idle ∧ Waiting (next.place b))
    (state : StateChange system next a) (num : next.numOfQueries = system.numOfQueries)
    (lock : next.vmutex = system.vmutex) (freed : next.freed = system.freed)
    (was : Plain (system.place a)) (now : Plain (next.place a))
    (quiet : Quiet (next.place a) -> Quiet (system.place a) ∨ Unqueried system) :
    Turned system next a where
  others := others
  state := state
  queries := .keep num lock ⟨was.ne.1, was.ne.2.1⟩ ⟨now.ne.1, now.ne.2.1⟩
  quiet := quiet
  dropSet := fun set => absurd set now.ne.2.2.1
  dropping := fun dropping => absurd dropping now.ne.2.2.2
  freed := fun freed' => Or.inl (freed ▸ freed')

section Turns

variable {place : Place}

theorem turned_goto {commit : Bool} (was : Plain (system.place a)) (now : Plain place)
    (bit : bitOf place = bitOf (system.place a) ∨ bitOf place = 0)
    (quiet : Quiet place -> Quiet (system.place a)) :
    Turned system { system.goto a place with commitInProcess := commit } a := by
  have here : ({ system.goto a place with commitInProcess := commit } : System).place a = place :=
    update_self ..
  refine Turned.plain (others_goto rfl) (.keep rfl ?_) rfl rfl rfl was ?_ ?_
  · rwa [here]
  · rwa [here]
  · rw [here]
    exact fun seen => Or.inl (quiet seen)

theorem turned_start {timer : Nat} {waiting : Place} (differ : timer ≠ a)
    (idle : system.place timer = .idle) (waits : Waiting waiting)
    (was : Plain (system.place a)) (now : Plain place)
    (bit : bitOf place = bitOf (system.place a) ∨ bitOf place = 0)
    (quiet : Quiet place -> Quiet (system.place a)) :
    Turned system ((system.goto a place).goto timer waiting) a := by
  have here : ((system.goto a place).goto timer waiting).place a = place := by
    rw [goto_of_ne differ.symm, goto_self]
  refine Turned.plain ?_ (.keep rfl ?_) rfl rfl rfl was ?_ ?_
  · intro b other
    by_cases same : b = timer
    · subst same
      right
      rw [goto_self]
      exact ⟨idle, waits⟩
    · left
      rw [goto_of_ne same, goto_of_ne other]
  · rwa [here]
  · rwa [here]
  · rw [here]
    exact fun seen => Or.inl (quiet seen)

theorem turned_take {bit : BitVec 32} (isReady : system.state = stateReady)
    (was : Plain (system.place a)) (now : Plain place) (same : bitOf place = bit)
    (isBit : IsBit bit) (quiet : ¬ Quiet place) :
    Turned system ((system.set bit).goto a place) a := by
  have here : ((system.set bit).goto a place).place a = place := goto_self ..
  refine Turned.plain (others_goto rfl) (.take isReady ?_ ?_) rfl rfl rfl was ?_ ?_
  · rw [here, same]
    exact if_pos isReady
  · rwa [here, same]
  · rwa [here]
  · rw [here]
    exact fun seen => absurd seen quiet

theorem turned_clear {bit : BitVec 32} (small : Small system.state) (isBit : IsBit bit)
    (was : Plain (system.place a)) (now : Plain place) (none' : bitOf place = 0)
    (quiet : ¬ Quiet place)
    (own : bitOf (system.place a) = bit ∨ ¬ vnodeIsMeterState system.state bit = true) :
    Turned system ((system.clear bit).goto a place) a := by
  have here : ((system.clear bit).goto a place).place a = place := update_self ..
  refine Turned.plain (others_goto rfl) ?_ rfl rfl rfl was ?_ ?_
  · rcases own with rfl | unset
    · exact .clear isBit rfl (by rw [here]; exact none')
    · rw [isMeterState_bit isBit] at unset
      exact .keep (clear_unset small isBit unset) (by rw [here]; exact Or.inr none')
  · rwa [here]
  · rw [here]
    exact fun seen => absurd seen quiet

theorem turned_counted {read : Nat -> Place} (was : Plain (system.place a))
    (now : ∀ num, Plain (read num)) (bit : ∀ num, bitOf (read num) = bitOf (system.place a))
    (quiet : ∀ num, Quiet (read num) -> num = 0) :
    system.counted a read = system ∨ Turned system (system.counted a read) a := by
  unfold System.counted
  by_cases free : system.vmutex = none
  · right
    rw [if_pos free]
    have here : (system.goto a (read system.numOfQueries)).place a = read system.numOfQueries :=
      update_self ..
    refine Turned.plain (others_goto rfl) (.keep rfl ?_) rfl rfl rfl was ?_ ?_
    · rw [here]
      exact Or.inl (bit _)
    · rw [here]
      exact now _
    · rw [here]
      exact fun seen => Or.inr ⟨free, quiet _ seen⟩
  · left
    rw [if_neg free]

theorem turned_query (places : next.place = update system.place a place)
    (state : next.state = system.state) (freed : next.freed = system.freed)
    (query : place = .queryPassed ∨ place = .querying ∨ place = .idle)
    (queries : QueryChange system next a) : Turned system next a := by
  have here : next.place a = place := by
    rw [places, update_self]
  refine ⟨others_goto places, .keep state (Or.inr ?_), queries, ?_, ?_, ?_, ?_⟩
  all_goals try rw [here]
  · rcases query with rfl | rfl | rfl
    all_goals rfl
  · rcases query with rfl | rfl | rfl
    all_goals exact False.elim
  · rcases query with rfl | rfl | rfl
    all_goals exact fun set => absurd set (by decide)
  · rcases query with rfl | rfl | rfl
    all_goals exact fun dropping => absurd dropping (by simp [Dropping])
  · exact fun freed' => Or.inl (freed ▸ freed')

end Turns

/-- A bit is cleared by the operation that set it, or it is not set; an import of newer rows
finds the meter ready; a drop that finds the meter marked finds no operation on it. -/
def Orderly (a : Nat) (outside : Outside) (system : System) : Prop :=
  match system.place a with
  | .idle => outside.operation = .drop -> vnodeIsMeterState system.state stateDeleting = true ->
      system.state &&& (stateInsert ||| stateImporting ||| stateUpdating) = 0
  | .switching => system.state = stateReady
  | .newerOver | .timerGivenUp => ¬ vnodeIsMeterState system.state stateImporting = true
  | .timerFailed _ state =>
    state ≠ stateReady -> ¬ vnodeIsMeterState system.state stateImporting = true
  | .updateCleared => ¬ vnodeIsMeterState system.state stateUpdating = true
  | .schemaTimer => system.commitInProcess = true -> outside.started = false ->
      ¬ vnodeIsMeterState system.state stateUpdating = true
  | _ => True

theorem begin_drop (small : Small system.state) (idle : system.place a = .idle)
    (orderly : vnodeIsMeterState system.state stateDeleting = true ->
      system.state &&& (stateInsert ||| stateImporting ||| stateUpdating) = 0)
    (alive : system.freed = false) : Turned system (begin a .drop system) a := by
  unfold begin
  rw [alive, if_neg Bool.false_ne_true]
  have query : ∀ next : System, next.numOfQueries = system.numOfQueries ->
      next.vmutex = system.vmutex -> next.place a ≠ .queryPassed -> next.place a ≠ .querying ->
      QueryChange system next a := fun next num lock passed running =>
    .keep num lock (by rw [idle]; decide) ⟨passed, running⟩
  dsimp only
  by_cases isDeleted : vnodeIsMeterState system.state stateDeleted = true
  · rw [if_pos isDeleted]
    refine ⟨others_goto rfl, .keep rfl ?_, query _ rfl rfl ?_ ?_, ?_, ?_, ?_, Or.inl⟩
    all_goals rw [goto_self]
    · exact Or.inr rfl
    · decide
    · decide
    · exact False.elim
    · exact fun set => absurd set (by decide)
    · exact fun _ => Or.inr (Or.inl (deleted_gone small isDeleted))
  rw [if_neg isDeleted]
  by_cases going : system.state ≠ stateReady ∧ system.state.slt stateDeleting = true
  · rw [if_pos going]
    have same : vnodeSetMeterState system.state stateDeleting = system.state := if_neg going.1
    refine Turned.plain (others_goto rfl) (.keep same ?_) rfl rfl rfl ?_ ?_ ?_
    · exact Or.inr (by rw [goto_self]; rfl)
    · rw [idle]
      exact trivial
    · rw [goto_self]
      exact trivial
    · rw [goto_self]
      exact False.elim
  · rw [if_neg going]
    obtain ⟨marked, notReady⟩ := dropped_deleting small going
    have unset : ∀ bit, IsBit bit -> ¬ Has system.state bit := by
      intro bit isBit
      by_cases isReady : system.state = stateReady
      · exact fun held => has_ne_ready isBit held isReady
      · exact unset_of_none small isBit (orderly (notReady isReady))
    have bit : bitOf (((system.set stateDeleting).goto a .dropSet).place a) = 0 := by
      rw [goto_self]
      rfl
    have change : StateChange system ((system.set stateDeleting).goto a .dropSet) a := by
      by_cases isReady : system.state = stateReady
      · refine .mark ?_ bit
        change vnodeSetMeterState system.state stateDeleting = _
        rw [isReady]
        decide
      · exact .keep (if_neg isReady) (Or.inr bit)
    refine ⟨others_goto rfl, change, query _ rfl rfl ?_ ?_, ?_, ?_, ?_, Or.inl⟩
    · rw [goto_self]
      decide
    · rw [goto_self]
      decide
    · rw [goto_self]
      exact False.elim
    · exact fun _ => Or.inr ⟨marked, unset⟩
    · rw [goto_self]
      exact fun dropping => absurd dropping (by simp [Dropping])

theorem set_of_ne {state : BitVec 32} (other : system.state ≠ stateReady) :
    system.set state = system := by
  unfold System.set
  rw [vnodeSetMeterState, if_neg other]

def Turns (system next : System) (a : Nat) : Prop := next = system ∨ Turned system next a

theorem begin_turns (small : Small system.state) (idle : system.place a = .idle)
    (orderly : Orderly a outside system) : Turns system (begin a outside.operation system) a := by
  unfold Orderly at orderly
  rw [idle] at orderly
  dsimp only at orderly
  have plain : Plain (system.place a) := by
    rw [idle]
    exact trivial
  by_cases alive : system.freed = true
  · left
    unfold begin
    rw [if_pos alive]
  rw [Bool.not_eq_true] at alive
  generalize outside.operation = operation at orderly ⊢
  by_cases drop : operation = .drop
  · subst drop
    exact Or.inr (begin_drop small idle (orderly rfl) alive)
  unfold begin
  rw [alive, if_neg Bool.false_ne_true]
  cases operation with
  | insert =>
    dsimp only
    split
    case isTrue isReady =>
      exact Or.inr (turned_take isReady plain trivial rfl (Or.inl rfl) id)
    case isFalse other => exact Or.inl (set_of_ne other)
  | importPoints =>
    dsimp only
    split
    case isTrue isReady =>
      exact Or.inr (turned_take isReady plain trivial rfl (Or.inr (Or.inl rfl)) id)
    case isFalse other => exact Or.inl (set_of_ne other)
  | createMeter =>
    dsimp only
    split
    · exact Or.inl rfl
    · exact Or.inr (turned_goto plain trivial (Or.inr rfl) False.elim)
  | query =>
    dsimp only
    split
    case isTrue free =>
      split
      · exact Or.inl rfl
      case isFalse passed =>
        exact Or.inr (turned_query rfl rfl rfl (Or.inl rfl)
          (.pass rfl free rfl passed idle (goto_self ..)))
    · exact Or.inl rfl
  | drop => exact absurd rfl drop
  | commit =>
    dsimp only
    split
    · exact Or.inl rfl
    · exact Or.inr (turned_goto plain trivial (Or.inr rfl) False.elim)

theorem importTurn_turns (small : Small system.state) (here : system.place a = .imported) :
    Turns system (importTurn a outside system) a := by
  have was : Plain (system.place a) := by
    rw [here]
    exact trivial
  unfold importTurn
  split
  · exact Or.inr (turned_goto was trivial (by rw [here]; exact Or.inl rfl) False.elim)
  split
  · exact Or.inr (turned_clear small (Or.inr (Or.inl rfl)) was trivial rfl
      id (Or.inl (by rw [here]; rfl)))
  · refine turned_counted was (fun _ => trivial) (fun num => ?_) (fun num => id)
    rw [here]
    rfl

theorem importTimer_turns {retry : Nat} (here : system.place a = .deferred retry) :
    Turns system (importTimer a retry system) a := by
  have was : Plain (system.place a) := by
    rw [here]
    exact trivial
  unfold importTimer
  by_cases isReady : system.state = stateReady
  · rw [if_neg (by rw [isReady]; decide)]
    refine Or.inr (turned_take isReady was trivial ?_ (Or.inr (Or.inl rfl)) id)
    exact if_pos isReady
  · rw [set_of_ne isReady]
    split
    · exact Or.inr (turned_goto was trivial (Or.inr rfl) False.elim)
    · exact Or.inr (turned_goto was trivial (Or.inr (if_neg isReady)) False.elim)

theorem updateMeter_turns (here : system.place a = .updatePending) :
    Turns system (updateMeter a system) a := by
  have was : Plain (system.place a) := by
    rw [here]
    exact trivial
  unfold updateMeter
  split
  · exact Or.inr (turned_goto was trivial (Or.inr rfl) False.elim)
  by_cases isReady : system.state = stateReady
  · refine Or.inr (turned_take isReady was trivial ?_ (Or.inr (Or.inr rfl)) id)
    exact if_pos isReady
  · rw [set_of_ne isReady]
    exact Or.inr (turned_goto was trivial (Or.inr (if_neg isReady)) False.elim)

section Going

variable {was place : Place}

theorem goes {commit : Bool} (here : system.place a = was) (plain : Plain was) (now : Plain place)
    (bit : bitOf place = bitOf was ∨ bitOf place = 0) (quiet : Quiet place -> Quiet was) :
    Turns system { system.goto a place with commitInProcess := commit } a := by
  subst here
  exact Or.inr (turned_goto plain now bit quiet)

theorem starts {timer : Nat} {waiting : Place} (here : system.place a = was) (differ : timer ≠ a)
    (idle : system.place timer = .idle) (waits : Waiting waiting) (plain : Plain was)
    (now : Plain place) (bit : bitOf place = bitOf was ∨ bitOf place = 0)
    (quiet : Quiet place -> Quiet was) :
    Turns system ((system.goto a place).goto timer waiting) a := by
  subst here
  exact Or.inr (turned_start differ idle waits plain now bit quiet)

theorem clears {bit : BitVec 32} (small : Small system.state) (here : system.place a = was)
    (isBit : IsBit bit) (own : bitOf was = bit ∨ ¬ vnodeIsMeterState system.state bit = true)
    (plain : Plain was) (now : Plain place) (none' : bitOf place = 0) (quiet : ¬ Quiet place) :
    Turns system ((system.clear bit).goto a place) a := by
  subst here
  exact Or.inr (turned_clear small isBit plain now none' quiet own)

theorem counts {read : Nat -> Place} (here : system.place a = was) (plain : Plain was)
    (now : ∀ num, Plain (read num)) (bit : ∀ num, bitOf (read num) = bitOf was)
    (quiet : ∀ num, Quiet (read num) -> num = 0) : Turns system (system.counted a read) a := by
  subst here
  exact turned_counted plain now bit quiet

end Going

theorem dropMarking_turned (here : system.place a = .dropMarking) :
    Turned system { system.goto a .idle with state := vnodeSetMeterDeleting system.state } a := by
  have now : ({ system.goto a .idle with
      state := vnodeSetMeterDeleting system.state } : System).place a = .idle := goto_self ..
  refine Turned.plain (others_goto rfl) (.mark rfl ?_) rfl rfl rfl ?_ ?_ ?_
  · rw [now]
    rfl
  · rw [here]
    exact trivial
  · rw [now]
    exact trivial
  · rw [now]
    exact False.elim

theorem dropSet_turns (here : system.place a = .dropSet) :
    Turns system (system.counted a fun num => if 0 < num then .idle else .dropSafe) a := by
  unfold System.counted
  dsimp only
  by_cases free : system.vmutex = none
  · right
    rw [if_pos free]
    by_cases some' : 0 < system.numOfQueries
    · rw [if_pos some']
      exact turned_query rfl rfl rfl (Or.inr (Or.inr rfl)) (.keep rfl rfl
        (by rw [here]; decide) (by rw [goto_self]; decide))
    · rw [if_neg some']
      refine ⟨others_goto rfl, .keep rfl ?_, .keep rfl rfl ?_ ?_, ?_, ?_, ?_, Or.inl⟩
      · rw [goto_self]
        exact Or.inr rfl
      · rw [here]
        decide
      · rw [goto_self]
        decide
      · rw [goto_self]
        exact False.elim
      · rw [goto_self]
        exact fun set => absurd set (by decide)
      · exact fun _ => Or.inr (Or.inr ⟨here, free, Nat.eq_zero_of_not_pos some'⟩)
  · left
    rw [if_neg free]

theorem dropSafe_turned (here : system.place a = .dropSafe) :
    Turned system { system.goto a .dropDeleted with state := stateDeleted } a := by
  have now : ({ system.goto a .dropDeleted with state := stateDeleted } : System).place a =
    .dropDeleted := goto_self ..
  refine ⟨others_goto rfl, .delete here rfl ?_, .keep rfl rfl ?_ ?_, ?_, ?_, ?_, Or.inl⟩
  · rw [now]
    rfl
  · rw [here]
    decide
  · rw [now]
    decide
  · rw [now]
    exact False.elim
  · rw [now]
    exact fun set => absurd set (by decide)
  · exact fun _ => Or.inl (Or.inl here)

theorem dropDeleted_turned (here : system.place a = .dropDeleted) :
    Turned system { system.goto a .idle with freed := true } a := by
  have now : ({ system.goto a .idle with freed := true } : System).place a = .idle := goto_self ..
  refine ⟨others_goto rfl, .keep rfl ?_, .keep rfl rfl ?_ ?_, ?_, ?_, ?_, fun _ => Or.inr here⟩
  · rw [now]
    exact Or.inr rfl
  · rw [here]
    decide
  · rw [now]
    decide
  · rw [now]
    exact False.elim
  · rw [now]
    exact fun set => absurd set (by decide)
  · rw [now]
    exact fun dropping => absurd dropping (by simp [Dropping])

theorem turn_turns (small : Small system.state) (orderly : Orderly a outside system) :
    Turns system (turn a outside system) a := by
  unfold turn
  by_cases busy : outside.timer = a ∨ system.place outside.timer ≠ .idle
  · rw [if_pos busy]
    exact Or.inl rfl
  rw [if_neg busy]
  rw [not_or, not_not] at busy
  obtain ⟨differ, waits⟩ := busy
  cases here : system.place a with
  | idle => exact begin_turns small here orderly
  | imported => exact importTurn_turns small here
  | deferred retry => exact importTimer_turns here
  | updatePending => exact updateMeter_turns here
  | dropMarking => exact Or.inr (dropMarking_turned here)
  | dropSet => exact dropSet_turns here
  | dropSafe => exact Or.inr (dropSafe_turned here)
  | dropDeleted => exact Or.inr (dropDeleted_turned here)
  | queryPassed =>
    exact Or.inr (turned_query rfl rfl rfl (Or.inr (Or.inl rfl))
      (.enter rfl rfl here (goto_self ..)))
  | querying =>
    exact Or.inr (turned_query rfl rfl rfl (Or.inr (Or.inr rfl))
      (.leave rfl rfl here (goto_self ..)))
  | inserting => exact clears small here bit_insert (Or.inl rfl) trivial trivial rfl id
  | importCounted num =>
    dsimp only
    split
    · exact starts here differ waits (Or.inr (Or.inr (Or.inr ⟨0, rfl⟩))) trivial trivial
        (Or.inl rfl) False.elim
    case isFalse unqueried =>
      exact goes here trivial trivial (Or.inl rfl) fun _ => by
        rw [not_or] at unqueried
        exact Nat.eq_zero_of_not_pos unqueried.2
  | importing => exact goes here trivial trivial (Or.inl rfl) False.elim
  | importOver => exact clears small here bit_importing (Or.inl rfl) trivial trivial rfl id
  | switching =>
    rw [Orderly, here] at orderly
    exact Or.inr (turned_take orderly (by rw [here]; trivial) trivial rfl bit_insert id)
  | insertingNewer => exact clears small here bit_insert (Or.inl rfl) trivial trivial rfl id
  | newerOver =>
    rw [Orderly, here] at orderly
    exact clears small here bit_importing (Or.inr orderly) trivial trivial rfl id
  | timerSet retry state =>
    exact counts here trivial (fun _ => trivial) (fun _ => rfl) fun _ seen => seen.2
  | timerCounted retry state num =>
    dsimp only
    split
    · exact goes here trivial trivial (Or.inl rfl) False.elim
    case isFalse unqueried =>
      rw [not_or, not_or, not_not] at unqueried
      obtain ⟨-, none', isReady⟩ := unqueried
      refine goes here trivial trivial (Or.inl ?_) fun _ => ?_
      · exact (if_pos isReady).symm
      · exact ⟨isReady, Nat.eq_zero_of_not_pos none'⟩
  | timerFailed retry state =>
    rw [Orderly, here] at orderly
    have own : bitOf (.timerFailed retry state) = stateImporting ∨
        ¬ vnodeIsMeterState system.state stateImporting = true := by
      by_cases isReady : state = stateReady
      · exact Or.inl (if_pos isReady)
      · exact Or.inr (orderly isReady)
    dsimp only
    split
    all_goals exact clears small here bit_importing own trivial trivial rfl id
  | timerGivenUp =>
    rw [Orderly, here] at orderly
    exact clears small here bit_importing (Or.inr orderly) trivial trivial rfl id
  | timerImporting => exact goes here trivial trivial (Or.inl rfl) False.elim
  | timerOver => exact clears small here bit_importing (Or.inl rfl) trivial trivial rfl id
  | updateSet state =>
    exact counts here trivial (fun _ => trivial) (fun _ => rfl) fun _ seen => seen.2
  | updateCounted state num =>
    dsimp only
    split
    · split
      · exact goes here trivial trivial (Or.inr rfl) False.elim
      · exact goes here trivial trivial (Or.inr rfl) False.elim
    case isFalse unqueried =>
      rw [not_or, not_not] at unqueried
      obtain ⟨none', isReady⟩ := unqueried
      have bit : stateUpdating = bitOf (.updateCounted state num) := (if_pos isReady).symm
      split
      · exact goes here trivial trivial (Or.inl bit) fun _ =>
          ⟨isReady, Nat.eq_zero_of_not_pos none'⟩
      split
      · exact starts here differ waits (Or.inr (Or.inr (Or.inl rfl))) trivial trivial
          (Or.inl bit) False.elim
      · exact goes here trivial trivial (Or.inl bit) False.elim
  | uncommitted =>
    dsimp only
    split
    · exact starts here differ waits (Or.inr (Or.inl rfl)) trivial trivial (Or.inl rfl) False.elim
    · exact clears small here bit_updating (Or.inl rfl) trivial trivial rfl id
  | updateCleared =>
    rw [Orderly, here] at orderly
    exact clears small here bit_updating (Or.inr orderly) trivial trivial rfl id
  | updateOver => exact clears small here bit_updating (Or.inl rfl) trivial trivial rfl id
  | updating => exact clears small here bit_updating (Or.inl rfl) trivial trivial rfl id
  | schemaTimer =>
    rw [Orderly, here] at orderly
    dsimp only
    split
    case isTrue commit =>
      split
      · exact Or.inl rfl
      case isFalse stopped =>
        exact clears small here bit_updating (Or.inr (orderly commit (by simpa using stopped)))
          trivial trivial rfl id
    · exact goes here trivial trivial (Or.inr rfl) False.elim
  | committing => exact goes here trivial trivial (Or.inr rfl) False.elim

end Luomi.Vnode.MeterTurns
