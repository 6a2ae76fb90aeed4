import Mathlib.Data.Finset.Card
import Luomi.Vnode.MeterTurns

/-!
# Exclusion on a meter

An operation that set its bit is the only one that holds a bit until it clears it, and an import
or update that found no query keeps queries away.  This holds as long as a bit is cleared by the
operation that set it, an import of newer rows finds the meter ready when it goes over to
inserting, and a drop that finds the meter marked finds no operation on it.
-/

namespace Luomi.Vnode.MeterExclusion

open MeterState MeterTurns

variable {system next : System} {a b : Nat} {outside : Outside}

/-- The meter is marked for a drop, and no operation is on it. -/
structure Marked (system : System) : Prop where
  state : Has system.state stateDeleting
  bits : ∀ b, bitOf (system.place b) = 0

structure Gone (system : System) : Prop where
  marked : Marked system
  num : system.numOfQueries = 0
  passed : ∀ b, system.place b ≠ .queryPassed

structure Guarded (system : System) : Prop where
  small : Small system.state
  bits : ∀ b, bitOf (system.place b) ≠ 0 -> Has system.state (bitOf (system.place b))
  one : ∀ b c, bitOf (system.place b) ≠ 0 -> bitOf (system.place c) ≠ 0 -> b = c
  locked : ∀ b, system.place b = .queryPassed -> system.vmutex = some b
  counted : ∃ running : Finset Nat, (∀ b, b ∈ running ↔ system.place b = .querying) ∧
    running.card = system.numOfQueries
  quiet : ∀ b, Quiet (system.place b) ->
    system.numOfQueries = 0 ∧ ∀ c, system.place c ≠ .queryPassed
  dropSet : ∀ b, system.place b = .dropSet -> Marked system
  dropping : ∀ b, Dropping (system.place b) -> Gone system
  goneBit : Has system.state stateGone -> Gone system
  freed : system.freed = true -> Gone system

theorem unqueried_passed (guarded : Guarded system) (unqueried : Unqueried system) :
    system.numOfQueries = 0 ∧ ∀ c, system.place c ≠ .queryPassed := by
  refine ⟨unqueried.2, fun c passed => ?_⟩
  have lock := guarded.locked c passed
  rw [unqueried.1] at lock
  exact absurd lock (by simp)

section Step

variable (turned : Turned system next a)
include turned

theorem turned_bit_other (other : b ≠ a) : bitOf (next.place b) = bitOf (system.place b) := by
  rcases turned.others b other with same | ⟨idle, waits⟩
  · rw [same]
  · rw [idle, waits.bit]
    rfl

theorem turned_other (property : Place -> Prop) (other : b ≠ a)
    (never : ∀ place, Waiting place -> ¬ property place) (now : property (next.place b)) :
    property (system.place b) := by
  rcases turned.others b other with same | ⟨-, waits⟩
  · rwa [same] at now
  · exact absurd now (never _ waits)

theorem turned_marked (small : Small system.state) (marked : Marked system) : Marked next := by
  have own : Has next.state stateDeleting ∧ bitOf (next.place a) = 0 := by
    rcases turned.state with ⟨state, bit⟩ | ⟨was, -, -⟩ | ⟨own, -, -⟩ | ⟨state, bit⟩ |
      ⟨-, state, bit⟩
    · rw [marked.bits a, or_self] at bit
      exact ⟨state ▸ marked.state, bit⟩
    · have state := marked.state
      rw [was] at state
      exact absurd state (by decide)
    · exact absurd (marked.bits a) own.ne_zero
    · exact ⟨state ▸ mark_has small, bit⟩
    · exact ⟨state ▸ by decide, bit⟩
  refine ⟨own.1, fun b => ?_⟩
  by_cases same : b = a
  · rw [same]
    exact own.2
  · rw [turned_bit_other turned same]
    exact marked.bits b

theorem turned_gone (small : Small system.state) (gone : Gone system) : Gone next := by
  have closed := (passed_unset small).mt (fun unset => unset.2.2 gone.marked.state)
  rw [not_not] at closed
  have own : next.numOfQueries = 0 ∧ next.place a ≠ .queryPassed := by
    rcases turned.queries with ⟨num, -, -, now⟩ | ⟨-, -, -, state, -, -⟩ | ⟨-, -, was, -⟩ |
      ⟨num, -, -, now⟩
    · exact ⟨num.trans gone.num, now.1⟩
    · exact absurd closed state
    · exact absurd was (gone.passed a)
    · rw [num, gone.num, now]
      exact ⟨rfl, by decide⟩
  refine ⟨turned_marked turned small gone.marked, own.1, fun b passed => ?_⟩
  by_cases same : b = a
  · subst same
    exact own.2 passed
  · exact gone.passed b (turned_other turned (· = .queryPassed) same (by
      rintro place waits rfl
      exact waits.plain.1) passed)

theorem turned_held (held : bitOf (next.place b) ≠ 0) :
    bitOf (next.place b) = bitOf (system.place b) ∨
      b = a ∧ system.state = stateReady ∧ next.state = bitOf (next.place a) := by
  by_cases same : b = a
  · subst same
    rcases turned.state with ⟨-, bit⟩ | ⟨was, state, -⟩ | ⟨-, -, bit⟩ | ⟨-, bit⟩ | ⟨-, -, bit⟩
    · exact bit.elim Or.inl fun none' => absurd none' held
    · exact Or.inr ⟨rfl, was, state⟩
    all_goals exact absurd bit held
  · exact Or.inl (turned_bit_other turned same)

section

variable (guarded : Guarded system)
include guarded

theorem turned_small : Small next.state := by
  rcases turned.state with ⟨state, -⟩ | ⟨-, state, bit⟩ | ⟨-, state, -⟩ | ⟨state, -⟩ | ⟨-, state, -⟩
  · exact state ▸ guarded.small
  · exact state ▸ small_bit bit
  · exact state ▸ small_clear guarded.small _
  · exact state ▸ small_mark guarded.small
  · exact state ▸ by decide

theorem turned_bits (held : bitOf (next.place b) ≠ 0) : Has next.state (bitOf (next.place b)) := by
  rcases turned_held turned held with same | ⟨rfl, -, state⟩
  · rw [same] at held ⊢
    have has := guarded.bits b held
    rcases turned.state with ⟨state, -⟩ | ⟨was, -, -⟩ | ⟨own, -, bit⟩ | ⟨state, -⟩ | ⟨safe, -, -⟩
    · exact state ▸ has
    · exact absurd was (has_ne_ready (bitOf_isBit held) has)
    · have this := guarded.one b a held own.ne_zero
      rw [this] at same held
      exact absurd (same.symm.trans bit) held
    · exact state ▸ has_mark guarded.small (bitOf_isBit held) has
    · exact absurd ((guarded.dropping a (Or.inl safe)).marked.bits b) held
  · rw [state]
    unfold Has
    rw [BitVec.and_self]

theorem turned_one {c : Nat} (held : bitOf (next.place b) ≠ 0)
    (held' : bitOf (next.place c) ≠ 0) : b = c := by
  have free : ∀ {d}, system.state = stateReady -> bitOf (next.place d) = bitOf (system.place d) ->
      bitOf (next.place d) ≠ 0 -> False := by
    intro d isReady same some'
    rw [same] at some'
    exact has_ne_ready (bitOf_isBit some') (guarded.bits d some') isReady
  rcases turned_held turned held with same | ⟨rfl, isReady, -⟩
  · rcases turned_held turned held' with same' | ⟨-, isReady, -⟩
    · rw [same] at held
      rw [same'] at held'
      exact guarded.one b c held held'
    · exact (free isReady same held).elim
  · rcases turned_held turned held' with same' | ⟨rfl, -, -⟩
    · exact (free isReady same' held').elim
    · rfl

theorem turned_locked (passed : next.place b = .queryPassed) : next.vmutex = some b := by
  by_cases same : b = a
  · subst same
    rcases turned.queries with ⟨-, -, -, now⟩ | ⟨-, -, lock, -, -, -⟩ | ⟨-, -, -, now⟩ |
      ⟨-, -, -, now⟩
    · exact absurd passed now.1
    · exact lock
    · exact absurd (passed.symm.trans now) (by decide)
    · exact absurd (passed.symm.trans now) (by decide)
  · have was := turned_other turned (· = .queryPassed) same (by
      rintro place waits rfl
      exact waits.plain.1) passed
    have lock := guarded.locked b was
    rcases turned.queries with ⟨-, kept, -, -⟩ | ⟨-, free, -, -, -, -⟩ | ⟨-, -, was', -⟩ |
      ⟨-, kept, -, -⟩
    · exact kept.trans lock
    · exact absurd (free.symm.trans lock) (by simp)
    · have lock' := guarded.locked a was'
      exact absurd (Option.some.inj (lock.symm.trans lock')) same
    · exact kept.trans lock

theorem turned_counted : ∃ running : Finset Nat, (∀ b, b ∈ running ↔ next.place b = .querying) ∧
      running.card = next.numOfQueries := by
  obtain ⟨running, members, card⟩ := guarded.counted
  have elsewhere : ∀ b, b ≠ a -> (next.place b = .querying ↔ system.place b = .querying) := by
    intro b other
    rcases turned.others b other with same | ⟨idle, waits⟩
    · rw [same]
    · rw [idle]
      refine ⟨fun now => ?_, fun now => absurd now (by decide)⟩
      rw [now] at waits
      exact waits.plain.1.elim
  rcases turned.queries with ⟨num, -, was, now⟩ | ⟨num, -, -, -, was, now⟩ | ⟨num, -, was, now⟩ |
    ⟨num, -, was, now⟩
  · refine ⟨running, fun b => ?_, card.trans num.symm⟩
    by_cases same : b = a
    · subst same
      rw [members]
      exact ⟨fun this => absurd this was.2, fun this => absurd this now.2⟩
    · rw [members, elsewhere b same]
  · refine ⟨running, fun b => ?_, card.trans num.symm⟩
    by_cases same : b = a
    · subst same
      rw [members, was, now]
      decide
    · rw [members, elsewhere b same]
  · have fresh : a ∉ running := by
      rw [members, was]
      decide
    refine ⟨insert a running, fun b => ?_, by rw [Finset.card_insert_of_notMem fresh, card, num]⟩
    rw [Finset.mem_insert]
    by_cases same : b = a
    · subst same
      simp [now]
    · rw [members, elsewhere b same]
      simp [same]
  · have there : a ∈ running := (members a).mpr was
    refine ⟨running.erase a, fun b => ?_, by rw [Finset.card_erase_of_mem there, card, num]⟩
    rw [Finset.mem_erase]
    by_cases same : b = a
    · subst same
      rw [now]
      simp
    · rw [members, elsewhere b same]
      simp [same]

theorem turned_quiet_kept (quiet : Quiet (next.place b)) :
    next.numOfQueries = 0 ∧ ∀ c, next.place c ≠ .queryPassed := by
  have before : system.numOfQueries = 0 ∧ ∀ c, system.place c ≠ .queryPassed := by
    by_cases same : b = a
    · subst same
      rcases turned.quiet quiet with was | unqueried
      · exact guarded.quiet b was
      · exact unqueried_passed guarded unqueried
    · exact guarded.quiet b (turned_other turned _ same (fun _ waits => waits.plain.2) quiet)
  have own : next.numOfQueries = 0 ∧ next.place a ≠ .queryPassed := by
    rcases turned.queries with ⟨num, -, -, now⟩ | ⟨-, -, -, state, was, now⟩ | ⟨-, -, was, -⟩ |
      ⟨num, -, -, now⟩
    · exact ⟨num.trans before.1, now.1⟩
    · -- the operation that saw no query holds its bit, so the query does not pass
      have other : b ≠ a := by
        rintro rfl
        rw [now] at quiet
        exact quiet
      have held := turned_other turned _ other (fun _ waits => waits.plain.2) quiet
      have unset := passed_unset guarded.small state
      have has := guarded.bits b
      rcases held.bit with bit | bit
      · rw [bit] at has
        exact absurd (has (by decide)) unset.1
      · rw [bit] at has
        exact absurd (has (by decide)) unset.2.1
    · exact absurd was (before.2 a)
    · rw [num, before.1, now]
      exact ⟨rfl, by decide⟩
  refine ⟨own.1, fun c passed => ?_⟩
  by_cases same : c = a
  · subst same
    exact own.2 passed
  · exact before.2 c (turned_other turned (· = .queryPassed) same (by
      rintro place waits rfl
      exact waits.plain.1) passed)

theorem turned_dropSet_marked (set : next.place b = .dropSet) : Marked next := by
  by_cases same : b = a
  · subst same
    rcases turned.dropSet set with was | ⟨marked, unset⟩
    · exact turned_marked turned guarded.small (guarded.dropSet b was)
    · refine ⟨marked, fun c => ?_⟩
      by_cases own : c = b
      · rw [own, set]
        rfl
      · rw [turned_bit_other turned own]
        by_contra held
        exact unset _ (bitOf_isBit held) (guarded.bits c held)
  · have was := turned_other turned (· = .dropSet) same (by
      rintro place waits rfl
      exact waits.plain.1) set
    exact turned_marked turned guarded.small (guarded.dropSet b was)

theorem turned_dropping_gone (dropping : Dropping (next.place b)) : Gone next := by
  apply turned_gone turned guarded.small
  by_cases same : b = a
  · subst same
    rcases turned.dropping dropping with was | goneBit | ⟨was, unqueried⟩
    · exact guarded.dropping b was
    · exact guarded.goneBit goneBit
    · obtain ⟨num, passed⟩ := unqueried_passed guarded unqueried
      exact ⟨guarded.dropSet b was, num, passed⟩
  · exact guarded.dropping b (turned_other turned _ same (fun _ waits => waits.plain.1.ne.2.2.2)
    dropping)

theorem turned_goneBit (goneBit : Has next.state stateGone) : Gone next := by
  apply turned_gone turned guarded.small
  rcases turned.state with ⟨state, -⟩ | ⟨-, state, bit⟩ | ⟨own, state, -⟩ | ⟨state, -⟩ |
    ⟨safe, -, -⟩
  · exact guarded.goneBit (state ▸ goneBit)
  · exact absurd (state ▸ goneBit) (bit_not_gone bit)
  · exact guarded.goneBit (clear_gone guarded.small own (state ▸ goneBit))
  · exact guarded.goneBit (mark_gone guarded.small (state ▸ goneBit))
  · exact guarded.dropping a (Or.inl safe)

theorem turned_guarded : Guarded next where
  small := turned_small turned guarded
  bits := fun _ => turned_bits turned guarded
  one := fun _ _ => turned_one turned guarded
  locked := fun _ => turned_locked turned guarded
  counted := turned_counted turned guarded
  quiet := fun _ => turned_quiet_kept turned guarded
  dropSet := fun _ => turned_dropSet_marked turned guarded
  dropping := fun _ => turned_dropping_gone turned guarded
  goneBit := turned_goneBit turned guarded
  freed := fun freed => turned_gone turned guarded.small
    ((turned.freed freed).elim guarded.freed fun was => guarded.dropping a (Or.inr was))

end

end Step

theorem turn_guarded (guarded : Guarded system) (orderly : Orderly a outside system) :
    Guarded (turn a outside system) := by
  rcases turn_turns guarded.small orderly with same | turned
  · rwa [same]
  · exact turned_guarded turned guarded

theorem newSystem_guarded : Guarded newSystem where
  small := by decide
  bits := fun _ held => absurd rfl held
  one := fun _ _ held => absurd rfl held
  locked := fun _ passed => absurd passed (by simp [newSystem])
  counted := ⟨∅, fun _ => by simp [newSystem], rfl⟩
  quiet := fun _ quiet => quiet.elim
  dropSet := fun _ set => absurd set (by simp [newSystem])
  dropping := fun _ dropping => absurd dropping (by simp [newSystem, Dropping])
  goneBit := fun goneBit => absurd goneBit (by decide)
  freed := fun freed => absurd freed (by decide)

def OrderlyRun : System -> List (Nat × Outside) -> Prop
  | _, [] => True
  | system, each :: turns =>
    Orderly each.1 each.2 system ∧ OrderlyRun (turn each.1 each.2 system) turns

theorem run_guarded {turns : List (Nat × Outside)} (guarded : Guarded system)
    (orderly : OrderlyRun system turns) : Guarded (run system turns) := by
  induction turns generalizing system with
  | nil => exact guarded
  | cons each turns ih => exact ih (turn_guarded guarded orderly.1) orderly.2

theorem critical_bit {place : Place} (critical : Critical place) : bitOf place ≠ 0 := by
  rcases critical with rfl | rfl | rfl | rfl | rfl
  all_goals decide

theorem rewriting_quiet {place : Place} (rewriting : Rewriting place) : Quiet place := by
  rcases rewriting with rfl | rfl | rfl
  all_goals trivial

theorem Guarded.not_running (guarded : Guarded system) (none' : system.numOfQueries = 0) (b : Nat) :
    system.place b ≠ .querying := by
  obtain ⟨running, members, card⟩ := guarded.counted
  rw [none', Finset.card_eq_zero] at card
  intro runs
  have member := (members b).mpr runs
  rw [card] at member
  exact Finset.notMem_empty b member

theorem Guarded.exclusive (guarded : Guarded system) : Exclusive system where
  alone := fun b c critical critical' => guarded.one b c (critical_bit critical)
    (critical_bit critical')
  unqueried := fun b c rewriting => guarded.not_running
    (guarded.quiet b (rewriting_quiet rewriting)).1 c
  freed := fun freed b =>
    have gone := guarded.freed freed
    ⟨fun critical => critical_bit critical (gone.marked.bits b), guarded.not_running gone.num b⟩

/-- In every run whose turns meet the condition, the operations exclude each other. -/
theorem orderlyRun_exclusive (turns : List (Nat × Outside)) (orderly : OrderlyRun newSystem turns) :
    Exclusive (run newSystem turns) :=
  (run_guarded newSystem_guarded orderly).exclusive

def beginning (operation : Operation) : Outside := ⟨operation, false, false, true, true, 9⟩

/-- A query begins, and a schema update waits for it. -/
theorem update_waits : Exclusive (run newSystem [(0, beginning .query), (0, beginning .query),
    (1, beginning .createMeter), (1, beginning .createMeter), (1, beginning .createMeter),
    (1, beginning .createMeter)]) :=
  orderlyRun_exclusive _ ⟨fun absurd' => absurd absurd' (by decide), trivial,
    fun absurd' => absurd absurd' (by decide), trivial, trivial, trivial, trivial⟩

/-- A drop that is tried again frees the meter during an insert. -/
theorem dropped_while_inserting : ¬ Exclusive (run newSystem [(0, beginning .insert),
    (1, beginning .drop), (1, beginning .drop), (1, beginning .drop), (1, beginning .drop),
    (1, beginning .drop), (1, beginning .drop)]) := by
  intro exclusive
  have gone := exclusive.freed (by decide) 0
  exact gone.1 (Or.inl (by decide))

end Luomi.Vnode.MeterExclusion
