import Luomi.Client.SubQueryRuns

/-!
# One completion call for each super table query

`Safe` is what the parent of the sub-queries is promised.  It holds in every state
of a run in which the launch loop is left early only before anybody has counted,
and the last count comes with a clean code or a cancelled parent.
-/

namespace Luomi.Client.SubQueryCompletion

open SubQueries SubQueryPhases SubQueryStages SubQueryRuns
open Option (some.inj some_get)

variable {Row : Type}

def Quiet (s : State Row) : Prop :=
  LoopOver s ∧ ∀ j < s.launched, Finished (s.subs j)

/-- Nobody will touch the shared record or the array of buffers again: a sub-query
that is about to call the parent has done with both. -/
def Unused (s : State Row) : Prop :=
  LoopOver s ∧ ∀ j < s.launched,
    Finished (s.subs j) ∨ ∃ delivered, (s.subs j).phase = .calling delivered

def Complete (s : State Row) : Prop :=
  s.launched = s.numOfVnodes ∧ ∃ rows, s.merged = some rows ∧
    ∀ j < s.numOfVnodes, (s.subs j).ended = true ∧
      rows j = (s.subs j).sent.map ((s.subs j).attempt, ·)

structure Safe (s : State Row) : Prop where
  once : s.completions.length ≤ 1
  last : s.completions ≠ [] -> Quiet s
  called : Quiet s -> s.completions.length = 1
  success : ∀ code ∈ s.completions, code = 0 -> Complete s
  noRetried : ∀ rows, s.merged = some rows -> ∀ j, ∀ row ∈ rows j, row.1 = (s.subs j).attempt
  freedOnce : s.sharedFrees ≤ 1
  releasedOnce : s.envReleases = [] ∨ s.envReleases = [s.numOfVnodes]
  unused : s.sharedFrees ≠ 0 ∨ s.envReleases ≠ [] -> Unused s
  released : Quiet s -> s.sharedFrees = 1 ∧
    (s.envReleases = [s.numOfVnodes] ∨ s.reducerHoldsEnv = true)

def Orderly (s : State Row) : Action Row -> Prop
  | .launch => s.launch = .cancelling -> 0 < s.launched ∧ s.numOfFinished = 0
  | .advance j _ => (s.subs j).phase matches .countingDelivered ->
      s.numOfVnodes ≤ s.numOfFinished + 1 -> s.code = 0 ∨ s.parentCode ≠ 0
  | _ => True

def OrderlyRun (s : State Row) : List (Action Row) -> Prop
  | [] => True
  | action :: actions => Orderly s action ∧
      match step s action with
      | none => True
      | some s' => OrderlyRun s' actions

instance (s : State Row) : (action : Action Row) -> Decidable (Orderly s action)
  | .launch => inferInstanceAs (Decidable (s.launch = .cancelling -> _))
  | .advance j _ =>
    inferInstanceAs (Decidable ((s.subs j).phase matches .countingDelivered ->
      s.numOfVnodes ≤ s.numOfFinished + 1 -> s.code = 0 ∨ s.parentCode ≠ 0))
  | .answer _ _ | .fetched _ _ | .fetchFailed _ _ | .cancel | .freeResult => .isTrue trivial

instance decidableOrderlyRun : (s : State Row) -> (actions : List (Action Row)) ->
    Decidable (OrderlyRun s actions)
  | _, [] => .isTrue trivial
  | s, action :: actions =>
    have : (next : Option (State Row)) -> Decidable
        (match next with
        | none => True
        | some s' => OrderlyRun s' actions)
      | none => .isTrue trivial
      | some s' => decidableOrderlyRun s' actions
    have := this (step s action)
    inferInstanceAs (Decidable (Orderly s action ∧ _))

section Steps

variable {s s' : State Row} {j : Nat}

theorem inv_launchStep (inv : Inv s) (orderly : Orderly s .launch)
    (ran : launchStep s = some s') : Inv s' := by
  unfold launchStep at ran
  split at ran
  · rename_i running
    split at ran
    · rename_i room
      split at ran
      · rename_i cancelled
        cases some.inj ran
        apply inv_cancelling inv room running
        rcases cancelled with code | code
        · rw [code]
          decide
        · rw [code]
          decide
      · cases some.inj ran
        exact inv_launched inv room running rfl
    · rename_i full
      cases some.inj ran
      exact inv_left inv running full
  · rename_i cancelling
    obtain ⟨early, nobody⟩ := orderly cancelling
    have launched : s.launched ≠ 0 := by omega
    simp only [if_neg launched] at ran
    cases some.inj ran
    exact inv_skipped inv cancelling early nobody
  · cases ran

theorem inv_counting (inv : Inv s) (inside : j < s.launched) {delivered : Bool}
    (phase : (s.subs j).phase = if delivered then .countingDelivered else .countingFailed)
    (clean : delivered = true -> s.numOfVnodes ≤ s.numOfFinished + 1 ->
      s.code = 0 ∨ s.parentCode ≠ 0)
    (changed : s' = ({ s with numOfFinished := s.numOfFinished + 1 } : State Row).goto j
        (if s.numOfFinished + 1 < s.numOfVnodes then .finished delivered
        else if delivered then .merging else .failing)) : Inv s' := by
  have known : if delivered then Whole (s.subs j) else s.code ≠ 0 := by
    have known := (inv.common.subs j inside).phase
    unfold PhaseOk at known
    cases delivered with
    | true =>
      rw [phase] at known
      exact known
    | false =>
      rw [phase] at known
      exact known
  have uncounted : counted (s.subs j).phase = false := by
    rw [phase]
    cases delivered <;> rfl
  by_cases below : s.numOfFinished + 1 < s.numOfVnodes
  · rw [if_pos below] at changed
    refine inv_counts inv inside uncounted rfl ?_ changed (.inl ⟨below, delivered, rfl⟩)
    cases delivered with
    | true => exact known
    | false => exact known
  · rw [if_neg below] at changed
    cases delivered with
    | true =>
      have ok : PhaseOk s.code s.parentCode { s.subs j with phase := .merging } := known
      refine inv_counts inv inside uncounted rfl ok changed (.inr ⟨by omega, .inr ⟨rfl, ?_⟩⟩)
      intro running
      rcases clean rfl (by omega) with code | cancelled
      · exact code
      · exact absurd running cancelled
    | false =>
      have ok : PhaseOk s.code s.parentCode { s.subs j with phase := .failing } := known
      exact inv_counts inv inside uncounted rfl ok changed (.inr ⟨by omega, .inl rfl⟩)

theorem inv_advance (inv : Inv s) {diskFull : Bool} (orderly : Orderly s (.advance j diskFull))
    (ran : advance s j diskFull = some s') : Inv s' := by
  have inside : j < s.launched := by
    apply launched_of_phase inv.common
    intro idle
    simp [advance, idle] at ran
  have ok := inv.common.subs j inside
  by_cases early : counted (s.subs j).phase = false ∧ (s.subs j).phase ≠ .countingFailed ∧
      (s.subs j).phase ≠ .countingDelivered
  · exact inv_moved inv inside
      (advance_moves ok inv.common.codeSign inv.common.parentSign early.1 early.2 ran)
  · cases phase : (s.subs j).phase with
    | countingFailed =>
      have changed := ran
      simp only [advance, phase] at changed
      apply @inv_counting _ s s' j inv inside false phase nofun
      split at changed
      · rename_i below
        rw [if_pos below]
        exact (some.inj changed).symm
      · rename_i full
        rw [if_neg full]
        exact (some.inj changed).symm
    | countingDelivered =>
      have changed := ran
      simp only [advance, phase] at changed
      apply @inv_counting _ s s' j inv inside true phase
      · intro _ full
        apply orderly _ full
        rw [phase]
      · split at changed
        · rename_i below
          rw [if_pos below]
          exact (some.inj changed).symm
        · rename_i full
          rw [if_neg full]
          exact (some.inj changed).symm
    | failing =>
      simp only [advance, phase] at ran
      exact inv_failing inv phase (some.inj ran).symm
    | merging =>
      simp only [advance, phase] at ran
      split at ran
      · cases some.inj ran
        exact inv_merging inv phase ⟨rfl, rfl, rfl, rfl⟩ ⟨rfl, rfl⟩ rfl rfl (.inl ⟨rfl, rfl⟩)
          rfl rfl
      · cases some.inj ran
        exact inv_merging inv phase ⟨rfl, rfl, rfl, rfl⟩ ⟨rfl, rfl⟩ rfl rfl (.inr ⟨rfl, rfl⟩)
          rfl rfl
    | calling delivered =>
      simp only [advance, phase] at ran
      apply inv_calling inv phase
      split at ran
      · rename_i silent
        rw [if_pos silent]
        exact (some.inj ran).symm
      · rename_i called
        rw [if_neg called]
        exact (some.inj ran).symm
    | finished delivered => simp [advance, phase] at ran
    | _ =>
      rw [phase] at early
      simp [counted] at early

theorem inv_answered (inv : Inv s) {phase : Phase Row} {sub : SubQuery Row}
    (waiting : (s.subs j).phase = phase) (uncounted : counted phase = false)
    (active : phase ≠ .idle) (uncounted' : counted sub.phase = false)
    (ok : SubOk s.code s.parentCode (s.subs j) -> SubOk s.code s.parentCode sub) :
    Inv (s.put j sub) := by
  subst waiting
  have inside := launched_of_phase inv.common active
  exact inv_moved inv inside
    (moved_put uncounted uncounted' inv.common.codeSign (ok (inv.common.subs j inside)))

theorem inv_step (inv : Inv s) {action : Action Row} (orderly : Orderly s action)
    (ran : step s action = some s') : Inv s' := by
  cases action with
  | launch => exact inv_launchStep inv orderly ran
  | advance j diskFull => exact inv_advance inv orderly ran
  | answer j retCode =>
    rw [step] at ran
    split at ran
    · rename_i waiting
      split at ran
      · rename_i sign
        cases some.inj ran
        apply inv_answered inv waiting rfl nofun rfl
        rintro ⟨tags, known⟩
        unfold PhaseOk at known
        rw [waiting] at known
        exact ⟨tags, sign, known⟩
      · cases ran
    · cases ran
  | fetched j rows =>
    rw [step] at ran
    split at ran
    · rename_i waiting
      cases some.inj ran
      apply inv_answered inv waiting rfl nofun rfl
      rintro ⟨tags, known⟩
      unfold PhaseOk at known
      rw [waiting] at known
      refine ⟨tags, .inr ⟨rfl, ?_, ?_⟩⟩
      · rw [tagged, List.map_append]
        exact congrArg (· ++ rows.map ((s.subs j).attempt, ·)) known
      · intro none'
        rw [none']
        rfl
    · cases ran
  | fetchFailed j retCode =>
    rw [step] at ran
    split at ran
    · rename_i waiting
      split at ran
      · rename_i sign
        cases some.inj ran
        apply inv_answered inv waiting rfl nofun rfl
        intro ok
        exact ⟨ok.tags, .inl sign⟩
      · cases ran
    · cases ran
  | cancel =>
    cases some.inj ran
    exact inv_cancel inv
  | freeResult =>
    rw [step] at ran
    split at ran
    · rename_i held
      cases some.inj ran
      exact inv_freed inv held.1 held.2
    · cases ran

theorem inv_init {numOfVnodes : Nat} (positive : 0 < numOfVnodes) (sync : Bool) :
    Inv (init numOfVnodes sync : State Row) where
  common :=
    { positive := positive
      bounded := Nat.zero_le _
      unlaunched := fun _ _ => rfl
      codeSign := le_refl _
      parentSign := le_refl _
      cancelled := by rintro (cancelling | ⟨isOver, -⟩) <;> contradiction
      cancelling := nofun
      started := nofun
      subs := nofun
      counter := rfl }
  stage := by
    apply Stage.working
    refine ⟨⟨rfl, rfl, rfl, rfl, rfl⟩, ?_, nofun⟩
    simp only [init]
    omega

theorem inv_run {actions : List (Action Row)} (inv : Inv s) (orderly : OrderlyRun s actions)
    (ran : run s actions = some s') : Inv s' := by
  induction actions generalizing s with
  | nil =>
    cases some.inj ran
    exact inv
  | cons action actions ih =>
    rw [run, List.foldlM_cons] at ran
    obtain ⟨next, stepped, ran⟩ := Option.bind_eq_some_iff.mp ran
    have later := orderly.2
    rw [stepped] at later
    exact ih (inv_step inv orderly.1 stepped) later ran

end Steps

section Promises

variable {s : State Row}

theorem not_working_of_quiet (common : Common s) (quiet : Quiet s) : ¬ Working s := by
  intro working
  have all : countedSubs s.subs s.launched = s.launched := by
    have every : (List.range s.launched).countP (fun j => counted (s.subs j).phase) =
        (List.range s.launched).length := by
      rw [List.countP_eq_length]
      intro j member
      exact counted_of_finished (quiet.2 j (List.mem_range.mp member))
    rw [List.length_range] at every
    exact every
  have counter := common.counter
  have below := working.below
  rw [all, skipped] at counter
  rcases quiet.1 with launched | isOver
  · split at counter
    · omega
    · omega
  · rw [if_pos isOver] at counter
    omega

theorem closed_of_quiet (inv : Inv s) (quiet : Quiet s) : Closed s := by
  cases inv.stage with
  | working here => exact absurd here (not_working_of_quiet inv.common quiet)
  | ending j here =>
    obtain ⟨delivered, finished⟩ := quiet.2 j here.alone.inside
    rcases here.phase with phase | ⟨phase, -⟩
    all_goals
      rw [phase] at finished
      cases finished
  | calling j delivered here =>
    obtain ⟨delivered', finished⟩ := quiet.2 j here.alone.inside
    rw [here.phase] at finished
    cases finished
  | closed here => exact here

theorem closed_of_called (inv : Inv s) (called : s.completions ≠ []) : Closed s := by
  cases inv.stage with
  | working here => exact absurd here.untouched.completions called
  | ending j here => exact absurd here.untouched.completions called
  | calling j delivered here => exact absurd here.completions called
  | closed here => exact here

theorem completions_le (inv : Inv s) : s.completions.length ≤ 1 := by
  by_cases called : s.completions = []
  · rw [called]
    exact Nat.zero_le _
  · obtain ⟨code, completions, -⟩ := (closed_of_called inv called).called
    rw [completions]
    exact le_refl _

theorem complete_of_delivered (all : AllDelivered s) (handed : Handed s) (merged : s.merged ≠ none)
    : Complete s := by
  obtain ⟨rows, isMerged⟩ := Option.ne_none_iff_exists'.mp merged
  refine ⟨all.1, rows, isMerged, ?_⟩
  intro j inside
  obtain ⟨held, ended⟩ := all.2 j inside
  rw [handed.merged rows isMerged j, held]
  exact ⟨ended, rfl⟩

theorem untouched_or_handed (inv : Inv s) : Untouched s ∨ (Handed s ∧ Unused s) := by
  cases inv.stage with
  | working here => exact .inl here.untouched
  | ending j here => exact .inl here.untouched
  | calling j delivered here =>
    refine .inr ⟨here.handed, here.alone.loop, ?_⟩
    intro k inside
    by_cases same : k = j
    · rw [same]
      exact .inr ⟨delivered, here.phase⟩
    · exact .inl (here.alone.others k inside same)
  | closed here =>
    exact .inr ⟨here.handed, here.loop, fun k inside => .inl (here.finished k inside)⟩

theorem tags_of_handed (inv : Inv s) (handed : Handed s) {rows : Nat -> List (Nat × Row)}
    (merged : s.merged = some rows) (j : Nat) : ∀ row ∈ rows j, row.1 = (s.subs j).attempt := by
  intro row member
  rw [handed.merged rows merged j] at member
  by_cases inside : j < s.launched
  · exact (inv.common.subs j inside).tags row (List.mem_append_left _ member)
  · rw [inv.common.unlaunched j (not_lt.mp inside)] at member
    simp [SubQuery.idle] at member

theorem safe_of_inv (inv : Inv s) : Safe s where
  once := completions_le inv
  last := by
    intro called
    have closed := closed_of_called inv called
    exact ⟨closed.loop, closed.finished⟩
  called := by
    intro quiet
    obtain ⟨code, completions, -⟩ := (closed_of_quiet inv quiet).called
    rw [completions]
    rfl
  success := by
    intro code member success
    have closed := closed_of_called inv (List.ne_nil_of_mem member)
    obtain ⟨code', completions, complete⟩ := closed.called
    rw [completions, List.mem_singleton] at member
    obtain ⟨all, merged⟩ := complete (member ▸ success)
    exact complete_of_delivered all closed.handed merged
  noRetried := by
    intro rows merged
    rcases untouched_or_handed inv with untouched | ⟨handed, -⟩
    · rw [untouched.merged] at merged
      cases merged
    · exact tags_of_handed inv handed merged
  freedOnce := by
    rcases untouched_or_handed inv with untouched | ⟨handed, -⟩
    · rw [untouched.sharedFrees]
      exact Nat.zero_le _
    · exact handed.sharedFrees.le
  releasedOnce := by
    rcases untouched_or_handed inv with untouched | ⟨handed, -⟩
    · exact .inl untouched.envReleases
    · rcases handed.env with ⟨released, -⟩ | ⟨unreleased, -⟩
      · exact .inr released
      · exact .inl unreleased
  unused := by
    intro used
    rcases untouched_or_handed inv with untouched | ⟨-, unused⟩
    · rcases used with freed | released
      · exact absurd untouched.sharedFrees freed
      · exact absurd untouched.envReleases released
    · exact unused
  released := by
    intro quiet
    have handed := (closed_of_quiet inv quiet).handed
    refine ⟨handed.sharedFrees, ?_⟩
    rcases handed.env with ⟨released, -⟩ | ⟨-, holds⟩
    · exact .inl released
    · exact .inr holds

end Promises

/-- Every state of an orderly run is safe. -/
theorem safe_of_orderly {numOfVnodes : Nat} (positive : 0 < numOfVnodes) (sync : Bool)
    (actions : List (Action Row)) (s : State Row)
    (ran : run (init numOfVnodes sync) actions = some s)
    (orderly : OrderlyRun (init numOfVnodes sync) actions) : Safe s :=
  safe_of_inv (inv_run (inv_init positive sync) orderly ran)

def deliveringRun : List (Action Nat) :=
  [.launch, .launch, .answer 0 0, .advance 0 false, .advance 0 false, .advance 0 false,
    .fetched 0 [7], .advance 0 false, .advance 0 false, .advance 0 false, .fetched 0 [],
    .advance 0 false, .advance 0 false, .advance 0 false, .advance 0 false, .advance 0 false,
    .advance 0 false]

theorem delivering_orderly : OrderlyRun (init 1 true) deliveringRun := by
  decide +kernel

theorem delivering_ran : (run (init 1 true) deliveringRun).isSome = true := by
  decide +kernel

theorem delivered_safely :
    ∃ s, run (init 1 true) deliveringRun = some s ∧ s.completions = [0] ∧ Safe s :=
  ⟨(run (init 1 true) deliveringRun).get delivering_ran,
    (some_get delivering_ran).symm, by decide +kernel,
    safe_of_orderly (by decide) true deliveringRun _ (some_get delivering_ran).symm
      delivering_orderly⟩

/-- The first sub-query has passed the check of the shared code when the second
one fails; it counts last. -/
def misledRun : List (Action Nat) :=
  [.launch, .launch, .answer 0 0, .advance 0 false, .advance 0 false, .advance 0 false,
    .fetched 0 [], .advance 0 false, .advance 0 false, .advance 0 false,
    .answer 1 0, .advance 1 false, .advance 1 false, .advance 1 false,
    .fetched 1 [7], .advance 1 false, .advance 1 false, .advance 1 true,
    .advance 1 false, .advance 1 false, .advance 1 false, .advance 1 false, .advance 1 false,
    .advance 1 false, .advance 0 false, .advance 0 false, .advance 0 false]

theorem misled_ran : (run (init 2 false) misledRun).isSome = true := by
  decide +kernel

theorem failure_reported_as_success : ¬ ∀ (actions : List (Action Nat)) (s : State Nat),
      run (init 2 false) actions = some s -> Safe s := by
  intro safe
  have promised := safe misledRun _ (some_get misled_ran).symm
  obtain ⟨-, rows, -, complete⟩ := promised.success 0 (by decide +kernel) rfl
  have ended := (complete 1 (by decide +kernel)).1
  revert ended
  decide +kernel

end Luomi.Client.SubQueryCompletion
