import Luomi.Client.SubQueryStages

/-!
# Runs of a super table query

Every orderly step keeps the invariant, so in every state of an orderly run the
parent is called at most once, after the last sub-query, and with a success only
when all rows of all vnodes were merged.
-/

namespace Luomi.Client.SubQueryRuns

open SubQueries SubQueryPhases SubQueryStages
open Function (update update_of_ne update_self)

variable {Row : Type}

section Steps

variable {s s' : State Row} {j : Nat} {sub : SubQuery Row}

/-- `s'` is `s` with one sub-query replaced, as far as the launch loop can see. -/
structure Replaces (s s' : State Row) (j : Nat) (sub : SubQuery Row) : Prop where
  numOfVnodes : s'.numOfVnodes = s.numOfVnodes
  launch : s'.launch = s.launch
  launched : s'.launched = s.launched
  subs : s'.subs = update s.subs j sub

theorem Replaces.self (replaces : Replaces s s' j sub) : s'.subs j = sub := by
  rw [replaces.subs, update_self]

theorem Replaces.other (replaces : Replaces s s' j sub) {k : Nat} (apart : k ≠ j) :
    s'.subs k = s.subs k := by
  rw [replaces.subs, update_of_ne apart]

theorem common_replaces (common : Common s) (inside : j < s.launched)
    (replaces : Replaces s s' j sub) (codeSign : s'.code ≤ 0) (parentSign : 0 ≤ s'.parentCode)
    (kept : s.code ≠ 0 -> s'.code ≠ 0) (keptParent : s.parentCode ≠ 0 -> s'.parentCode ≠ 0)
    (ok : SubOk s'.code s'.parentCode sub) (counter : s'.numOfFinished =
      countedSubs (update s.subs j sub) s.launched + skipped s) : Common s' := by
  have sameSkipped : skipped s' = skipped s := by
    rw [skipped, skipped, replaces.launch, replaces.numOfVnodes, replaces.launched]
  constructor
  · rw [replaces.numOfVnodes]
    exact common.positive
  · rw [replaces.numOfVnodes, replaces.launched]
    exact common.bounded
  · intro k outside
    rw [replaces.launched] at outside
    rw [replaces.other (by omega)]
    exact common.unlaunched k outside
  · exact codeSign
  · exact parentSign
  · rw [replaces.launch, replaces.numOfVnodes, replaces.launched]
    exact fun early => keptParent (common.cancelled early)
  · rw [replaces.launch, replaces.numOfVnodes, replaces.launched]
    exact common.cancelling
  · rw [replaces.launch, replaces.launched]
    exact common.started
  · intro k inside'
    rw [replaces.launched] at inside'
    by_cases here : k = j
    · rw [here, replaces.self]
      exact ok
    · rw [replaces.other here]
      exact (common.subs k inside').mono kept keptParent
  · rw [counter, sameSkipped, replaces.subs, replaces.launched]

theorem inv_moved (inv : Inv s) (inside : j < s.launched) (moved : Moved s j s') : Inv s' := by
  obtain ⟨sub, code, changed, uncounted, uncounted', sign, kept, ok⟩ := moved
  have working := working_of_uncounted inv.stage inside uncounted
  have replaces : Replaces s s' j sub := by
    rw [changed]
    exact ⟨rfl, rfl, rfl, rfl⟩
  have codes : s'.code = code ∧ s'.parentCode = s.parentCode := by
    rw [changed]
    exact ⟨rfl, rfl⟩
  have counter : s'.numOfFinished = s.numOfFinished := by
    rw [changed]
    rfl
  have untouched : Untouched s' := by
    rw [changed]
    exact ⟨working.untouched.1, working.untouched.2, working.untouched.3, working.untouched.4,
      working.untouched.5⟩
  constructor
  · apply common_replaces inv.common inside replaces
    · rw [codes.1]
      exact sign
    · rw [codes.2]
      exact inv.common.parentSign
    · rw [codes.1]
      exact kept
    · rw [codes.2]
      exact id
    · rw [codes.1, codes.2]
      exact ok
    · rw [counter, countedSubs_put_same (uncounted'.trans uncounted.symm)]
      exact inv.common.counter
  · apply Stage.working
    refine ⟨untouched, ?_, ?_⟩
    · rw [counter, replaces.numOfVnodes]
      exact working.below
    · intro k inside' counts
      rw [replaces.launched] at inside'
      by_cases here : k = j
      · rw [here, replaces.self, uncounted'] at counts
        cases counts
      · rw [replaces.other here] at counts ⊢
        exact working.settled k inside' counts

variable {phase : Phase Row}

theorem inv_counts (inv : Inv s) (inside : j < s.launched)
    (uncounted : counted (s.subs j).phase = false) (counts : counted phase = true)
    (ok : PhaseOk s.code s.parentCode { s.subs j with phase := phase })
    (changed : s' = ({ s with numOfFinished := s.numOfFinished + 1 } : State Row).goto j phase)
    (ends : (s.numOfFinished + 1 < s.numOfVnodes ∧ ∃ delivered, phase = .finished delivered) ∨
      (s.numOfVnodes ≤ s.numOfFinished + 1 ∧ (phase = .failing ∨
        (phase = .merging ∧ (s.parentCode = 0 -> s.code = 0))))) : Inv s' := by
  have working := working_of_uncounted inv.stage inside uncounted
  have replaces : Replaces s s' j { s.subs j with phase := phase } := by
    rw [changed]
    exact ⟨rfl, rfl, rfl, rfl⟩
  have codes : s'.code = s.code ∧ s'.parentCode = s.parentCode := by
    rw [changed]
    exact ⟨rfl, rfl⟩
  have counter : s'.numOfFinished = s.numOfFinished + 1 := by
    rw [changed]
    rfl
  have untouched : Untouched s' := by
    rw [changed]
    exact ⟨working.untouched.1, working.untouched.2, working.untouched.3, working.untouched.4,
      working.untouched.5⟩
  have common : Common s' := by
    apply common_replaces inv.common inside replaces
    · rw [codes.1]
      exact inv.common.codeSign
    · rw [codes.2]
      exact inv.common.parentSign
    · rw [codes.1]
      exact id
    · rw [codes.2]
      exact id
    · rw [codes.1, codes.2]
      exact ⟨(inv.common.subs j inside).tags, ok⟩
    · have before := inv.common.counter
      rw [counter, countedSubs_put_new inside uncounted counts]
      push_cast
      omega
  refine ⟨common, ?_⟩
  rcases ends with ⟨below, delivered, finished⟩ | ⟨full, last⟩
  · apply Stage.working
    refine ⟨untouched, ?_, ?_⟩
    · rw [counter, replaces.numOfVnodes]
      exact below
    · intro k inside' counts'
      rw [replaces.launched] at inside'
      by_cases here : k = j
      · rw [here, replaces.self]
        exact ⟨delivered, finished⟩
      · rw [replaces.other here] at counts' ⊢
        exact working.settled k inside' counts'
  · have full' : (s'.numOfVnodes : Int) ≤ s'.numOfFinished := by
      rw [counter, replaces.numOfVnodes]
      exact full
    obtain ⟨all, loop⟩ := full_counter common full'
    have settled : ∀ k < s.launched, k ≠ j -> Finished (s.subs k) := by
      intro k inside' apart
      have counts' := all k (by rw [replaces.launched]; exact inside')
      rw [replaces.other apart] at counts'
      exact working.settled k inside' counts'
    apply Stage.ending j
    refine ⟨⟨?_, ?_, loop⟩, untouched, ?_⟩
    · rw [replaces.launched]
      exact inside
    · intro k inside' apart
      rw [replaces.launched] at inside'
      rw [replaces.other apart]
      exact settled k inside' apart
    · rw [replaces.self, codes.2]
      rcases last with failing | ⟨merging, clean⟩
      · exact .inl failing
      · refine .inr ⟨merging, ?_⟩
        intro running
        have launched := launched_all common loop (codes.2.trans running)
        refine ⟨launched, ?_⟩
        intro k inside'
        by_cases here : k = j
        · rw [here, replaces.self]
          subst merging
          exact ok
        · rw [<- launched, replaces.launched] at inside'
          rw [replaces.other here]
          obtain ⟨delivered, phase'⟩ := settled k inside' here
          have known := (inv.common.subs k inside').phase
          unfold PhaseOk at known
          rw [phase'] at known
          cases delivered with
          | true => exact known
          | false => exact absurd (clean running) known

theorem last_of_phase (stage : Stage s) (inside : j < s.launched)
    (counts : counted (s.subs j).phase = true) (busy : ¬ Finished (s.subs j)) :
    Ending s j ∨ ∃ delivered, Calling s j delivered := by
  cases stage with
  | working here => exact absurd (here.settled j inside counts) busy
  | ending k here =>
    by_cases same : j = k
    · subst same
      exact .inl here
    · exact absurd (here.alone.others j inside same) busy
  | calling k delivered here =>
    by_cases same : j = k
    · subst same
      exact .inr ⟨delivered, here⟩
    · exact absurd (here.alone.others j inside same) busy
  | closed here => exact absurd (here.finished j inside) busy

theorem alone_replaces (alone : Alone s j) (replaces : Replaces s s' j sub) : Alone s' j where
  inside := by
    rw [replaces.launched]
    exact alone.inside
  others := by
    intro k inside apart
    rw [replaces.launched] at inside
    rw [replaces.other apart]
    exact alone.others k inside apart
  loop := by
    rw [LoopOver, replaces.launched, replaces.numOfVnodes, replaces.launch]
    exact alone.loop

theorem delivered_replaces (all : AllDelivered s)
    (replaces : Replaces s s' j { s.subs j with phase := phase }) : AllDelivered s' := by
  refine ⟨by rw [replaces.launched, replaces.numOfVnodes]; exact all.1, ?_⟩
  intro k inside
  rw [replaces.numOfVnodes] at inside
  by_cases here : k = j
  · rw [here, replaces.self]
    rw [here] at inside
    exact all.2 j inside
  · rw [replaces.other here]
    exact all.2 k inside

theorem common_last (common : Common s) (inside : j < s.launched)
    (counts : counted (s.subs j).phase = true) (counts' : counted phase = true)
    (replaces : Replaces s s' j { s.subs j with phase := phase }) (code : s'.code = s.code)
    (counter : s'.numOfFinished = s.numOfFinished) (parentSign : 0 ≤ s'.parentCode)
    (keptParent : s.parentCode ≠ 0 -> s'.parentCode ≠ 0)
    (ok : PhaseOk s.code s'.parentCode { s.subs j with phase := phase }) : Common s' := by
  apply common_replaces common inside replaces
  · rw [code]
    exact common.codeSign
  · exact parentSign
  · rw [code]
    exact id
  · exact keptParent
  · rw [code]
    exact ⟨(common.subs j inside).tags, ok⟩
  · rw [counter, countedSubs_put_same (counts'.trans counts.symm)]
    exact common.counter

theorem inv_failing (inv : Inv s) (phase : (s.subs j).phase = .failing)
    (changed : s' = { s.goto j (.calling false) with
        parentCode := -s.code
        envReleases := s.envReleases ++ [s.numOfVnodes]
        sharedFrees := s.sharedFrees + 1 }) : Inv s' := by
  have inside : j < s.launched := launched_of_phase inv.common (by rw [phase]; simp)
  have counts : counted (s.subs j).phase = true := by
    rw [phase]
    rfl
  have code : s.code ≠ 0 := by
    have known := (inv.common.subs j inside).phase
    unfold PhaseOk at known
    rw [phase] at known
    exact known
  have codeSign := inv.common.codeSign
  rcases last_of_phase inv.stage inside counts (by rintro ⟨_, other⟩; rw [phase] at other; cases other)
    with ending | ⟨delivered, calling⟩
  · have replaces : Replaces s s' j { s.subs j with phase := .calling false } := by
      rw [changed]
      exact ⟨rfl, rfl, rfl, rfl⟩
    have parentCode : s'.parentCode = -s.code := by rw [changed]
    constructor
    · apply common_last inv.common inside counts rfl replaces (by rw [changed]; rfl)
        (by rw [changed]; rfl) (by omega) (by omega)
      exact code
    · apply Stage.calling j false
      refine ⟨alone_replaces ending.alone replaces, ⟨?_, .inl ⟨?_, ?_⟩, ?_⟩, ?_, ?_, ?_⟩
      · rw [changed]
        simp only [ending.untouched.sharedFrees]
      · rw [changed]
        simp only [ending.untouched.envReleases]
        rfl
      · rw [changed]
        exact ending.untouched.reducer
      · intro rows merged
        have none' : s'.merged = none := by
          rw [changed]
          exact ending.untouched.merged
        rw [none'] at merged
        cases merged
      · rw [changed]
        exact ending.untouched.completions
      · rw [replaces.self]
      · intro success
        omega
  · have other := calling.phase
    rw [phase] at other
    cases other

theorem buffer_replaces (replaces : Replaces s s' j { s.subs j with phase := phase }) (k : Nat) :
    (s'.subs k).extMemBuffer = (s.subs k).extMemBuffer := by
  by_cases here : k = j
  · rw [here, replaces.self]
  · rw [replaces.other here]

theorem inv_merging (inv : Inv s) (phase : (s.subs j).phase = .merging)
    (replaces : Replaces s s' j { s.subs j with phase := .calling true })
    (codes : s'.code = s.code ∧ s'.parentCode = s.parentCode)
    (counter : s'.numOfFinished = s.numOfFinished)
    (freed : s'.sharedFrees = s.sharedFrees + 1)
    (env : (s'.envReleases = s.envReleases ++ [s.numOfVnodes] ∧
        s'.reducerHoldsEnv = s.reducerHoldsEnv) ∨
      (s'.envReleases = s.envReleases ∧ s'.reducerHoldsEnv = true))
    (merged : s'.merged = some fun k => (s.subs k).extMemBuffer)
    (completions : s'.completions = s.completions) : Inv s' := by
  have inside : j < s.launched := launched_of_phase inv.common (by rw [phase]; simp)
  have counts : counted (s.subs j).phase = true := by
    rw [phase]
    rfl
  have whole : Whole (s.subs j) := by
    have known := (inv.common.subs j inside).phase
    unfold PhaseOk at known
    rw [phase] at known
    exact known
  rcases last_of_phase inv.stage inside counts (by rintro ⟨_, other⟩; rw [phase] at other; cases other)
    with ending | ⟨delivered, calling⟩
  · constructor
    · apply common_last inv.common inside counts rfl replaces codes.1 counter
      · rw [codes.2]
        exact inv.common.parentSign
      · rw [codes.2]
        exact id
      · exact whole
    · apply Stage.calling j true
      refine ⟨alone_replaces ending.alone replaces, ⟨?_, ?_, ?_⟩, ?_, ?_, ?_⟩
      · rw [freed, ending.untouched.sharedFrees]
      · rw [ending.untouched.envReleases, ending.untouched.reducer] at env
        rw [replaces.numOfVnodes]
        exact env
      · intro rows isMerged k
        rw [merged] at isMerged
        cases Option.some.inj isMerged
        exact (buffer_replaces replaces k).symm
      · rw [completions]
        exact ending.untouched.completions
      · rw [replaces.self]
      · intro running
        rw [codes.2] at running
        rcases ending.phase with failing | ⟨-, all⟩
        · rw [phase] at failing
          cases failing
        · refine ⟨rfl, delivered_replaces (all running) replaces, ?_⟩
          rw [merged]
          simp
  · have other := calling.phase
    rw [phase] at other
    cases other

theorem inv_calling (inv : Inv s) {delivered : Bool} (phase : (s.subs j).phase = .calling delivered)
    (changed : s' =
      if delivered = false ∧ s.sync = false ∧ s.parentCode = 0 then s.goto j (.finished false)
      else
        { s.goto j (.finished delivered) with
          completions := s.completions ++ [s.parentCode] }) : Inv s' := by
  have inside : j < s.launched := launched_of_phase inv.common (by rw [phase]; simp)
  have counts : counted (s.subs j).phase = true := by
    rw [phase]
    rfl
  have known : PhaseOk s.code s.parentCode { s.subs j with phase := .finished delivered } := by
    have known := (inv.common.subs j inside).phase
    unfold PhaseOk at known
    rw [phase] at known
    cases delivered with
    | true => exact known
    | false => exact known
  rcases last_of_phase inv.stage inside counts (by rintro ⟨_, other⟩; rw [phase] at other; cases other)
    with ending | ⟨delivered', calling⟩
  · rcases ending.phase with other | ⟨other, -⟩
    · rw [phase] at other
      cases other
    · rw [phase] at other
      cases other
  · have same : delivered' = delivered := by
      have other := calling.phase
      rw [phase] at other
      cases other
      rfl
    subst same
    have called : ¬ (delivered' = false ∧ s.sync = false ∧ s.parentCode = 0) := by
      rintro ⟨failed, -, running⟩
      rw [(calling.success running).1] at failed
      cases failed
    rw [if_neg called] at changed
    have replaces : Replaces s s' j { s.subs j with phase := .finished delivered' } := by
      rw [changed]
      exact ⟨rfl, rfl, rfl, rfl⟩
    have parentCode : s'.parentCode = s.parentCode := by
      rw [changed]
      rfl
    have sameMerged : s'.merged = s.merged := by
      rw [changed]
      rfl
    constructor
    · apply common_last inv.common inside counts rfl replaces (by rw [changed]; rfl)
        (by rw [changed]; rfl)
      · rw [parentCode]
        exact inv.common.parentSign
      · rw [parentCode]
        exact id
      · rw [parentCode]
        exact known
    · apply Stage.closed
      have alone := alone_replaces calling.alone replaces
      refine ⟨?_, alone.loop, ⟨?_, ?_, ?_⟩, s.parentCode, ?_, ?_⟩
      · intro k inside'
        by_cases here : k = j
        · rw [here, replaces.self]
          exact ⟨delivered', rfl⟩
        · exact alone.others k inside' here
      · rw [changed]
        exact calling.handed.sharedFrees
      · rw [changed]
        exact calling.handed.env
      · intro rows merged k
        rw [sameMerged] at merged
        rw [buffer_replaces replaces k]
        exact calling.handed.merged rows merged k
      · rw [changed]
        simp only [calling.completions, List.nil_append]
      · intro running
        obtain ⟨-, all, merged⟩ := calling.success running
        rw [sameMerged]
        exact ⟨delivered_replaces all replaces, merged⟩

end Steps

section Loop

variable {s s' : State Row}

theorem inv_launched (inv : Inv s) (room : s.launched < s.numOfVnodes)
    (running : s.launch = .running)
    (changed : s' = { s.goto s.launched .querying with launched := s.launched + 1 }) :
    Inv s' := by
  have common := inv.common
  have subs : s'.subs = update s.subs s.launched { s.subs s.launched with phase := .querying } := by
    rw [changed]
    rfl
  have fields : s'.launched = s.launched + 1 ∧ s'.launch = s.launch ∧
      s'.numOfVnodes = s.numOfVnodes ∧ s'.numOfFinished = s.numOfFinished := by
    rw [changed]
    exact ⟨rfl, rfl, rfl, rfl⟩
  obtain ⟨launched, launch, numOfVnodes, counter⟩ := fields
  have own : s'.subs s.launched = { SubQuery.idle with phase := .querying } := by
    rw [subs, update_self, common.unlaunched _ (le_refl _)]
  have others : ∀ k, k ≠ s.launched -> s'.subs k = s.subs k := by
    intro k apart
    rw [subs, update_of_ne apart]
  have working : Working s := by
    have notOver : ¬ LoopOver s := by
      rw [LoopOver, running]
      rintro (all | isOver)
      · omega
      · cases isOver
    cases inv.stage with
    | working here => exact here
    | ending j here => exact absurd here.alone.loop notOver
    | calling j delivered here => exact absurd here.alone.loop notOver
    | closed here => exact absurd here.loop notOver
  constructor
  · constructor
    · rw [numOfVnodes]
      exact common.positive
    · rw [launched, numOfVnodes]
      omega
    · intro k outside
      rw [launched] at outside
      rw [others k (by omega)]
      exact common.unlaunched k (by omega)
    · rw [changed]
      exact common.codeSign
    · rw [changed]
      exact common.parentSign
    · rw [launch, running]
      rintro (cancelling | ⟨isOver, -⟩)
      · cases cancelling
      · cases isOver
    · rw [launch, running]
      intro cancelling
      cases cancelling
    · intro _
      rw [launched]
      omega
    · intro k inside
      have codes : s'.code = s.code ∧ s'.parentCode = s.parentCode := by
        rw [changed]
        exact ⟨rfl, rfl⟩
      rw [codes.1, codes.2]
      by_cases here : k = s.launched
      · rw [here, own]
        exact ⟨fun row member => by simp [stored, SubQuery.idle] at member, rfl, rfl⟩
      · rw [others k here]
        exact common.subs k (by omega)
    · have before := common.counter
      have countedBefore : countedSubs s'.subs s.launched = countedSubs s.subs s.launched := by
        rw [subs]
        exact countedSubs_put_outside (le_refl _)
      rw [counter, launched, countedSubs_succ, countedBefore, own, before, skipped, skipped, launch,
        running]
      simp [counted]
  · apply Stage.working
    refine ⟨?_, ?_, ?_⟩
    · rw [changed]
      exact ⟨working.untouched.1, working.untouched.2, working.untouched.3, working.untouched.4,
        working.untouched.5⟩
    · rw [counter, numOfVnodes]
      exact working.below
    · intro k inside counts
      by_cases here : k = s.launched
      · rw [here, own] at counts
        cases counts
      · rw [others k here] at counts ⊢
        exact working.settled k (by omega) counts

/-- What the launch loop and the user do not touch. -/
structure SameSubs (s s' : State Row) : Prop where
  numOfVnodes : s'.numOfVnodes = s.numOfVnodes
  launched : s'.launched = s.launched
  subs : s'.subs = s.subs
  code : s'.code = s.code
  sharedFrees : s'.sharedFrees = s.sharedFrees
  envReleases : s'.envReleases = s.envReleases
  merged : s'.merged = s.merged
  reducer : s'.reducerHoldsEnv = s.reducerHoldsEnv
  completions : s'.completions = s.completions

section

variable (same : SameSubs s s')
include same

theorem alone_same (loop : LoopOver s -> LoopOver s') {j : Nat}
    (alone : Alone s j) : Alone s' j where
  inside := by
    rw [same.launched]
    exact alone.inside
  others := by
    rw [same.launched, same.subs]
    exact alone.others
  loop := loop alone.loop

theorem untouched_same (untouched : Untouched s) : Untouched s' where
  sharedFrees := same.sharedFrees.trans untouched.sharedFrees
  envReleases := same.envReleases.trans untouched.envReleases
  merged := same.merged.trans untouched.merged
  reducer := same.reducer.trans untouched.reducer
  completions := same.completions.trans untouched.completions

theorem handed_same (handed : Handed s) : Handed s' where
  sharedFrees := same.sharedFrees.trans handed.sharedFrees
  env := by
    rw [same.envReleases, same.reducer, same.numOfVnodes]
    exact handed.env
  merged := by
    rw [same.merged, same.subs]
    exact handed.merged

theorem delivered_same (all : AllDelivered s) : AllDelivered s' := by
  rw [AllDelivered, same.launched, same.numOfVnodes, same.subs]
  exact all

theorem stage_same (stage : Stage s) (loop : LoopOver s -> LoopOver s')
    (running : s'.parentCode = 0 -> s.parentCode = 0)
    (below : s.numOfFinished < s.numOfVnodes -> s'.numOfFinished < s'.numOfVnodes) : Stage s' := by
  cases stage with
  | working here =>
    apply Stage.working
    refine ⟨untouched_same same here.untouched, below here.below, ?_⟩
    rw [same.launched, same.subs]
    exact here.settled
  | ending j here =>
    apply Stage.ending j
    refine ⟨alone_same same loop here.alone, untouched_same same here.untouched, ?_⟩
    rw [same.subs]
    apply here.phase.imp_right
    rintro ⟨phase, all⟩
    exact ⟨phase, fun success => delivered_same same (all (running success))⟩
  | calling j delivered here =>
    apply Stage.calling j delivered
    refine ⟨alone_same same loop here.alone, handed_same same here.handed,
      same.completions.trans here.completions, ?_, ?_⟩
    · rw [same.subs]
      exact here.phase
    · intro success
      obtain ⟨isDelivered, all, merged⟩ := here.success (running success)
      rw [same.merged]
      exact ⟨isDelivered, delivered_same same all, merged⟩
  | closed here =>
    apply Stage.closed
    refine ⟨?_, loop here.loop, handed_same same here.handed, ?_⟩
    · rw [same.launched, same.subs]
      exact here.finished
    · obtain ⟨code, completions, complete⟩ := here.called
      refine ⟨code, same.completions.trans completions, ?_⟩
      intro success
      obtain ⟨all, merged⟩ := complete success
      rw [same.merged]
      exact ⟨delivered_same same all, merged⟩

end

theorem inv_cancelling (inv : Inv s) (room : s.launched < s.numOfVnodes)
    (running : s.launch = .running) (cancelled : s.parentCode ≠ 0) :
    Inv { s with launch := .cancelling } := by
  have common := inv.common
  have same : SameSubs s { s with launch := .cancelling } :=
    ⟨rfl, rfl, rfl, rfl, rfl, rfl, rfl, rfl, rfl⟩
  have notOver : ¬ LoopOver s := by
    rw [LoopOver, running]
    rintro (all | isOver)
    · omega
    · cases isOver
  constructor
  · refine ⟨common.positive, common.bounded, common.unlaunched, common.codeSign,
      common.parentSign, fun _ => cancelled, fun _ => room, (by rintro ⟨⟩),
      common.subs, ?_⟩
    have counter := common.counter
    rw [skipped, running] at counter
    exact counter
  · apply stage_same same inv.stage
    · intro loop
      exact absurd loop notOver
    · exact id
    · exact id

theorem inv_left (inv : Inv s) (running : s.launch = .running)
    (full : ¬ s.launched < s.numOfVnodes) : Inv { s with launch := .over } := by
  have common := inv.common
  have same : SameSubs s { s with launch := .over } :=
    ⟨rfl, rfl, rfl, rfl, rfl, rfl, rfl, rfl, rfl⟩
  have all : s.launched = s.numOfVnodes := by
    have := common.bounded
    omega
  constructor
  · refine ⟨common.positive, common.bounded, common.unlaunched, common.codeSign,
      common.parentSign, ?_, nofun, fun _ => ?_,
      common.subs, ?_⟩
    · rintro (cancelling | ⟨-, early⟩)
      · cases cancelling
      · exact absurd early full
    · have := common.positive
      simp only
      omega
    · have counter := common.counter
      rw [skipped, running] at counter
      simp only [skipped, if_true]
      rw [counter, all]
      simp
  · apply stage_same same inv.stage
    · intro _
      exact .inr rfl
    · exact id
    · exact id

theorem inv_skipped (inv : Inv s) (cancelling : s.launch = .cancelling)
    (early : 0 < s.launched) (nobody : s.numOfFinished = 0) :
    Inv { s with numOfFinished := (s.numOfVnodes : Int) - s.launched, launch := .over } := by
  have common := inv.common
  have same : SameSubs s
      { s with numOfFinished := (s.numOfVnodes : Int) - s.launched, launch := .over } :=
    ⟨rfl, rfl, rfl, rfl, rfl, rfl, rfl, rfl, rfl⟩
  have none' : countedSubs s.subs s.launched = 0 := by
    have counter := common.counter
    rw [skipped, cancelling] at counter
    simp at counter
    omega
  have uncounted := uncounted_of_zero none'
  have working : Working s := working_of_uncounted inv.stage early (uncounted 0 early)
  constructor
  · refine ⟨common.positive, common.bounded, common.unlaunched, common.codeSign,
      common.parentSign, fun _ => common.cancelled (.inl cancelling),
      (by rintro ⟨⟩), fun _ => early, common.subs, ?_⟩
    simp only [skipped, if_true, none']
    simp
  · apply Stage.working
    refine ⟨untouched_same same working.untouched, ?_, working.settled⟩
    simp only
    omega

theorem inv_cancel (inv : Inv s) : Inv { s with parentCode := queryCancelled } := by
  have common := inv.common
  have same : SameSubs s { s with parentCode := queryCancelled } :=
    ⟨rfl, rfl, rfl, rfl, rfl, rfl, rfl, rfl, rfl⟩
  have sign : 0 ≤ queryCancelled := by decide
  have set : queryCancelled ≠ 0 := by decide
  constructor
  · refine ⟨common.positive, common.bounded, common.unlaunched, common.codeSign, sign,
      fun _ => set, common.cancelling, common.started, ?_, common.counter⟩
    intro j inside
    exact (common.subs j inside).mono id fun _ => set
  · apply stage_same same inv.stage
    · exact id
    · intro success
      cases success
    · exact id

theorem inv_freed (inv : Inv s) (holds : s.reducerHoldsEnv = true) (called : s.completions ≠ []) :
    Inv { s with
      reducerHoldsEnv := false, envReleases := s.envReleases ++ [s.numOfVnodes] } := by
  have common := inv.common
  constructor
  · exact ⟨common.positive, common.bounded, common.unlaunched, common.codeSign, common.parentSign,
      common.cancelled, common.cancelling, common.started, common.subs, common.counter⟩
  · cases inv.stage with
    | working here => exact absurd here.untouched.completions called
    | ending j here => exact absurd here.untouched.completions called
    | calling j delivered here => exact absurd here.completions called
    | closed here =>
      apply Stage.closed
      refine ⟨here.finished, here.loop, ⟨here.handed.sharedFrees, .inl ⟨?_, rfl⟩,
        here.handed.merged⟩, here.called⟩
      rcases here.handed.env with ⟨-, released⟩ | ⟨unreleased, -⟩
      · rw [released] at holds
        cases holds
      · simp only [unreleased]
        rfl

end Loop

end Luomi.Client.SubQueryRuns
