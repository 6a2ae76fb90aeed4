import Luomi.Client.SubQueryPhases

/-!
# The stages of a super table query

The completion counter holds the sub-queries that have counted and, once the launch
loop was left early, those that were never launched.  The query works until the
counter is full, then one sub-query alone releases what was shared and calls the
parent.
-/

namespace Luomi.Client.SubQueryStages

open SubQueries SubQueryPhases
open Function (update update_of_ne update_self)

variable {Row : Type}

def countedSubs (subs : Nat -> SubQuery Row) (launched : Nat) : Nat :=
  (List.range launched).countP fun j => counted (subs j).phase

section Counting

variable {subs : Nat -> SubQuery Row} {j launched : Nat} {sub : SubQuery Row}

theorem countedSubs_put_same (same : counted sub.phase = counted (subs j).phase) :
    countedSubs (update subs j sub) launched = countedSubs subs launched := by
  apply List.countP_congr
  intro k _
  by_cases here : k = j
  · rw [here, update_self, same]
  · rw [update_of_ne here]

theorem countedSubs_put_outside (outside : launched ≤ j) :
    countedSubs (update subs j sub) launched = countedSubs subs launched := by
  apply List.countP_congr
  intro k member
  rw [List.mem_range] at member
  rw [update_of_ne (by omega)]

theorem countedSubs_succ : countedSubs subs (launched + 1) =
      countedSubs subs launched + (if counted (subs launched).phase then 1 else 0) := by
  rw [countedSubs, List.range_succ, List.countP_append, List.countP_singleton]
  rfl

theorem countedSubs_put_new (inside : j < launched) (before : counted (subs j).phase = false)
    (after : counted sub.phase = true) :
    countedSubs (update subs j sub) launched = countedSubs subs launched + 1 := by
  induction launched with
  | zero => omega
  | succ launched ih =>
    rw [countedSubs_succ, countedSubs_succ]
    by_cases last : j = launched
    · rw [<- last, countedSubs_put_outside (le_refl _), update_self, before, after]
      rfl
    · rw [ih (by omega), update_of_ne (Ne.symm last)]
      omega

theorem countedSubs_le : countedSubs subs launched ≤ launched := by
  have := @List.countP_le_length _ (fun j => counted (subs j).phase) (List.range launched)
  rw [List.length_range] at this
  exact this

theorem counted_of_full (full : launched ≤ countedSubs subs launched) :
    ∀ k < launched, counted (subs k).phase = true := by
  have every : (List.range launched).countP (fun j => counted (subs j).phase) =
      (List.range launched).length := by
    rw [List.length_range]
    exact le_antisymm countedSubs_le full
  rw [List.countP_eq_length] at every
  intro k inside
  exact every k (List.mem_range.mpr inside)

theorem uncounted_of_zero (none' : countedSubs subs launched = 0) :
    ∀ k < launched, counted (subs k).phase = false := by
  rw [countedSubs, List.countP_eq_zero] at none'
  intro k inside
  exact Bool.eq_false_iff.mpr (none' k (List.mem_range.mpr inside))

end Counting

/-- What the launch loop added to the counter for sub-queries it did not launch. -/
def skipped (s : State Row) : Int :=
  if s.launch = .over then (s.numOfVnodes : Int) - s.launched else 0

structure Common (s : State Row) : Prop where
  positive : 0 < s.numOfVnodes
  bounded : s.launched ≤ s.numOfVnodes
  unlaunched : ∀ j, s.launched ≤ j -> s.subs j = SubQuery.idle
  codeSign : s.code ≤ 0
  parentSign : 0 ≤ s.parentCode
  cancelled : s.launch = .cancelling ∨ (s.launch = .over ∧ s.launched < s.numOfVnodes) ->
    s.parentCode ≠ 0
  cancelling : s.launch = .cancelling -> s.launched < s.numOfVnodes
  started : s.launch = .over -> 0 < s.launched
  subs : ∀ j < s.launched, SubOk s.code s.parentCode (s.subs j)
  counter : s.numOfFinished = countedSubs s.subs s.launched + skipped s

structure Untouched (s : State Row) : Prop where
  sharedFrees : s.sharedFrees = 0
  envReleases : s.envReleases = []
  merged : s.merged = none
  reducer : s.reducerHoldsEnv = false
  completions : s.completions = []

/-- The shared record is freed; the buffers are released or with the reducer. -/
structure Handed (s : State Row) : Prop where
  sharedFrees : s.sharedFrees = 1
  env : (s.envReleases = [s.numOfVnodes] ∧ s.reducerHoldsEnv = false) ∨
    (s.envReleases = [] ∧ s.reducerHoldsEnv = true)
  merged : ∀ rows, s.merged = some rows -> ∀ k, rows k = (s.subs k).extMemBuffer

def LoopOver (s : State Row) : Prop :=
  s.launched = s.numOfVnodes ∨ s.launch = .over

def Finished (sub : SubQuery Row) : Prop :=
  ∃ delivered, sub.phase = .finished delivered

def AllDelivered (s : State Row) : Prop :=
  s.launched = s.numOfVnodes ∧ ∀ k < s.numOfVnodes, Whole (s.subs k)

structure Working (s : State Row) : Prop where
  untouched : Untouched s
  below : s.numOfFinished < s.numOfVnodes
  settled : ∀ k < s.launched, counted (s.subs k).phase = true -> Finished (s.subs k)

structure Alone (s : State Row) (j : Nat) : Prop where
  inside : j < s.launched
  others : ∀ k < s.launched, k ≠ j -> Finished (s.subs k)
  loop : LoopOver s

structure Ending (s : State Row) (j : Nat) : Prop where
  alone : Alone s j
  untouched : Untouched s
  phase : (s.subs j).phase = .failing ∨
    ((s.subs j).phase = .merging ∧ (s.parentCode = 0 -> AllDelivered s))

structure Calling (s : State Row) (j : Nat) (delivered : Bool) : Prop where
  alone : Alone s j
  handed : Handed s
  completions : s.completions = []
  phase : (s.subs j).phase = .calling delivered
  success : s.parentCode = 0 -> delivered = true ∧ AllDelivered s ∧ s.merged ≠ none

structure Closed (s : State Row) : Prop where
  finished : ∀ k < s.launched, Finished (s.subs k)
  loop : LoopOver s
  handed : Handed s
  called : ∃ code, s.completions = [code] ∧ (code = 0 -> AllDelivered s ∧ s.merged ≠ none)

inductive Stage (s : State Row) : Prop where
  | working (here : Working s)
  | ending (j : Nat) (here : Ending s j)
  | calling (j : Nat) (delivered : Bool) (here : Calling s j delivered)
  | closed (here : Closed s)

structure Inv (s : State Row) : Prop where
  common : Common s
  stage : Stage s

section Consequences

variable {s : State Row} {j : Nat}

theorem launched_of_phase (common : Common s) (active : (s.subs j).phase ≠ .idle) :
    j < s.launched := by
  by_contra outside
  apply active
  rw [common.unlaunched j (not_lt.mp outside)]
  rfl

theorem counted_of_finished {sub : SubQuery Row} (finished : Finished sub) :
    counted sub.phase = true := by
  obtain ⟨delivered, phase⟩ := finished
  rw [phase]
  rfl

theorem working_of_uncounted (stage : Stage s) (inside : j < s.launched)
    (uncounted : counted (s.subs j).phase = false) : Working s := by
  have settled : ¬ Finished (s.subs j) := by
    intro finished
    rw [counted_of_finished finished] at uncounted
    cases uncounted
  cases stage with
  | working here => exact here
  | ending k here =>
    exfalso
    by_cases same : j = k
    · subst same
      rcases here.phase with phase | ⟨phase, -⟩
      · rw [phase] at uncounted
        cases uncounted
      · rw [phase] at uncounted
        cases uncounted
    · exact settled (here.alone.others j inside same)
  | calling k delivered here =>
    exfalso
    by_cases same : j = k
    · subst same
      rw [here.phase] at uncounted
      cases uncounted
    · exact settled (here.alone.others j inside same)
  | closed here => exact absurd (here.finished j inside) settled

theorem full_counter (common : Common s) (full : (s.numOfVnodes : Int) ≤ s.numOfFinished) :
    (∀ k < s.launched, counted (s.subs k).phase = true) ∧ LoopOver s := by
  have counter := common.counter
  have bounded := common.bounded
  have least := @countedSubs_le _ s.subs s.launched
  rw [skipped] at counter
  constructor
  · apply counted_of_full
    split at counter
    · omega
    · omega
  · rw [LoopOver]
    split at counter
    · rename_i isOver
      exact .inr isOver
    · left
      omega

theorem launched_all (common : Common s) (loop : LoopOver s) (running : s.parentCode = 0) :
    s.launched = s.numOfVnodes := by
  rcases loop with all | isOver
  · exact all
  · by_contra early
    apply common.cancelled _ running
    exact .inr ⟨isOver, lt_of_le_of_ne common.bounded early⟩

end Consequences

end Luomi.Client.SubQueryStages
