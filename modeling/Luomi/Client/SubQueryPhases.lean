import Luomi.Client.SubQueries

/-!
# What a sub-query knows at each of its phases

The rows in its buffers are rows of the present attempt, and on the way to the
completion counter either all rows of the vnode are there or an error is recorded.
-/

namespace Luomi.Client.SubQueryPhases

open SubQueries
open Option (some.inj)

variable {Row : Type}

def stored (sub : SubQuery Row) : List (Nat × Row) :=
  sub.extMemBuffer ++ sub.localBuffer

def tagged (sub : SubQuery Row) : List (Nat × Row) :=
  sub.sent.map (sub.attempt, ·)

def counted : Phase Row -> Bool
  | .failing | .merging | .calling _ | .finished _ => true
  | _ => false

def Whole (sub : SubQuery Row) : Prop :=
  sub.extMemBuffer = tagged sub ∧ sub.ended = true

def Answered (sub : SubQuery Row) (numOfRows : Int) (rows : List Row) : Prop :=
  numOfRows < 0 ∨ numOfRows = rows.length ∧
    stored sub ++ rows.map (sub.attempt, ·) = tagged sub ∧ (rows = [] -> sub.ended = true)

def PhaseOk (code parentCode : Int) (sub : SubQuery Row) : Prop :=
  match sub.phase with
  | .idle => False
  | .querying | .queried => stored sub = [] ∧ sub.sent = []
  | .dataRes retCode | .dataResShared retCode =>
    retCode ≤ 0 ∧ stored sub = [] ∧ sub.sent = []
  | .retryQuery retCode => retCode < 0 ∧ stored sub = [] ∧ sub.sent = []
  | .fetching => stored sub = tagged sub
  | .callback numOfRows rows => Answered sub numOfRows rows
  | .callbackParent numOfRows rows => 0 ≤ numOfRows ∧ Answered sub numOfRows rows
  | .storing rows => stored sub ++ rows.map (sub.attempt, ·) = tagged sub
  | .flushing => stored sub = tagged sub ∧ sub.ended = true
  | .aborting => True
  | .handling numOfRows => numOfRows < 0 ∨ code ≠ 0 ∨ parentCode ≠ 0
  | .spreading _ => parentCode ≠ 0
  | .deciding numOfRows => numOfRows < 0 ∨ code ≠ 0
  | .setting numOfRows => numOfRows < 0
  | .countingFailed | .failing | .calling false | .finished false => code ≠ 0
  | .countingDelivered | .merging | .calling true | .finished true => Whole sub

structure SubOk (code parentCode : Int) (sub : SubQuery Row) : Prop where
  tags : ∀ row ∈ stored sub, row.1 = sub.attempt
  phase : PhaseOk code parentCode sub

section

variable {code code' parentCode parentCode' : Int} {sub : SubQuery Row}

theorem PhaseOk.mono (ok : PhaseOk code parentCode sub) (kept : code ≠ 0 -> code' ≠ 0)
    (keptParent : parentCode ≠ 0 -> parentCode' ≠ 0) : PhaseOk code' parentCode' sub := by
  unfold PhaseOk at ok ⊢
  split <;> rename_i phase <;> rw [phase] at ok <;> simp only at ok
  case h_13 => exact ok.imp_right (Or.imp kept keptParent)
  case h_14 => exact keptParent ok
  case h_15 => exact ok.imp_right kept
  all_goals first | exact kept ok | exact ok

theorem SubOk.mono (ok : SubOk code parentCode sub) (kept : code ≠ 0 -> code' ≠ 0)
    (keptParent : parentCode ≠ 0 -> parentCode' ≠ 0) : SubOk code' parentCode' sub :=
  ⟨ok.tags, ok.phase.mono kept keptParent⟩

end

def Moved (s : State Row) (j : Nat) (s' : State Row) : Prop :=
  ∃ sub code, s' = { s.put j sub with code := code } ∧
    counted (s.subs j).phase = false ∧ counted sub.phase = false ∧
    code ≤ 0 ∧ (s.code ≠ 0 -> code ≠ 0) ∧ SubOk code s.parentCode sub

section Moves

variable {s : State Row} {j : Nat} {sub : SubQuery Row}

theorem moved_put (uncounted : counted (s.subs j).phase = false)
    (uncounted' : counted sub.phase = false) (sign : s.code ≤ 0)
    (ok : SubOk s.code s.parentCode sub) : Moved s j (s.put j sub) :=
  ⟨sub, s.code, rfl, uncounted, uncounted', sign, id, ok⟩

theorem moved_goto {phase : Phase Row} (uncounted : counted (s.subs j).phase = false)
    (uncounted' : counted phase = false) (sign : s.code ≤ 0)
    (tags : ∀ row ∈ stored (s.subs j), row.1 = (s.subs j).attempt)
    (ok : PhaseOk s.code s.parentCode { s.subs j with phase := phase }) :
    Moved s j (s.goto j phase) :=
  moved_put uncounted uncounted' sign ⟨tags, ok⟩

theorem compareAndSwap_ne {code value : Int} (set : value < 0) : compareAndSwap code value ≠ 0 := by
  rw [compareAndSwap]
  split
  · omega
  · assumption

theorem compareAndSwap_le {code value : Int} (sign : code ≤ 0) (set : value < 0) :
    compareAndSwap code value ≤ 0 := by
  rw [compareAndSwap]
  split
  · omega
  · exact sign

theorem again_ok {code parentCode : Int} (empty : stored sub = []) :
    SubOk code parentCode sub.again where
  tags := by
    intro row member
    rw [show stored sub.again = stored sub from rfl, empty] at member
    simp at member
  phase := ⟨empty, rfl⟩

theorem tagged_rows (rows : List Row) (attempt : Nat)
    (list : List (Nat × Row)) (tags : ∀ row ∈ list, row.1 = attempt) :
    ∀ row ∈ list ++ rows.map (attempt, ·), row.1 = attempt := by
  intro row member
  rcases List.mem_append.mp member with old | new
  · exact tags row old
  · obtain ⟨_, -, rfl⟩ := List.mem_map.mp new
    rfl

theorem advance_moves {diskFull : Bool} {s' : State Row}
    (ok : SubOk s.code s.parentCode (s.subs j)) (sign : s.code ≤ 0) (parentSign : 0 ≤ s.parentCode)
    (uncounted : counted (s.subs j).phase = false)
    (before : (s.subs j).phase ≠ .countingFailed ∧ (s.subs j).phase ≠ .countingDelivered)
    (ran : advance s j diskFull = some s') : Moved s j s' := by
  obtain ⟨tags, known⟩ := ok
  have counts := uncounted
  unfold advance at ran
  unfold PhaseOk at known
  cases phase : (s.subs j).phase with
  | idle | querying | fetching => simp [phase] at ran
  | dataRes retCode =>
    simp only [phase] at ran known
    obtain ⟨retSign, empty, nothing⟩ := known
    split at ran
    · rename_i parentSet
      cases some.inj ran
      exact moved_put uncounted rfl sign ⟨tags, by omega, empty, nothing⟩
    · cases some.inj ran
      exact moved_goto uncounted rfl sign tags ⟨retSign, empty, nothing⟩
  | dataResShared retCode =>
    simp only [phase] at ran known
    obtain ⟨retSign, empty, nothing⟩ := known
    split at ran
    · rename_i set
      cases some.inj ran
      exact moved_put uncounted rfl sign ⟨tags, by omega, empty, nothing⟩
    · split at ran
      · rename_i failed
        cases some.inj ran
        exact moved_goto uncounted rfl sign tags ⟨by omega, empty, nothing⟩
      · cases some.inj ran
        exact moved_goto uncounted rfl sign tags ⟨empty, nothing⟩
  | retryQuery retCode =>
    simp only [phase] at ran known
    obtain ⟨retSign, empty, nothing⟩ := known
    split at ran
    · cases some.inj ran
      exact ⟨_, _, rfl, uncounted, rfl, compareAndSwap_le sign retSign,
        fun _ => compareAndSwap_ne retSign, tags, empty, nothing⟩
    · cases some.inj ran
      exact moved_put uncounted rfl sign (again_ok empty)
  | queried =>
    simp only [phase] at ran known
    obtain ⟨empty, nothing⟩ := known
    split at ran
    · rename_i set
      cases some.inj ran
      exact moved_goto uncounted rfl sign tags (.inl (by omega))
    · cases some.inj ran
      apply moved_goto uncounted rfl sign tags
      rw [PhaseOk]
      simp only [stored, tagged, nothing]
      exact empty
  | callback numOfRows rows =>
    simp only [phase] at ran known
    split at ran
    · rename_i failed
      cases some.inj ran
      apply moved_goto uncounted rfl sign tags
      rcases failed with negative | set
      · exact .inl negative
      · exact .inr (.inl (by omega))
    · rename_i answered
      cases some.inj ran
      exact moved_goto uncounted rfl sign tags ⟨by omega, known⟩
  | callbackParent numOfRows rows =>
    simp only [phase] at ran known
    obtain ⟨notNegative, known⟩ := known
    split at ran
    · rename_i cancelled
      cases some.inj ran
      exact moved_goto uncounted rfl sign tags (.inr (.inr cancelled))
    · rcases known with negative | ⟨number, complete, ended⟩
      · omega
      split at ran
      · cases some.inj ran
        exact moved_goto uncounted rfl sign tags complete
      · have noRows : rows = [] := List.length_eq_zero_iff.mp (by omega)
        cases some.inj ran
        rw [noRows, List.map_nil, List.append_nil] at complete
        exact moved_goto uncounted rfl sign tags ⟨complete, ended noRows⟩
  | storing rows =>
    simp only [phase] at ran known
    split at ran
    · cases some.inj ran
      exact moved_goto uncounted rfl sign tags trivial
    · cases some.inj ran
      apply moved_put uncounted rfl sign
      have regroup := List.append_assoc (s.subs j).extMemBuffer (s.subs j).localBuffer
        (rows.map ((s.subs j).attempt, ·))
      constructor
      · intro row member
        apply tagged_rows rows _ _ tags row
        rw [stored, regroup]
        exact member
      · exact regroup.symm.trans known
  | flushing =>
    simp only [phase] at ran known
    split at ran
    · cases some.inj ran
      exact moved_goto uncounted rfl sign tags trivial
    · cases some.inj ran
      apply moved_put uncounted rfl sign
      constructor
      · intro row member
        apply tags row
        rw [stored, List.append_nil] at member
        exact member
      · exact known
  | aborting =>
    simp only [phase] at ran
    cases some.inj ran
    exact ⟨_, _, rfl, uncounted, rfl, by decide, fun _ => by decide, tags, .inl (by decide)⟩
  | handling numOfRows =>
    simp only [phase] at ran known
    split at ran
    · rename_i cancelled
      cases some.inj ran
      exact moved_goto uncounted rfl sign tags cancelled.2
    · rename_i settled
      cases some.inj ran
      apply moved_goto uncounted rfl sign tags
      rcases known with negative | set | cancelled
      · exact .inl negative
      · exact .inr set
      · exact .inr fun unset => settled ⟨unset, cancelled⟩
  | spreading numOfRows =>
    simp only [phase] at ran known
    cases some.inj ran
    have set : -s.parentCode ≠ 0 := by omega
    exact ⟨_, _, rfl, uncounted, rfl, by omega, fun _ => set, tags, .inr set⟩
  | deciding numOfRows =>
    simp only [phase] at ran known
    split at ran
    · rename_i notNegative
      cases some.inj ran
      apply moved_goto uncounted rfl sign tags
      rcases known with negative | set
      · omega
      · exact set
    · rename_i negative
      split at ran
      · cases some.inj ran
        exact moved_put uncounted rfl sign (again_ok rfl)
      · cases some.inj ran
        exact moved_put uncounted rfl sign ⟨tags, not_le.mp negative⟩
  | setting numOfRows =>
    simp only [phase] at ran known
    cases some.inj ran
    have set := @compareAndSwap_ne s.code numOfRows known
    exact ⟨_, _, rfl, uncounted, rfl, compareAndSwap_le sign known, fun _ => set, tags, set⟩
  | countingFailed => exact absurd phase before.1
  | countingDelivered => exact absurd phase before.2
  | failing | merging | calling | finished =>
    rw [phase] at counts
    cases counts

end Moves

end Luomi.Client.SubQueryPhases
