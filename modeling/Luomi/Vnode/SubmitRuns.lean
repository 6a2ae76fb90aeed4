import Luomi.Vnode.SubmitResponse

/-!
# One response for each submit request

While the blocks of an import are counted, the count is the number of blocks that are not
finished, and the code and the points in the object are those of the blocks that are.  This
breaks where a block fails while another one is put off, where points are counted that the
response leaves out, where a success hides an earlier failure, and where a deferred import
finds its meter deleted.
-/

namespace Luomi.Vnode.SubmitRuns

open SubmitResponse
open Function (update update_of_ne update_self)
open List (length_append length_set mem_append mem_singleton)
open Option (some.inj)

variable {shell : Shell}

structure Collected (code total : Int) (finished : List (Int × Int)) : Prop where
  total : total = (finished.map (·.2)).sum
  success : code = 0 ↔ ∀ block ∈ finished, block.1 = 0
  code : finished ≠ [] -> ∃ block ∈ finished, block.1 = code

/-- The blocks of an import are counted; some are put off, and some are left. -/
structure Counting (shell : Shell) (left : Nat) : Prop where
  waiting : shell.waiting = true
  requests : shell.responses.length + 1 = shell.requests
  own : ∀ pImport ∈ shell.timers, pImport.request = shell.last
  deferred : (shell.ledger shell.last).deferred = shell.timers.length
  count : shell.pShell.count = left + shell.timers.length
  collected : Collected shell.pShell.code shell.pShell.numOfTotalPoints
    (shell.ledger shell.last).finished

inductive Phase (shell : Shell) : Prop where
  | idle (waiting : shell.waiting = false) (none' : shell.submit = none)
      (timers : shell.timers = []) (requests : shell.responses.length = shell.requests)
  | inserting (submit : Submit) (here : shell.submit = some submit)
      (inserts : submit.isImport = false) (waiting : shell.waiting = true)
      (timers : shell.timers = []) (requests : shell.responses.length + 1 = shell.requests)
      (deferred : (shell.ledger shell.last).deferred = 0)
      (codes : ∀ block ∈ (shell.ledger shell.last).finished, block.1 = 0)
      (total : submit.numOfTotalPoints = ((shell.ledger shell.last).finished.map (·.2)).sum)
  | importing (submit : Submit) (here : shell.submit = some submit)
      (imports : submit.isImport = true) (total : submit.numOfTotalPoints = 0)
      (counting : Counting shell (submit.more + 1))
  | deferred (none' : shell.submit = none) (some' : shell.timers ≠ [])
      (counting : Counting shell 0)

def Past (shell : Shell) : Prop :=
  ∀ k response, shell.responses[k]? = some response -> Answers (shell.ledger k) response

structure Sound (shell : Shell) : Prop where
  phase : Phase shell
  past : Past shell

theorem Sound.each (sound : Sound shell) : OneResponseEach shell := by
  have behind : ∀ k response, shell.responses[k]? = some response ->
      shell.responses.length + 1 = shell.requests -> k ≠ shell.last := by
    intro k response found requests
    have inside := (List.getElem?_eq_some_iff.mp found).1
    unfold Shell.last
    omega
  rcases sound.phase with ⟨waiting, none', timers, requests⟩ |
    ⟨submit, here, -, -, timers, requests, -, -, -⟩ | ⟨submit, here, -, -, counting⟩ |
    ⟨none', some', counting⟩
  · exact ⟨Nat.le_of_eq requests, fun k response found => ⟨sound.past k response found, Or.inl none'⟩,
      fun _ _ => requests⟩
  · exact ⟨by omega, fun k response found => ⟨sound.past k response found,
      Or.inr (behind k response found requests)⟩, fun none' => absurd (none'.symm.trans here) (by simp)⟩
  · exact ⟨by have := counting.requests; omega, fun k response found => ⟨sound.past k response found,
      Or.inr (behind k response found counting.requests)⟩,
      fun none' => absurd (none'.symm.trans here) (by simp)⟩
  · exact ⟨by have := counting.requests; omega, fun k response found => ⟨sound.past k response found,
      Or.inl none'⟩, fun _ timers => absurd timers some'⟩

theorem Collected.add {code total code' points : Int} {finished : List (Int × Int)}
    (collected : Collected code total finished) (kept : code' = 0 -> code = 0) :
    Collected code' (total + points) (finished ++ [(code', points)]) := by
  refine ⟨?_, ?_, fun _ => ⟨(code', points), by simp, rfl⟩⟩
  · rw [List.map_append, List.sum_append, <- collected.total]
    simp
  · constructor
    · intro zero block member
      rcases mem_append.mp member with old | new
      · exact collected.success.mp (kept zero) block old
      · rw [mem_singleton.mp new]
        exact zero
    · exact fun all => all (code', points) (by simp)

theorem past_update {ledger : Nat -> Ledger} (past : Past shell)
    (same : ∀ k < shell.responses.length, ledger k = shell.ledger k) :
    Past { shell with ledger := ledger } := by
  intro k response found
  rw [show ({ shell with ledger := ledger } : Shell).ledger k = shell.ledger k from
    same k (List.getElem?_eq_some_iff.mp found).1]
  exact past k response found

theorem past_send (shell : Shell) {code points : Int} (past : Past shell)
    (requests : shell.responses.length + 1 = shell.requests)
    (answers : Answers (shell.ledger shell.last) ⟨code, points⟩) : Past (shell.send code points) := by
  intro k response found
  change (shell.responses ++ [⟨code, points⟩])[k]? = some response at found
  change Answers (shell.ledger k) response
  rw [List.getElem?_append] at found
  split at found
  · exact past k response found
  case isFalse behind =>
    have last : k = shell.last := by
      have inside := (List.getElem?_eq_some_iff.mp found).1
      unfold Shell.last
      simp only [List.length_singleton] at inside
      omega
    subst last
    have zero : shell.last - shell.responses.length = 0 := by
      unfold Shell.last
      omega
    rw [zero] at found
    obtain rfl := some.inj found
    exact answers

structure Finished (shell : Shell) (left : Nat) : Prop where
  waiting : shell.waiting = true
  requests : shell.responses.length + 1 = shell.requests
  own : ∀ pImport ∈ shell.timers, pImport.request = shell.last
  deferred : (shell.ledger shell.last).deferred = shell.timers.length
  count : shell.pShell.count = left + shell.timers.length + 1
  collected : Collected shell.pShell.code shell.pShell.numOfTotalPoints
    (shell.ledger shell.last).finished
  some' : (shell.ledger shell.last).finished ≠ []

def Left (submit : Option Submit) (left : Nat) : Prop :=
  match submit with
  | none => left = 0
  | some submit => submit.isImport = true ∧ submit.numOfTotalPoints = 0 ∧ left = submit.more + 1

theorem Counting.sound (left : Nat) (counting : Counting shell left) (past : Past shell)
    (rest : Left shell.submit left) (some' : 0 < left + shell.timers.length) : Sound shell := by
  refine ⟨?_, past⟩
  cases here : shell.submit with
  | none =>
    rw [here] at rest
    obtain rfl : left = 0 := rest
    exact .deferred here (List.length_pos_iff.mp (by omega)) counting
  | some submit =>
    rw [here] at rest
    obtain ⟨imports, total, rfl⟩ := rest
    exact .importing submit here imports total counting

theorem countDown_sound (left : Nat) (finished : Finished shell left) (past : Past shell)
    (rest : Left shell.submit left) : Sound (countDown shell) := by
  have count := finished.count
  unfold countDown
  dsimp only
  by_cases last : shell.pShell.count - 1 ≤ 0
  · have none' : left = 0 ∧ shell.timers = [] := by
      refine ⟨by omega, List.length_eq_zero_iff.mp (by omega)⟩
    rw [if_pos last]
    obtain ⟨rfl, timers⟩ := none'
    have closed : shell.submit = none := by
      cases here : shell.submit with
      | none => rfl
      | some submit =>
        rw [here] at rest
        exact absurd rest.2.2 (by omega)
    have answers : Answers (shell.ledger shell.last)
        ⟨shell.pShell.code, shell.pShell.numOfTotalPoints⟩ :=
      ⟨by rw [finished.deferred, timers]; rfl, finished.collected.code finished.some',
        finished.collected.success, finished.collected.total⟩
    have requests := finished.requests
    refine ⟨.idle rfl closed timers ?_, ?_⟩
    · change (shell.responses ++ [_]).length = shell.requests
      rw [length_append]
      exact requests
    · exact past_send { shell with pShell := { shell.pShell with
        count := shell.pShell.count - 1 } } past requests answers
  · rw [if_neg last]
    have counting : Counting { shell with pShell := { shell.pShell with
        count := shell.pShell.count - 1 } } left :=
      ⟨finished.waiting, finished.requests, finished.own, finished.deferred,
        by dsimp only; omega, finished.collected⟩
    exact counting.sound left past rest (by dsimp only; omega)

@[simp]
theorem note_self (shell : Shell) (request : Nat) (code points : Int) :
    (shell.note request code points).ledger request =
      { shell.ledger request with
        finished := (shell.ledger request).finished ++ [(code, points)] } :=
  update_self ..

theorem past_note (code points : Int) (past : Past shell)
    (requests : shell.responses.length + 1 = shell.requests) :
    Past (shell.note shell.last code points) := by
  refine past_update past fun k inside => update_of_ne ?_ ..
  unfold Shell.last
  omega

/-- The condition on an event: a response has the points that are counted, no block is put off
where a request fails, a success does not hide a failure, and no meter is deleted that an import
waits for. -/
def Orderly (shell : Shell) : Event -> Prop
  | .request _ numOfSid check stale => numOfSid ≤ 0 ∨ check ≠ 0 -> stale = 0
  | .block (.returned code points) => code ≠ 0 -> points = 0 ∧
      ∀ submit, shell.submit = some submit -> submit.isImport = true ->
        shell.timers = [] ∧ shell.pShell.numOfTotalPoints = 0
  | .block (.imported code _) => code = 0 -> shell.pShell.code = 0
  | .block .deferred => True
  | .timer i firing =>
    match firing with
    | .deleted => shell.timers[i]? = none
    | .busy => True
    | .imported code _ => code = 0 -> shell.pShell.code = 0

theorem refused_sound (shell : Shell) {code : Int} (past : Past shell)
    (closed : shell.submit = none) (timers : shell.timers = [])
    (requests : shell.responses.length + 1 = shell.requests)
    (new : shell.ledger shell.last = ⟨[], 0⟩) :
    Sound ((shell.note shell.last code 0).send code 0) := by
  refine ⟨.idle rfl closed timers ?_, past_send _ (past_note _ _ past requests) requests ?_⟩
  · change (shell.responses ++ [_]).length = shell.requests
    rw [length_append]
    exact requests
  · change Answers ((shell.note shell.last code 0).ledger shell.last) _
    rw [note_self, new]
    exact ⟨rfl, ⟨(code, 0), by simp, rfl⟩, by simp, by simp⟩

theorem submitRequest_sound {isImport : Bool} {numOfSid check stale : Int} (sound : Sound shell)
    (ready : ¬ (shell.waiting = true ∨ shell.submit ≠ none))
    (orderly : numOfSid ≤ 0 ∨ check ≠ 0 -> stale = 0) :
    Sound (submitRequest isImport numOfSid check stale shell) := by
  rw [not_or, not_not] at ready
  obtain ⟨idle, closed⟩ := ready
  obtain ⟨timers, requests⟩ : shell.timers = [] ∧ shell.responses.length = shell.requests := by
    rcases sound.phase with ⟨-, -, timers, requests⟩ | ⟨submit, here, -, -, -, -, -, -, -⟩ |
      ⟨submit, here, -, -, -⟩ | ⟨-, -, counting⟩
    · exact ⟨timers, requests⟩
    · exact absurd (closed.symm.trans here) (by simp)
    · exact absurd (closed.symm.trans here) (by simp)
    · exact absurd counting.waiting idle
  have past : ∀ k response, shell.responses[k]? = some response ->
      Answers (update shell.ledger shell.requests ⟨[], 0⟩ k) response := by
    intro k response found
    have inside := (List.getElem?_eq_some_iff.mp found).1
    rw [update_of_ne (by omega)]
    exact sound.past k response found
  have new : update shell.ledger shell.requests (⟨[], 0⟩ : Ledger)
      (shell.requests + 1 - 1) = ⟨[], 0⟩ := by
    rw [Nat.add_sub_cancel, update_self]
  have next : shell.responses.length + 1 = shell.requests + 1 := by
    rw [requests]
  have refused : ∀ code : Int, Sound ((({ shell with
      requests := shell.requests + 1
      ledger := update shell.ledger shell.requests ⟨[], 0⟩
      waiting := true } : Shell).note shell.requests code 0).send code 0) := by
    intro code
    exact refused_sound { shell with
      requests := shell.requests + 1
      ledger := update shell.ledger shell.requests ⟨[], 0⟩
      waiting := true } past closed timers next new
  unfold submitRequest
  dsimp only
  split
  case isTrue none' =>
    rw [orderly (Or.inl none')]
    exact refused _
  split
  case isTrue failed =>
    rw [orderly (Or.inr failed)]
    exact refused check
  case isFalse some' _ =>
    refine ⟨?_, past⟩
    have fresh : Collected 0 0 [] := ⟨rfl, by simp, fun absurd' => absurd rfl absurd'⟩
    cases isImport with
    | false =>
      refine .inserting _ rfl rfl rfl timers next ?_ ?_ ?_
      all_goals
        unfold Shell.last
        dsimp only
        rw [new]
      · simp
      · rfl
    | true =>
      refine .importing _ rfl rfl rfl ⟨rfl, next, ?_, ?_, ?_, ?_⟩
      · dsimp only
        rw [timers]
        simp
      · unfold Shell.last
        dsimp only
        rw [new, timers]
        rfl
      · dsimp only
        rw [timers]
        simp only [List.length_nil]
        omega
      · unfold Shell.last
        dsimp only
        rw [new]
        exact fresh

theorem sum_add (finished : List (Int × Int)) (code points : Int) :
    ((finished ++ [(code, points)]).map (·.2)).sum = (finished.map (·.2)).sum + points := by
  rw [List.map_append, List.sum_append]
  simp

theorem failed_sound {code : Int} {submit : Submit} (failed : code ≠ 0) (past : Past shell)
    (timers : shell.timers = []) (requests : shell.responses.length + 1 = shell.requests)
    (deferred : (shell.ledger shell.last).deferred = 0)
    (total : submit.numOfTotalPoints = ((shell.ledger shell.last).finished.map (·.2)).sum) :
    Sound (({ shell.note shell.last code 0 with submit := none } : Shell).send code
      submit.numOfTotalPoints) := by
  refine ⟨.idle rfl rfl timers ?_, past_send { shell.note shell.last code 0 with submit := none }
    (past_note _ _ past requests) requests ?_⟩
  · change (shell.responses ++ [_]).length = shell.requests
    rw [length_append]
    exact requests
  · change Answers ((shell.note shell.last code 0).ledger shell.last) _
    rw [note_self]
    refine ⟨deferred, ⟨(code, 0), by simp, rfl⟩, ?_, ?_⟩
    · exact ⟨fun zero => absurd zero failed, fun all => absurd (all (code, 0) (by simp)) failed⟩
    · rw [sum_add, Int.add_zero]
      exact total

section

variable {outcome : Outcome} {submit : Submit} (sound : Sound shell)
  (here : shell.submit = some submit)

include sound here

theorem insertBlock_sound (inserts : submit.isImport = false)
    (orderly : Orderly shell (.block outcome)) : Sound (insertBlock outcome submit shell) := by
  obtain ⟨waiting, timers, requests, deferred, codes, total⟩ : shell.waiting = true ∧
      shell.timers = [] ∧ shell.responses.length + 1 = shell.requests ∧
      (shell.ledger shell.last).deferred = 0 ∧
      (∀ block ∈ (shell.ledger shell.last).finished, block.1 = 0) ∧
      submit.numOfTotalPoints = ((shell.ledger shell.last).finished.map (·.2)).sum := by
    rcases sound.phase with ⟨-, closed, -, -⟩ |
      ⟨submit', here', -, waiting, timers, requests, deferred, codes, total⟩ |
      ⟨submit', here', imports, -, -⟩ | ⟨closed, -, -⟩
    · exact absurd (closed.symm.trans here) (by simp)
    · obtain rfl := some.inj (here.symm.trans here')
      exact ⟨waiting, timers, requests, deferred, codes, total⟩
    · obtain rfl := some.inj (here.symm.trans here')
      exact absurd (inserts.symm.trans imports) (by decide)
    · exact absurd (closed.symm.trans here) (by simp)
  cases outcome with
  | imported code importedRows => exact sound
  | deferred => exact sound
  | returned code points =>
    unfold insertBlock
    dsimp only
    by_cases failed : code ≠ 0
    · rw [if_pos failed, (orderly failed).1]
      exact failed_sound failed sound.past timers requests deferred total
    rw [if_neg failed]
    obtain rfl : code = 0 := not_not.mp failed
    have noted := past_note 0 points sound.past requests
    have all : ∀ block ∈ (shell.ledger shell.last).finished ++ [((0 : Int), points)],
        block.1 = 0 := by
      intro block member
      rcases mem_append.mp member with old | new
      · exact codes block old
      · rw [mem_singleton.mp new]
    by_cases closed : submit.more = 0
    · rw [if_pos closed]
      refine ⟨.idle rfl (if_pos closed) timers ?_, past_send _ noted requests ?_⟩
      · change (shell.responses ++ [_]).length = shell.requests
        rw [length_append]
        exact requests
      · change Answers ((shell.note shell.last 0 points).ledger shell.last) _
        rw [note_self]
        exact ⟨deferred, ⟨(0, points), by simp, rfl⟩, ⟨fun _ => all, fun _ => rfl⟩,
          by rw [sum_add, <- total]⟩
    · rw [if_neg closed]
      refine ⟨.inserting _ (if_neg closed) inserts waiting timers requests ?_ ?_ ?_, noted⟩
      · change ((shell.note shell.last 0 points).ledger shell.last).deferred = 0
        rw [note_self]
        exact deferred
      · change ∀ block ∈ ((shell.note shell.last 0 points).ledger shell.last).finished, block.1 = 0
        rw [note_self]
        exact all
      · change _ = (((shell.note shell.last 0 points).ledger shell.last).finished.map (·.2)).sum
        rw [note_self, sum_add, <- total]

theorem importBlock_sound (imports : submit.isImport = true)
    (orderly : Orderly shell (.block outcome)) : Sound (importBlock outcome submit shell) := by
  obtain ⟨total, counting⟩ : submit.numOfTotalPoints = 0 ∧ Counting shell (submit.more + 1) := by
    rcases sound.phase with ⟨-, closed, -, -⟩ | ⟨submit', here', inserts, -, -, -, -, -, -⟩ |
      ⟨submit', here', -, total, counting⟩ | ⟨closed, -, -⟩
    · exact absurd (closed.symm.trans here) (by simp)
    · obtain rfl := some.inj (here.symm.trans here')
      exact absurd (inserts.symm.trans imports) (by decide)
    · obtain rfl := some.inj (here.symm.trans here')
      exact ⟨total, counting⟩
    · exact absurd (closed.symm.trans here) (by simp)
  have rest : Left (if submit.more = 0 then none else some { submit with more := submit.more - 1 })
      submit.more := by
    by_cases last : submit.more = 0
    · rw [if_pos last]
      exact last
    · rw [if_neg last]
      exact ⟨imports, total, by dsimp only; omega⟩
  have count := counting.count
  cases outcome with
  | returned code points =>
    unfold importBlock
    dsimp only
    by_cases failed : code ≠ 0
    · obtain ⟨none', quiet⟩ := orderly failed
      obtain ⟨timers, unseen⟩ := quiet submit here imports
      have collected := counting.collected.total
      rw [if_pos failed, none']
      refine failed_sound failed sound.past timers counting.requests ?_ ?_
      · rw [counting.deferred, timers]
        rfl
      · rw [total, <- collected, unseen]
    · rw [if_neg failed]
      exact sound
  | imported code importedRows =>
    unfold importBlock
    refine countDown_sound submit.more ?_ (past_note _ _ sound.past counting.requests) rest
    refine ⟨counting.waiting, counting.requests, counting.own, ?_, ?_, ?_, ?_⟩
    · change ((shell.note shell.last code importedRows).ledger shell.last).deferred = _
      rw [note_self]
      exact counting.deferred
    · change shell.pShell.count = submit.more + shell.timers.length + 1
      omega
    · change Collected code (shell.pShell.numOfTotalPoints + importedRows)
        ((shell.note shell.last code importedRows).ledger shell.last).finished
      rw [note_self]
      exact counting.collected.add orderly
    · change ((shell.note shell.last code importedRows).ledger shell.last).finished ≠ []
      rw [note_self]
      simp
  | deferred =>
    unfold importBlock
    dsimp only
    have ledger_eq : update shell.ledger shell.last
        { shell.ledger shell.last with deferred := (shell.ledger shell.last).deferred + 1 }
        shell.last = { shell.ledger shell.last with
          deferred := (shell.ledger shell.last).deferred + 1 } := update_self ..
    have past : Past { shell with ledger := (update shell.ledger shell.last
        { shell.ledger shell.last with deferred := (shell.ledger shell.last).deferred + 1 }) } :=
      past_update sound.past fun k inside => update_of_ne (by
        have requests := counting.requests
        unfold Shell.last
        omega) ..
    refine Counting.sound submit.more ⟨counting.waiting, counting.requests, ?_, ?_, ?_, ?_⟩ past
      rest (by
        dsimp only [Shell.next]
        rw [length_append, List.length_singleton]
        omega)
    · intro pImport member
      rcases mem_append.mp member with old | new
      · exact counting.own pImport old
      · rw [mem_singleton.mp new]
        rfl
    · refine (congrArg Ledger.deferred ledger_eq).trans ?_
      dsimp only [Shell.next]
      rw [counting.deferred, length_append]
      rfl
    · dsimp only [Shell.next]
      rw [length_append, List.length_singleton]
      push_cast
      omega
    · exact (congrArg (Collected shell.pShell.code shell.pShell.numOfTotalPoints)
        (congrArg Ledger.finished ledger_eq)).mpr counting.collected

end

theorem Sound.counting (sound : Sound shell) (some' : shell.timers ≠ []) :
    ∃ left, Counting shell left ∧ Left shell.submit left := by
  rcases sound.phase with ⟨-, -, timers, -⟩ | ⟨submit, -, -, -, timers, -, -, -, -⟩ |
    ⟨submit, here, imports, total, counting⟩ | ⟨closed, -, counting⟩
  · exact absurd timers some'
  · exact absurd timers some'
  · exact ⟨submit.more + 1, counting, by rw [here]; exact ⟨imports, total, rfl⟩⟩
  · exact ⟨0, counting, by rw [closed]; rfl⟩

theorem finishImport_sound {left i : Nat} {code importedRows : Int} {pImport : SImportInfo}
    {total : Int} (past : Past shell) (counting : Counting shell left)
    (rest : Left shell.submit left) (found : shell.timers[i]? = some pImport)
    (kept : code = 0 -> shell.pShell.code = 0)
    (total_eq : total = shell.pShell.numOfTotalPoints + importedRows) :
    Sound (finishImport i pImport.request code importedRows { shell with
      pShell := ⟨shell.pShell.count, code, total⟩ }) := by
  obtain ⟨inside, -⟩ := List.getElem?_eq_some_iff.mp found
  have own : pImport.request = shell.last := counting.own pImport (List.mem_of_getElem? found)
  have count := counting.count
  have fewer : (shell.timers.eraseIdx i).length = shell.timers.length - 1 :=
    List.length_eraseIdx_of_lt inside
  subst total_eq
  unfold finishImport
  rw [own]
  have requests := counting.requests
  have at_last : update (shell.note shell.last code importedRows).ledger shell.last
      { (shell.note shell.last code importedRows).ledger shell.last with
        deferred := ((shell.note shell.last code importedRows).ledger shell.last).deferred - 1 }
      shell.last = ⟨(shell.ledger shell.last).finished ++ [(code, importedRows)],
        (shell.ledger shell.last).deferred - 1⟩ := by
    rw [update_self, note_self]
  have finished_eq := congrArg Ledger.finished at_last
  refine countDown_sound left ?_ ?_ rest
  · refine ⟨counting.waiting, counting.requests, ?_, ?_, ?_, ?_, ?_⟩
    · exact fun pImport member => counting.own pImport (List.mem_of_mem_eraseIdx member)
    · refine (congrArg Ledger.deferred at_last).trans ?_
      change _ = (shell.timers.eraseIdx i).length
      rw [fewer, <- counting.deferred]
    · change shell.pShell.count = left + (shell.timers.eraseIdx i).length + 1
      rw [fewer]
      omega
    · exact (congrArg (Collected code (shell.pShell.numOfTotalPoints + importedRows))
        finished_eq).mpr (counting.collected.add kept)
    · exact (congrArg (· ≠ []) finished_eq).mpr (by simp)
  · refine past_update (past_note code importedRows past requests) fun k less => update_of_ne ?_ ..
    have below : k < shell.responses.length := less
    change k ≠ shell.requests - 1
    omega

theorem processImportTimer_sound {i : Nat} {firing : Firing} (sound : Sound shell)
    (orderly : Orderly shell (.timer i firing)) : Sound (processImportTimer i firing shell) := by
  unfold processImportTimer
  cases found : shell.timers[i]? with
  | none => exact sound
  | some pImport =>
    have some' : shell.timers ≠ [] := by
      intro none'
      rw [none'] at found
      exact absurd found (by simp)
    obtain ⟨left, counting, rest⟩ := sound.counting some'
    cases firing with
    | deleted => exact absurd (found.symm.trans orderly) (by simp)
    | imported code importedRows =>
      exact finishImport_sound sound.past counting rest found orderly rfl
    | busy =>
      dsimp only
      split
      · have counting' : Counting { shell with
            timers := shell.timers.set i { pImport with retry := pImport.retry + 1 } } left := by
          refine ⟨counting.waiting, counting.requests, ?_, ?_, ?_, counting.collected⟩
          · intro pImport' member
            rcases List.mem_or_eq_of_mem_set member with old | rfl
            · exact counting.own pImport' old
            · exact counting.own pImport (List.mem_of_getElem? found)
          · dsimp only
            rw [length_set]
            exact counting.deferred
          · dsimp only
            rw [length_set]
            exact counting.count
        refine counting'.sound left sound.past rest ?_
        dsimp only
        rw [length_set]
        have length := List.length_pos_iff.mpr some'
        omega
      · exact finishImport_sound sound.past counting rest found
          (fun zero => absurd zero (by decide)) (Int.add_zero _).symm

theorem step_sound {event : Event} (sound : Sound shell) (orderly : Orderly shell event) :
    Sound (step shell event) := by
  cases event with
  | request isImport numOfSid check stale =>
    unfold step
    dsimp only
    split
    · exact sound
    case isFalse ready => exact submitRequest_sound sound ready orderly
  | block outcome =>
    unfold step
    cases here : shell.submit with
    | none => exact sound
    | some submit =>
      dsimp only
      split
      case isTrue imports => exact importBlock_sound sound here imports orderly
      case isFalse inserts =>
        exact insertBlock_sound sound here (Bool.eq_false_iff.mpr inserts) orderly
  | timer i firing => exact processImportTimer_sound sound orderly

def OrderlyRun : Shell -> List Event -> Prop
  | _, [] => True
  | shell, event :: events => Orderly shell event ∧ OrderlyRun (step shell event) events

theorem run_sound {events : List Event} (sound : Sound shell) (orderly : OrderlyRun shell events) :
    Sound (run shell events) := by
  induction events generalizing shell with
  | nil => exact sound
  | cons event events ih => exact ih (step_sound sound orderly.1) orderly.2

theorem newShell_sound : Sound newShell :=
  ⟨.idle rfl rfl rfl rfl, fun _ _ found => absurd found (by simp [newShell])⟩

/-- In every run whose events meet the condition, each request has one response, its own. -/
theorem orderlyRun_oneResponse (events : List Event) (orderly : OrderlyRun newShell events) :
    OneResponseEach (run newShell events) :=
  (run_sound newShell_sound orderly).each

/-- Two imports are put off, and the second one answers. -/
theorem deferredImports_oneResponse : OneResponseEach (run newShell [.request true 2 0 7,
    .block .deferred, .block .deferred, .timer 0 .busy, .timer 1 (.imported 0 3),
    .timer 0 (.imported 0 4)]) :=
  orderlyRun_oneResponse _ ⟨fun early => absurd early (by decide), trivial, trivial, trivial,
    fun _ => rfl, fun _ => rfl, trivial⟩

/-- A request fails while an import is put off; the import answers the next request. -/
theorem staleImport_answers : ¬ OneResponseEach (run newShell [.request true 2 0 0,
    .block .deferred, .block (.returned 1 0), .request true 1 0 0, .block .deferred,
    .timer 0 (.imported 0 3), .timer 0 (.imported 0 4)]) := by
  intro each
  exact absurd each.atMost (by decide)

end Luomi.Vnode.SubmitRuns
