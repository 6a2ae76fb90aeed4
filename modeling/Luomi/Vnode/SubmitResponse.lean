import Mathlib.Tactic

/-!
# Responses to submit requests (`vnodeShell.c`)

A shell connection has one `SShellObj` for all of its requests.  A request for inserting is
answered when its last block is done.  The blocks of an import are counted in the object, and
the block that brings the count to zero answers, in the thread of the request or in a timer.
A block that fails ends its request with a response.

What a block meets comes from outside: what `vnodeInsertPoints` or the checks of an import
return, what `vnodeImportData` returns, and whether an import is put off.  The numbers of
requests in the timers and the ledger of a request are no data of the program.
-/

namespace Luomi.Vnode.SubmitResponse

open Function (update)

def tsdbCodeInvalidQueryMsg : Int := 106

def tsdbCodeTooSlow : Int := 50

structure SShellObj where
  count : Int
  code : Int
  numOfTotalPoints : Int

/-- A request in `vnodeProcessShellSubmitRequest`, with the number of blocks behind this one. -/
structure Submit where
  isImport : Bool
  more : Nat
  numOfTotalPoints : Int

structure SImportInfo where
  request : Nat
  retry : Nat

structure Response where
  code : Int
  numOfPoints : Int

/-- The code and the affected points of the blocks of a request that are finished, and how many
are put off. -/
structure Ledger where
  finished : List (Int × Int)
  deferred : Nat

structure Shell where
  pShell : SShellObj
  submit : Option Submit
  timers : List SImportInfo
  requests : Nat
  ledger : Nat -> Ledger
  responses : List Response
  -- the client has sent a request and received no response yet
  waiting : Bool

inductive Outcome where
  -- what is returned to `vnodeProcessShellSubmitRequest`
  | returned (code numOfPoints : Int)
  -- what `vnodeImportData` returns
  | imported (code importedRows : Int)
  | deferred

inductive Firing where
  | deleted
  | busy
  | imported (code importedRows : Int)

inductive Event where
  -- `stale` is what `numOfTotalPoints` holds before it is set
  | request (isImport : Bool) (numOfSid check stale : Int)
  | block (outcome : Outcome)
  | timer (i : Nat) (firing : Firing)

section

variable (shell : Shell)

/-- `vnodeSendShellSubmitRspMsg`. -/
def Shell.send (code numOfPoints : Int) : Shell :=
  { shell with responses := shell.responses ++ [⟨code, numOfPoints⟩], waiting := false }

def Shell.note (request : Nat) (code numOfPoints : Int) : Shell :=
  { shell with
    ledger := update shell.ledger request
      { shell.ledger request with
        finished := (shell.ledger request).finished ++ [(code, numOfPoints)] } }

def Shell.last : Nat := shell.requests - 1

def Shell.next (submit : Submit) : Shell :=
  { shell with
    submit := if submit.more = 0 then none else some { submit with more := submit.more - 1 } }

def countDown : Shell :=
  let shell := { shell with pShell := { shell.pShell with count := shell.pShell.count - 1 } }
  if shell.pShell.count ≤ 0 then shell.send shell.pShell.code shell.pShell.numOfTotalPoints
  else shell

end

/-- `pShell` gets the code and the rows of an import. -/
def addImport (code importedRows : Int) (shell : Shell) : Shell :=
  { shell with
    pShell := { shell.pShell with
      code := code
      numOfTotalPoints := shell.pShell.numOfTotalPoints + importedRows } }

/-- `vnodeProcessShellSubmitRequest`, up to its loop. -/
def submitRequest (isImport : Bool) (numOfSid check stale : Int) (shell : Shell) : Shell :=
  let request := shell.requests
  let shell := { shell with
    requests := request + 1
    ledger := update shell.ledger request ⟨[], 0⟩
    waiting := true }
  if numOfSid ≤ 0 then
    (shell.note request tsdbCodeInvalidQueryMsg 0).send tsdbCodeInvalidQueryMsg stale
  else if check ≠ 0 then (shell.note request check 0).send check stale
  else
    { shell with
      pShell := ⟨numOfSid, 0, 0⟩
      submit := some ⟨isImport, numOfSid.toNat - 1, 0⟩ }

def insertBlock (outcome : Outcome) (submit : Submit) (shell : Shell) : Shell :=
  match outcome with
  | .returned code numOfPoints =>
    let shell := shell.note shell.last code numOfPoints
    if code ≠ 0 then ({ shell with submit := none }).send code submit.numOfTotalPoints
    else
      let submit := { submit with numOfTotalPoints := submit.numOfTotalPoints + numOfPoints }
      if submit.more = 0 then (shell.next submit).send 0 submit.numOfTotalPoints
      else shell.next submit
  | _ => shell

def importBlock (outcome : Outcome) (submit : Submit) (shell : Shell) : Shell :=
  match outcome with
  | .returned code numOfPoints =>
    if code ≠ 0 then
      ({ shell.note shell.last code numOfPoints with submit := none }).send code
        submit.numOfTotalPoints
    else shell
  | .imported code importedRows =>
    countDown (addImport code importedRows ((shell.note shell.last code importedRows).next submit))
  | .deferred =>
    { shell.next submit with
      timers := shell.timers ++ [⟨shell.last, 0⟩]
      ledger := update shell.ledger shell.last
        { shell.ledger shell.last with deferred := (shell.ledger shell.last).deferred + 1 } }

def finishImport (i : Nat) (request : Nat) (code importedRows : Int) (shell : Shell) : Shell :=
  let noted := shell.note request code importedRows
  countDown { noted with
    timers := shell.timers.eraseIdx i
    ledger := update noted.ledger request
      { noted.ledger request with deferred := (noted.ledger request).deferred - 1 } }

def processImportTimer (i : Nat) (firing : Firing) (shell : Shell) : Shell :=
  match shell.timers[i]? with
  | none => shell
  | some pImport =>
    match firing with
    | .deleted => { shell with timers := shell.timers.eraseIdx i }
    | .busy =>
      if pImport.retry + 1 < 1000 then
        { shell with timers := shell.timers.set i { pImport with retry := pImport.retry + 1 } }
      else
        finishImport i pImport.request tsdbCodeTooSlow 0
          { shell with pShell := { shell.pShell with code := tsdbCodeTooSlow } }
    | .imported code importedRows =>
      finishImport i pImport.request code importedRows (addImport code importedRows shell)

def step (shell : Shell) : Event -> Shell
  | .request isImport numOfSid check stale =>
    if shell.waiting ∨ shell.submit ≠ none then shell
    else submitRequest isImport numOfSid check stale shell
  | .block outcome =>
    match shell.submit with
    | none => shell
    | some submit =>
      if submit.isImport then importBlock outcome submit shell
      else insertBlock outcome submit shell
  | .timer i firing => processImportTimer i firing shell

def newShell : Shell := ⟨⟨0, 0, 0⟩, none, [], 0, fun _ => ⟨[], 0⟩, [], false⟩

def run (shell : Shell) (events : List Event) : Shell := events.foldl step shell

/-- A response is the one to a request: all blocks are finished, and the code and the points are
those of the blocks. -/
structure Answers (ledger : Ledger) (response : Response) : Prop where
  finished : ledger.deferred = 0
  code : ∃ block ∈ ledger.finished, block.1 = response.code
  success : response.code = 0 ↔ ∀ block ∈ ledger.finished, block.1 = 0
  numOfPoints : response.numOfPoints = (ledger.finished.map (·.2)).sum

structure OneResponseEach (shell : Shell) : Prop where
  atMost : shell.responses.length ≤ shell.requests
  own : ∀ k response, shell.responses[k]? = some response ->
    Answers (shell.ledger k) response ∧ (shell.submit = none ∨ k ≠ shell.last)
  all : shell.submit = none -> shell.timers = [] -> shell.responses.length = shell.requests

end Luomi.Vnode.SubmitResponse
