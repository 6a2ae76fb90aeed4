import Mathlib.Data.List.Basic
import Mathlib.Tactic

/-!
# Sub-queries of a super table query

`tscLaunchMetricSubQueries` sends one sub-query to each vnode; the callbacks
`tscRetrieveDataRes`, `tscRetrieveFromVnodeCallBack` and
`tscHandleSubRetrievalError` run on any thread and share a completion counter, a
status code and the parent's code.  An action is one atomic operation of the launch
loop or of a callback, an answer from a vnode, or something the user does.
-/

namespace Luomi.Client.SubQueries

def queryCancelled : Int := 83
def outOfMemory : Int := 81
def noDiskspace : Int := 86

/-- `MAX_NUM_OF_SUBQUERY_RETRY`. -/
def maxNumOfRetry : Nat := 3

/-- `nBufferSize` of `tscLaunchMetricSubQueries`. -/
def nBufferSize : Nat := 65536

variable {Row : Type}

/-- Where a sub-query is: what it waits for, or the operation it does next. -/
inductive Phase (Row : Type) where
  | idle
  /-- The query is sent; `tscRetrieveDataRes` is called with the answer. -/
  | querying
  | dataRes (retCode : Int)
  | dataResShared (retCode : Int)
  | retryQuery (retCode : Int)
  | queried
  /-- More rows are asked for; `tscRetrieveFromVnodeCallBack` is called with them. -/
  | fetching
  | callback (numOfRows : Int) (rows : List Row)
  | callbackParent (numOfRows : Int) (rows : List Row)
  | storing (rows : List Row)
  | flushing
  | aborting
  /-- `tscHandleSubRetrievalError`. -/
  | handling (numOfRows : Int)
  | spreading (numOfRows : Int)
  | deciding (numOfRows : Int)
  | setting (numOfRows : Int)
  | countingFailed
  | countingDelivered
  | failing
  | merging
  | calling (delivered : Bool)
  | finished (delivered : Bool)

/-- `SRetrieveSupport`, its external buffer and its local page; every row is kept
with the attempt it came with.  `sent` and `ended` record what the vnode has
answered in the present attempt. -/
structure SubQuery (Row : Type) where
  phase : Phase Row
  numOfRetry : Nat
  attempt : Nat
  extMemBuffer : List (Nat × Row)
  localBuffer : List (Nat × Row)
  sent : List Row
  ended : Bool

def SubQuery.idle : SubQuery Row :=
  { phase := .idle, numOfRetry := 0, attempt := 0, extMemBuffer := [], localBuffer := []
    sent := [], ended := false }

/-- The launch loop: running, about to set the counter after a cancellation, left. -/
inductive Launch where
  | running
  | cancelling
  | over
  deriving DecidableEq

structure State (Row : Type) where
  numOfVnodes : Nat
  /-- The parent has no callback of its own. -/
  sync : Bool
  launch : Launch
  launched : Nat
  parentCode : Int
  numOfFinished : Int
  code : Int
  subs : Nat -> SubQuery Row
  sharedFrees : Nat
  envReleases : List Nat
  /-- The rows the local reducer was made of. -/
  merged : Option (Nat -> List (Nat × Row))
  reducerHoldsEnv : Bool
  completions : List Int

def init (numOfVnodes : Nat) (sync : Bool) : State Row :=
  { numOfVnodes := numOfVnodes, sync := sync, launch := .running, launched := 0
    parentCode := 0, numOfFinished := 0, code := 0, subs := fun _ => SubQuery.idle
    sharedFrees := 0, envReleases := [], merged := none, reducerHoldsEnv := false
    completions := [] }

def State.put (s : State Row) (j : Nat) (sub : SubQuery Row) : State Row :=
  { s with subs := Function.update s.subs j sub }

def State.goto (s : State Row) (j : Nat) (phase : Phase Row) : State Row :=
  s.put j { s.subs j with phase := phase }

/-- `__sync_val_compare_and_swap_32(code, 0, value)`. -/
def compareAndSwap (code value : Int) : Int :=
  if code = 0 then value else code

/-- One turn of the loop of `tscLaunchMetricSubQueries`. -/
def launchStep (s : State Row) : Option (State Row) :=
  match s.launch with
  | .running =>
    if s.launched < s.numOfVnodes then
      if s.parentCode = queryCancelled ∨ s.parentCode = outOfMemory then
        some { s with launch := .cancelling }
      else some { s.goto s.launched .querying with launched := s.launched + 1 }
    else some { s with launch := .over }
  | .cancelling =>
    let s := { s with numOfFinished := (s.numOfVnodes : Int) - s.launched, launch := .over }
    if s.launched = 0 then
      some
        { s with
          envReleases := s.envReleases ++ [nBufferSize]
          sharedFrees := s.sharedFrees + 1 }
    else some s
  | .over => none

/-- A new `SSqlObj` in place of the old one: the vnode is asked from the start. -/
def SubQuery.again (sub : SubQuery Row) : SubQuery Row :=
  { sub with
    phase := .querying
    numOfRetry := sub.numOfRetry + 1
    attempt := sub.attempt + 1
    sent := []
    ended := false }

/-- The next operation of a callback; `diskFull` says how a write to disk ends. -/
def advance (s : State Row) (j : Nat) (diskFull : Bool) : Option (State Row) :=
  let sub := s.subs j
  match sub.phase with
  | .dataRes retCode =>
    if s.parentCode ≠ 0 then
      some (s.put j { sub with numOfRetry := maxNumOfRetry, phase := .retryQuery (-s.parentCode) })
    else some (s.goto j (.dataResShared retCode))
  | .dataResShared retCode =>
    if s.code ≠ 0 then
      some (s.put j { sub with numOfRetry := maxNumOfRetry, phase := .retryQuery s.code })
    else if retCode ≠ 0 then some (s.goto j (.retryQuery retCode))
    else some (s.goto j .queried)
  | .retryQuery retCode =>
    if maxNumOfRetry ≤ sub.numOfRetry then
      some
        { s.put j { sub with numOfRetry := sub.numOfRetry + 1, phase := .queried } with
          code := compareAndSwap s.code retCode }
    else some (s.put j sub.again)
  | .queried =>
    if s.code ≠ 0 then some (s.goto j (.callback s.code []))
    else some (s.goto j .fetching)
  | .callback numOfRows rows =>
    if numOfRows < 0 ∨ s.code < 0 then some (s.goto j (.handling numOfRows))
    else some (s.goto j (.callbackParent numOfRows rows))
  | .callbackParent numOfRows rows =>
    if s.parentCode ≠ 0 then some (s.goto j (.handling numOfRows))
    else if 0 < numOfRows then some (s.goto j (.storing rows))
    else some (s.goto j .flushing)
  | .storing rows =>
    if diskFull then some (s.goto j .aborting)
    else some (s.put j { sub with
        localBuffer := sub.localBuffer ++ rows.map (sub.attempt, ·)
        phase := .fetching })
  | .flushing =>
    if diskFull then some (s.goto j .aborting)
    else some (s.put j { sub with
        extMemBuffer := sub.extMemBuffer ++ sub.localBuffer
        localBuffer := []
        phase := .countingDelivered })
  | .aborting =>
    some
      { s.put j { sub with numOfRetry := maxNumOfRetry, phase := .callback (-noDiskspace) [] }
        with code := -noDiskspace }
  | .handling numOfRows =>
    if s.code = 0 ∧ s.parentCode ≠ 0 then some (s.goto j (.spreading numOfRows))
    else some (s.goto j (.deciding numOfRows))
  | .spreading numOfRows =>
    some
      { s.put j { sub with numOfRetry := maxNumOfRetry, phase := .deciding numOfRows } with
        code := -s.parentCode }
  | .deciding numOfRows =>
    if 0 ≤ numOfRows then some (s.goto j .countingFailed)
    else if sub.numOfRetry < maxNumOfRetry ∧ s.code = 0 then
      some (s.put j { sub with extMemBuffer := [], localBuffer := [] }.again)
    else
      some (s.put j { sub with numOfRetry := sub.numOfRetry + 1, phase := .setting numOfRows })
  | .setting numOfRows =>
    some { s.goto j .countingFailed with code := compareAndSwap s.code numOfRows }
  | .countingFailed =>
    let counted := { s with numOfFinished := s.numOfFinished + 1 }
    if counted.numOfFinished < (s.numOfVnodes : Int) then some (counted.goto j (.finished false))
    else some (counted.goto j .failing)
  | .countingDelivered =>
    let counted := { s with numOfFinished := s.numOfFinished + 1 }
    if counted.numOfFinished < (s.numOfVnodes : Int) then some (counted.goto j (.finished true))
    else some (counted.goto j .merging)
  | .failing =>
    some
      { s.goto j (.calling false) with
        parentCode := -s.code
        envReleases := s.envReleases ++ [s.numOfVnodes]
        sharedFrees := s.sharedFrees + 1 }
  | .merging =>
    -- without any flushed rows `tscCreateLocalReducer` releases the buffers itself
    let rows := fun k => (s.subs k).extMemBuffer
    let s := { s with merged := some rows, sharedFrees := s.sharedFrees + 1 }
    if (List.range s.numOfVnodes).all fun k => (rows k).isEmpty then
      some { s.goto j (.calling true) with envReleases := s.envReleases ++ [s.numOfVnodes] }
    else some { s.goto j (.calling true) with reducerHoldsEnv := true }
  | .calling delivered =>
    -- an asynchronous parent without an error code is not called from the error path
    if delivered = false ∧ s.sync = false ∧ s.parentCode = 0 then
      some (s.goto j (.finished false))
    else
      some
        { s.goto j (.finished delivered) with
          completions := s.completions ++ [s.parentCode] }
  | _ => none

inductive Action (Row : Type) where
  | launch
  | advance (j : Nat) (diskFull : Bool)
  /-- The answer to a query, or an error while it was sent. -/
  | answer (j : Nat) (retCode : Int)
  /-- The next rows of a vnode; none when there are no more. -/
  | fetched (j : Nat) (rows : List Row)
  | fetchFailed (j : Nat) (retCode : Int)
  /-- The user stops the query. -/
  | cancel
  /-- The user frees the result, and the local reducer with it. -/
  | freeResult

def step (s : State Row) : Action Row -> Option (State Row)
  | .launch => launchStep s
  | .advance j diskFull => advance s j diskFull
  | .answer j retCode =>
    match (s.subs j).phase with
    | .querying => if retCode ≤ 0 then some (s.goto j (.dataRes retCode)) else none
    | _ => none
  | .fetched j rows =>
    match (s.subs j).phase with
    | .fetching =>
      some (s.put j { s.subs j with
          sent := (s.subs j).sent ++ rows
          ended := rows.isEmpty
          phase := .callback rows.length rows })
    | _ => none
  | .fetchFailed j retCode =>
    match (s.subs j).phase with
    | .fetching => if retCode < 0 then some (s.goto j (.callback retCode [])) else none
    | _ => none
  | .cancel => some { s with parentCode := queryCancelled }
  | .freeResult =>
    if s.reducerHoldsEnv ∧ s.completions ≠ [] then
      some { s with reducerHoldsEnv := false, envReleases := s.envReleases ++ [s.numOfVnodes] }
    else none

def run (s : State Row) (actions : List (Action Row)) : Option (State Row) :=
  actions.foldlM step s

end Luomi.Client.SubQueries
