import Luomi.Base.FreeRing

/-!
# Timers (`ttimer.c`)

A timer is a block of a pool that the controller hands out.  The handle of a timer is
the address of its block, kept by a user in a variable of its own.  A controller keeps
the timers in lists, one for each period of a turn, and every list in the order of the
turns that are left.
-/

namespace Luomi.Timer

open Function (update)

/-- `pool_t`. -/
structure Pool where
  numOfFree : Nat
  first : Nat
  numOfBlock : Nat
  freeList : Nat -> Nat

/-- `tmr_obj_t`: `prev` and `next` are its neighbours in its list; `owner` and `serial`
say who has started the timer and which one it is. -/
structure TmrObj where
  param1 : Nat
  fp : Nat
  timerId : Option Nat
  cycle : Int16
  index : Int
  pCtrl : Bool
  owner : Nat
  serial : Nat
  deriving DecidableEq

structure SSchedMsg where
  tfp : Nat
  ahandle : Nat
  thandle : Nat

/-- `tmr_ctrl_t` with what its users have. -/
structure TmrCtrl where
  resolution : Int
  numOfPeriods : Int
  periodsFromStart : Int
  tmrList : Int -> List Nat
  pool : Pool
  memory : Nat -> TmrObj
  scheduled : List SSchedMsg
  /-- The variable of a user: a block, and the timer it was filled in for. -/
  handles : Nat -> Option (Nat × Nat)
  /-- How many blocks have been handed out. -/
  started : Nat

def zeroObj : TmrObj where
  param1 := 0
  fp := 0
  timerId := none
  cycle := 0
  index := 0
  pCtrl := false
  owner := 0
  serial := 0

def tmrMemPoolInit (numOfBlock : Nat) : Pool where
  numOfFree := numOfBlock
  first := 0
  numOfBlock := numOfBlock
  freeList := fun place => place

def tmrMemPoolMalloc (pool : Pool) : Option Nat × Pool :=
  if pool.numOfFree = 0 ∨ pool.numOfBlock < pool.numOfFree then (none, pool)
  else
    (some (pool.freeList pool.first),
      { pool with
        first := (pool.first + 1) % pool.numOfBlock, numOfFree := pool.numOfFree - 1 })

def tmrMemPoolFree (ctrl : TmrCtrl) (block : Nat) : TmrCtrl :=
  if ctrl.pool.numOfBlock ≤ block then ctrl
  else
    { ctrl with
      memory := update ctrl.memory block zeroObj
      pool := { ctrl.pool with
        freeList := update ctrl.pool.freeList
          ((ctrl.pool.first + ctrl.pool.numOfFree) % ctrl.pool.numOfBlock) block
        numOfFree := ctrl.pool.numOfFree + 1 } }

def taosTmrInit (maxNumOfTmrs : Nat) (resolution longest : Int) : TmrCtrl where
  resolution := max 5 resolution
  numOfPeriods := max 10 (longest.tdiv (max 5 resolution))
  periodsFromStart := 0
  tmrList := fun _ => []
  pool := tmrMemPoolInit (maxNumOfTmrs + 10)
  memory := fun _ => zeroObj
  scheduled := []
  handles := fun _ => none
  started := 0

def unlink (ctrl : TmrCtrl) (index : Int) (block : Nat) : TmrCtrl :=
  { ctrl with
    tmrList := update ctrl.tmrList index ((ctrl.tmrList index).erase block)
    memory := update ctrl.memory block { ctrl.memory block with timerId := none } }

def insertNode (memory : Nat -> TmrObj) (cycle : Int16) (block : Nat) : List Nat -> List Nat
  | [] => [block]
  | cNode :: rest =>
    if (memory cNode).cycle < cycle then cNode :: insertNode memory cycle block rest
    else block :: cNode :: rest

section

variable (ctrl : TmrCtrl)

def arm (user fp : Nat) (period : Int) (param1 block serial : Nat) : TmrCtrl :=
  let pObj : TmrObj :=
    { param1 := param1
      fp := fp
      timerId := some block
      cycle := Int16.ofInt (period.tdiv ctrl.numOfPeriods)
      index := (period + ctrl.periodsFromStart).tmod ctrl.numOfPeriods
      pCtrl := true
      owner := user
      serial := serial }
  { ctrl with
    memory := update ctrl.memory block pObj
    tmrList := update ctrl.tmrList pObj.index
      (insertNode ctrl.memory pObj.cycle block (ctrl.tmrList pObj.index)) }

def startNew (user fp : Nat) (period : Int) (param1 : Nat) : TmrCtrl :=
  match tmrMemPoolMalloc ctrl.pool with
  | (none, pool) =>
    { ctrl with pool := pool, handles := update ctrl.handles user none }
  | (some block, pool) =>
    arm
      { ctrl with
        pool := pool
        started := ctrl.started + 1
        handles := update ctrl.handles user (some (block, ctrl.started)) }
      user fp period param1 block ctrl.started

def taosTmrStart (user fp : Nat) (mseconds : Int) (param1 : Nat) : TmrCtrl :=
  startNew ctrl user fp (mseconds.tdiv ctrl.resolution) param1

def taosTmrStopA (user : Nat) : TmrCtrl :=
  match ctrl.handles user with
  | none => ctrl
  | some (block, _) =>
    if (ctrl.memory block).pCtrl = false then ctrl
    else if (ctrl.memory block).timerId = some block then
      { tmrMemPoolFree (unlink ctrl (ctrl.memory block).index block) block with
        handles := update ctrl.handles user none }
    else ctrl

def taosTmrReset (user fp : Nat) (mseconds : Int) (param1 : Nat) : TmrCtrl :=
  let period := mseconds.tdiv ctrl.resolution
  match ctrl.handles user with
  | none => startNew ctrl user fp period param1
  | some (block, serial) =>
    if (ctrl.memory block).timerId = some block then
      arm (unlink ctrl (ctrl.memory block).index block) user fp period param1 block serial
    else startNew ctrl user fp period param1

def expire (index : Int) (header : Nat) : TmrCtrl :=
  tmrMemPoolFree
    { unlink ctrl index header with
      scheduled := ctrl.scheduled ++
        [{ tfp := (ctrl.memory header).fp
           ahandle := (ctrl.memory header).param1
           thandle := header }] }
    header

def countDown (pList : List Nat) : TmrCtrl :=
  { ctrl with
    memory := fun block =>
      if block ∈ pList then
        { ctrl.memory block with cycle := (ctrl.memory block).cycle - 1 }
      else ctrl.memory block }

end

/-- The loop of `taosTmrProcessList` on what is left of the list. -/
def expireList (index : Int) : List Nat -> TmrCtrl -> TmrCtrl
  | [], ctrl => ctrl
  | header :: rest, ctrl =>
    if 0 < (ctrl.memory header).cycle then countDown ctrl (header :: rest)
    else expireList index rest (expire ctrl index header)

def taosTmrProcessList (ctrl : TmrCtrl) : TmrCtrl :=
  let index := ctrl.periodsFromStart.tmod ctrl.numOfPeriods
  { expireList index (ctrl.tmrList index) ctrl with
    periodsFromStart := ctrl.periodsFromStart + 1 }

inductive TmrEvent where
  | start (user fp : Nat) (mseconds : Int) (param1 : Nat)
  | processList
  | stopA (user : Nat)
  | reset (user fp : Nat) (mseconds : Int) (param1 : Nat)

def timerStep (ctrl : TmrCtrl) : TmrEvent -> TmrCtrl
  | .start user fp mseconds param1 => taosTmrStart ctrl user fp mseconds param1
  | .processList => taosTmrProcessList ctrl
  | .stopA user => taosTmrStopA ctrl user
  | .reset user fp mseconds param1 => taosTmrReset ctrl user fp mseconds param1

def freeBlocks (pool : Pool) : List Nat :=
  FreeRing.window pool.numOfBlock pool.first pool.numOfFree pool.freeList

/-- Timers of a list that somebody else has started, with all that is known of them. -/
def othersIn (memory : Nat -> TmrObj) (user : Nat) (pList : List Nat) : List (Nat × TmrObj) :=
  (pList.filter fun block => (memory block).owner != user).map fun block =>
    (block, memory block)

def othersTimers (ctrl : TmrCtrl) (user : Nat) (index : Int) : List (Nat × TmrObj) :=
  othersIn ctrl.memory user (ctrl.tmrList index)

def Isolated (ctrl : TmrCtrl) : TmrEvent -> Prop
  | .stopA user =>
    ∀ index, othersTimers (taosTmrStopA ctrl user) user index = othersTimers ctrl user index
  | .reset user fp mseconds param1 =>
    ∀ index, othersTimers (taosTmrReset ctrl user fp mseconds param1) user index =
      othersTimers ctrl user index
  | _ => True

def IsolatedRun (ctrl : TmrCtrl) : List TmrEvent -> Prop
  | [] => True
  | event :: rest => Isolated ctrl event ∧ IsolatedRun (timerStep ctrl event) rest

/-- The block that a user has the address of, where a timer is pending in it, has not
been handed out again. -/
def HandleCurrent (ctrl : TmrCtrl) (user : Nat) : Prop :=
  ∀ block serial, ctrl.handles user = some (block, serial) ->
    (ctrl.memory block).timerId = some block -> (ctrl.memory block).serial = serial

def Held (ctrl : TmrCtrl) : TmrEvent -> Prop
  | .stopA user => HandleCurrent ctrl user
  | .reset user _ _ _ => HandleCurrent ctrl user
  | _ => True

def HeldRun (ctrl : TmrCtrl) : List TmrEvent -> Prop
  | [] => True
  | event :: rest => Held ctrl event ∧ HeldRun (timerStep ctrl event) rest

theorem handleCurrent_iff {ctrl : TmrCtrl} {user : Nat} :
    (∀ handle ∈ ctrl.handles user, (ctrl.memory handle.1).timerId = some handle.1 ->
      (ctrl.memory handle.1).serial = handle.2) ↔ HandleCurrent ctrl user := by
  constructor
  · exact fun current block serial filled => current (block, serial) filled
  · exact fun current handle filled => current handle.1 handle.2 filled

instance (ctrl : TmrCtrl) (user : Nat) : Decidable (HandleCurrent ctrl user) :=
  decidable_of_iff _ handleCurrent_iff

instance (ctrl : TmrCtrl) : (event : TmrEvent) -> Decidable (Held ctrl event)
  | .start _ _ _ _ => inferInstanceAs (Decidable True)
  | .processList => inferInstanceAs (Decidable True)
  | .stopA user => inferInstanceAs (Decidable (HandleCurrent ctrl user))
  | .reset user _ _ _ => inferInstanceAs (Decidable (HandleCurrent ctrl user))

instance decidableHeldRun : (ctrl : TmrCtrl) -> (events : List TmrEvent) ->
    Decidable (HeldRun ctrl events)
  | _, [] => inferInstanceAs (Decidable True)
  | ctrl, event :: rest =>
    haveI := decidableHeldRun (timerStep ctrl event) rest
    inferInstanceAs (Decidable (Held ctrl event ∧ HeldRun (timerStep ctrl event) rest))

end Luomi.Timer
