import Mathlib.Data.BitVec
import Mathlib.Logic.Function.Basic

/-!
# The state of a meter (`vnodeUtil.c`)

Insert, import, deferred import, schema update, query and drop work on one meter, each in
its own thread or timer.  A turn of one of them runs to its next access to the state of the
meter, to `numOfQueries` or to `commitInProcess`; what it does in between is one turn.

The rows, the schema and the shell are left out, and a deferred import finds the memory of a
freed meter as it was left.  What a turn finds there (whether an import
is newer than the meter, whether its checks fail, whether the cache is committed, whether a
timer starts) comes from outside.
-/

namespace Luomi.Vnode.MeterState

def stateReady : BitVec 32 := 0x00

def stateInsert : BitVec 32 := 0x01

def stateImporting : BitVec 32 := 0x02

def stateUpdating : BitVec 32 := 0x04

def stateDeleting : BitVec 32 := 0x10

def stateDeleted : BitVec 32 := 0x18

/-- `vnodeSetMeterState`: the state after it; it returns the old one. -/
def vnodeSetMeterState (old state : BitVec 32) : BitVec 32 := if old = stateReady then state else
    old

def vnodeClearMeterState (old state : BitVec 32) : BitVec 32 := old &&& ~~~state

def vnodeIsMeterState (old state : BitVec 32) : Bool :=
  if state = stateReady then old = stateReady
  else if state = stateDeleting then state.sle old
  else old &&& state = state

def vnodeSetMeterDeleting (old : BitVec 32) : BitVec 32 := old ||| stateDeleting

/-- The place of a thread or timer; `state` and `num` are what it read. -/
inductive Place where
  | idle
  -- an insert has set its state
  | inserting
  -- an import of the shell has set its state; it has read `numOfQueries`; it imports
  | imported
  | importCounted (num : Nat)
  | importing
  | importOver
  -- an import of newer rows has cleared its state, and inserts
  | switching
  | insertingNewer
  | newerOver
  -- a deferred import
  | deferred (retry : Nat)
  | timerSet (retry : Nat) (state : BitVec 32)
  | timerCounted (retry : Nat) (state : BitVec 32) (num : Nat)
  | timerFailed (retry : Nat) (state : BitVec 32)
  | timerGivenUp
  | timerImporting
  | timerOver
  -- a schema update, and the commit it waits for
  | updatePending
  | updateSet (state : BitVec 32)
  | updateCounted (state : BitVec 32) (num : Nat)
  | uncommitted
  | updateCleared
  | updateOver
  | updating
  | schemaTimer
  | committing
  -- a query has passed the check of the state, and has the lock; it is running
  | queryPassed
  | querying
  -- a drop
  | dropMarking
  | dropSet
  | dropSafe
  | dropDeleted
  deriving DecidableEq

structure System where
  state : BitVec 32
  numOfQueries : Nat
  commitInProcess : Bool
  -- the thread that holds `vmutex` over more than one turn
  vmutex : Option Nat
  freed : Bool
  place : Nat -> Place

inductive Operation where
  | insert | importPoints | createMeter | query | drop | commit
  deriving DecidableEq

structure Outside where
  operation : Operation
  refused : Bool
  newer : Bool
  committed : Bool
  started : Bool
  timer : Nat

def System.goto (system : System) (a : Nat) (place : Place) : System :=
  { system with place := Function.update system.place a place }

def System.set (system : System) (state : BitVec 32) : System :=
  { system with state := vnodeSetMeterState system.state state }

def System.clear (system : System) (state : BitVec 32) : System :=
  { system with state := vnodeClearMeterState system.state state }

/-- `numOfQueries` is read under the lock. -/
def System.counted (system : System) (a : Nat) (next : Nat -> Place) : System :=
  if system.vmutex = none then system.goto a (next system.numOfQueries) else system

def begin (a : Nat) (operation : Operation) (system : System) : System :=
  if system.freed then system
  else match operation with
  -- `vnodeProcessShellSubmitRequest`
  | .insert =>
    if system.state = stateReady then (system.set stateInsert).goto a .inserting
    else system.set stateInsert
  | .importPoints =>
    if system.state = stateReady then (system.set stateImporting).goto a .imported
    else system.set stateImporting
  -- `vnodeCreateMeterObj`
  | .createMeter =>
    if vnodeIsMeterState system.state stateUpdating then system else system.goto a .updatePending
  -- `vnodeIncQueryRefCount`
  | .query =>
    if system.vmutex = none then
      if stateInsert.slt system.state then system
      else { system.goto a .queryPassed with vmutex := some a }
    else system
  -- `vnodeIsSafeToDeleteMeter`
  | .drop =>
    if vnodeIsMeterState system.state stateDeleted then system.goto a .dropSafe
    else
      let prev := system.state
      if prev ≠ stateReady ∧ prev.slt stateDeleting then (system.set stateDeleting).goto a .dropMarking
      else (system.set stateDeleting).goto a .dropSet
  -- `vnodeProcessCommitTimer`
  | .commit =>
    if system.commitInProcess then system
    else { system.goto a .committing with commitInProcess := true }

/-- A turn of an import in `vnodeImportPoints`. -/
def importTurn (a : Nat) (outside : Outside) (system : System) : System :=
  if outside.refused then system.goto a .importOver
  else if outside.newer then (system.clear stateImporting).goto a .switching
  else system.counted a .importCounted

/-- A turn of `vnodeProcessImportTimer`, at its begin. -/
def importTimer (a retry : Nat) (system : System) : System :=
  if stateDeleting.sle system.state then (system.set stateImporting).goto a .idle
  else (system.set stateImporting).goto a (.timerSet (retry + 1) system.state)

/-- A turn of `vnodeUpdateMeter`, at its begin. -/
def updateMeter (a : Nat) (system : System) : System :=
  if system.freed ∨ vnodeIsMeterState system.state stateDeleting then system.goto a .idle
  else (system.set stateUpdating).goto a (.updateSet system.state)

def turn (a : Nat) (outside : Outside) (system : System) : System :=
  if outside.timer = a ∨ system.place outside.timer ≠ .idle then system
  else
    match system.place a with
    | .idle => begin a outside.operation system
    | .inserting => (system.clear stateInsert).goto a .idle
    | .imported => importTurn a outside system
    | .importCounted num =>
      if system.commitInProcess ∨ 0 < num then
        (system.goto a .importOver).goto outside.timer (.deferred 0)
      else { system.goto a .importing with commitInProcess := true }
    | .importing => { system.goto a .importOver with commitInProcess := false }
    | .importOver => (system.clear stateImporting).goto a .idle
    -- what `vnodeSetMeterState` returns is not looked at
    | .switching => (system.set stateInsert).goto a .insertingNewer
    | .insertingNewer => (system.clear stateInsert).goto a .newerOver
    | .newerOver => (system.clear stateImporting).goto a .idle
    | .deferred retry => importTimer a retry system
    | .timerSet retry state => system.counted a (.timerCounted retry state)
    | .timerCounted retry state num =>
      if system.commitInProcess ∨ 0 < num ∨ state ≠ stateReady then
        system.goto a (.timerFailed retry state)
      else { system.goto a .timerImporting with commitInProcess := true }
    | .timerFailed retry _ =>
      if retry < 1000 then (system.clear stateImporting).goto a (.deferred retry)
      else (system.clear stateImporting).goto a .timerGivenUp
    | .timerGivenUp => (system.clear stateImporting).goto a .idle
    | .timerImporting => { system.goto a .timerOver with commitInProcess := false }
    | .timerOver => (system.clear stateImporting).goto a .idle
    | .updatePending => updateMeter a system
    | .updateSet state => system.counted a (.updateCounted state)
    | .updateCounted state num =>
      if 0 < num ∨ state ≠ stateReady then
        system.goto a (if outside.started then .updatePending else .idle)
      else if outside.committed then system.goto a .updating
      else if outside.started then (system.goto a .uncommitted).goto outside.timer .schemaTimer
      else system.goto a .updateOver
    | .uncommitted =>
      if outside.started then (system.goto a .updateOver).goto outside.timer .updatePending
      else (system.clear stateUpdating).goto a .updateCleared
    | .updateCleared => (system.clear stateUpdating).goto a .idle
    | .updateOver => (system.clear stateUpdating).goto a .idle
    | .updating => (system.clear stateUpdating).goto a .idle
    -- `vnodeProcessUpdateSchemaTimer`
    | .schemaTimer =>
      if system.commitInProcess then
        if outside.started then system else (system.clear stateUpdating).goto a .idle
      else { system.goto a .committing with commitInProcess := true }
    | .committing => { system.goto a .idle with commitInProcess := false }
    | .queryPassed =>
      { system.goto a .querying with numOfQueries := system.numOfQueries + 1, vmutex := none }
    -- `vnodeDecQueryRefCount`
    | .querying => { system.goto a .idle with numOfQueries := system.numOfQueries - 1 }
    | .dropMarking =>
      { system.goto a .idle with state := vnodeSetMeterDeleting system.state }
    | .dropSet => system.counted a fun num => if 0 < num then .idle else .dropSafe
    -- `vnodeRemoveMeterObj`
    | .dropSafe => { system.goto a .dropDeleted with state := stateDeleted }
    | .dropDeleted => { system.goto a .idle with freed := true }

def newSystem : System := ⟨stateReady, 0, false, none, false, fun _ => .idle⟩

def run (system : System) (turns : List (Nat × Outside)) : System :=
  turns.foldl (fun system each => turn each.1 each.2 system) system

def Critical (place : Place) : Prop :=
  place = .inserting ∨ place = .insertingNewer ∨ place = .importing ∨ place = .timerImporting ∨
    place = .updating

def Rewriting (place : Place) : Prop :=
  place = .importing ∨ place = .timerImporting ∨ place = .updating

structure Exclusive (system : System) : Prop where
  alone : ∀ a b, Critical (system.place a) -> Critical (system.place b) -> a = b
  unqueried : ∀ a b, Rewriting (system.place a) -> system.place b ≠ .querying
  freed : system.freed = true ->
    ∀ a, ¬ Critical (system.place a) ∧ system.place a ≠ .querying

end Luomi.Vnode.MeterState
