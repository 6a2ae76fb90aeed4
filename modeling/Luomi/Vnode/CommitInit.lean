import Luomi.Vnode.CommitLog

/-!
# Starting with logs that cannot be read (`vnodeInitCommit`)

The replay of a log says -1 for an error, but its result is a `size_t`, and the test for a
negative size never holds.  The error goes on as a length: the old log is committed and
removed, and the write pointer of the new log is moved by it.
-/

namespace Luomi.Vnode.CommitInit

open LittleEndian
open List (append_nil cons_append mem_append mem_cons_self mem_singleton nil_append)
open CommitLog hiding vnodeRestoreDataFromLog vnodeOpenCommitLog vnodeInitCommit

inductive Log where
  | dotOlog
  | dotLog
  deriving DecidableEq

/-- A log as the calls of the system find it; a read at a broken offset fails. -/
inductive LogFile where
  | missing
  | unopenable
  | bytes (content : Bytes) (broken : Nat -> Bool)

structure LogOnDisk where
  file : LogFile
  memory : Bool
  renames : Bool

/-- How `vnodeOpenCommitLog` ends: `open` fails, or the file cannot be allocated or mapped and
is removed, or the log is there. -/
inductive Opening where
  | refused
  | unusable
  | opened
  deriving DecidableEq

structure SVnodeObj where
  maxSessions : Int
  commitLog : Bool
  meterList : Option (Nat -> Option SMeterObj)

/-- What the start meets: whether a commit is in process once the old log is replayed, the log,
which a commit may have renewed, and the version of the vnode in the end. -/
structure Surroundings where
  olog : LogOnDisk
  commitInProcess : Bool
  log : Bool -> LogOnDisk
  version : BitVec 64
  opening : Opening

/-- `-1` as a `size_t`. -/
def errorSize : BitVec 64 := BitVec.ofInt 64 (-1)

/-- What a replay leaves: its result, whether it took the error exit, the version it has read and
the functions it has called. -/
structure Restored where
  size : BitVec 64
  failed : Bool
  firstV : BitVec 64
  actions : List Action

def readVersion (firstV : BitVec 64) (content : Bytes) : BitVec 64 :=
  wordOf 64 (content.take 8 ++ (leBytes 8 firstV.toNat).drop content.length)

section Replay

variable (stale : Bytes -> Bytes)

def ReadsContent (maxSessions : Int) (rest : Bytes) : Prop :=
  rest ≠ [] ∧ checked (headOf (rest.take sizeofCommitHead ++ stale rest)) = true ∧
    ¬outOfRange maxSessions (headOf (rest.take sizeofCommitHead ++ stale rest)) ∧
      0 < (headOf (rest.take sizeofCommitHead ++ stale rest)).contLen.toInt

instance (maxSessions : Int) (rest : Bytes) : Decidable (ReadsContent stale maxSessions rest) :=
  inferInstanceAs (Decidable (_ ∧ _))

def restoreLoop (maxSessions : Int) (meterList : Nat -> Option SMeterObj) (broken : Nat -> Bool) :
    Nat -> Nat -> Bytes -> Restore -> Option (Bool × Restore)
  | 0, _, _, _ => none
  | fuel + 1, offset, rest, restore =>
    if broken offset then some (true, restore)
    else if ReadsContent stale maxSessions rest ∧ broken (offset + sizeofCommitHead) then
      some (true, restore)
    else
      match readRecord stale maxSessions rest with
      | none => some (false, restore)
      | some (found, size) => do
          let restore <- advance meterList (some restore) found size
          restoreLoop maxSessions meterList broken fuel (offset + size) (rest.drop size) restore

/-- `vnodeRestoreDataFromLog`; `none` once a function outside the table is called. -/
def vnodeRestoreDataFromLog (vnode : SVnodeObj) (log : LogOnDisk) (firstV : BitVec 64) :
    Option Restored :=
  match vnode.meterList, log.file with
  | none, _ => some ⟨0, false, firstV, []⟩
  | some _, .missing => some ⟨0, false, firstV, []⟩
  | some _, .unopenable => some ⟨errorSize, true, firstV, []⟩
  | some meterList, .bytes content broken =>
    if content = [] ∨ broken 0 then some ⟨errorSize, true, firstV, []⟩
    else if !log.memory then some ⟨errorSize, true, readVersion firstV content, []⟩
    else do
      let (failed, restore) <- restoreLoop stale vnode.maxSessions meterList broken
        (content.length + 1) 8 (content.drop 8) ⟨0, []⟩
      return ⟨if failed then errorSize else BitVec.ofInt 64 restore.totalLen, failed,
        readVersion firstV content, restore.actions⟩

/-- What is done, in order.  A log is removed where there is one under the name. -/
inductive Effect where
  | failed (log : Log)
  | committed
  | removed (log : Log)
  | opened (firstV : BitVec 64) (pWrite : BitVec 64)
  deriving DecidableEq

def failure (log : Log) (restored : Restored) : List Effect :=
  if restored.failed then [.failed log] else []

/-- The old log is committed and removed; an error has renamed it if it could. -/
def finishOld (around : Surroundings) (old : Restored) : List Effect :=
  if 0 < old.size then
    (if around.commitInProcess then [] else [.committed]) ++
      if old.failed ∧ around.olog.renames then [] else [.removed .dotOlog]
  else []

/-- `vnodeOpenCommitLog` behind the replay of both logs, with the write pointer as an offset in
the mapping. -/
def openNew (around : Surroundings) (new : Restored) : Int × List Effect :=
  match around.opening with
  | .refused => (-1, [])
  | .unusable => (-1, [.removed .dotLog])
  | .opened => (0, [.opened (if new.size = 0 then around.version else new.firstV) (8 + new.size)])

def vnodeInitCommit (vnode : SVnodeObj) (around : Surroundings) : Option (Int × List Effect) := do
  let old <- vnodeRestoreDataFromLog stale vnode around.olog 0
  let effects := failure .dotOlog old
  if old.size < 0 then return (-1, effects)
  else
    let effects := effects ++ finishOld around old
    let new <- vnodeRestoreDataFromLog stale vnode
      (around.log (0 < old.size ∧ around.commitInProcess = false)) old.firstV
    let effects := effects ++ failure .dotLog new
    if new.size < 0 then return (-1, effects)
    else if vnode.commitLog = false then return (0, effects)
    else
      let (code, last) := openNew around new
      return (code, effects ++ last)

/-- Behind an error the start fails and does nothing that a log could miss. -/
def Stops (code : Int) (effects : List Effect) : Prop :=
  ∀ before log after, effects = before ++ .failed log :: after ->
    code < 0 ∧ .committed ∉ after ∧ (∀ other, .removed other ∉ after) ∧
      ∀ firstV pWrite, .opened firstV pWrite ∈ after -> log = .dotLog -> pWrite = 8

/-- The new log cannot even be opened, and where it was the old one that failed, a commit is in
process and the old log was renamed. -/
def Harmless (vnode : SVnodeObj) (around : Surroundings) : Prop :=
  vnode.commitLog = true ∧ around.opening = .refused ∧
    ∀ old, vnodeRestoreDataFromLog stale vnode around.olog 0 = some old -> old.failed = true ->
      around.commitInProcess = true ∧ around.olog.renames = true

variable {stale : Bytes -> Bytes} {vnode : SVnodeObj} {around : Surroundings} {code : Int}
  {effects : List Effect}
  {restored : Restored}

variable {firstV : BitVec 64}

theorem failed_size {log : LogOnDisk}
    (run : vnodeRestoreDataFromLog stale vnode log firstV = some restored)
    (failed : restored.failed = true) : restored.size = errorSize := by
  unfold vnodeRestoreDataFromLog at run
  split at run
  · cases run
    cases failed
  · cases run
    cases failed
  · cases run
    rfl
  · split at run
    · cases run
      rfl
    · split at run
      · cases run
        rfl
      · obtain ⟨⟨hasFailed, restore⟩, -, result⟩ := Option.bind_eq_some_iff.mp run
        cases result
        exact if_pos failed

theorem size_not_negative (size : BitVec 64) : ¬size < 0 := by
  rw [BitVec.lt_def]
  exact Nat.not_lt_zero _

variable {log other : Log}

theorem mem_failure :
    Effect.failed log ∈ failure other restored ↔ restored.failed = true ∧ log = other := by
  unfold failure
  split
  next failed => simp [failed]
  next succeeded => simp [succeeded]

variable {effect : Effect}

theorem eq_of_mem_failure (member : effect ∈ failure other restored) : effect = .failed other := by
  unfold failure at member
  split at member
  · exact mem_singleton.mp member
  · cases member

theorem failed_notMem_finishOld (log : Log) (old : Restored) :
    Effect.failed log ∉ finishOld around old := by
  unfold finishOld
  split
  · rw [mem_append, not_or]
    constructor
    · split <;> simp
    · split <;> simp
  · exact List.not_mem_nil

theorem failed_notMem_openNew (log : Log) (new : Restored) :
    Effect.failed log ∉ (openNew around new).2 := by
  unfold openNew
  split <;> simp

theorem initCommit_ends (run : vnodeInitCommit stale vnode around = some (code, effects)) :
    ∃ old new last, vnodeRestoreDataFromLog stale vnode around.olog 0 = some old ∧
      effects = failure .dotOlog old ++ finishOld around old ++ failure .dotLog new ++ last ∧
        (vnode.commitLog = false ∧ code = 0 ∧ last = [] ∨
          vnode.commitLog = true ∧ openNew around new = (code, last)) := by
  obtain ⟨old, oldRun, run⟩ := Option.bind_eq_some_iff.mp run
  rw [if_neg (size_not_negative old.size)] at run
  obtain ⟨new, newRun, run⟩ := Option.bind_eq_some_iff.mp run
  rw [if_neg (size_not_negative new.size)] at run
  cases logs : vnode.commitLog with
  | false =>
    rw [if_pos logs] at run
    cases run
    exact ⟨old, new, [], oldRun, (append_nil _).symm, Or.inl ⟨rfl, rfl, rfl⟩⟩
  | true =>
    rw [if_neg (by rw [logs]; exact Bool.noConfusion)] at run
    cases run
    exact ⟨old, new, (openNew around new).2, oldRun, rfl, Or.inr ⟨rfl, rfl⟩⟩

theorem failure_last {before after front : List Effect} (clean : ∀ log, Effect.failed log ∉ front)
    (split : front ++ failure other restored = before ++ .failed log :: after) : after = [] := by
  rcases List.append_eq_append_iff.mp split with ⟨middle, isBefore, rest⟩ | ⟨middle, isFront, rest⟩
  · unfold failure at rest
    split at rest
    · have lengths := congrArg List.length rest
      rw [List.length_singleton, List.length_append, List.length_cons] at lengths
      exact List.eq_nil_of_length_eq_zero (by omega)
    · exact absurd rest.symm (List.append_ne_nil_of_right_ne_nil _ (List.cons_ne_nil _ _))
  · cases middle with
    | nil =>
      rw [nil_append] at rest
      unfold failure at rest
      split at rest
      · exact (List.cons.inj rest).2
      · cases rest
    | cons first others =>
      rw [cons_append] at rest
      have isFirst := (List.cons.inj rest).1
      refine absurd ?_ (clean log)
      rw [isFront, isFirst]
      exact List.mem_append_right _ mem_cons_self

variable {old : Restored}

theorem mem_finishOld (member : effect ∈ finishOld around old) :
    effect = .committed ∨ effect = .removed .dotOlog := by
  unfold finishOld at member
  split at member
  · rcases mem_append.mp member with commits | removes
    · split at commits
      · cases commits
      · exact Or.inl (mem_singleton.mp commits)
    · split at removes
      · cases removes
      · exact Or.inr (mem_singleton.mp removes)
  · cases member

theorem failure_of_failed (failed : restored.failed = true) :
    failure log restored = [.failed log] := if_pos failed

theorem failure_of_succeeded (succeeded : ¬restored.failed = true) :
    failure log restored = [] := if_neg succeeded

variable {last : List Effect}

theorem first_failure {new : Restored}
    (clean : ∀ log, Effect.failed log ∉ last) (fails : ∃ log, Effect.failed log ∈
      failure .dotOlog old ++ finishOld around old ++ failure .dotLog new ++ last) :
    ∃ before log middle, failure .dotOlog old ++ finishOld around old ++ failure .dotLog new ++ last =
        before ++ .failed log :: (middle ++ last) ∧
      (old.failed = true -> ∀ effect ∈ finishOld around old, effect ∈ middle) := by
  by_cases oldFailed : old.failed = true
  · refine ⟨[], .dotOlog, finishOld around old ++ failure .dotLog new, ?_, ?_⟩
    · rw [failure_of_failed oldFailed]
      simp only [List.append_assoc, cons_append, nil_append]
    · exact fun _ effect member => List.mem_append_left _ member
  · have newFailed : new.failed = true := by
      obtain ⟨log, member⟩ := fails
      simp only [mem_append, mem_failure, failed_notMem_finishOld, clean, or_false] at member
      rcases member with ⟨wrong, -⟩ | ⟨right, -⟩
      · exact absurd wrong oldFailed
      · exact right
    refine ⟨finishOld around old, .dotLog, [], ?_, fun wrong => absurd wrong oldFailed⟩
    rw [failure_of_succeeded oldFailed, failure_of_failed newFailed]
    simp only [List.append_assoc, cons_append, nil_append]

theorem stops_iff {new : Restored}
    (isEffects : effects = failure .dotOlog old ++ finishOld around old ++ failure .dotLog new ++ last)
    (ends : vnode.commitLog = false ∧ code = 0 ∧ last = [] ∨
      vnode.commitLog = true ∧ openNew around new = (code, last))
    (fails : ∃ log, Effect.failed log ∈ effects) :
    Stops code effects ↔ vnode.commitLog = true ∧ around.opening = .refused ∧
      (old.failed = true -> finishOld around old = []) := by
  rw [isEffects] at fails ⊢
  constructor
  · intro stops
    have clean : ∀ log, Effect.failed log ∉ last := by
      intro log
      rcases ends with ⟨-, -, none'⟩ | ⟨-, isLast⟩
      · rw [none']
        exact List.not_mem_nil
      · have never := @failed_notMem_openNew around log new
        rwa [isLast] at never
    obtain ⟨before, log, middle, split, finished⟩ := first_failure clean fails
    obtain ⟨negative, notCommitted, notRemoved, -⟩ := stops before log _ split
    rcases ends with ⟨-, zero, -⟩ | ⟨logs, isLast⟩
    · omega
    · refine ⟨logs, ?_, ?_⟩
      · unfold openNew at isLast
        cases opening : around.opening with
        | refused => rfl
        | unusable =>
          rw [opening] at isLast
          cases isLast
          exact absurd (List.mem_append_right _ mem_cons_self) (notRemoved .dotLog)
        | opened =>
          rw [opening] at isLast
          cases isLast
          omega
      · intro oldFailed
        by_contra done
        obtain ⟨effect, member⟩ := List.exists_mem_of_ne_nil _ done
        have later := List.mem_append_left last (finished oldFailed effect member)
        rcases mem_finishOld member with isCommit | isRemoval
        · exact notCommitted (isCommit ▸ later)
        · exact notRemoved .dotOlog (isRemoval ▸ later)
  · rintro ⟨logs, refused, finished⟩ before log after split
    rcases ends with ⟨notLogs, -, -⟩ | ⟨-, isLast⟩
    · rw [logs] at notLogs
      cases notLogs
    · unfold openNew at isLast
      rw [refused] at isLast
      cases isLast
      rw [append_nil] at split
      have onlyFailures : ∀ effect ∈ after, ∃ other, effect = Effect.failed other := by
        by_cases oldFailed : old.failed = true
        · rw [finished oldFailed, append_nil] at split
          intro effect member
          have among : effect ∈ failure .dotOlog old ++ failure .dotLog new := by
            rw [split]
            exact List.mem_append_right _ (List.mem_cons_of_mem _ member)
          rcases mem_append.mp among with first | second
          · exact ⟨_, eq_of_mem_failure first⟩
          · exact ⟨_, eq_of_mem_failure second⟩
        · rw [failure_of_succeeded oldFailed, nil_append] at split
          rw [failure_last (fun log => failed_notMem_finishOld log old) split]
          intro effect member
          cases member
      refine ⟨by decide, ?_, ?_, ?_⟩
      · intro member
        obtain ⟨other, same⟩ := onlyFailures _ member
        cases same
      · intro removed member
        obtain ⟨other, same⟩ := onlyFailures _ member
        cases same
      · intro firstV pWrite member
        obtain ⟨other, same⟩ := onlyFailures _ member
        cases same

theorem finishOld_eq_nil_iff {log : LogOnDisk}
    (run : vnodeRestoreDataFromLog stale vnode log firstV = some old) (failed : old.failed = true) :
    finishOld around old = [] ↔ around.commitInProcess = true ∧ around.olog.renames = true := by
  have positive : 0 < old.size := by
    rw [failed_size run failed]
    decide
  unfold finishOld
  rw [if_pos positive]
  cases around.commitInProcess with
  | false => simp
  | true =>
    cases renamed : around.olog.renames with
    | false => simp
    | true => simp [failed]

/-- A start with a log that cannot be read stops only where it cannot open the new log either
and, for the old log, a commit is in process and the log was renamed. -/
theorem initCommit_stops_iff (run : vnodeInitCommit stale vnode around = some (code, effects))
    (fails : ∃ log, Effect.failed log ∈ effects) :
    Stops code effects ↔ Harmless stale vnode around := by
  obtain ⟨old, new, last, oldRun, isEffects, ends⟩ := initCommit_ends run
  rw [stops_iff isEffects ends fails]
  refine and_congr_right fun _ => and_congr_right fun _ => ?_
  constructor
  · intro finished other otherRun failed
    rw [oldRun] at otherRun
    cases otherRun
    exact (finishOld_eq_nil_iff oldRun failed).mp (finished failed)
  · intro harmless failed
    exact (finishOld_eq_nil_iff oldRun failed).mpr (harmless old oldRun failed)

def startedVnode : SVnodeObj := ⟨10, true, some fun _ => none⟩

def emptyOld (commitInProcess renames : Bool) (opening : Opening) : Surroundings where
  olog := ⟨.bytes [] fun _ => false, true, renames⟩
  commitInProcess := commitInProcess
  log := fun _ => ⟨.missing, true, true⟩
  version := 0
  opening := opening

theorem emptyOld_refused_stops : Stops (-1) [.failed .dotOlog] :=
  (@initCommit_stops_iff (fun _ => []) startedVnode (emptyOld true true .refused) (-1)
    [.failed .dotOlog] (by decide) ⟨.dotOlog, mem_cons_self⟩).mpr
      ⟨rfl, rfl, fun _ _ _ => ⟨rfl, rfl⟩⟩

/-- An empty old log is committed, and the start goes on. -/
theorem emptyOld_committed : ¬∀ (stale : Bytes -> Bytes) (vnode : SVnodeObj)
    (around : Surroundings) (code : Int) (effects : List Effect),
    vnodeInitCommit stale vnode around = some (code, effects) ->
      (∃ log, Effect.failed log ∈ effects) -> Stops code effects := by
  intro all
  have stops := all (fun _ => []) startedVnode (emptyOld false true .opened) 0
    [.failed .dotOlog, .committed, .opened 0 8] (by decide) ⟨.dotOlog, mem_cons_self⟩
  exact absurd (stops [] .dotOlog _ rfl).1 (by decide)

end Replay

end Luomi.Vnode.CommitInit
