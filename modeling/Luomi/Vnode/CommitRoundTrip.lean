import Luomi.Vnode.CommitReplay

/-!
# Writing a commit log and replaying it

What is written to a fresh log comes back if and only if every record has a check
sum below 2^23, an action the table of the replay has a function for, and the
version of its meter.
-/

namespace Luomi.Vnode.CommitRoundTrip

open LittleEndian CommitLog CommitReplay

/-- The mapping of a vnode with one block of `TSDB_MIN_CACHE_BLOCK_SIZE`. -/
def minMappingSize : Nat := 100 * 3 / 2

/-- The meter of a call is in the list of the vnode and not being deleted. -/
structure MeterOf (vnode : SVnodeObj) (pObj : SMeterObj) : Prop where
  lower : 0 ≤ pObj.sid.toInt
  upper : pObj.sid.toInt < vnode.maxSessions
  listed : vnode.meterList pObj.sid.toInt.toNat = some pObj
  ready : pObj.deleting = false

/-- Calls of `vnodeWriteToCommitLog` on a fresh log that all find space. -/
structure FreshLog where
  vnode : SVnodeObj
  firstV : BitVec 64
  opened : SVnodeObj
  calls : List Call
  last : SVnodeObj
  sessions : 0 < vnode.maxSessions
  mapping : minMappingSize ≤ vnode.mappingSize
  fresh : vnodeOpenCommitLog vnode none firstV = some opened
  written : writeAll opened calls = some last
  meters : ∀ call ∈ calls, MeterOf vnode call.pObj
  actions : ∀ call ∈ calls, call.action.toInt < tsdbActionMax
  sized : ∀ call ∈ calls, Sized call.record

def Applies (action : Action) (call : Call) : Prop :=
  processOf call.action = some action.process ∧ action.sid = call.pObj.sid ∧
    action.sversion = call.sversion ∧ action.cont = call.cont

def Restored (stale : Bytes -> Bytes) (log : FreshLog) : Prop :=
  ∃ restore, vnodeRestoreDataFromLog stale log.vnode.maxSessions log.vnode.meterList
      (some log.last.pMem) = some restore ∧
    restore.totalLen = (log.calls.map fun call => recordLen call.record).sum ∧
    List.Forall₂ Applies restore.actions log.calls

/-- What a call must be like for its record to come back. -/
structure Restorable (call : Call) : Prop where
  small : ChecksOut call.record
  known : call.action.toInt = 0 ∨ call.action.toInt = 1
  version : call.sversion = call.pObj.sversion

theorem processOf_isSome_iff (action : BitVec 8) :
    (processOf action).isSome ↔ action.toInt = 0 ∨ action.toInt = 1 := by
  unfold processOf
  by_cases negative : action.toInt < 0
  · rw [if_pos negative]
    constructor
    · exact fun isSome => by cases isSome
    · omega
  · rw [if_neg negative, isSome_getElem?]
    show action.toInt.toNat < 2 ↔ _
    omega

section Replay

variable {stale : Bytes -> Bytes} {maxSessions : Int} {meterList : Nat -> Option SMeterObj}

def Accepted (call : Call) : Prop :=
  ChecksOut call.record ∧ (processOf call.action).isSome

structure Proper (maxSessions : Int) (meterList : Nat -> Option SMeterObj) (record : Record) :
    Prop where
  sized : Sized record
  inRange : InRange maxSessions record
  live : Live meterList record.sid

theorem replay_accepted (calls : List Call) : ∀ (restore : Restore) (rest : Bytes),
      (∀ call ∈ calls, Proper maxSessions meterList call.record) ->
      (∀ call ∈ calls, Accepted call) ->
      ∃ actions, List.Forall₂ (fun action call => processOf call.action = some action.process ∧
          action = actionOf action.process call.record) actions calls ∧
        replay stale maxSessions meterList ((calls.map Call.record).flatMap recordBytes ++ rest)
            (some restore) =
          replay stale maxSessions meterList rest
            (some ⟨restore.totalLen + (calls.map fun call => recordLen call.record).sum,
              restore.actions ++ actions⟩) := by
  induction calls with
  | nil =>
    intro restore rest _ _
    exact ⟨[], List.Forall₂.nil, by simp⟩
  | cons call calls ih =>
    intro restore rest proper accepted
    obtain ⟨sized, inRange, live⟩ := proper call List.mem_cons_self
    obtain ⟨small, known⟩ := accepted call List.mem_cons_self
    obtain ⟨process, isProcess⟩ := Option.isSome_iff_exists.mp known
    obtain ⟨actions, same, replayed⟩ := ih (applied restore process call.record) rest
      (fun other member => proper other (List.mem_cons_of_mem _ member))
      (fun other member => accepted other (List.mem_cons_of_mem _ member))
    refine ⟨actionOf process call.record :: actions, List.Forall₂.cons ⟨isProcess, rfl⟩ same, ?_⟩
    have step := @advance_live _ _ restore live sized (recordBytes call.record).length
    rw [show processOf call.record.action = some process from isProcess, Option.map_some] at step
    rw [List.map_cons, List.flatMap_cons, List.append_assoc, replay_record small sized inRange,
      step, replayed, List.map_cons, List.sum_cons]
    simp only [applied, List.append_assoc, List.singleton_append]
    push_cast
    rw [add_assoc]

theorem replay_notAccepted (calls : List Call) : ∀ (restore : Restore) (rest : Bytes),
      (∀ call ∈ calls, Proper maxSessions meterList call.record) ->
      ¬ (∀ call ∈ calls, Accepted call) ->
      ∀ result, replay stale maxSessions meterList
          ((calls.map Call.record).flatMap recordBytes ++ rest) (some restore) = some result ->
        result.totalLen < restore.totalLen + (calls.map fun call => recordLen call.record).sum := by
  induction calls with
  | nil =>
    intro restore rest _ notAll
    exact absurd (fun call member => absurd member List.not_mem_nil) notAll
  | cons call calls ih =>
    intro restore rest proper notAll result replayed
    obtain ⟨sized, inRange, live⟩ := proper call List.mem_cons_self
    have positive := recordLen_pos call.record
    rw [List.map_cons, List.flatMap_cons, List.append_assoc] at replayed
    rw [List.map_cons, List.sum_cons]
    by_cases small : ChecksOut call.record
    · rw [replay_record small sized inRange, advance_live live sized] at replayed
      cases known : processOf call.record.action with
      | none =>
        rw [known, Option.map_none, replay_none] at replayed
        cases replayed
      | some process =>
        rw [known, Option.map_some] at replayed
        have others : ¬ ∀ other ∈ calls, Accepted other := by
          intro all
          apply notAll
          intro other member
          rcases List.mem_cons.mp member with rfl | later
          · exact ⟨small, Option.isSome_iff_exists.mpr ⟨process, known⟩⟩
          · exact all other later
        have less := ih _ rest
          (fun other member => proper other (List.mem_cons_of_mem _ member)) others result replayed
        simp only [applied] at less
        push_cast at less ⊢
        omega
    · rw [replay, StreamScan.scan_stop (readRecord_unchecked small _)] at replayed
      cases replayed
      have nonneg : 0 ≤ ((calls.map fun call => recordLen call.record).sum : Int) :=
        Int.natCast_nonneg _
      rw [Nat.cast_add]
      omega

end Replay

section Logs

variable (log : FreshLog)

theorem FreshLog.proper : ∀ call ∈ log.calls,
    Proper log.vnode.maxSessions log.vnode.meterList call.record := by
  intro call member
  have meter := log.meters call member
  exact ⟨log.sized call member, ⟨⟨meter.lower, meter.upper⟩, log.actions call member⟩,
    call.pObj, meter.listed, meter.ready⟩

theorem FreshLog.file : ∃ zeros, sizeofCommitHead ≤ zeros ∧
    log.last.pMem = leBytes 8 log.firstV.toNat ++
      ((log.calls.map Call.record).flatMap recordBytes ++ List.replicate zeros 0) := by
  have mapping : 150 ≤ log.vnode.mappingSize := log.mapping
  have fresh := written_fresh (Nat.le_trans (by decide) mapping) log.fresh
  have size : log.opened.mappingSize = log.vnode.mappingSize := by
    have opened := log.fresh
    unfold vnodeOpenCommitLog at opened
    simp only [Option.getD_none, List.length_nil, Nat.not_lt_zero, if_false,
      Option.some.injEq] at opened
    rw [<- opened]
  obtain ⟨written, lastSize, space⟩ := fresh.writeAll log.calls log.written
  rw [List.nil_append] at written space
  obtain ⟨inside, mem⟩ := written.zeros
  refine ⟨log.last.mappingSize - (8 + ((log.calls.map Call.record).map recordLen).sum), ?_, ?_⟩
  · show 16 ≤ _
    rw [lastSize] at inside ⊢
    rw [size] at inside space ⊢
    by_cases empty : log.calls = []
    · rw [empty]
      simp only [List.map_nil, List.sum_nil]
      omega
    · have room := space empty
      omega
  · rw [mem, List.append_assoc]

/-- What was written comes back if and only if every call is restorable. -/
theorem restored_iff (stale : Bytes -> Bytes) :
    Restored stale log ↔ ∀ call ∈ log.calls, Restorable call := by
  obtain ⟨zeros, room, file⟩ := log.file
  have start : vnodeRestoreDataFromLog stale log.vnode.maxSessions log.vnode.meterList
      (some log.last.pMem) = replay stale log.vnode.maxSessions log.vnode.meterList
        ((log.calls.map Call.record).flatMap recordBytes ++ List.replicate zeros 0)
        (some ⟨0, []⟩) := by
    rw [file, vnodeRestoreDataFromLog_some (leBytes_length ..)]
  unfold Restored
  rw [start]
  by_cases accepted : ∀ call ∈ log.calls, Accepted call
  · obtain ⟨actions, same, replayed⟩ := replay_accepted log.calls ⟨0, []⟩
      (List.replicate zeros 0) log.proper accepted
    rw [replay_zeros log.sessions room, Int.zero_add, List.nil_append] at replayed
    rw [replayed]
    have versions : List.Forall₂ Applies actions log.calls ↔
        ∀ call ∈ log.calls, call.sversion = call.pObj.sversion := by
      clear replayed start file accepted
      generalize log.calls = calls at same
      induction same with
      | nil => exact ⟨fun _ call member => absurd member List.not_mem_nil, fun _ => .nil⟩
      | @cons action call actions calls head tail ih =>
        obtain ⟨isProcess, isAction⟩ := head
        rw [List.forall₂_cons, ih, List.forall_mem_cons]
        apply and_congr_left
        intro _
        constructor
        · rintro ⟨-, -, version, -⟩
          rw [isAction] at version
          exact version.symm
        · intro version
          refine ⟨isProcess, ?_, ?_, ?_⟩
          · rw [isAction]
            rfl
          · rw [isAction]
            exact version.symm
          · rw [isAction]
            rfl
    constructor
    · rintro ⟨restore, result, -, applies⟩ call member
      cases result
      exact ⟨(accepted call member).1, (processOf_isSome_iff _).mp (accepted call member).2,
        versions.mp applies call member⟩
    · intro restorable
      exact ⟨_, rfl, rfl, versions.mpr fun call member => (restorable call member).version⟩
  · constructor
    · rintro ⟨restore, result, total, -⟩
      have less := replay_notAccepted log.calls ⟨0, []⟩ _ log.proper accepted restore result
      rw [total, Int.zero_add] at less
      exact absurd less (lt_irrefl _)
    · intro restorable
      exact absurd (fun call member => ⟨(restorable call member).small,
        (processOf_isSome_iff _).mpr (restorable call member).known⟩) accepted

end Logs

/-- A meter whose version makes the sum of its records 2^23. -/
def wideMeter : SMeterObj := ⟨0, 0x7FFFFF#32, false⟩

def wideCall : Call := ⟨wideMeter, 0, [7], 0x7FFFFF#32⟩

def wideVnode : SVnodeObj where
  maxSessions := 1
  commitLog := true
  meterList := fun sid => if sid = 0 then some wideMeter else none
  mappingSize := minMappingSize
  pMem := []
  pWrite := none

theorem wide_opens : (vnodeOpenCommitLog wideVnode none 0).isSome := by decide

theorem wide_writes :
    (writeAll ((vnodeOpenCommitLog wideVnode none 0).get wide_opens) [wideCall]).isSome := by
  decide

def wideLog : FreshLog where
  vnode := wideVnode
  firstV := 0
  opened := (vnodeOpenCommitLog wideVnode none 0).get wide_opens
  calls := [wideCall]
  last := (writeAll ((vnodeOpenCommitLog wideVnode none 0).get wide_opens) [wideCall]).get wide_writes
  sessions := Int.one_pos
  mapping := Nat.le_refl _
  fresh := (Option.some_get wide_opens).symm
  written := (Option.some_get wide_writes).symm
  meters := by
    intro call member
    cases List.mem_singleton.mp member
    exact ⟨by decide, by decide, rfl, rfl⟩
  actions := by
    intro call member
    cases List.mem_singleton.mp member
    decide
  sized := by
    intro call member
    cases List.mem_singleton.mp member
    exact ⟨by decide, by decide⟩

/-- The replay ends at the record: nothing is applied and 0 is returned. -/
theorem wideLog_not_restored : ¬ ∀ stale log, Restored stale log := by
  intro restored
  obtain ⟨restore, result, total, -⟩ := restored (fun _ => []) wideLog
  have nothing : vnodeRestoreDataFromLog (fun _ => []) wideLog.vnode.maxSessions
      wideLog.vnode.meterList (some wideLog.last.pMem) = some ⟨0, []⟩ := by
    decide +kernel
  rw [nothing] at result
  cases result
  cases total

end Luomi.Vnode.CommitRoundTrip
