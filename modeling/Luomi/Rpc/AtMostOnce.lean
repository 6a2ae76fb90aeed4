import Luomi.Rpc.Connection

/-!
# Requests are handed over at most once

The server connection knows a copy of the request it has handed over last, by its
transaction id, until the application answers that the request is in progress.
Copies of older requests it does not know: where one arrives while no request is
being processed, it is taken for a new request.
-/

namespace Luomi.Rpc

open List (mem_append mem_cons_self mem_singleton not_mem_nil)

/-- A request that may be handed over: it never was, or since then the application
has answered that it is in progress. -/
def Repeatable (log : List Entry) (request : Nat) : Prop :=
  .handedOver request ∉ log ∨
    ∃ front back, log = front ++ .inProgress request :: back ∧ .handedOver request ∉ back

/-- Every request is handed over once, and once more for each answer that it is in
progress. -/
def AtMostOnce (log : List Entry) : Prop :=
  ∀ front request back, log = front ++ .handedOver request :: back -> Repeatable front request

theorem AtMostOnce.concat {log : List Entry} (once : AtMostOnce log) {entry : Entry}
    (repeatable : ∀ request, entry = .handedOver request -> Repeatable log request) :
    AtMostOnce (log ++ [entry]) := by
  intro front request back split
  rcases List.eq_nil_or_concat back with rfl | ⟨others, last, rfl⟩
  · obtain ⟨same, final⟩ := List.append_inj' split rfl
    rw [<- same]
    exact repeatable request (List.singleton_inj.mp final)
  · rw [List.concat_eq_append, <- List.cons_append, <- List.append_assoc] at split
    obtain ⟨same, -⟩ := List.append_inj' split rfl
    exact once front request others same

section

variable (log : List Entry) (request : Nat)

theorem repeatable_inProgress : Repeatable (log ++ [.inProgress request]) request :=
  Or.inr ⟨log, [], rfl, not_mem_nil⟩

theorem lastHanded_handedOver : lastHanded (log ++ [.handedOver request]) = some request := by
  simp [lastHanded]

theorem lastHanded_inProgress : lastHanded (log ++ [.inProgress request]) = lastHanded log := by
  simp [lastHanded]

end

theorem lastHanded_mem {log : List Entry} {request : Nat}
    (last : lastHanded log = some request) : .handedOver request ∈ log := by
  obtain ⟨entry, member, isLast⟩ := List.mem_filterMap.mp (List.mem_of_getLast? last)
  cases entry with
  | handedOver other =>
    cases isLast
    exact member
  | inProgress other => cases isLast

theorem processRequest_cases (conn : SRpcConn) (header : STaosHeader) :
    (processRequest conn header).1 = success ∧ conn.inType = 0 ∧ conn.inTranId ≠ header.tranId ∧
        (processRequest conn header).2.1.inTranId = header.tranId ∨
      (processRequest conn header).1 ≠ success ∧
        (processRequest conn header).2.1.inTranId = conn.inTranId := by
  have exists' : sessionAlreadyExist ≠ success := by decide
  have processed : alreadyProcessed ≠ success := by decide
  have unfinished : lastSessionNotFinished ≠ success := by decide
  unfold processRequest
  by_cases unknown : conn.peerId = 0
  all_goals simp only [unknown, if_true, if_false]
  all_goals split
  · exact Or.inr ⟨exists', rfl⟩
  · split
    · split
      · exact Or.inr ⟨processed, rfl⟩
      · split <;> exact Or.inr ⟨processed, rfl⟩
    · split
      · exact Or.inr ⟨unfinished, rfl⟩
      · rename_i newId idle
        exact Or.inl ⟨rfl, not_not.mp idle, newId, rfl⟩
  · exact Or.inr ⟨exists', rfl⟩
  · split
    · split
      · exact Or.inr ⟨processed, rfl⟩
      · split <;> exact Or.inr ⟨processed, rfl⟩
    · split
      · exact Or.inr ⟨unfinished, rfl⟩
      · rename_i newId idle
        exact Or.inl ⟨rfl, not_not.mp idle, newId, rfl⟩

/-- A message the client has sent, is sending or will send. -/
def InFlight (sys : System) (msg : Request) : Prop :=
  msg ∈ sys.toServer ∨ sys.client.pMsgNode = some msg ∨ msg ∈ sys.client.queue

/-- Copies of a request have its transaction id, and the server knows that of the
last request, unless it may be handed over again. -/
structure Consistent (sys : System) (tranOf : Nat -> UInt16) : Prop where
  known : ∀ msg, InFlight sys msg -> msg.request < sys.requests ∧
    msg.header.tranId = tranOf msg.request ∧ msg.header.msgType % 2 = 1
  handed : ∀ request, .handedOver request ∈ sys.log -> request < sys.requests
  last : ∀ request, lastHanded sys.log = some request ->
    Repeatable sys.log request ∨ sys.server.inTranId = tranOf request
  once : AtMostOnce sys.log

/-- No copy of a request that was handed over arrives at an idle connection after
another request has been handed over. -/
def Orderly (sys : System) : Event -> Prop
  | .toServer index refused => ∀ msg, sys.toServer[index]? = some msg ->
      refused.isSome ∨ sys.server.inType ≠ 0 ∨ .handedOver msg.request ∉ sys.log ∨
        lastHanded sys.log = some msg.request
  | _ => True

def AlwaysOrderly : System -> List Event -> Prop
  | _, [] => True
  | sys, event :: events =>
    Orderly sys event ∧ ∀ next, step sys event = some next -> AlwaysOrderly next events

section Step

variable {sys next : System} {tranOf : Nat -> UInt16}

theorem Consistent.client (consistent : Consistent sys tranOf)
    (flight : ∀ msg, InFlight next msg -> InFlight sys msg) (requests : next.requests = sys.requests)
    (log : next.log = sys.log) (server : next.server.inTranId = sys.server.inTranId) :
    Consistent next tranOf := by
  refine ⟨?_, ?_, ?_, ?_⟩
  · intro msg inFlight
    rw [requests]
    exact consistent.known msg (flight msg inFlight)
  · rw [log, requests]
    exact consistent.handed
  · rw [log, server]
    exact consistent.last
  · rw [log]
    exact consistent.once

theorem Consistent.send (consistent : Consistent sys tranOf) {msg : Request}
    (number : msg.request = sys.requests) (odd : msg.header.msgType % 2 = 1)
    (flight : ∀ other, InFlight next other -> other = msg ∨ InFlight sys other)
    (requests : next.requests = sys.requests + 1) (log : next.log = sys.log)
    (server : next.server.inTranId = sys.server.inTranId) :
    Consistent next (Function.update tranOf sys.requests msg.header.tranId) := by
  have others : ∀ request, request < sys.requests ->
      Function.update tranOf sys.requests msg.header.tranId request = tranOf request :=
    fun request below => Function.update_of_ne (Nat.ne_of_lt below) _ _
  refine ⟨?_, ?_, ?_, ?_⟩
  · intro other inFlight
    rw [requests]
    rcases flight other inFlight with rfl | old
    · rw [number, Function.update_self]
      exact ⟨Nat.lt_succ_self _, rfl, odd⟩
    · obtain ⟨below, same, otherOdd⟩ := consistent.known other old
      exact ⟨Nat.lt_succ_of_lt below, by rw [others _ below]; exact same, otherOdd⟩
  · intro request member
    rw [log] at member
    rw [requests]
    exact Nat.lt_succ_of_lt (consistent.handed request member)
  · intro request isLast
    rw [log] at isLast ⊢
    rw [server, others request (consistent.handed request (lastHanded_mem isLast))]
    exact consistent.last request isLast
  · rw [log]
    exact consistent.once

variable {conn : SRpcConn} {other : Request}

theorem sendRequest_flight {msg : Request} (inFlight : (other ∈ (sendRequest conn msg).2) ∨
      (sendRequest conn msg).1.pMsgNode = some other ∨ other ∈ (sendRequest conn msg).1.queue) :
    other = msg ∨ conn.pMsgNode = some other ∨ other ∈ conn.queue := by
  unfold sendRequest at inFlight
  by_cases busy : conn.outType ≠ 0
  · rw [if_pos busy] at inFlight
    simp only [not_mem_nil, false_or, mem_append, mem_singleton] at inFlight
    tauto
  · rw [if_neg busy] at inFlight
    simp only [mem_singleton, Option.some.injEq] at inFlight
    rcases inFlight with same | same | queued
    · exact Or.inl same
    · exact Or.inl same.symm
    · exact Or.inr (Or.inr queued)

theorem taosProcessTaosTimer_flight (inFlight : (other ∈ (taosProcessTaosTimer conn).2) ∨
      (taosProcessTaosTimer conn).1.pMsgNode = some other ∨
      other ∈ (taosProcessTaosTimer conn).1.queue) :
    conn.pMsgNode = some other ∨ other ∈ conn.queue := by
  unfold taosProcessTaosTimer at inFlight
  split at inFlight
  · exact inFlight.resolve_left not_mem_nil
  · simp only at inFlight
    split at inFlight
    · split at inFlight
      · rename_i msg waiting
        rcases inFlight with sent | rest
        · rw [mem_singleton.mp sent]
          exact Or.inl waiting
        · exact rest
      · exact inFlight.resolve_left not_mem_nil
    · exact inFlight.resolve_left not_mem_nil

theorem taosProcessResponse_flight (inFlight : (other ∈ (taosProcessResponse conn).2) ∨
      (taosProcessResponse conn).1.pMsgNode = some other ∨
      other ∈ (taosProcessResponse conn).1.queue) :
    conn.pMsgNode = some other ∨ other ∈ conn.queue := by
  unfold taosProcessResponse at inFlight
  simp only at inFlight
  right
  cases queue : conn.queue with
  | nil =>
    rw [queue] at inFlight
    simp only [not_mem_nil, reduceCtorEq, or_self] at inFlight
  | cons msg rest =>
    rw [queue] at inFlight
    simp only [mem_singleton, Option.some.injEq] at inFlight
    rcases inFlight with same | same | queued
    · rw [same]
      exact mem_cons_self
    · rw [<- same]
      exact mem_cons_self
    · exact List.mem_cons_of_mem _ queued

theorem taosProcessMsgHeader_client (conn : SRpcConn) (header : STaosHeader) :
    (taosProcessMsgHeader conn header).2.1.pMsgNode = conn.pMsgNode ∧
      (taosProcessMsgHeader conn header).2.1.queue = conn.queue := by
  unfold taosProcessMsgHeader
  split
  · unfold processRequest
    by_cases unknown : conn.peerId = 0
    all_goals simp only [unknown, if_true, if_false]
    all_goals repeat' split
    all_goals exact ⟨rfl, rfl⟩
  · unfold processResponse
    simp only
    repeat' split
    all_goals exact ⟨rfl, rfl⟩

section

variable (consistent : Consistent sys tranOf)
include consistent

theorem Consistent.serverReceives {msg : Request} (sent : msg ∈ sys.toServer) {refused : Option Nat}
    (orderly : refused.isSome ∨ sys.server.inType ≠ 0 ∨ .handedOver msg.request ∉ sys.log ∨
      lastHanded sys.log = some msg.request) :
    Consistent (serverReceives sys msg refused) tranOf := by
  obtain ⟨below, tranId, odd⟩ := consistent.known msg (Or.inl sent)
  cases refused with
  | some code =>
    unfold Rpc.serverReceives
    simp only
    split
    · exact consistent
    · exact consistent.client (fun _ inFlight => inFlight) rfl rfl rfl
  | none =>
    have branch : taosProcessMsgHeader sys.server msg.header = processRequest sys.server msg.header :=
      if_pos odd
    unfold Rpc.serverReceives
    simp only [branch]
    rcases processRequest_cases sys.server msg.header with
      ⟨isSuccess, idle, newId, memory⟩ | ⟨notSuccess, memory⟩
    · rw [if_pos isSuccess]
      have repeatable : Repeatable sys.log msg.request := by
        rcases orderly with refused | busy | fresh | isLast
        · cases refused
        · exact absurd idle busy
        · exact Or.inl fresh
        · refine (consistent.last msg.request isLast).resolve_right fun same => ?_
          exact newId (same.trans tranId.symm)
      refine ⟨fun other inFlight => consistent.known other inFlight, ?_, ?_, ?_⟩
      · intro request member
        rcases mem_append.mp member with early | late
        · exact consistent.handed request early
        · cases mem_singleton.mp late
          exact below
      · intro request isLast
        rw [lastHanded_handedOver] at isLast
        cases isLast
        exact Or.inr (memory.trans tranId)
      · refine consistent.once.concat fun request same => ?_
        cases same
        exact repeatable
    · rw [if_neg notSuccess]
      split
      · exact consistent.client (fun _ inFlight => inFlight) rfl rfl memory
      · exact consistent.client (fun _ inFlight => inFlight) rfl rfl memory

theorem Consistent.serverResponds (msg : STaosHeader) :
    Consistent (serverResponds sys msg) tranOf := by
  unfold Rpc.serverResponds
  cases isLast : lastHanded sys.log with
  | none =>
    refine ⟨consistent.known, consistent.handed, ?_, consistent.once⟩
    intro request another
    rw [isLast] at another
    cases another
  | some request =>
    by_cases progress : msg.code = actionInProgress
    · simp only [if_pos progress]
      refine ⟨consistent.known, ?_, ?_, ?_⟩
      · intro other member
        rcases mem_append.mp member with early | late
        · exact consistent.handed other early
        · cases mem_singleton.mp late
      · intro other another
        rw [lastHanded_inProgress, isLast] at another
        cases another
        exact Or.inl (repeatable_inProgress _ _)
      · exact consistent.once.concat fun other same => by cases same
    · simp only [if_neg progress]
      refine ⟨consistent.known, consistent.handed, ?_, consistent.once⟩
      intro other another
      have memory : (sendResponse sys.server msg).inTranId = sys.server.inTranId :=
        if_neg progress
      simp only [memory]
      exact consistent.last other another

theorem Consistent.step {event : Event}
    (orderly : Orderly sys event) (stepped : step sys event = some next) :
    ∃ tranOf, Consistent next tranOf := by
  cases event with
  | send msgType =>
    simp only [Rpc.step] at stepped
    by_cases odd : msgType % 2 = 1
    · rw [if_pos odd] at stepped
      cases stepped
      refine ⟨_, @Consistent.send _ _ _ consistent ⟨(taosBuildReqMsgWithSize sys.client msgType).1,
        sys.requests⟩ rfl odd ?_ rfl rfl rfl⟩
      intro other inFlight
      rcases inFlight with sent | rest
      · rcases mem_append.mp sent with old | new
        · exact Or.inr (Or.inl old)
        · exact (sendRequest_flight (Or.inl new)).imp id Or.inr
      · exact (sendRequest_flight (Or.inr rest)).imp id Or.inr
    · rw [if_neg odd] at stepped
      cases stepped
  | clientTimer =>
    cases stepped
    refine ⟨tranOf, consistent.client ?_ rfl rfl rfl⟩
    intro other inFlight
    rcases inFlight with sent | rest
    · rcases mem_append.mp sent with old | new
      · exact Or.inl old
      · exact Or.inr (taosProcessTaosTimer_flight (Or.inl new))
    · exact Or.inr (taosProcessTaosTimer_flight (Or.inr rest))
  | toServer index refused =>
    obtain ⟨msg, found, result⟩ := Option.bind_eq_some_iff.mp stepped
    cases result
    exact ⟨tranOf, consistent.serverReceives (List.mem_of_getElem? found) (orderly msg found)⟩
  | toClient index refused =>
    obtain ⟨header, found, result⟩ := Option.bind_eq_some_iff.mp stepped
    by_cases isRefused : refused = true
    · rw [if_pos isRefused] at result
      cases result
      exact ⟨tranOf, consistent⟩
    · rw [if_neg isRefused] at result
      cases result
      obtain ⟨node, queue⟩ := taosProcessMsgHeader_client sys.client header
      refine ⟨tranOf, consistent.client ?_ rfl rfl rfl⟩
      intro other inFlight
      rcases inFlight with sent | waiting | queued
      · exact Or.inl sent
      · exact Or.inr (Or.inl (node.symm.trans waiting))
      · exact Or.inr (Or.inr (queue ▸ queued))
  | clientTask =>
    simp only [Rpc.step] at stepped
    by_cases none' : sys.scheduled = 0
    · rw [if_pos none'] at stepped
      cases stepped
    · rw [if_neg none'] at stepped
      cases stepped
      refine ⟨tranOf, consistent.client ?_ rfl rfl rfl⟩
      intro other inFlight
      rcases inFlight with sent | rest
      · rcases mem_append.mp sent with old | new
        · exact Or.inl old
        · exact Or.inr (taosProcessResponse_flight (Or.inl new))
      · exact Or.inr (taosProcessResponse_flight (Or.inr rest))
  | respond msgType tranId code =>
    simp only [Rpc.step] at stepped
    by_cases even : msgType % 2 = 0
    · rw [if_pos even] at stepped
      cases stepped
      exact ⟨tranOf, consistent.serverResponds _⟩
    · rw [if_neg even] at stepped
      cases stepped

end

end Step

theorem run_consistent (events : List Event) : ∀ {sys last : System} {tranOf : Nat -> UInt16},
    Consistent sys tranOf -> AlwaysOrderly sys events -> run sys events = some last ->
      ∃ tranOf, Consistent last tranOf := by
  induction events with
  | nil =>
    intro sys last tranOf consistent _ ran
    cases ran
    exact ⟨tranOf, consistent⟩
  | cons event events ih =>
    intro sys last tranOf consistent orderly ran
    obtain ⟨next, stepped, rest⟩ := Option.bind_eq_some_iff.mp ran
    obtain ⟨nextTran, nextConsistent⟩ := consistent.step orderly.1 stepped
    exact ih nextConsistent (orderly.2 next stepped) rest

structure OrderlyRun where
  clientSid : Nat
  clientId : UInt32
  tranId : UInt16
  serverSid : Nat
  serverId : UInt32
  serverTranId : UInt16
  events : List Event
  last : System
  ran : run (newSystem clientSid clientId tranId serverSid serverId serverTranId) events = some last
  orderly : AlwaysOrderly (newSystem clientSid clientId tranId serverSid serverId serverTranId) events

theorem newSystem_consistent (clientSid : Nat) (clientId : UInt32) (tranId : UInt16)
    (serverSid : Nat) (serverId : UInt32) (serverTranId : UInt16) :
    Consistent (newSystem clientSid clientId tranId serverSid serverId serverTranId) fun _ => 0 := by
  refine ⟨?_, ?_, ?_, ?_⟩
  · intro msg inFlight
    rcases inFlight with sent | waiting | queued
    · cases sent
    · cases waiting
    · cases queued
  · exact fun request member => absurd member not_mem_nil
  · exact fun request isLast => by cases isLast
  · intro front request back split
    exact absurd split (by simp [newSystem])

/-- Two requests, each answered before the next is sent, and a second copy of the
first one at the end. -/
def lateCopyEvents : List Event :=
  [.send 1, .toServer 0 none, .respond 2 2 0, .toClient 0 false, .clientTask,
    .send 1, .toServer 1 none, .respond 2 3 0, .toServer 0 none]

end Luomi.Rpc
