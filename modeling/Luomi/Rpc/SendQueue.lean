import Luomi.Base.LinkedQueue
import Luomi.Rpc.Connection

/-!
# The send queue of a client connection

The requests of a connection are message blocks with a link from each one that
waits to the next one.  The application sends, packets arrive, the timer fires and
tasks run, in any order.  A message block is known by the number of its request.
-/

namespace Luomi.Rpc.SendQueue

open LinkedQueue
open Function (update update_of_ne update_self)
open List (length_append length_cons length_eq_zero_iff mem_append_left mem_cons_self mem_map
  mem_singleton)

def tooSlow : Nat := 50

def sizeofHeader : Nat := 48

def sizeofDigest : Nat := 20

/-- `SMsgNode` with the header behind it; `ahandle` 0 is NULL. -/
structure SMsgNode where
  next : Option Nat
  ahandle : Nat
  msgLen : Nat
  header : STaosHeader

/-- A client connection: the messages are kept by the pointers, not in `conn`. -/
structure QueueConn where
  conn : SRpcConn
  spi : Nat
  ahandle : Nat
  memory : Nat -> SMsgNode
  pMsgNode : Option Nat
  pHead : Option Nat
  pTail : Option Nat
  /-- `assert(pConn->pMsgNode == NULL)` has failed. -/
  assertFailed : Bool
  closed : Bool
  /-- How many requests the application has sent. -/
  requests : Nat
  /-- The requests that have gone to the network, in this order. -/
  sent : List Nat
  /-- What is scheduled for the application: a response, or none where the connection
  shall be closed. -/
  tasks : List (Option STaosHeader)
  /-- What the application has been given and not returned from. -/
  running : List (Option STaosHeader)
  /-- What the application has been given, with the request of the connection. -/
  completed : List (Option Nat × Option STaosHeader)

/-- A connection that `taosOpenRpcConn` has opened. -/
def newQueue (conn : SRpcConn) (spi ahandle : Nat) (memory : Nat -> SMsgNode) : QueueConn where
  conn := { conn with outType := 0, rspReceived := false, retry := 0, tretry := 0, timer := false }
  spi := spi
  ahandle := ahandle
  memory := memory
  pMsgNode := none
  pHead := none
  pTail := none
  assertFailed := false
  closed := false
  requests := 0
  sent := []
  tasks := []
  running := []
  completed := []

/-- The message block that `taosSendMsgToPeerH` fills in. -/
def msgNode (client : QueueConn) (header : STaosHeader) (contLen ahandle : Nat) : SMsgNode where
  next := none
  ahandle := ahandle
  msgLen := contLen + sizeofHeader + (if client.spi ≠ 0 then sizeofDigest else 0)
  header := header

/-- `pNode->next = pNext`. -/
def setNext (memory : Nat -> SMsgNode) (node : Nat) (next : Option Nat) : Nat -> SMsgNode :=
  update memory node { memory node with next := next }

def taosSendMsgToPeerH (client : QueueConn) (header : STaosHeader) (contLen ahandle : Nat) :
    QueueConn :=
  let node := client.requests
  let memory := update client.memory node (msgNode client header contLen ahandle)
  if client.conn.outType ≠ 0 then
    match client.pTail with
    | some tail =>
      { client with
        memory := setNext memory tail (some node), pTail := some node, requests := node + 1 }
    | none =>
      { client with
        memory := memory, pTail := some node, pHead := some node, requests := node + 1 }
  else
    { client with
      conn := { client.conn with
        outType := header.msgType, outTranId := header.tranId, rspReceived := false
        timer := true }
      ahandle := if ahandle ≠ 0 then ahandle else client.ahandle
      memory := memory
      pMsgNode := some node
      assertFailed := client.assertFailed || client.pMsgNode.isSome
      requests := node + 1
      sent := client.sent ++ [node] }

/-- `taosProcessTaosTimer`; the message is sent again where it is there. -/
def taosProcessTaosTimer (client : QueueConn) : QueueConn :=
  if ¬ client.conn.timer ∨ client.conn.rspReceived ∨ client.conn.outType = 0 then client
  else
    let conn := { client.conn with timer := false, retry := client.conn.retry + 1 }
    if conn.retry < 3 then
      match client.pMsgNode with
      | some node =>
        { client with conn := { conn with timer := decide (0 < (client.memory node).msgLen) } }
      | none => { client with conn := conn }
    else
      { client with
        conn := { conn with rspReceived := true }
        tasks := client.tasks ++ [none] }

/-- What is scheduled for a response: one that gives up waiting says so, and one that
says that the session exists closes the connection. -/
def scheduledFor (header : STaosHeader) : Option STaosHeader :=
  let header := if header.code = actionInProgress then { header with code := tooSlow } else header
  if header.code = sessionAlreadyExist then none else some header

/-- `taosProcessDataFromPeer` for a response. -/
def receiveResponse (client : QueueConn) (header : STaosHeader) : QueueConn :=
  let (code, conn) := processResponse client.conn header
  { client with
    conn := conn
    tasks := if code = success then client.tasks ++ [scheduledFor header] else client.tasks }

def receiveTcp (client : QueueConn) : QueueConn :=
  if client.conn.outType ≠ 0 then { client with conn := { client.conn with timer := true } }
  else client

def taosProcessResponse (client : QueueConn) : QueueConn :=
  let client := { client with
    conn := { client.conn with outType := 0, rspReceived := false }
    pMsgNode := none }
  match client.pHead with
  | none => client
  | some node =>
    if sizeofHeader ≤ (client.memory node).msgLen then
      { client with
        conn := { client.conn with
          outType := (client.memory node).header.msgType
          outTranId := (client.memory node).header.tranId
          timer := true }
        ahandle :=
          if (client.memory node).ahandle ≠ 0 then (client.memory node).ahandle
          else client.ahandle
        pMsgNode := some node
        pHead := (client.memory node).next
        pTail := if (client.memory node).next = none then none else client.pTail
        sent := client.sent ++ [node] }
    else { client with pHead := none, pTail := none }

inductive QueueEvent where
  /-- The application sends a request. -/
  | send (header : STaosHeader) (contLen ahandle : Nat)
  /-- A response arrives, whatever it is. -/
  | receive (header : STaosHeader)
  | receiveTcp
  | timer
  /-- The application is given what is scheduled. -/
  | take
  /-- The application returns a handle, or NULL. -/
  | finish (ahandle : Nat)

/-- A step of an open connection; the first half and the second half of
`taosProcessSchedMsg` are two steps. -/
def queueStep (client : QueueConn) (event : QueueEvent) : QueueConn :=
  if client.closed then client
  else
    match event with
    | .send header contLen ahandle =>
      if header.msgType % 2 = 1 then taosSendMsgToPeerH client header contLen ahandle else client
    | .receive header =>
      if header.msgType % 2 = 0 then receiveResponse client header else client
    | .receiveTcp => receiveTcp client
    | .timer => taosProcessTaosTimer client
    | .take =>
      match client.tasks with
      | [] => client
      | msg :: later =>
        { client with
          tasks := later
          running := client.running ++ [msg]
          completed := client.completed ++ [(client.pMsgNode, msg)] }
    | .finish ahandle =>
      match client.running with
      | [] => client
      | msg :: later =>
        if ahandle = 0 ∨ msg = none then { client with running := later, closed := true }
        else taosProcessResponse { client with running := later, ahandle := ahandle }

def queueRun (client : QueueConn) (events : List QueueEvent) : QueueConn :=
  events.foldl queueStep client

def Matches (request : SMsgNode) (msg : STaosHeader) : Prop :=
  msg.tranId = request.header.tranId ∧ msg.msgType = request.header.msgType + 1

structure InOrder (client : QueueConn) : Prop where
  outstanding : client.pMsgNode ≠ none ↔ client.conn.outType ≠ 0
  queue : ∃ waiting,
    Queue (fun node => (client.memory node).next) client.pHead client.pTail waiting ∧
      client.sent ++ waiting = List.range client.requests
  assertion : client.assertFailed = false
  once : (client.completed.map Prod.fst).Nodup
  own : ∀ entry ∈ client.completed, ∃ node, node < client.requests ∧ entry.1 = some node ∧
    ∀ msg, entry.2 = some msg -> Matches (client.memory node) msg

structure Kept (client : QueueConn) (waiting : List Nat) : Prop where
  assertion : client.assertFailed = false
  queue : Queue (fun node => (client.memory node).next) client.pHead client.pTail waiting
  order : client.sent ++ waiting = List.range client.requests
  idle : client.conn.outType = 0 ↔ client.pMsgNode = none
  empty : client.pMsgNode = none -> waiting = []
  current : ∀ node, client.pMsgNode = some node -> node ∈ client.sent ∧
    client.conn.outTranId = (client.memory node).header.tranId ∧
    client.conn.outType = (client.memory node).header.msgType
  sized : ∀ node ∈ waiting, sizeofHeader ≤ (client.memory node).msgLen ∧
    (client.memory node).header.msgType % 2 = 1
  alone : (client.tasks ++ client.running).length ≤ 1
  quiet : client.conn.rspReceived = false -> client.tasks ++ client.running = []
  busy : client.conn.rspReceived = true -> client.conn.outType ≠ 0
  answers : ∀ msg, some msg ∈ client.tasks -> ∀ node, client.pMsgNode = some node ->
    Matches (client.memory node) msg
  waits : client.tasks ++ client.running ≠ [] -> client.conn.outType ≠ 0
  fresh : client.closed = false -> client.running = [] -> ∀ node, client.pMsgNode = some node ->
    some node ∉ client.completed.map Prod.fst
  own : ∀ entry ∈ client.completed, ∃ node ∈ client.sent, entry.1 = some node ∧
    ∀ msg, entry.2 = some msg -> Matches (client.memory node) msg
  once : (client.completed.map Prod.fst).Nodup

section Step

variable {client : QueueConn} {waiting : List Nat}
  {node : Nat}

theorem Kept.below (kept : Kept client waiting)
    (member : node ∈ client.sent ++ waiting) : node < client.requests := by
  rw [kept.order] at member
  exact List.mem_range.mp member

theorem Kept.inOrder (kept : Kept client waiting) : InOrder client := by
  refine ⟨(not_congr kept.idle).symm, ⟨waiting, kept.queue, kept.order⟩, kept.assertion, kept.once,
    ?_⟩
  intro entry member
  obtain ⟨node, wasSent, isNode, matches'⟩ := kept.own entry member
  exact ⟨node, kept.below (mem_append_left _ wasSent), isNode, matches'⟩

theorem newQueue_kept (conn : SRpcConn) (spi ahandle : Nat) (memory : Nat -> SMsgNode) :
    Kept (newQueue conn spi ahandle memory) [] := by
  refine ⟨rfl, Queue.nil _, rfl, iff_of_true rfl rfl, fun _ => rfl, ?_, ?_, Nat.zero_le _,
    fun _ => rfl, ?_, ?_, fun some' => absurd rfl some', ?_, ?_, List.nodup_nil⟩
  · intro node isNode
    cases isNode
  · intro node member
    cases member
  · intro received
    cases received
  · intro msg member
    cases member
  · intro _ _ node isNode
    cases isNode
  · intro entry member
    cases member

section

variable (kept : Kept client waiting) {conn : SRpcConn}
  (outType : conn.outType = client.conn.outType)
  (outTranId : conn.outTranId = client.conn.outTranId)

include kept outType outTranId

theorem Kept.congr (rspReceived : conn.rspReceived = client.conn.rspReceived) :
    Kept { client with conn := conn } waiting := by
  refine ⟨kept.assertion, kept.queue, kept.order, ?_, kept.empty, ?_, kept.sized, kept.alone, ?_, ?_,
    kept.answers, ?_, kept.fresh, kept.own, kept.once⟩
  · rw [outType]
    exact kept.idle
  · intro node isNode
    rw [outType, outTranId]
    exact kept.current node isNode
  · rw [rspReceived]
    exact kept.quiet
  · rw [outType, rspReceived]
    exact kept.busy
  · rw [outType]
    exact kept.waits

theorem Kept.schedule {task : Option STaosHeader} (rspReceived : conn.rspReceived = true)
    (waits : client.conn.outType ≠ 0) (quiet : client.conn.rspReceived = false)
    (answers : ∀ msg, task = some msg -> ∀ node, client.pMsgNode = some node -> Matches
      (client.memory node) msg)
    :
    Kept { client with conn := conn, tasks := client.tasks ++ [task] } waiting := by
  obtain ⟨noTasks, noRunning⟩ := List.append_eq_nil_iff.mp (kept.quiet quiet)
  refine ⟨kept.assertion, kept.queue, kept.order, ?_, kept.empty, ?_, kept.sized, ?_, ?_, ?_, ?_, ?_,
    kept.fresh, kept.own, kept.once⟩
  · rw [outType]
    exact kept.idle
  · intro node isNode
    rw [outType, outTranId]
    exact kept.current node isNode
  · rw [noTasks, noRunning]
    exact le_rfl
  · intro unread
    rw [rspReceived] at unread
    cases unread
  · intro _
    rw [outType]
    exact waits
  · intro msg member
    rw [noTasks] at member
    exact answers msg (mem_singleton.mp member).symm
  · intro _
    rw [outType]
    exact waits

end

theorem Matches.congr {request other : SMsgNode} {msg : STaosHeader}
    (matches' : Matches request msg)
    (same : other.header = request.header) : Matches other msg := by
  unfold Matches
  rw [same]
  exact matches'

theorem requests_fresh (kept : Kept client waiting) : client.requests ∉ waiting :=
  fun member => Nat.lt_irrefl _ (kept.below (List.mem_append_right _ member))

/-- The messages that are there when a request is sent. -/
structure Extended (client : QueueConn) (memory : Nat -> SMsgNode) : Prop where
  old : ∀ node, node < client.requests -> (memory node).header = (client.memory node).header ∧
    (memory node).msgLen = (client.memory node).msgLen
  sized : sizeofHeader ≤ (memory client.requests).msgLen
  odd : (memory client.requests).header.msgType % 2 = 1

section

variable (kept : Kept client waiting) {memory : Nat -> SMsgNode}

include kept

theorem Kept.old (extended : Extended client memory)
    (member : node ∈ client.sent ++ waiting) : (memory node).header = (client.memory node).header :=
  (extended.old node (kept.below member)).1

theorem Kept.enqueue (busy : client.conn.outType ≠ 0) (extended : Extended client memory)
    {pHead pTail : Option Nat}
    (queue : Queue (fun node => (memory node).next) pHead pTail (waiting ++ [client.requests])) :
    Kept
      { client with
        memory := memory, pHead := pHead, pTail := pTail, requests := client.requests + 1 }
      (waiting ++ [client.requests]) := by
  have sent : ∀ node ∈ client.sent, (memory node).header = (client.memory node).header :=
    fun node member => kept.old extended (mem_append_left _ member)
  refine ⟨kept.assertion, queue, ?_, kept.idle, ?_, ?_, ?_, kept.alone, kept.quiet, kept.busy, ?_,
    kept.waits, kept.fresh, ?_, kept.once⟩
  · rw [<- List.append_assoc, kept.order, List.range_succ]
  · intro nothing
    exact absurd (kept.idle.mpr nothing) busy
  · intro node isNode
    obtain ⟨wasSent, tranId, kind⟩ := kept.current node isNode
    refine ⟨wasSent, ?_, ?_⟩
    · rw [sent node wasSent]
      exact tranId
    · rw [sent node wasSent]
      exact kind
  · intro node member
    rcases List.mem_append.mp member with old | new
    · obtain ⟨header, msgLen⟩ := extended.old node (kept.below (List.mem_append_right _ old))
      rw [header, msgLen]
      exact kept.sized node old
    · rw [mem_singleton.mp new]
      exact ⟨extended.sized, extended.odd⟩
  · intro msg member node isNode
    exact (kept.answers msg member node isNode).congr (sent node (kept.current node isNode).1)
  · intro entry member
    obtain ⟨node, wasSent, isNode, matches'⟩ := kept.own entry member
    exact ⟨node, wasSent, isNode, fun msg isMsg => (matches' msg isMsg).congr (sent node wasSent)⟩

theorem Kept.sendNow (idle : client.conn.outType = 0) (extended : Extended client memory)
    {conn : SRpcConn} (outType : conn.outType = (memory client.requests).header.msgType)
    (outTranId : conn.outTranId = (memory client.requests).header.tranId)
    (rspReceived : conn.rspReceived = false) (ahandle : Nat) : Kept
      { client with
        conn := conn, ahandle := ahandle, memory := memory, pMsgNode := some client.requests
        assertFailed := client.assertFailed || client.pMsgNode.isSome
        requests := client.requests + 1, sent := client.sent ++ [client.requests] } [] := by
  have nothing := kept.idle.mp idle
  have none' := kept.empty nothing
  have order := kept.order
  rw [none', List.append_nil] at order
  have queue := kept.queue
  rw [none'] at queue
  have unread : client.tasks ++ client.running = [] := by
    by_contra pending
    exact kept.waits pending idle
  have busy : conn.outType ≠ 0 := by
    have odd := extended.odd
    rw [outType]
    omega
  have sent : ∀ node ∈ client.sent, (memory node).header = (client.memory node).header :=
    fun node member => kept.old extended (mem_append_left _ member)
  refine ⟨?_, ⟨queue.chain, queue.last, queue.distinct⟩, ?_, iff_of_false busy ?_, fun _ => rfl, ?_,
    ?_, kept.alone, fun _ => unread, ?_, ?_, ?_, ?_, ?_, kept.once⟩
  · rw [nothing, kept.assertion]
    rfl
  · rw [List.append_nil, order, List.range_succ]
  · exact Option.some_ne_none _
  · intro node isNode
    cases isNode
    exact ⟨List.mem_concat_self, outTranId, outType⟩
  · intro node member
    cases member
  · intro received
    rw [rspReceived] at received
    cases received
  · intro msg member
    rw [(List.append_eq_nil_iff.mp unread).1] at member
    cases member
  · intro _
    exact busy
  · intro _ _ node isNode member
    cases isNode
    obtain ⟨entry, inLog, isEntry⟩ := mem_map.mp member
    obtain ⟨other, wasSent, isOther, -⟩ := kept.own entry inLog
    have same := Option.some.inj (isOther.symm.trans isEntry)
    have below := kept.below (mem_append_left _ wasSent)
    omega
  · intro entry member
    obtain ⟨node, wasSent, isNode, matches'⟩ := kept.own entry member
    exact ⟨node, mem_append_left _ wasSent, isNode,
      fun msg isMsg => (matches' msg isMsg).congr (sent node wasSent)⟩

end

variable {header : STaosHeader}

theorem extended_update (client : QueueConn) (odd : header.msgType % 2 = 1)
    (contLen ahandle : Nat) : Extended client
      (update client.memory client.requests (msgNode client header contLen ahandle)) := by
  refine ⟨?_, ?_, ?_⟩
  · intro node below
    rw [update_of_ne (Nat.ne_of_lt below)]
    exact ⟨rfl, rfl⟩
  · rw [update_self, msgNode]
    simp only
    omega
  · rw [update_self]
    exact odd

section

variable (memory : Nat -> SMsgNode) (tail : Nat) (link : Option Nat)

theorem setNext_fields (node : Nat) :
    (setNext memory tail link node).header = (memory node).header ∧
      (setNext memory tail link node).msgLen = (memory node).msgLen := by
  unfold setNext
  by_cases same : node = tail
  · rw [same, update_self]
    exact ⟨rfl, rfl⟩
  · rw [update_of_ne same]
    exact ⟨rfl, rfl⟩

theorem setNext_next : (fun node => (setNext memory tail link node).next) =
      update (fun node => (memory node).next) tail link := by
  funext node
  unfold setNext
  by_cases same : node = tail
  · rw [same, update_self, update_self]
  · rw [update_of_ne same, update_of_ne same]

end

theorem Kept.send (kept : Kept client waiting) {header : STaosHeader}
    (odd : header.msgType % 2 = 1) (contLen ahandle : Nat) :
    ∃ waiting, Kept (taosSendMsgToPeerH client header contLen ahandle) waiting := by
  have extended := extended_update client odd contLen ahandle
  have queue : Queue (fun node => (update client.memory client.requests
      (msgNode client header contLen ahandle) node).next) client.pHead client.pTail waiting := by
    apply kept.queue.congr
    intro node member
    rw [update_of_ne (Nat.ne_of_lt (kept.below (List.mem_append_right _ member)))]
  have ends : (update client.memory client.requests
      (msgNode client header contLen ahandle) client.requests).next = none := by
    rw [update_self]
    rfl
  unfold taosSendMsgToPeerH
  by_cases busy : client.conn.outType ≠ 0
  · simp only [if_pos busy]
    cases last : client.pTail with
    | none =>
      rw [last] at queue
      exact ⟨_, kept.enqueue busy extended (queue.enter ends)⟩
    | some tail =>
      rw [last] at queue
      refine ⟨_, kept.enqueue busy ⟨?_, ?_, ?_⟩ ?_⟩
      · intro node below
        obtain ⟨sameHeader, sameLen⟩ := setNext_fields (update client.memory
          client.requests (msgNode client header contLen ahandle)) tail (some client.requests) node
        rw [sameHeader, sameLen]
        exact extended.old node below
      · rw [(setNext_fields _ _ _ _).2]
        exact extended.sized
      · rw [(setNext_fields _ _ _ _).1]
        exact extended.odd
      · rw [setNext_next]
        exact queue.push ends (requests_fresh kept)
  · simp only [if_neg busy]
    refine ⟨_, kept.sendNow (not_not.mp busy) extended ?_ ?_ rfl _⟩
    · rw [update_self]
      rfl
    · rw [update_self]
      rfl

theorem processResponse_cases (conn : SRpcConn) (header : STaosHeader) :
    (processResponse conn header).2.outType = conn.outType ∧
      (processResponse conn header).2.outTranId = conn.outTranId ∧
      ((processResponse conn header).1 ≠ success ∧
          (processResponse conn header).2.rspReceived = conn.rspReceived ∨
        (processResponse conn header).1 = success ∧
          (processResponse conn header).2.rspReceived = true ∧ conn.rspReceived = false ∧
          conn.outType ≠ 0 ∧ header.tranId = conn.outTranId ∧
          header.msgType = conn.outType + 1) := by
  have unexpected : unexpectedResponse ≠ success := by decide
  have invalidId : invalidTranId ≠ success := by decide
  have invalidType : invalidResponseType ≠ success := by decide
  have processed : alreadyProcessed ≠ success := by decide
  unfold processResponse
  simp only
  split
  · exact ⟨rfl, rfl, Or.inl ⟨unexpected, rfl⟩⟩
  rename_i busy
  split
  · exact ⟨rfl, rfl, Or.inl ⟨invalidId, rfl⟩⟩
  rename_i own
  split
  · exact ⟨rfl, rfl, Or.inl ⟨invalidType, rfl⟩⟩
  rename_i kind
  split
  · exact ⟨rfl, rfl, Or.inl ⟨processed, rfl⟩⟩
  split
  · exact ⟨rfl, rfl, Or.inl ⟨processed, rfl⟩⟩
  split
  · exact ⟨rfl, rfl, Or.inl ⟨unexpected, rfl⟩⟩
  rename_i unread
  exact ⟨rfl, rfl, Or.inr ⟨rfl, rfl, Bool.eq_false_iff.mpr unread, busy, not_not.mp own,
    not_not.mp kind⟩⟩

theorem scheduledFor_fields {msg : STaosHeader} (isMsg : scheduledFor header = some msg) :
    msg.tranId = header.tranId ∧ msg.msgType = header.msgType := by
  unfold scheduledFor at isMsg
  by_cases progress : header.code = actionInProgress
  · rw [if_pos progress] at isMsg
    cases isMsg
    exact ⟨rfl, rfl⟩
  · rw [if_neg progress] at isMsg
    simp only at isMsg
    split at isMsg
    · cases isMsg
    · cases isMsg
      exact ⟨rfl, rfl⟩

theorem Kept.receive (kept : Kept client waiting) (header : STaosHeader) :
    Kept (receiveResponse client header) waiting := by
  obtain ⟨outType, outTranId, refused | ⟨accepted, received, unread, busy, own, kind⟩⟩ :=
    processResponse_cases client.conn header
  · unfold receiveResponse
    simp only [if_neg refused.1]
    exact kept.congr outType outTranId refused.2
  · unfold receiveResponse
    simp only [if_pos accepted]
    apply kept.schedule outType outTranId received busy unread
    intro msg isMsg node isNode
    obtain ⟨-, tranId, msgType⟩ := kept.current node isNode
    obtain ⟨sameId, sameType⟩ := scheduledFor_fields isMsg
    refine ⟨?_, ?_⟩
    · rw [sameId, own, tranId]
    · rw [sameType, kind, msgType]

theorem Kept.timer (kept : Kept client waiting) : Kept (taosProcessTaosTimer client) waiting := by
  unfold taosProcessTaosTimer
  by_cases nothing : ¬ client.conn.timer ∨ client.conn.rspReceived ∨ client.conn.outType = 0
  · rw [if_pos nothing]
    exact kept
  · rw [if_neg nothing]
    obtain ⟨-, pending⟩ := not_or.mp nothing
    obtain ⟨unread, busy⟩ := not_or.mp pending
    simp only
    split
    · split
      · exact kept.congr rfl rfl rfl
      · exact kept.congr rfl rfl rfl
    · refine kept.schedule ?_ ?_ ?_ busy (Bool.eq_false_iff.mpr unread) ?_
      · rfl
      · rfl
      · rfl
      intro msg isMsg
      cases isMsg

theorem Kept.tcp (kept : Kept client waiting) : Kept (receiveTcp client) waiting := by
  unfold receiveTcp
  split
  · exact kept.congr rfl rfl rfl
  · exact kept

variable {later : List (Option STaosHeader)} {msg : Option STaosHeader}

section

variable (kept : Kept client waiting)
include kept

/-- The application is given what is scheduled: it is the only thing for the
outstanding request. -/
theorem Kept.take (isOpen : client.closed = false) (tasks : client.tasks = msg :: later) : Kept
      { client with
        tasks := later, running := client.running ++ [msg]
        completed := client.completed ++ [(client.pMsgNode, msg)] } waiting := by
  have alone := kept.alone
  rw [tasks, length_append, length_cons] at alone
  have noLater : later = [] := length_eq_zero_iff.mp (by omega)
  have noRunning : client.running = [] := length_eq_zero_iff.mp (by omega)
  have pending : client.tasks ++ client.running ≠ [] := by
    rw [tasks]
    exact List.cons_ne_nil _ _
  have busy := kept.waits pending
  obtain ⟨node, isNode⟩ := Option.ne_none_iff_exists'.mp (mt kept.idle.mpr busy)
  have unseen := kept.fresh isOpen noRunning node isNode
  refine ⟨kept.assertion, kept.queue, kept.order, kept.idle, kept.empty, kept.current, kept.sized,
    ?_, ?_, kept.busy, ?_, fun _ => busy, ?_, ?_, ?_⟩
  · rw [noLater, noRunning]
    exact le_rfl
  · intro unread
    exact absurd (kept.quiet unread) pending
  · intro other member
    rw [noLater] at member
    cases member
  · intro _ nothing
    rw [noRunning] at nothing
    cases nothing
  · intro entry member
    rcases List.mem_append.mp member with old | new
    · exact kept.own entry old
    · cases mem_singleton.mp new
      refine ⟨node, (kept.current node isNode).1, isNode, ?_⟩
      intro other isOther
      refine kept.answers other ?_ node isNode
      rw [tasks, <- isOther]
      exact mem_cons_self
  · rw [List.map_append, isNode]
    apply List.Nodup.append kept.once (List.nodup_singleton _)
    exact List.disjoint_singleton.mpr unseen

theorem Kept.close (running : client.running = msg :: later) :
    Kept { client with running := later, closed := true } waiting := by
  have alone := kept.alone
  rw [running, length_append, length_cons] at alone
  have pending : client.tasks ++ client.running ≠ [] := by
    rw [running]
    exact List.append_ne_nil_of_right_ne_nil _ (List.cons_ne_nil _ _)
  refine ⟨kept.assertion, kept.queue, kept.order, kept.idle, kept.empty, kept.current, kept.sized,
    ?_, ?_, kept.busy, kept.answers, fun _ => kept.waits pending, ?_, kept.own, kept.once⟩
  · have bound : (client.tasks ++ later).length ≤ 1 := by
      rw [length_append]
      omega
    exact bound
  · intro unread
    exact absurd (kept.quiet unread) pending
  · intro isOpen
    cases isOpen

theorem Kept.respond (running : client.running = msg :: later) (ahandle : Nat) : ∃ waiting,
      Kept (taosProcessResponse { client with running := later, ahandle := ahandle }) waiting := by
  have alone := kept.alone
  rw [running, length_append, length_cons] at alone
  have noLater : later = [] := length_eq_zero_iff.mp (by omega)
  have noTasks : client.tasks = [] := length_eq_zero_iff.mp (by omega)
  have nothing : client.tasks ++ later = [] := by
    rw [noLater, noTasks]
    rfl
  unfold taosProcessResponse
  cases first : client.pHead with
  | none =>
    have none' : waiting = [] := kept.queue.first_eq_none.mp first
    refine ⟨[], ?_⟩
    subst none'
    refine ⟨kept.assertion, ?_, kept.order, iff_of_true rfl rfl, fun _ => rfl, ?_, kept.sized, ?_,
      fun _ => nothing, ?_, ?_, fun pending => absurd nothing pending, ?_, kept.own, kept.once⟩
    · have queue := kept.queue
      rw [first] at queue
      exact queue
    · intro node isNode
      cases isNode
    · rw [nothing]
      exact Nat.zero_le _
    · intro received
      cases received
    all_goals
      intro _ _ node isNode
      cases isNode
  | some node =>
    have queue := kept.queue
    rw [first] at queue
    obtain ⟨rest, rfl, popped⟩ := queue.pop
    obtain ⟨sized, odd⟩ := kept.sized node mem_cons_self
    have order := kept.order
    have distinct : (client.sent ++ node :: rest).Nodup := by
      rw [order]
      exact List.nodup_range
    have apart := (List.nodup_append.mp distinct).2.2
    refine ⟨rest, ?_⟩
    simp only
    rw [if_pos sized]
    refine ⟨kept.assertion, ?_, ?_, iff_of_false ?_ (Option.some_ne_none _), ?_, ?_, ?_, ?_,
      fun _ => nothing, ?_, ?_, fun pending => absurd nothing pending, ?_, ?_, kept.once⟩
    · exact popped
    · rw [List.append_assoc]
      exact order
    · intro zero
      have isZero : (client.memory node).header.msgType = 0 := zero
      omega
    · intro none'
      cases none'
    · intro other isNode
      cases isNode
      exact ⟨List.mem_concat_self, rfl, rfl⟩
    · exact fun other member => kept.sized other (List.mem_cons_of_mem _ member)
    · rw [nothing]
      exact Nat.zero_le _
    · intro received
      cases received
    · intro other member
      rw [noTasks] at member
      cases member
    · intro _ _ other isNode member
      cases isNode
      obtain ⟨entry, inLog, isEntry⟩ := mem_map.mp member
      obtain ⟨old, wasSent, isOld, -⟩ := kept.own entry inLog
      have same := Option.some.inj (isOld.symm.trans isEntry)
      exact apart old wasSent node mem_cons_self same
    · intro entry member
      obtain ⟨old, wasSent, isOld, matches'⟩ := kept.own entry member
      exact ⟨old, mem_append_left _ wasSent, isOld, matches'⟩

theorem Kept.step (event : QueueEvent) : ∃ waiting, Kept (queueStep client event) waiting := by
  unfold queueStep
  by_cases closed : client.closed = true
  · rw [if_pos closed]
    exact ⟨waiting, kept⟩
  rw [if_neg closed]
  cases event with
  | send header contLen ahandle =>
    simp only
    split
    · rename_i odd
      exact kept.send odd contLen ahandle
    · exact ⟨waiting, kept⟩
  | receive header =>
    simp only
    split
    · exact ⟨waiting, kept.receive header⟩
    · exact ⟨waiting, kept⟩
  | receiveTcp => exact ⟨waiting, kept.tcp⟩
  | timer => exact ⟨waiting, kept.timer⟩
  | take =>
    cases tasks : client.tasks with
    | nil => exact ⟨waiting, kept⟩
    | cons msg later => exact ⟨waiting, kept.take (Bool.eq_false_iff.mpr closed) tasks⟩
  | finish ahandle =>
    cases running : client.running with
    | nil => exact ⟨waiting, kept⟩
    | cons msg later =>
      simp only
      split
      · exact ⟨waiting, kept.close running⟩
      · exact kept.respond running ahandle

end

theorem queueRun_kept (events : List QueueEvent) : ∀ {client : QueueConn} {waiting : List Nat},
    Kept client waiting -> ∃ waiting, Kept (queueRun client events) waiting := by
  induction events with
  | nil => exact fun kept => ⟨_, kept⟩
  | cons event events ih =>
    intro client waiting kept
    obtain ⟨next, nextKept⟩ := kept.step event
    exact ih nextKept

end Step

/-- The queue is in order in every state a connection reaches. -/
theorem queueRun_inOrder (conn : SRpcConn) (spi ahandle : Nat) (memory : Nat -> SMsgNode)
    (events : List QueueEvent) : InOrder (queueRun (newQueue conn spi ahandle memory) events) := by
  obtain ⟨waiting, kept⟩ := queueRun_kept events (newQueue_kept conn spi ahandle memory)
  exact kept.inOrder

end Luomi.Rpc.SendQueue
