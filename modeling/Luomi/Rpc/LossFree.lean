import Luomi.Rpc.Connection

/-!
# Runs without loss

The network delivers every packet once and in order, and the application of the
server answers every request it is handed.  A new server connection remembers the
transaction id 0 although no request has arrived, so a first request with that id
is taken for one already processed.
-/

namespace Luomi.Rpc.LossFree

/-- A client and a server connection and the messages between them in the order
they were sent.  A client connection that was closed is gone. -/
structure Link where
  client : Option SRpcConn
  server : SRpcConn
  toServer : List Request
  toClient : List STaosHeader
  tasks : List STaosHeader
  requests : Nat
  /-- What `taosProcessMsgHeader` returned for the requests and the answers. -/
  codes : List Nat

inductive LinkEvent where
  /-- The application of the client sends a request. -/
  | send (msgType : Nat)
  | serverReceives
  /-- The application of the server answers the request it has been handed. -/
  | answer (code : Nat)
  | clientReceives
  /-- `taosProcessSchedMsg` on the client: its application may give the connection up. -/
  | clientTask (keeps : Bool)

def serverReceives (link : Link) (msg : Request) (later : List Request) : Link :=
  let (code, server, sent) := taosProcessMsgHeader link.server msg.header
  let errors := if code = success ∨ code = alreadyProcessed then []
    else [taosBuildErrorMsgToPeer msg.header code]
  { link with
    server := server
    toServer := later
    toClient := link.toClient ++ sent ++ errors
    codes := link.codes ++ [code] }

section

variable (link : Link) (client : SRpcConn) (header : STaosHeader) (later : List STaosHeader)

def clientReceives : Link :=
  let (code, client, _) := taosProcessMsgHeader client header
  { link with
    client := some client
    toClient := later
    tasks := if code = success then link.tasks ++ [header] else link.tasks
    codes := if header.code = actionInProgress then link.codes else link.codes ++ [code] }

/-- The application of the client takes a response; one that says that the session
exists closes the connection. -/
def clientTask (keeps : Bool) : Link :=
  if keeps = false ∨ header.code = sessionAlreadyExist then
    { link with client := none, tasks := later }
  else
    let (client, sent) := taosProcessResponse client
    { link with client := some client, toServer := link.toServer ++ sent, tasks := later }

end

/-- A step; `none` where there is nothing to send, to take or to answer. -/
def linkStep (link : Link) : LinkEvent -> Option Link
  | .send msgType =>
    match link.client with
    | none => none
    | some client =>
      if msgType % 2 = 1 then
        let (header, client) := taosBuildReqMsgWithSize client msgType
        let (client, sent) := sendRequest client ⟨header, link.requests⟩
        some { link with
          client := some client
          toServer := link.toServer ++ sent
          requests := link.requests + 1 }
      else none
  | .serverReceives =>
    match link.toServer with
    | [] => none
    | msg :: later => some (serverReceives link msg later)
  | .answer code =>
    if link.server.inType ≠ 0 ∧ code ≠ actionInProgress ∧ code ≠ notReady then
      let msg := taosBuildRspMsgWithSize link.server (link.server.inType + 1) code
      some { link with
        server := sendResponse link.server msg
        toClient := link.toClient ++ [msg] }
    else none
  | .clientReceives =>
    match link.client, link.toClient with
    | some client, header :: later => some (clientReceives link client header later)
    | _, _ => none
  | .clientTask keeps =>
    match link.client, link.tasks with
    | some client, header :: later => some (clientTask link client header later keeps)
    | _, _ => none

def linkRun : Link -> List LinkEvent -> Option Link
  | link, [] => some link
  | link, event :: events => do
      let next <- linkStep link event
      linkRun next events

def newLink (clientSid : Nat) (clientId : UInt32) (tranId : UInt16) (serverSid : Nat)
    (serverId : UInt32) (serverTranId : UInt16) : Link where
  client := some (newConn clientSid clientId tranId)
  server := newConn serverSid serverId serverTranId
  toServer := []
  toClient := []
  tasks := []
  requests := 0
  codes := []

def AllAccepted (link : Link) : Prop :=
  ∀ code ∈ link.codes, code = success

theorem nextTranId_ne (conn : SRpcConn) : nextTranId conn ≠ conn.tranId := by
  unfold nextTranId
  split
  · rename_i zero
    rw [zero]
    decide
  · intro same
    have values := congrArg UInt16.toNat same
    rw [UInt16.toNat_add] at values
    simp only [UInt16.toNat_one] at values
    omega

theorem nextTranId_eq_zero (conn : SRpcConn) : nextTranId conn = 0 ↔ conn.tranId = 0xFFFF := by
  unfold nextTranId
  split
  · rename_i zero
    rw [zero]
    decide
  · constructor
    · intro isZero
      apply UInt16.toNat_inj.mp
      have values := congrArg UInt16.toNat isZero
      rw [UInt16.toNat_add] at values
      have below := UInt16.toNat_lt conn.tranId
      simp only [UInt16.toNat_one, UInt16.toNat_zero] at values
      change conn.tranId.toNat = 65535
      omega
    · intro isLast
      rw [isLast]
      decide

/-- The requests behind a transaction id: neighbours differ, the next request
included. -/
structure Queued (client : SRpcConn) (known : UInt16) : Prop where
  kind : ∀ msg ∈ client.queue, msg.header.sourceId = client.ownId ∧ msg.header.msgType % 2 = 1
  apart : List.IsChain (· ≠ ·)
    (known :: (client.queue.map fun msg => msg.header.tranId) ++ [nextTranId client])

variable {client : SRpcConn} {header : STaosHeader} {tranId : UInt16}

section

variable {known : UInt16} (queued : Queued client known)

include queued

theorem Queued.congr {next : SRpcConn} (queue : next.queue = client.queue)
    (ownId : next.ownId = client.ownId) (tranId : next.tranId = client.tranId) :
    Queued next known := by
  refine ⟨?_, ?_⟩
  · rw [queue, ownId]
    exact queued.kind
  · have same : nextTranId next = nextTranId client := by
      rw [nextTranId, tranId, nextTranId]
    rw [queue, same]
    exact queued.apart

variable {msg : Request}

theorem Queued.push {next : SRpcConn}
    (kind : msg.header.sourceId = client.ownId ∧ msg.header.msgType % 2 = 1)
    (built : msg.header.tranId = nextTranId client) (queue : next.queue = client.queue ++ [msg])
    (ownId : next.ownId = client.ownId) (tranId : next.tranId = nextTranId client) :
    Queued next known := by
  refine ⟨?_, ?_⟩
  · intro other member
    rw [queue] at member
    rw [ownId]
    rcases List.mem_append.mp member with old | new
    · exact queued.kind other old
    · cases List.mem_singleton.mp new
      exact kind
  · rw [queue, List.map_append, <- List.cons_append]
    apply List.IsChain.append
    · rw [List.map_singleton, built]
      exact queued.apart
    · exact List.isChain_singleton _
    · intro last isLast other isNext
      rw [List.map_singleton, List.getLast?_concat] at isLast
      cases Option.some.inj isLast
      cases Option.some.inj isNext
      rw [built, <- tranId]
      exact (nextTranId_ne next).symm

theorem Queued.pop {later : List Request} (queue : client.queue = msg :: later) :
    (known ≠ msg.header.tranId ∧ msg.header.sourceId = client.ownId ∧
      msg.header.msgType % 2 = 1) ∧ Queued { client with queue := later } msg.header.tranId := by
  have apart := queued.apart
  rw [queue, List.map_cons, List.cons_append, List.cons_append, List.isChain_cons_cons] at apart
  have kind := queued.kind
  rw [queue] at kind
  exact ⟨⟨apart.1, kind msg List.mem_cons_self⟩,
    ⟨fun other member => kind other (List.mem_cons_of_mem _ member), apart.2⟩⟩

end

theorem sendRequest_free {client : SRpcConn} (free : client.outType = 0) (msg : Request) :
    sendRequest client msg =
      ({ client with
        outType := msg.header.msgType, outTranId := msg.header.tranId, pMsgNode := some msg,
        rspReceived := false, timer := true }, [msg]) :=
  if_neg fun busy => busy free

theorem sendRequest_busy {client : SRpcConn} (busy : client.outType ≠ 0) (msg : Request) :
    sendRequest client msg = ({ client with queue := client.queue ++ [msg] }, []) :=
  if_pos busy

variable {conn : SRpcConn}

theorem processRequest_accepts
    (peer : conn.peerId = 0 ∨ conn.peerId = header.sourceId) (idle : conn.inType = 0)
    (fresh : conn.inTranId ≠ header.tranId) :
    processRequest conn header =
      (success, { conn with
          peerId := header.sourceId, inTranId := header.tranId, inType := header.msgType },
        if conn.sid = 0 then [⟨header.msgType + 1, header.tranId, conn.ownId, actionInProgress⟩]
        else []) := by
  have known : (if conn.peerId = 0 then { conn with peerId := header.sourceId } else conn) =
      { conn with peerId := header.sourceId } := by
    split
    · rfl
    · rename_i named
      rw [<- peer.resolve_left named]
  unfold processRequest
  simp only [known]
  rw [if_neg fun differs => differs rfl, if_neg fresh, if_neg fun busy => busy idle]
  rfl

structure Waits (client : SRpcConn) (msgType : Nat) (tranId : UInt16) : Prop where
  outType : client.outType = msgType
  odd : msgType % 2 = 1
  outTranId : client.outTranId = tranId
  rspReceived : client.rspReceived = false

section

variable {msgType : Nat} (waits : Waits client msgType tranId)

include waits

theorem Waits.busy : client.outType ≠ 0 := by
  have odd := waits.odd
  rw [waits.outType]
  omega

theorem processResponse_accepts (own : header.tranId = tranId) (kind : header.msgType = msgType + 1)
    (ready : header.code ≠ notReady) (finished : header.code ≠ actionInProgress) :
    processResponse client header =
      (success, { client with
          peerId := header.sourceId, timer := false, retry := 0, tretry := 0,
          rspReceived := true }) := by
  unfold processResponse
  simp only
  rw [if_neg waits.busy, if_neg (not_not.mpr (own.trans waits.outTranId.symm)),
    if_neg (not_not.mpr (kind.trans (congrArg (· + 1) waits.outType.symm))), if_neg ready,
    if_neg fun progress => finished progress.1, waits.rspReceived]
  rfl

theorem processResponse_progress (own : header.tranId = tranId)
    (kind : header.msgType = msgType + 1) (progress : header.code = actionInProgress)
    (patient : client.tretry = 0) : processResponse client header =
      (alreadyProcessed, { client with
          peerId := header.sourceId, timer := true, retry := 0, tretry := 1 }) := by
  have ready : header.code ≠ notReady := by
    rw [progress]
    decide
  unfold processResponse
  simp only
  rw [if_neg waits.busy, if_neg (not_not.mpr (own.trans waits.outTranId.symm)),
    if_neg (not_not.mpr (kind.trans (congrArg (· + 1) waits.outType.symm))), if_neg ready,
    if_pos ⟨progress, by rw [patient]; exact Nat.zero_le _⟩, patient]

end

/-- What the server may have sent before the answer, while the client has not asked
again. -/
def Hints (client : SRpcConn) (msgType : Nat) (tranId : UInt16) (hints : List STaosHeader) :
    Prop :=
  hints = [] ∨ ∃ hint, hints = [hint] ∧ hint.tranId = tranId ∧ hint.msgType = msgType + 1 ∧
    hint.code = actionInProgress ∧ client.tretry = 0

structure Answers (answer : STaosHeader) (msgType : Nat) (tranId : UInt16) : Prop where
  tranId : answer.tranId = tranId
  msgType : answer.msgType = msgType + 1
  finished : answer.code ≠ actionInProgress
  ready : answer.code ≠ notReady

inductive Stage (link : Link) (client : SRpcConn) : Prop where
  | idle (free : client.outType = 0) (queue : client.queue = [])
      (patient : client.tretry = 0) (queued : Queued client link.server.inTranId)
      (served : link.server.inType = 0) (toServer : link.toServer = [])
      (toClient : link.toClient = []) (tasks : link.tasks = [])
  | asked (msg : Request) (waits : Waits client msg.header.msgType msg.header.tranId)
      (own : msg.header.sourceId = client.ownId)
      (fresh : link.server.inTranId ≠ msg.header.tranId)
      (patient : client.tretry = 0) (queued : Queued client msg.header.tranId)
      (served : link.server.inType = 0) (toServer : link.toServer = [msg])
      (toClient : link.toClient = []) (tasks : link.tasks = [])
  | working (waits : Waits client link.server.inType link.server.inTranId)
      (hints : Hints client link.server.inType link.server.inTranId link.toClient)
      (queued : Queued client link.server.inTranId)
      (toServer : link.toServer = []) (tasks : link.tasks = [])
  | answered (msgType : Nat) (waits : Waits client msgType link.server.inTranId)
      (earlier : List STaosHeader) (hints : Hints client msgType link.server.inTranId earlier)
      (answer : STaosHeader) (answers : Answers answer msgType link.server.inTranId)
      (queued : Queued client link.server.inTranId)
      (served : link.server.inType = 0) (toServer : link.toServer = [])
      (toClient : link.toClient = earlier ++ [answer]) (tasks : link.tasks = [])
  | handed (header : STaosHeader) (busy : client.outType ≠ 0) (patient : client.tretry = 0)
      (queued : Queued client link.server.inTranId)
      (served : link.server.inType = 0) (toServer : link.toServer = [])
      (toClient : link.toClient = []) (tasks : link.tasks = [header])

/-- Nothing has been refused, and every request is in order. -/
structure Orderly (link : Link) : Prop where
  accepted : AllAccepted link
  peer : ∀ client, link.client = some client ->
    link.server.peerId = 0 ∨ link.server.peerId = client.ownId
  stage : ∀ client, link.client = some client -> Stage link client
  closed : link.client = none ->
    link.server.inType = 0 ∧ link.toServer = []

theorem AllAccepted.concat {link next : Link} (accepted : AllAccepted link)
    (codes : next.codes = link.codes ++ [success]) : AllAccepted next := by
  intro code member
  rw [codes] at member
  rcases List.mem_append.mp member with old | new
  · exact accepted code old
  · exact List.mem_singleton.mp new

theorem Orderly.of_client {link : Link} {client : SRpcConn} (accepted : AllAccepted link)
    (isClient : link.client = some client)
    (peer : link.server.peerId = 0 ∨ link.server.peerId = client.ownId)
    (stage : Stage link client) : Orderly link := by
  refine ⟨accepted, ?_, ?_, ?_⟩
  · intro other same
    cases isClient.symm.trans same
    exact peer
  · intro other same
    cases isClient.symm.trans same
    exact stage
  · intro gone
    cases isClient.symm.trans gone

section Step

variable {link : Link} {client : SRpcConn}

theorem Stage.queue (stage : Stage link client) (busy : client.outType ≠ 0) {msg : Request}
    (kind : msg.header.sourceId = client.ownId ∧ msg.header.msgType % 2 = 1)
    (built : msg.header.tranId = nextTranId client) :
    Stage
      { link with
        client := some { client with tranId := nextTranId client, queue := client.queue ++ [msg] }
        requests := link.requests + 1 }
      { client with tranId := nextTranId client, queue := client.queue ++ [msg] } := by
  cases stage with
  | idle free => exact absurd free busy
  | asked first waits own fresh patient queued served toServer toClient tasks =>
    exact Stage.asked first ⟨waits.outType, waits.odd, waits.outTranId, waits.rspReceived⟩ own
      fresh patient (queued.push kind built rfl rfl rfl) served toServer toClient tasks
  | working waits hints queued toServer tasks =>
    exact Stage.working ⟨waits.outType, waits.odd, waits.outTranId, waits.rspReceived⟩ hints
      (queued.push kind built rfl rfl rfl) toServer tasks
  | answered msgType waits earlier hints answer answers queued served toServer toClient tasks =>
    exact Stage.answered msgType
      ⟨waits.outType, waits.odd, waits.outTranId, waits.rspReceived⟩ earlier hints answer answers
      (queued.push kind built rfl rfl rfl) served toServer toClient tasks
  | handed header busy patient queued served toServer toClient tasks =>
    exact Stage.handed header busy patient (queued.push kind built rfl rfl rfl) served toServer
      toClient tasks

theorem Orderly.send {next : Link} (orderly : Orderly link) {msgType : Nat}
    (stepped : linkStep link (.send msgType) = some next) : Orderly next := by
  cases isClient : link.client with
  | none =>
    simp only [linkStep, isClient] at stepped
    cases stepped
  | some client =>
    simp only [linkStep, isClient] at stepped
    by_cases odd : msgType % 2 = 1
    · rw [if_pos odd] at stepped
      have peer := orderly.peer client isClient
      have stage := orderly.stage client isClient
      by_cases busy : client.outType = 0
      · cases stage with
        | idle free queue patient queued served toServer toClient tasks =>
          have apart := queued.apart
          rw [queue] at apart
          have sent := @sendRequest_free { client with tranId := nextTranId client } free
          simp only [taosBuildReqMsgWithSize, sent] at stepped
          cases stepped
          refine Orderly.of_client orderly.accepted rfl peer ?_
          refine Stage.asked ⟨⟨msgType, nextTranId client, client.ownId, 0⟩, link.requests⟩
            ⟨rfl, odd, rfl, rfl⟩ rfl ?_ patient ⟨?_, ?_⟩ served ?_ toClient tasks
          · exact (List.isChain_cons_cons.mp apart).1
          · intro msg member
            rw [queue] at member
            cases member
          · rw [queue]
            apply List.isChain_pair.mpr
            exact (nextTranId_ne { client with tranId := nextTranId client }).symm
          · rw [toServer]
            rfl
        | asked _ waits => exact absurd busy waits.busy
        | working waits => exact absurd busy waits.busy
        | answered _ waits => exact absurd busy waits.busy
        | handed _ occupied => exact absurd busy occupied
      · have sent := @sendRequest_busy { client with tranId := nextTranId client } busy
        simp only [taosBuildReqMsgWithSize, sent] at stepped
        cases stepped
        rw [List.append_nil]
        exact Orderly.of_client orderly.accepted rfl peer (stage.queue busy ⟨rfl, odd⟩ rfl)
    · rw [if_neg odd] at stepped
      cases stepped

variable {next : Link}

theorem Orderly.serverReceives (orderly : Orderly link)
    (stepped : linkStep link .serverReceives = some next) : Orderly next := by
  simp only [linkStep] at stepped
  cases isClient : link.client with
  | none =>
    rw [(orderly.closed isClient).2] at stepped
    cases stepped
  | some client =>
    cases orderly.stage client isClient with
    | asked msg waits own fresh patient queued served toServer toClient tasks =>
      have peer : link.server.peerId = 0 ∨ link.server.peerId = msg.header.sourceId := by
        rw [own]
        exact orderly.peer client isClient
      have branch : taosProcessMsgHeader link.server msg.header =
          processRequest link.server msg.header := if_pos waits.odd
      rw [toServer] at stepped
      cases stepped
      refine @Orderly.of_client _ client ?_ ?_ ?_ ?_
      · refine orderly.accepted.concat ?_
        unfold LossFree.serverReceives
        rw [branch, processRequest_accepts peer served fresh]
      · exact isClient
      · unfold LossFree.serverReceives
        rw [branch, processRequest_accepts peer served fresh]
        exact Or.inr own
      · unfold LossFree.serverReceives
        rw [branch, processRequest_accepts peer served fresh]
        refine Stage.working ⟨waits.outType, waits.odd, waits.outTranId, waits.rspReceived⟩ ?_
          queued rfl tasks
        rw [toClient]
        by_cases quick : link.server.sid = 0
        · rw [if_pos quick]
          exact Or.inr ⟨_, rfl, rfl, rfl, rfl, patient⟩
        · rw [if_neg quick]
          exact Or.inl rfl
    | idle _ _ _ _ _ toServer => rw [toServer] at stepped; cases stepped
    | working _ _ _ toServer => rw [toServer] at stepped; cases stepped
    | answered _ _ _ _ _ _ _ _ toServer => rw [toServer] at stepped; cases stepped
    | handed _ _ _ _ _ toServer => rw [toServer] at stepped; cases stepped

theorem Orderly.answer (orderly : Orderly link) {code : Nat}
    (stepped : linkStep link (.answer code) = some next) : Orderly next := by
  simp only [linkStep] at stepped
  by_cases may : link.server.inType ≠ 0 ∧ code ≠ actionInProgress ∧ code ≠ notReady
  · rw [if_pos may] at stepped
    cases stepped
    obtain ⟨serving, finished, ready⟩ := may
    cases isClient : link.client with
    | none => exact absurd (orderly.closed isClient).1 serving
    | some client =>
      have known : (sendResponse link.server
          (taosBuildRspMsgWithSize link.server (link.server.inType + 1) code)).inTranId =
          link.server.inTranId := if_neg finished
      refine Orderly.of_client orderly.accepted rfl (orderly.peer client isClient) ?_
      cases orderly.stage client isClient with
      | working waits hints queued toServer tasks =>
        refine Stage.answered link.server.inType ?_ link.toClient ?_
          (taosBuildRspMsgWithSize link.server (link.server.inType + 1) code) ?_ ?_ rfl
          toServer rfl tasks
        · rw [known]
          exact waits
        · rw [known]
          exact hints
        · rw [known]
          exact ⟨rfl, rfl, finished, ready⟩
        · rw [known]
          exact queued
      | idle _ _ _ _ served => exact absurd served serving
      | asked _ _ _ _ _ _ served => exact absurd served serving
      | answered _ _ _ _ _ _ _ served => exact absurd served serving
      | handed _ _ _ _ served => exact absurd served serving
  · rw [if_neg may] at stepped
    cases stepped

theorem taosProcessMsgHeader_response {msgType : Nat} (odd : msgType % 2 = 1)
    {header : STaosHeader} (kind : header.msgType = msgType + 1) :
    taosProcessMsgHeader client header =
      ((processResponse client header).1, (processResponse client header).2, []) := by
  refine if_neg ?_
  rw [kind]
  omega

theorem actionInProgress_refused : alreadyProcessed ≠ success := by decide

theorem clientReceives_hint {hint : STaosHeader} {msgType : Nat} {tranId : UInt16}
    (waits : Waits client msgType tranId) (own : hint.tranId = tranId)
    (kind : hint.msgType = msgType + 1) (progress : hint.code = actionInProgress)
    (patient : client.tretry = 0) (later : List STaosHeader) :
    clientReceives link client hint later =
      { link with
        client := some
          { client with peerId := hint.sourceId, timer := true, retry := 0, tretry := 1 }
        toClient := later } := by
  unfold LossFree.clientReceives
  rw [taosProcessMsgHeader_response waits.odd kind,
    processResponse_progress waits own kind progress patient]
  simp only [if_pos progress, if_neg actionInProgress_refused]

theorem clientReceives_answer {answer : STaosHeader} {msgType : Nat} {tranId : UInt16}
    (waits : Waits client msgType tranId) (answers : Answers answer msgType tranId)
    (later : List STaosHeader) :
    clientReceives link client answer later =
      { link with
        client := some
          { client with
            peerId := answer.sourceId, timer := false, retry := 0, tretry := 0
            rspReceived := true }
        toClient := later
        tasks := link.tasks ++ [answer]
        codes := link.codes ++ [success] } := by
  unfold LossFree.clientReceives
  rw [taosProcessMsgHeader_response waits.odd answers.msgType,
    processResponse_accepts waits answers.tranId answers.msgType answers.ready answers.finished]
  simp only [if_true, if_neg answers.finished]

theorem Orderly.clientReceives (orderly : Orderly link)
    (stepped : linkStep link .clientReceives = some next) : Orderly next := by
  simp only [linkStep] at stepped
  cases isClient : link.client with
  | none =>
    rw [isClient] at stepped
    cases stepped
  | some client =>
    have peer := orderly.peer client isClient
    rw [isClient] at stepped
    cases orderly.stage client isClient with
    | working waits hints queued toServer tasks =>
      rcases hints with nothing | ⟨hint, toClient, own, kind, progress, patient⟩
      · rw [nothing] at stepped
        cases stepped
      · rw [toClient] at stepped
        cases stepped
        rw [clientReceives_hint waits own kind progress patient]
        refine Orderly.of_client orderly.accepted rfl peer ?_
        exact Stage.working ⟨waits.outType, waits.odd, waits.outTranId, waits.rspReceived⟩
          (Or.inl rfl) (queued.congr rfl rfl rfl) toServer tasks
    | answered msgType waits earlier hints answer answers queued served toServer toClient tasks =>
      rcases hints with nothing | ⟨hint, isHint, own, kind, progress, patient⟩
      · rw [toClient, nothing, List.nil_append] at stepped
        cases stepped
        rw [clientReceives_answer waits answers]
        refine Orderly.of_client (orderly.accepted.concat rfl) rfl peer ?_
        refine Stage.handed answer waits.busy rfl (queued.congr rfl rfl rfl) served toServer rfl ?_
        rw [tasks]
        rfl
      · rw [toClient, isHint, List.singleton_append] at stepped
        cases stepped
        rw [clientReceives_hint waits own kind progress patient]
        refine Orderly.of_client orderly.accepted rfl peer ?_
        exact Stage.answered msgType
          ⟨waits.outType, waits.odd, waits.outTranId, waits.rspReceived⟩ [] (Or.inl rfl)
          answer answers (queued.congr rfl rfl rfl) served toServer rfl tasks
    | idle _ _ _ _ _ _ toClient => rw [toClient] at stepped; cases stepped
    | asked _ _ _ _ _ _ _ _ toClient => rw [toClient] at stepped; cases stepped
    | handed _ _ _ _ _ _ toClient => rw [toClient] at stepped; cases stepped

theorem Orderly.clientTask (orderly : Orderly link) {keeps : Bool}
    (stepped : linkStep link (.clientTask keeps) = some next) : Orderly next := by
  simp only [linkStep] at stepped
  cases isClient : link.client with
  | none =>
    rw [isClient] at stepped
    cases stepped
  | some client =>
    have peer := orderly.peer client isClient
    rw [isClient] at stepped
    cases orderly.stage client isClient with
    | handed header busy patient queued served toServer toClient tasks =>
      rw [tasks] at stepped
      cases stepped
      unfold LossFree.clientTask
      by_cases closes : keeps = false ∨ header.code = sessionAlreadyExist
      · rw [if_pos closes]
        refine ⟨orderly.accepted, ?_, ?_, ?_⟩
        · intro other same
          cases same
        · intro other same
          cases same
        · exact fun _ => ⟨served, toServer⟩
      · rw [if_neg closes]
        refine Orderly.of_client orderly.accepted rfl ?_ ?_
        · unfold taosProcessResponse
          simp only
          split <;> exact peer
        · cases queue : client.queue with
          | nil =>
            unfold taosProcessResponse
            simp only [queue]
            refine Stage.idle rfl rfl patient (queued.congr queue.symm rfl rfl) served ?_
              toClient rfl
            rw [toServer]
            rfl
          | cons msg later =>
            obtain ⟨⟨apart, own, odd⟩, rest⟩ := queued.pop queue
            unfold taosProcessResponse
            simp only [queue]
            refine Stage.asked msg ⟨rfl, odd, rfl, rfl⟩ own apart patient
              (rest.congr rfl rfl rfl) served ?_ toClient rfl
            rw [toServer]
            rfl
    | idle _ _ _ _ _ _ _ tasks => rw [tasks] at stepped; cases stepped
    | asked _ _ _ _ _ _ _ _ _ tasks => rw [tasks] at stepped; cases stepped
    | working _ _ _ _ tasks => rw [tasks] at stepped; cases stepped
    | answered _ _ _ _ _ _ _ _ _ _ tasks => rw [tasks] at stepped; cases stepped

theorem Orderly.step (orderly : Orderly link) {event : LinkEvent}
    (stepped : linkStep link event = some next) : Orderly next := by
  cases event with
  | send msgType => exact orderly.send stepped
  | serverReceives => exact orderly.serverReceives stepped
  | answer code => exact orderly.answer stepped
  | clientReceives => exact orderly.clientReceives stepped
  | clientTask keeps => exact orderly.clientTask stepped

end Step

theorem linkRun_orderly (events : List LinkEvent) : ∀ {link last : Link},
    Orderly link -> linkRun link events = some last -> Orderly last := by
  induction events with
  | nil =>
    intro link last orderly ran
    cases ran
    exact orderly
  | cons event events ih =>
    intro link last orderly ran
    obtain ⟨next, stepped, rest⟩ := Option.bind_eq_some_iff.mp ran
    exact ih (orderly.step stepped) rest

theorem newLink_orderly (ordinary : tranId ≠ 0xFFFF) (clientSid : Nat)
    (clientId : UInt32) (serverSid : Nat) (serverId : UInt32) (serverTranId : UInt16) :
    Orderly (newLink clientSid clientId tranId serverSid serverId serverTranId) := by
  refine Orderly.of_client ?_ rfl (Or.inl rfl) ?_
  · intro code member
    cases member
  · refine Stage.idle rfl rfl rfl ⟨?_, ?_⟩ rfl rfl rfl rfl
    · intro msg member
      cases member
    · apply List.isChain_pair.mpr
      exact fun same => ordinary ((nextTranId_eq_zero (newConn clientSid clientId tranId)).mp
        same.symm)

/-- No request has arrived, and the one under way has the id of a new connection. -/
structure Untouched (link : Link) : Prop where
  codes : link.codes = []
  served : link.server.inType = 0
  known : link.server.inTranId = 0
  peer : link.server.peerId = 0
  first : link.toServer = [] ∨
    ∃ msg, link.toServer = [msg] ∧ msg.header.tranId = 0 ∧ msg.header.msgType % 2 = 1
  toClient : link.toClient = []
  tasks : link.tasks = []
  client : ∃ client, link.client = some client ∧
    (link.toServer = [] -> client.outType = 0 ∧ client.tranId = 0xFFFF) ∧
    (link.toServer ≠ [] -> client.outType ≠ 0)

theorem newLink_untouched (clientSid : Nat) (clientId : UInt32) (serverSid : Nat)
    (serverId : UInt32) (serverTranId : UInt16) :
    Untouched (newLink clientSid clientId 0xFFFF serverSid serverId serverTranId) :=
  ⟨rfl, rfl, rfl, rfl, Or.inl rfl, rfl, rfl, _, rfl, fun _ => ⟨rfl, rfl⟩,
    fun nonempty => absurd rfl nonempty⟩

/-- A new connection takes a request with its own transaction id for an old one. -/
theorem processRequest_repeated (peer : conn.peerId = 0)
    (idle : conn.inType = 0) (odd : header.msgType % 2 = 1) (known : conn.inTranId = header.tranId) :
    (processRequest conn header).1 = alreadyProcessed := by
  have named : conn.inType ≠ header.msgType := by
    rw [idle]
    omega
  unfold processRequest
  simp only [if_pos peer]
  rw [if_neg fun differs => differs rfl, if_pos known, if_neg named, if_pos idle]

variable {event : LinkEvent}

theorem Untouched.step {link next : Link} (untouched : Untouched link)
    (stepped : linkStep link event = some next) : event ≠ .serverReceives ∧ Untouched next ∨
      event = .serverReceives ∧ next.codes = [alreadyProcessed] := by
  obtain ⟨client, isClient, idle, busy⟩ := untouched.client
  cases event with
  | send msgType =>
    refine Or.inl ⟨by simp, ?_⟩
    simp only [linkStep, isClient] at stepped
    by_cases odd : msgType % 2 = 1
    · rw [if_pos odd] at stepped
      rcases untouched.first with nothing | ⟨first, toServer, zero, isRequest⟩
      · obtain ⟨free, last⟩ := idle nothing
        have zero := (nextTranId_eq_zero client).mpr last
        have sent := @sendRequest_free { client with tranId := nextTranId client } free
        simp only [taosBuildReqMsgWithSize, sent, nothing] at stepped
        cases stepped
        refine ⟨untouched.codes, untouched.served, untouched.known, untouched.peer,
          Or.inr ⟨_, List.nil_append _, zero, odd⟩, untouched.toClient, untouched.tasks, _, rfl,
          ?_, ?_⟩
        · intro nothing
          cases nothing
        · intro _ free
          have none' : msgType = 0 := free
          omega
      · have occupied := busy (by rw [toServer]; exact List.cons_ne_nil _ _)
        have sent := @sendRequest_busy { client with tranId := nextTranId client } occupied
        simp only [taosBuildReqMsgWithSize, sent] at stepped
        cases stepped
        refine ⟨untouched.codes, untouched.served, untouched.known, untouched.peer,
          Or.inr ⟨first, ?_, zero, isRequest⟩, untouched.toClient, untouched.tasks, _, rfl, ?_,
          fun _ => occupied⟩
        · rw [List.append_nil]
          exact toServer
        · intro nothing
          rw [List.append_nil, toServer] at nothing
          cases nothing
    · rw [if_neg odd] at stepped
      cases stepped
  | serverReceives =>
    refine Or.inr ⟨rfl, ?_⟩
    simp only [linkStep] at stepped
    rcases untouched.first with nothing | ⟨first, toServer, zero, isRequest⟩
    · rw [nothing] at stepped
      cases stepped
    · rw [toServer] at stepped
      cases stepped
      have branch : taosProcessMsgHeader link.server first.header =
          processRequest link.server first.header := if_pos isRequest
      unfold LossFree.serverReceives
      simp only [branch, untouched.codes, processRequest_repeated untouched.peer untouched.served
        isRequest (untouched.known.trans zero.symm), List.nil_append]
  | answer code =>
    simp only [linkStep, untouched.served] at stepped
    rw [if_neg fun may => may.1 rfl] at stepped
    cases stepped
  | clientReceives =>
    simp only [linkStep, isClient, untouched.toClient] at stepped
    cases stepped
  | clientTask keeps =>
    simp only [linkStep, isClient, untouched.tasks] at stepped
    cases stepped

theorem linkStep_codes {link next : Link}
    (stepped : linkStep link event = some next) : ∀ code ∈ link.codes, code ∈ next.codes := by
  intro code member
  cases event with
  | send msgType =>
    simp only [linkStep] at stepped
    split at stepped
    · cases stepped
    · split at stepped
      · cases stepped
        exact member
      · cases stepped
  | serverReceives =>
    simp only [linkStep] at stepped
    split at stepped
    · cases stepped
    · cases stepped
      exact List.mem_append_left _ member
  | answer code =>
    simp only [linkStep] at stepped
    split at stepped
    · cases stepped
      exact member
    · cases stepped
  | clientReceives =>
    simp only [linkStep] at stepped
    split at stepped
    · cases stepped
      unfold LossFree.clientReceives
      simp only
      split
      · exact member
      · exact List.mem_append_left _ member
    · cases stepped
  | clientTask keeps =>
    simp only [linkStep] at stepped
    split at stepped
    · cases stepped
      unfold LossFree.clientTask
      split <;> exact member
    · cases stepped

theorem linkRun_codes (events : List LinkEvent) : ∀ {link last : Link},
    linkRun link events = some last -> ∀ code ∈ link.codes, code ∈ last.codes := by
  induction events with
  | nil =>
    intro link last ran code member
    cases ran
    exact member
  | cons event events ih =>
    intro link last ran code member
    obtain ⟨next, stepped, rest⟩ := Option.bind_eq_some_iff.mp ran
    exact ih rest code (linkStep_codes stepped code member)

theorem linkRun_untouched (events : List LinkEvent) : ∀ {link last : Link},
    Untouched link -> linkRun link events = some last ->
      (AllAccepted last ↔ .serverReceives ∉ events) := by
  induction events with
  | nil =>
    intro link last untouched ran
    cases ran
    refine iff_of_true ?_ List.not_mem_nil
    intro code member
    rw [untouched.codes] at member
    cases member
  | cons event events ih =>
    intro link last untouched ran
    obtain ⟨next, stepped, rest⟩ := Option.bind_eq_some_iff.mp ran
    rcases untouched.step stepped with ⟨other, nextUntouched⟩ | ⟨arrives, refused⟩
    · rw [ih nextUntouched rest, List.mem_cons, not_or]
      exact ⟨fun later => ⟨other.symm, later⟩, And.right⟩
    · refine iff_of_false ?_ ?_
      · intro accepted
        have member : alreadyProcessed ∈ next.codes := by
          rw [refused]
          exact List.mem_singleton_self _
        exact actionInProgress_refused (accepted _ (linkRun_codes events rest _ member))
      · rw [arrives]
        exact fun absent => absent List.mem_cons_self

structure LossFreeRun where
  clientSid : Nat
  clientId : UInt32
  tranId : UInt16
  serverSid : Nat
  serverId : UInt32
  serverTranId : UInt16
  events : List LinkEvent
  last : Link
  ran : linkRun (newLink clientSid clientId tranId serverSid serverId serverTranId) events = some last

/-- Everything is accepted unless the first request has the transaction id 0 and
arrives. -/
theorem lossFreeRun_allAccepted (run : LossFreeRun) :
    AllAccepted run.last ↔ run.tranId ≠ 0xFFFF ∨ .serverReceives ∉ run.events := by
  obtain ⟨clientSid, clientId, tranId, serverSid, serverId, serverTranId, events, last, ran⟩ := run
  by_cases wraps : tranId = 0xFFFF
  · subst wraps
    rw [linkRun_untouched events (newLink_untouched _ _ _ _ _) ran]
    exact ⟨Or.inr, fun either => either.resolve_left fun differs => differs rfl⟩
  · refine iff_of_true ?_ (Or.inl wraps)
    exact (linkRun_orderly events (newLink_orderly wraps _ _ _ _ _) ran).accepted

/-- The first request of a client whose random number is the largest is refused. -/
theorem wrappedId_refused : ¬ ∀ run : LossFreeRun, AllAccepted run.last := by
  intro always
  have codes : (linkRun (newLink 1 1 0xFFFF 1 2 0) [.send 1, .serverReceives]).map Link.codes =
      some [alreadyProcessed] := by decide +kernel
  obtain ⟨last, ran, refused⟩ := Option.map_eq_some_iff.mp codes
  have accepted := always ⟨1, 1, 0xFFFF, 1, 2, 0, _, last, ran⟩
  refine actionInProgress_refused (accepted alreadyProcessed ?_)
  rw [refused]
  exact List.mem_singleton_self _

end Luomi.Rpc.LossFree
