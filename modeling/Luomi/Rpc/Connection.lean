import Mathlib.Tactic

/-!
# RPC connections (`trpc.c`)

A client connection sends its requests one after the other and repeats the one it
waits for; a server connection remembers the transaction id and the type of the
last request it has handed to the application.  Both are the same structure with
the same functions.

A header is kept with its fields for the transaction and the first byte of the
content.  What `taosProcessMsgHeader` checks before it looks at these (sizes,
sessions, the digest) is left to the environment, which may have any message
refused.
-/

namespace Luomi.Rpc

def success : Nat := 0
def actionInProgress : Nat := 1
def lastSessionNotFinished : Nat := 5
def invalidTranId : Nat := 7
def alreadyProcessed : Nat := 9
def unexpectedResponse : Nat := 12
def invalidResponseType : Nat := 13
def notReady : Nat := 64
def sessionAlreadyExist : Nat := 67

def tsRpcMaxRetry : Nat := 600 * 1000 / 300

/-- `STaosHeader` and the first byte of the content. -/
structure STaosHeader where
  msgType : Nat
  tranId : UInt16
  sourceId : UInt32
  code : Nat

/-- A message and the number of the request it is a copy of. -/
structure Request where
  header : STaosHeader
  request : Nat

/-- `SRpcConn`: `timer` says that `pTimer` is set, `queue` are the messages from
`pHead` to `pTail`. -/
structure SRpcConn where
  sid : Nat
  ownId : UInt32
  peerId : UInt32
  tranId : UInt16
  outTranId : UInt16
  inTranId : UInt16
  outType : Nat
  inType : Nat
  rspReceived : Bool
  retry : Nat
  tretry : Nat
  timer : Bool
  pRspMsg : Option STaosHeader
  pMsgNode : Option Request
  queue : List Request

/-- `taosGetRpcConn` on a free entry. -/
def newConn (sid : Nat) (ownId : UInt32) (tranId : UInt16) : SRpcConn where
  sid := sid
  ownId := ownId
  peerId := 0
  tranId := tranId
  outTranId := 0
  inTranId := 0
  outType := 0
  inType := 0
  rspReceived := false
  retry := 0
  tretry := 0
  timer := false
  pRspMsg := none
  pMsgNode := none
  queue := []

section

variable (conn : SRpcConn)

/-- The transaction id of the next request in `taosBuildReqMsgWithSize`. -/
def nextTranId : UInt16 :=
  (if conn.tranId = 0 then conn.tranId + 1 else conn.tranId) + 1

def taosBuildReqMsgWithSize (msgType : Nat) : STaosHeader × SRpcConn :=
  (⟨msgType, nextTranId conn, conn.ownId, 0⟩, { conn with tranId := nextTranId conn })

/-- The request branch of `taosSendMsgToPeerH`: what is sent now. -/
def sendRequest (msg : Request) : SRpcConn × List Request :=
  if conn.outType ≠ 0 then ({ conn with queue := conn.queue ++ [msg] }, [])
  else
    ({ conn with
      outType := msg.header.msgType
      outTranId := msg.header.tranId
      pMsgNode := some msg
      rspReceived := false
      timer := true }, [msg])

/-- `taosProcessTaosTimer`: the third time the message is given up. -/
def taosProcessTaosTimer : SRpcConn × List Request :=
  if ¬ conn.timer ∨ conn.rspReceived ∨ conn.outType = 0 then (conn, [])
  else
    let conn := { conn with timer := false, retry := conn.retry + 1 }
    if conn.retry < 3 then
      match conn.pMsgNode with
      | some msg => ({ conn with timer := true }, [msg])
      | none => (conn, [])
    else ({ conn with rspReceived := true }, [])

/-- `taosProcessResponse`: the next request is sent. -/
def taosProcessResponse : SRpcConn × List Request :=
  let conn := { conn with outType := 0, rspReceived := false, pMsgNode := none }
  match conn.queue with
  | [] => (conn, [])
  | msg :: queue =>
    ({ conn with
      pMsgNode := some msg
      queue := queue
      outType := msg.header.msgType
      outTranId := msg.header.tranId
      timer := true }, [msg])

def taosBuildRspMsgWithSize (msgType code : Nat) : STaosHeader :=
  ⟨msgType, conn.inTranId, conn.ownId, code⟩

/-- The response branch of `taosSendMsgToPeerH`. -/
def sendResponse (msg : STaosHeader) : SRpcConn :=
  { conn with
    inType := 0
    pRspMsg := some msg
    inTranId := if msg.code = actionInProgress then conn.inTranId - 1 else conn.inTranId }

def processRequest (header : STaosHeader) : Nat × SRpcConn × List STaosHeader :=
  let conn' := if conn.peerId = 0 then { conn with peerId := header.sourceId } else conn
  if conn'.peerId ≠ header.sourceId then (sessionAlreadyExist, conn', [])
  else if conn'.inTranId = header.tranId then
    if conn'.inType = header.msgType then
      (alreadyProcessed, conn',
        [taosBuildRspMsgWithSize conn' (header.msgType + 1) actionInProgress])
    else if conn'.inType = 0 then (alreadyProcessed, conn', conn'.pRspMsg.toList)
    else (alreadyProcessed, conn', [])
  else if conn'.inType ≠ 0 then (lastSessionNotFinished, conn', [])
  else
    let accepted := { conn' with inTranId := header.tranId, inType := header.msgType }
    (success, accepted, if accepted.sid = 0 then
        [taosBuildRspMsgWithSize accepted (accepted.inType + 1) actionInProgress]
      else [])

def processResponse (header : STaosHeader) : Nat × SRpcConn :=
  let conn := { conn with peerId := header.sourceId }
  if conn.outType = 0 then (unexpectedResponse, conn)
  else if header.tranId ≠ conn.outTranId then (invalidTranId, conn)
  else if header.msgType ≠ conn.outType + 1 then (invalidResponseType, conn)
  else if header.code = notReady then (alreadyProcessed, conn)
  else
    let conn := { conn with timer := false, retry := 0 }
    if header.code = actionInProgress ∧ conn.tretry ≤ tsRpcMaxRetry then
      (alreadyProcessed, { conn with tretry := conn.tretry + 1, timer := true })
    else
      let conn := { conn with tretry := 0 }
      if conn.rspReceived then (unexpectedResponse, conn)
      else (success, { conn with rspReceived := true })

def taosProcessMsgHeader (header : STaosHeader) : Nat × SRpcConn × List STaosHeader :=
  if header.msgType % 2 = 1 then processRequest conn header
  else
    let (code, conn) := processResponse conn header
    (code, conn, [])

end

def taosBuildErrorMsgToPeer (header : STaosHeader) (code : Nat) : STaosHeader :=
  ⟨header.msgType + 1, header.tranId, 0, code⟩

/-- What has happened between the server connection and its application. -/
inductive Entry where
  /-- `taosProcessMsgHeader` returned success for a copy of the request. -/
  | handedOver (request : Nat)
  /-- The application answered the request with `ACTION_IN_PROGRESS`. -/
  | inProgress (request : Nat)
  deriving DecidableEq

/-- Messages stay in the network: they may be delivered late, again or never. -/
structure System where
  client : SRpcConn
  server : SRpcConn
  toServer : List Request
  toClient : List STaosHeader
  requests : Nat
  /-- Responses on their way to the application of the client. -/
  scheduled : Nat
  log : List Entry

def lastHanded (log : List Entry) : Option Nat :=
  (log.filterMap fun entry =>
    match entry with
    | .handedOver request => some request
    | .inProgress _ => none).getLast?

inductive Event where
  /-- The application of the client sends a request. -/
  | send (msgType : Nat)
  /-- The timer of the client fires. -/
  | clientTimer
  /-- A message arrives at the server; the checks in front refuse it with a code. -/
  | toServer (index : Nat) (refused : Option Nat)
  /-- A message arrives at the client. -/
  | toClient (index : Nat) (refused : Bool)
  /-- The application of the client takes a response. -/
  | clientTask
  /-- The application of the server answers, with a message it built when the
  connection had a transaction id. -/
  | respond (msgType : Nat) (tranId : UInt16) (code : Nat)

/-- `taosProcessDataFromPeer` on the server. -/
def serverReceives (sys : System) (msg : Request) (refused : Option Nat) : System :=
  match refused with
  | some code =>
    if code = alreadyProcessed then sys
    else { sys with toClient := sys.toClient ++ [taosBuildErrorMsgToPeer msg.header code] }
  | none =>
    let (code, server, sent) := taosProcessMsgHeader sys.server msg.header
    let sys := { sys with server := server, toClient := sys.toClient ++ sent }
    if code = success then { sys with log := sys.log ++ [.handedOver msg.request] }
    else if code = alreadyProcessed then sys
    else { sys with toClient := sys.toClient ++ [taosBuildErrorMsgToPeer msg.header code] }

def serverResponds (sys : System) (msg : STaosHeader) : System :=
  { sys with
    server := sendResponse sys.server msg
    toClient := sys.toClient ++ [msg]
    log :=
      match lastHanded sys.log with
      | some request =>
        if msg.code = actionInProgress then sys.log ++ [.inProgress request] else sys.log
      | none => sys.log }

/-- A step; `none` where there is no such message or task. -/
def step (sys : System) : Event -> Option System
  | .send msgType =>
    if msgType % 2 = 1 then
      let (header, client) := taosBuildReqMsgWithSize sys.client msgType
      let (client, sent) := sendRequest client ⟨header, sys.requests⟩
      some { sys with
        client := client, toServer := sys.toServer ++ sent, requests := sys.requests + 1 }
    else none
  | .clientTimer =>
    let (client, sent) := taosProcessTaosTimer sys.client
    some { sys with client := client, toServer := sys.toServer ++ sent }
  | .toServer index refused => do
      let msg <- sys.toServer[index]?
      return serverReceives sys msg refused
  | .toClient index refused => do
      let header <- sys.toClient[index]?
      if refused then return sys
      else
        -- a response makes the client send nothing at once
        let (code, client, _) := taosProcessMsgHeader sys.client header
        return { sys with
          client := client
          scheduled := if code = success then sys.scheduled + 1 else sys.scheduled }
  | .clientTask =>
    if sys.scheduled = 0 then none
    else
      let (client, sent) := taosProcessResponse sys.client
      some { sys with
        client := client, toServer := sys.toServer ++ sent, scheduled := sys.scheduled - 1 }
  | .respond msgType tranId code =>
    if msgType % 2 = 0 then
      some (serverResponds sys ⟨msgType, tranId, sys.server.ownId, code⟩)
    else none

def run : System -> List Event -> Option System
  | sys, [] => some sys
  | sys, event :: events => do
      let next <- step sys event
      run next events

def newSystem (clientSid : Nat) (clientId : UInt32) (tranId : UInt16) (serverSid : Nat)
    (serverId : UInt32) (serverTranId : UInt16) : System where
  client := newConn clientSid clientId tranId
  server := newConn serverSid serverId serverTranId
  toServer := []
  toClient := []
  requests := 0
  scheduled := 0
  log := []

end Luomi.Rpc
