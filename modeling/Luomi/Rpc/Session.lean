import Luomi.Rpc.Connection
import Luomi.Util.IdPool

/-!
# Sessions of a server (`trpc.c`)

A server has channels with slots for connections.  A packet names a channel and a
slot; slot 0 stands for a session that is not known yet, which is looked up by the
address, the uid and the link id of the peer.  What a packet says about the peer is
stored in the connection before the digest is checked.
-/

namespace Luomi.Rpc.Session

open IdPool

def invalidSessionId : Nat := 6
def invalidMsgType : Nat := 8
def authFailure : Nat := 10
def invalidTimeStamp : Nat := 15
def mismatchedMeterId : Nat := 16
def notActiveSession : Nat := 20
def invalidMsgLen : Nat := 30
def maxSessions : Nat := 65

def msgTypeMax : Nat := 107

/-- `idMgmt` and `type` of a server. -/
inductive IdMgmt where
  | assigned | free | reallocate
  deriving DecidableEq

inductive ConnType where
  | udps | udpc | tcps | tcpc
  deriving DecidableEq

/-- The three numbers of the text `%x:%x:%x`; none where the text is empty. -/
abbrev HashStr := Option (UInt32 × UInt32 × UInt32)

/-- `SRpcConn` with the fields for its session; `live` says that the signature is set,
`chandle` 0 is NULL. -/
structure SessionConn where
  live : Bool
  conn : SRpcConn
  meterId : List UInt8
  spi : Int
  encrypt : Int
  secret : List UInt8
  ckey : List UInt8
  localPort : Int
  peerUid : UInt32
  peerIp : UInt32
  peerPort : Int
  peerIpstr : String
  chandle : Nat
  /-- What the connection was created for. -/
  createdFor : HashStr

/-- `SRpcChann`; the hash has the youngest entry in front. -/
structure SRpcChann where
  sessions : Nat
  connList : Nat -> SessionConn
  idPool : Pool
  hash : List ((UInt32 × UInt32 × UInt32) × Nat)

/-- `STaosRpc`; `afp` says whether there is a function for the security information. -/
structure STaosRpc where
  bits : Nat
  numOfChanns : Nat
  numOfThreads : Nat
  idMgmt : IdMgmt
  type : ConnType
  localPort : Int
  index : Nat
  afp : Bool
  channList : Nat -> SRpcChann

/-- What `afp` returns and fills in. -/
structure AuthInfo where
  ret : Nat
  spi : Int
  encrypt : Int
  secret : List UInt8
  ckey : List UInt8

/-- `STaosHeader`, the first byte of the content and the time of the digest, in the
byte order of the host. -/
structure Header where
  tcp : Bool
  spi : Int
  tranId : UInt16
  uid : UInt32
  sourceId : UInt32
  destId : Nat
  meterId : List UInt8
  port : Int
  msgType : Int
  msgLen : Int
  content : Nat
  timeStamp : Int

/-- A packet, where it comes from, and what the server finds at that moment: the
time, a random number and the security information. -/
structure Arrival where
  header : Header
  dataLen : Int
  ip : UInt32
  port : Int
  chandle : Nat
  now : Int
  random : UInt16
  afp : List UInt8 -> AuthInfo

def htonl (word : UInt32) : UInt32 :=
  (word <<< 24) ||| ((word &&& (0xFF00 : UInt32)) <<< 8) |||
    ((word >>> 8) &&& (0xFF00 : UInt32)) ||| (word >>> 24)

def tinet_ntoa (ip : UInt32) : String :=
  ".".intercalate (([0, 8, 16, 24] : List UInt32).map fun shift =>
    toString ((ip >>> shift) &&& (0xFF : UInt32)))

/-- `memset(pConn, 0, sizeof(SRpcConn))`. -/
def zeroConn : SessionConn where
  live := false
  conn := newConn 0 0 0
  meterId := []
  spi := 0
  encrypt := 0
  secret := []
  ckey := []
  localPort := 0
  peerUid := 0
  peerIp := 0
  peerPort := 0
  peerIpstr := ""
  chandle := 0
  createdFor := none

section

variable (hash : List ((UInt32 × UInt32 × UInt32) × Nat))

def taosGetStrHashData : HashStr -> Option Nat
  | none => none
  | some key => (hash.find? fun entry => entry.1 == key).map Prod.snd

def taosAddStrHash (hashstr : HashStr) (slot : Nat) : List ((UInt32 × UInt32 × UInt32) × Nat) :=
  match hashstr with
  | none => hash
  | some key => (key, slot) :: hash

def taosDeleteStrHash (key : UInt32 × UInt32 × UInt32) : List ((UInt32 × UInt32 × UInt32) × Nat) :=
  hash.eraseP fun entry => entry.1 == key

end

def SRpcChann.setConn (chann : SRpcChann) (slot : Nat) (conn : SessionConn) : SRpcChann :=
  { chann with connList := Function.update chann.connList slot conn }

def STaosRpc.setChann (server : STaosRpc) (chann : Nat) (pChann : SRpcChann) : STaosRpc :=
  { server with channList := Function.update server.channList chann pChann }

/-- A connection as `taosGetRpcConn` fills it in. -/
def createdConn (server : STaosRpc) (chann sid : Nat) (hashstr : HashStr) (arrival : Arrival) :
    SessionConn :=
  let info := arrival.afp arrival.header.meterId
  let conn := { zeroConn with
    live := true
    conn := newConn sid (htonl (UInt32.ofNat (chann <<< server.bits + sid))) arrival.random
    meterId := arrival.header.meterId
    createdFor := hashstr }
  if server.afp then
    { conn with
      spi := info.spi, encrypt := info.encrypt, secret := info.secret, ckey := info.ckey }
  else conn

def assignsPort (server : STaosRpc) : Prop :=
  (server.type = .udpc ∨ server.type = .udps) ∧ 1 < server.numOfThreads ∧ server.localPort ≠ 0

instance (server : STaosRpc) : Decidable (assignsPort server) :=
  inferInstanceAs (Decidable (_ ∧ _))

section

variable (server : STaosRpc)

/-- The second half of `taosGetRpcConn`: the connection of a slot. -/
def openSlot (chann sid : Nat) (hashstr : HashStr) (arrival : Arrival) :
    Nat × Option Nat × STaosRpc :=
  let pChann := server.channList chann
  let info := arrival.afp arrival.header.meterId
  if (pChann.connList sid).live = false then
    let conn := createdConn server chann sid hashstr arrival
    if server.afp ∧ info.ret ≠ 0 then
      (info.ret, none, server.setChann chann (pChann.setConn sid conn))
    else
      let index :=
        if assignsPort server then (server.index + 1) % server.numOfThreads else server.index
      let conn := { conn with
        localPort := if assignsPort server then server.localPort + index else 0 }
      (success, some sid, { server with index := index }.setChann chann
          { pChann.setConn sid conn with hash := taosAddStrHash pChann.hash hashstr sid })
  else if (pChann.connList sid).meterId ≠ arrival.header.meterId then
    (mismatchedMeterId, none, server)
  else (success, some sid, server)

/-- `taosGetRpcConn`: its code, the slot and the server. -/
def taosGetRpcConn (chann sid : Nat) (req : Bool) (hashstr : HashStr) (arrival : Arrival) :
    Nat × Option Nat × STaosRpc :=
  let pChann := server.channList chann
  if server.idMgmt = .free ∧ (sid = 0 ∨ (pChann.connList sid).live = false) then
    if req then
      match taosGetStrHashData pChann.hash hashstr with
      | some slot => openSlot server chann (pChann.connList slot).conn.sid hashstr arrival
      | none =>
        match taosAllocateId pChann.idPool with
        | (none, _) => (maxSessions, none, server)
        | (some id, idPool) =>
          openSlot (server.setChann chann { pChann with idPool := idPool }) chann id hashstr
            arrival
    else (unexpectedResponse, none, server)
  else openSlot server chann sid hashstr arrival

def taosCloseRpcConn (chann slot : Nat) : STaosRpc :=
  let pChann := server.channList chann
  let pConn := pChann.connList slot
  if pConn.live then
    server.setChann chann
      { pChann.setConn slot zeroConn with
        hash := taosDeleteStrHash pChann.hash (pConn.peerIp, pConn.peerUid, pConn.conn.peerId)
        idPool :=
          if server.idMgmt = .free then taosFreeId pChann.idPool pConn.conn.sid
          else pChann.idPool }
  else server

def channOf (header : Header) : Nat := header.destId / 2 ^ server.bits

def sidOf (header : Header) : Nat := header.destId % 2 ^ server.bits

/-- `hashstr`: filled in where the session is not known. -/
def hashstrOf (arrival : Arrival) : HashStr :=
  if sidOf server arrival.header = 0 then
    some (arrival.ip, arrival.header.uid, arrival.header.sourceId)
  else none

end

def updatePeer (conn : SessionConn) (arrival : Arrival) : SessionConn :=
  { conn with
    peerIp := arrival.ip
    peerIpstr := if conn.peerIp ≠ arrival.ip then tinet_ntoa arrival.ip else conn.peerIpstr
    peerUid := if arrival.header.uid ≠ 0 then arrival.header.uid else conn.peerUid
    peerPort :=
      if arrival.header.port ≠ 0 then arrival.header.port
      else if arrival.port ≠ 0 then arrival.port else conn.peerPort
    chandle := if arrival.chandle ≠ 0 then arrival.chandle else conn.chandle }

section Packet

variable (taosAuthenticateMsg : Arrival -> List UInt8 -> Bool)

def authenticate (conn : SessionConn) (arrival : Arrival) : Option Nat :=
  let header := arrival.header
  if conn.spi ≠ 0 then
    if header.spi = conn.spi then
      if 900 < (header.timeStamp - arrival.now).natAbs then some invalidTimeStamp
      else if taosAuthenticateMsg arrival conn.secret then none else some authFailure
    else if header.msgType % 2 = 1 ∨ header.content = 0 then some authFailure
    else none
  else none

/-- What `taosProcessMsgHeader` returns, the server and what is sent. -/
structure Processed where
  code : Nat
  conn : Option Nat
  server : STaosRpc
  sent : List STaosHeader

def transaction (header : Header) : STaosHeader :=
  ⟨header.msgType.toNat, header.tranId, header.sourceId, header.content⟩

/-- `taosProcessMsgHeader` on the connection of a packet. -/
def processConn (server : STaosRpc) (chann slot : Nat) (arrival : Arrival) : Processed :=
  let pChann := server.channList chann
  let conn := updatePeer (pChann.connList slot) arrival
  if arrival.header.tcp then
    let conn := { conn with
      conn := { conn.conn with timer := conn.conn.timer || decide (conn.conn.outType ≠ 0) } }
    ⟨alreadyProcessed, some slot, server.setChann chann (pChann.setConn slot conn), []⟩
  else
    match authenticate taosAuthenticateMsg conn arrival with
    | some code => ⟨code, some slot, server.setChann chann (pChann.setConn slot conn), []⟩
    | none =>
      let (code, inner, sent) := Rpc.taosProcessMsgHeader conn.conn (transaction arrival.header)
      ⟨code, some slot,
        server.setChann chann (pChann.setConn slot { conn with conn := inner }), sent⟩

def taosProcessMsgHeader (server : STaosRpc) (arrival : Arrival) : Processed :=
  let header := arrival.header
  let chann := channOf server header
  let sid := sidOf server header
  if (msgTypeMax : Int) ≤ header.msgType ∨ header.msgType ≤ 0 then
    ⟨invalidMsgType, none, server, []⟩
  else if arrival.dataLen ≠ header.msgLen then ⟨invalidMsgLen, none, server, []⟩
  else if server.numOfChanns ≤ chann then ⟨invalidSessionId, none, server, []⟩
  else if (server.channList chann).sessions = 0 then ⟨notActiveSession, none, server, []⟩
  else if (server.channList chann).sessions ≤ sid then ⟨invalidSessionId, none, server, []⟩
  else
    match taosGetRpcConn server chann sid (decide (header.msgType % 2 = 1))
        (hashstrOf server arrival) arrival with
    | (code, none, server) => ⟨code, none, server, []⟩
    | (_, some slot, server) => processConn taosAuthenticateMsg server chann slot arrival

end Packet

end Luomi.Rpc.Session
