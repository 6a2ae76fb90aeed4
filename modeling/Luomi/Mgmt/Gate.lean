import Mathlib.Tactic

/-!
# Gates (`lmGate.c`, `lmcServer.c`)

The client lays a request out in the payload of its command, where the setting of an
update already stands.  The server keeps, as the row of a gate, a pointer to the
buffer in which the request to create it was received; the index of the table has
its own copy of the name.  A later request may be received in the same buffer.
-/

namespace Luomi.Mgmt.Gate

def TSDB_GATE_ID_LEN : Nat := 32
def TSDB_GATE_SETTING_LEN : Nat := 65480 - 100 - 100
def TSDB_GATE_MAX_NUM : Int := 1000
def TSDB_CODE_NO_RIGHTS : Int := 41
def TSDB_CODE_SDB_ERROR : Int := 62
def TSDB_CODE_TOO_MANY_GATES : Int := 110
def TSDB_CODE_INVALID_GATE : Int := 112
def sizeofSMgmtHead : Nat := 117

inductive MsgType where
  | createGateRsp
  | queryGateRsp
  | updateGateRsp
  | deleteGateRsp
  deriving DecidableEq

abbrev Memory := Nat -> UInt8

abbrev Token := { bytes : List UInt8 // ∀ byte ∈ bytes, byte ≠ 0 }

def put : Memory -> Nat -> List UInt8 -> Memory
  | memory, _, [] => memory
  | memory, place, byte :: rest => put (Function.update memory place byte) (place + 1) rest

def text (memory : Memory) : Nat -> Nat -> List UInt8
  | _, 0 => []
  | place, room + 1 =>
    if memory place = 0 then [] else memory place :: text memory (place + 1) room

/-- What a request is laid out in: the payload is cleared for each one. -/
structure Client where
  tsRpcHeadSize : Nat
  allocSize : Nat
  db : Token
  dbFits : db.val.length < sizeofSMgmtHead
  headFits : tsRpcHeadSize + sizeofSMgmtHead + TSDB_GATE_ID_LEN < allocSize

inductive GateRequest where
  | create (name setting : Token)
  | query (name : Token)
  | update (name setting : Token)
  | delete (name : Token)

/-- The bytes behind `SMgmtHead`, and how many of them are sent. -/
structure Message where
  cont : Memory
  contLen : Nat

/-- `overflow`: bytes are written or read behind the payload. -/
inductive Built where
  | overflow
  | invalidSql
  | message (msg : Message)

variable (client : Client)

def Client.pMsg : Nat := client.tsRpcHeadSize + sizeofSMgmtHead

def Client.sent (payload : Memory) (contLen : Nat) : Built :=
  .message { cont := fun place => payload (client.pMsg + place), contLen }

/-- `strcpy(pMgmt->db, pObj->db)`. -/
def Client.putDb (payload : Memory) : Memory :=
  put payload client.tsRpcHeadSize (client.db.val ++ [0])

/-- `setCreateGateInfo` and `tscBuildCreateGateMsg`, which writes the name of the
database once more. -/
def tscBuildCreateGateMsg (name setting : Token) : Built :=
  let place := client.pMsg + TSDB_GATE_ID_LEN
  if TSDB_GATE_ID_LEN < name.val.length then .invalidSql
  else if client.allocSize ≤ place + setting.val.length then .overflow
  else
    let payload := put (client.putDb fun _ => 0) client.pMsg name.val
    let payload := put payload place setting.val
    let contLen := TSDB_GATE_ID_LEN + (text payload place (client.allocSize - place)).length + 1
    client.sent (client.putDb payload) contLen

/-- `setQueryGateInfo` and `tscBuildQueryGateMsg`; those of a deletion are the same. -/
def tscBuildQueryGateMsg (name : Token) : Built :=
  if TSDB_GATE_ID_LEN < name.val.length then .invalidSql
  else client.sent (put (client.putDb fun _ => 0) client.pMsg (name.val ++ [0]))
    (name.val.length + 1)

def tscBuildDeleteGateMsg : Token -> Built := tscBuildQueryGateMsg client

/-- `setUpdateGateInfo` leaves the setting at the start of the payload, and
`tscBuildUpdateGateMsg` copies from there what the name of the database has left. -/
def tscBuildUpdateGateMsg (name setting : Token) : Built :=
  let place := client.pMsg + TSDB_GATE_ID_LEN
  if TSDB_GATE_ID_LEN < name.val.length then .invalidSql
  else if client.allocSize ≤ setting.val.length then .overflow
  else
    let payload := client.putDb (put (fun _ => 0) 0 setting.val)
    let payload := put payload client.pMsg (name.val ++ [0])
    let copied := text payload 0 client.allocSize
    if client.allocSize ≤ place + copied.length then .overflow
    else
      let payload := put payload place (copied ++ [0])
      client.sent payload ((text payload client.pMsg (client.allocSize - client.pMsg)).length +
        (text payload place (client.allocSize - place)).length)

def tscBuildMsg : GateRequest -> Built
  | .create name setting => tscBuildCreateGateMsg client name setting
  | .query name => tscBuildQueryGateMsg client name
  | .update name setting => tscBuildUpdateGateMsg client name setting
  | .delete name => tscBuildDeleteGateMsg client name

/-- A row is the buffer the table has a pointer to. -/
structure SdbTable where
  index : List UInt8 -> Option Nat
  numOfRows : Int
  id : Nat

section

variable (table : SdbTable) (key : List UInt8)

def sdbInsertRow (row : Nat) : Option SdbTable :=
  if (table.index key).isSome then none
  else some {
    index := Function.update table.index key (some row)
    numOfRows := table.numOfRows + 1
    id := table.id + 1 }

def sdbDeleteRow : SdbTable :=
  if (table.index key).isNone then table
  else {
    index := Function.update table.index key none
    numOfRows := table.numOfRows - 1
    id := table.id + 1 }

/-- `sdbUpdateRow` with `isUpdated`: the row stays as it is. -/
def sdbUpdateRow : Option SdbTable :=
  if (table.index key).isNone then none else some { table with id := table.id + 1 }

end

structure Server where
  buffers : Nat -> Memory
  gateSdb : SdbTable

/-- `name` of the `SGateObj` in a buffer; it runs on into the setting. -/
def Server.name (server : Server) (buffer : Nat) : List UInt8 :=
  text (server.buffers buffer) 0 (TSDB_GATE_ID_LEN + TSDB_GATE_SETTING_LEN + 1)

def Server.setting (server : Server) (buffer : Nat) : List UInt8 :=
  text (server.buffers buffer) TSDB_GATE_ID_LEN (TSDB_GATE_SETTING_LEN + 1)

structure Rsp where
  rspType : MsgType
  code : Int
  setting : Option (List UInt8)

def taosSendSimpleRsp (rspType : MsgType) (code : Int) : List Rsp :=
  [{ rspType, code, setting := none }]

def mgmtCreateGate (server : Server) (pCreate : Nat) : Int × Server :=
  if TSDB_GATE_MAX_NUM ≤ server.gateSdb.numOfRows then (TSDB_CODE_TOO_MANY_GATES, server)
  else if (server.gateSdb.index (server.name pCreate)).isSome then (TSDB_CODE_INVALID_GATE, server)
  else
    match sdbInsertRow server.gateSdb (server.name pCreate) pCreate with
    | none => (TSDB_CODE_SDB_ERROR, server)
    | some table => (0, { server with gateSdb := table })

def mgmtUpdateGate (server : Server) (pGate : Nat) : Int × Server :=
  match sdbUpdateRow server.gateSdb (server.name pGate) with
  | none => (-1, server)
  | some table => (0, { server with gateSdb := table })

/-- `mgmtDropGate`: the key of the row that is deleted is read from its buffer. -/
def mgmtDropGate (server : Server) (name : List UInt8) : Int × Server :=
  match server.gateSdb.index name with
  | none => (TSDB_CODE_INVALID_GATE, server)
  | some pGate =>
    (0, { server with gateSdb := sdbDeleteRow server.gateSdb (server.name pGate) })

def withRights (superAuth : Bool) (rspType : MsgType) (server : Server) (result : Int × Server) :
    Server × List Rsp :=
  if superAuth then (result.2, taosSendSimpleRsp rspType result.1)
  else (server, taosSendSimpleRsp rspType TSDB_CODE_NO_RIGHTS)

def mgmtProcessCreateGateMsg (superAuth : Bool) (server : Server) (pMsg : Nat) :
    Server × List Rsp :=
  withRights superAuth .createGateRsp server (mgmtCreateGate server pMsg)

/-- Without a row the handler returns before it sends anything. -/
def mgmtProcessQueryGateMsg (server : Server) (pMsg : Nat) : Server × List Rsp :=
  match server.gateSdb.index (server.name pMsg) with
  | none => (server, [])
  | some pGate =>
    (server, [{ rspType := .queryGateRsp, code := 0, setting := some (server.setting pGate) }])

section

variable (superAuth : Bool) (server : Server) (pMsg : Nat)

def mgmtProcessUpdateGateMsg : Server × List Rsp :=
  withRights superAuth .queryGateRsp server (mgmtUpdateGate server pMsg)

def mgmtProcessDeleteGateMsg : Server × List Rsp :=
  withRights superAuth .queryGateRsp server (mgmtDropGate server (server.name pMsg))

def mgmtProcessShellMsg : GateRequest -> Server × List Rsp
  | .create _ _ => mgmtProcessCreateGateMsg superAuth server pMsg
  | .query _ => mgmtProcessQueryGateMsg server pMsg
  | .update _ _ => mgmtProcessUpdateGateMsg superAuth server pMsg
  | .delete _ => mgmtProcessDeleteGateMsg superAuth server pMsg

end

def receive (server : Server) (buffer : Nat) (msg : Message) : Server :=
  { server with
    buffers := Function.update server.buffers buffer fun place =>
      if place < msg.contLen then msg.cont place else server.buffers buffer place }

end Luomi.Mgmt.Gate
