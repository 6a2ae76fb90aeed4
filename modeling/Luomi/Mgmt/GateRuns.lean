import Luomi.Mgmt.Gate

/-!
# Runs of gate requests

A request to create a gate writes its setting into the buffer it is received in, and
a query for a gate is too short to reach the setting of any gate.  The answer to a
query is thus the setting of the last request to create one that was received in the
buffer of the row.
-/

namespace Luomi.Mgmt.GateRuns

open Gate
open Function (update_of_ne update_self)

/-- The server, the settings of the gates that were created with success, and the
setting of the last request to create a gate in each buffer. -/
structure World where
  server : Server
  created : List UInt8 -> Option (List UInt8)
  received : Nat -> Option (List UInt8)

def recorded (created : List UInt8 -> Option (List UInt8)) (given : List Rsp) :
    GateRequest -> List UInt8 -> Option (List UInt8)
  | .create name setting | .update name setting =>
    if given.any (·.code = 0) then Function.update created name.val (some setting.val)
    else created
  | .delete name =>
    if given.any (·.code = 0) then Function.update created name.val none else created
  | .query _ => created

/-- A request of a super user is built, received in a buffer and answered; `none` as
the answer means that the client refuses to build it. -/
def step (client : Client) (world : World) (buffer : Nat) (request : GateRequest) :
    Option (World × Option (List Rsp)) :=
  match tscBuildMsg client request with
  | .overflow => none
  | .invalidSql => some (world, none)
  | .message msg =>
    let answered := mgmtProcessShellMsg true (receive world.server buffer msg) buffer request
    some ({
      server := answered.1, created := recorded world.created answered.2 request
      received := match request with
        | .create _ setting | .update _ setting =>
          Function.update world.received buffer (some setting.val)
        | _ => world.received }, some answered.2)

def ownType : GateRequest -> MsgType
  | .create _ _ => .createGateRsp
  | .query _ => .queryGateRsp
  | .update _ _ => .updateGateRsp
  | .delete _ => .deleteGateRsp

def Right (world : World) (request : GateRequest) (given : List Rsp) : Prop :=
  ∃ rsp, given = [rsp] ∧ rsp.rspType = ownType request ∧
    match request with
    | .query name =>
      match world.created name.val with
      | some setting => rsp.code = 0 ∧ rsp.setting = some setting
      | none => rsp.code ≠ 0
    | _ => True

def Answers (client : Client) : World -> List (Nat × GateRequest) -> Prop
  | _, [] => True
  | world, (buffer, request) :: later =>
    ∃ next given, step client world buffer request = some (next, given) ∧
      (∀ answer, given = some answer -> Right world request answer) ∧ Answers client next later

/-- A gate is created or queried under a name that leaves room for its end mark; a
setting fits into the payload and the row; a gate that is queried has been created,
and the last request to create a gate in the buffer of its row had its setting. -/
def Fits (client : Client) (world : World) : GateRequest -> Prop
  | .create name setting => name.val.length < TSDB_GATE_ID_LEN ∧
      client.pMsg + TSDB_GATE_ID_LEN + setting.val.length < client.allocSize ∧
      setting.val.length ≤ TSDB_GATE_SETTING_LEN
  | .query name => name.val.length < TSDB_GATE_ID_LEN ∧ world.created name.val ≠ none ∧
      ∀ row, world.server.gateSdb.index name.val = some row ->
        world.received row = world.created name.val
  | .update _ _ => False
  | .delete _ => False

def FitsRun (client : Client) : World -> List (Nat × GateRequest) -> Prop
  | _, [] => True
  | world, (buffer, request) :: later => Fits client world request ∧
      ∀ next given, step client world buffer request = some (next, given) ->
        FitsRun client next later

def empty : World :=
  { server := {
      buffers := fun _ _ => 0
      gateSdb := { index := fun _ => none, numOfRows := 0, id := 0 } }
    created := fun _ => none
    received := fun _ => none }

variable {memory other : Memory} {bytes : List UInt8} {place room : Nat}

def Stands (memory : Memory) : Nat -> List UInt8 -> Prop
  | place, [] => memory place = 0
  | place, byte :: rest => byte ≠ 0 ∧ memory place = byte ∧ Stands memory (place + 1) rest

theorem text_of_stands (stands : Stands memory place bytes) (fits : bytes.length < room) :
    text memory place room = bytes := by
  induction bytes generalizing place room with
  | nil =>
    obtain ⟨room, rfl⟩ := Nat.exists_eq_add_of_lt fits
    rw [Nat.add_assoc, <- Nat.add_assoc _ room 1]
    exact if_pos stands
  | cons byte rest ih =>
    obtain ⟨nonzero, here, later⟩ := stands
    cases room with
    | zero => cases fits
    | succ room =>
      rw [text, here, if_neg nonzero, ih later (Nat.lt_of_succ_lt_succ fits)]

theorem Stands.congr {start : Nat} (stands : Stands memory place bytes)
    (same : ∀ i ≤ bytes.length, other (start + i) = memory (place + i)) :
    Stands other start bytes := by
  induction bytes generalizing place start with
  | nil =>
    have here := same 0 le_rfl
    rw [Nat.add_zero, Nat.add_zero] at here
    exact here.trans stands
  | cons byte rest ih =>
    refine ⟨stands.1, (same 0 (Nat.zero_le _)).trans stands.2.1, ih stands.2.2 fun i small => ?_⟩
    have there := same (i + 1) (Nat.succ_le_succ small)
    rwa [Nat.add_comm i 1, <- Nat.add_assoc, <- Nat.add_assoc] at there

variable {spot : Nat}

theorem put_apart (apart : spot < place ∨ place + bytes.length ≤ spot) :
    put memory place bytes spot = memory spot := by
  induction bytes generalizing memory place with
  | nil => rfl
  | cons byte rest ih =>
    rw [List.length_cons] at apart
    rw [put, ih (by omega), update_of_ne (by omega)]

theorem put_stands (nonzero : ∀ byte ∈ bytes, byte ≠ 0)
    (ended : memory (place + bytes.length) = 0) : Stands (put memory place bytes) place bytes := by
  induction bytes generalizing memory place with
  | nil => exact ended
  | cons byte rest ih =>
    refine ⟨nonzero byte List.mem_cons_self, ?_, ih ?_ ?_⟩
    · rw [put, put_apart (Or.inl (Nat.lt_succ_self place)), update_self]
    · exact fun later member => nonzero later (List.mem_cons_of_mem _ member)
    · rw [update_of_ne (by omega), <- ended, List.length_cons]
      congr 1
      omega

theorem put_append (memory : Memory) (place : Nat) (bytes more : List UInt8) :
    put memory place (bytes ++ more) = put (put memory place bytes) (place + bytes.length) more := by
  induction bytes generalizing memory place with
  | nil => rfl
  | cons byte rest ih =>
    rw [List.cons_append, put, ih, put, List.length_cons, Nat.add_comm rest.length, Nat.add_assoc]

variable {client : Client} {name setting : Token}

theorem putDb_apart (behind : client.pMsg ≤ spot) : client.putDb memory spot = memory spot := by
  apply put_apart
  have short := client.dbFits
  unfold Client.pMsg at behind
  rw [List.length_append, List.length_singleton]
  omega

theorem create_stands (short : name.val.length < TSDB_GATE_ID_LEN)
    (fits : client.pMsg + TSDB_GATE_ID_LEN + setting.val.length < client.allocSize) :
    ∃ msg, tscBuildCreateGateMsg client name setting = .message msg ∧
      Stands msg.cont 0 name.val ∧ Stands msg.cont TSDB_GATE_ID_LEN setting.val ∧
      msg.contLen = TSDB_GATE_ID_LEN + setting.val.length + 1 := by
  have clear : ∀ spot, client.pMsg ≤ spot -> client.putDb (fun _ => 0) spot = 0 :=
    fun spot behind => putDb_apart behind
  have named : Stands (put (put (client.putDb fun _ => 0) client.pMsg name.val)
      (client.pMsg + TSDB_GATE_ID_LEN) setting.val) client.pMsg name.val := by
    apply (put_stands name.property (clear _ (Nat.le_add_right _ _))).congr
    intro i inside
    exact put_apart (Or.inl (by omega))
  have set : Stands (put (put (client.putDb fun _ => 0) client.pMsg name.val)
      (client.pMsg + TSDB_GATE_ID_LEN) setting.val) (client.pMsg + TSDB_GATE_ID_LEN)
      setting.val := by
    apply put_stands setting.property
    rw [put_apart (Or.inr (by omega))]
    exact clear _ (by omega)
  unfold tscBuildCreateGateMsg
  rw [if_neg (by omega), if_neg (by omega)]
  dsimp only
  rw [text_of_stands set (by omega)]
  refine ⟨_, rfl, ?_, ?_, rfl⟩
  · apply named.congr
    intro i _
    dsimp only
    rw [putDb_apart (Nat.le_add_right _ _), Nat.zero_add]
  · apply set.congr
    intro i _
    dsimp only
    rw [putDb_apart (Nat.le_add_right _ _), Nat.add_assoc]

theorem query_stands (short : name.val.length < TSDB_GATE_ID_LEN) :
    ∃ msg, tscBuildQueryGateMsg client name = .message msg ∧ Stands msg.cont 0 name.val ∧
      msg.contLen = name.val.length + 1 := by
  have named := put_stands name.property (putDb_apart (Nat.le_add_right _ _) :
    client.putDb (fun _ => 0) (client.pMsg + name.val.length) = 0)
  have marked : put (client.putDb fun _ => 0) client.pMsg (name.val ++ [0]) =
      put (client.putDb fun _ => 0) client.pMsg name.val := by
    rw [put_append]
    apply Function.update_eq_iff.mpr
    refine ⟨?_, fun _ _ => rfl⟩
    rw [put_apart (Or.inr le_rfl), putDb_apart (Nat.le_add_right _ _)]
  unfold tscBuildQueryGateMsg
  rw [if_neg (by omega), marked]
  refine ⟨_, rfl, ?_, rfl⟩
  apply named.congr
  intro i _
  dsimp only
  rw [Nat.zero_add]

/-- The setting that was received last stands in its buffer, and every gate that was
created is in the index. -/
structure Kept (world : World) : Prop where
  stands : ∀ row setting, world.received row = some setting ->
    Stands (world.server.buffers row) TSDB_GATE_ID_LEN setting ∧
      setting.length ≤ TSDB_GATE_SETTING_LEN
  indexed : ∀ name, world.created name ≠ none -> world.server.gateSdb.index name ≠ none

variable {world next : World} {buffer : Nat} {given : Option (List Rsp)}
  {server : Server} {msg : Message}

theorem receive_stands
    (stands : Stands msg.cont place bytes) (inside : place + bytes.length < msg.contLen) :
    Stands ((receive server buffer msg).buffers buffer) place bytes := by
  apply stands.congr
  intro i small
  unfold receive
  dsimp only
  rw [update_self, if_pos (by omega)]

theorem receive_behind (row : Nat) (behind : msg.contLen ≤ place) :
    (receive server buffer msg).buffers row place = server.buffers row place := by
  unfold receive
  dsimp only
  by_cases same : row = buffer
  · rw [same, update_self, if_neg (not_lt.mpr behind)]
  · rw [update_of_ne same]

theorem mgmtCreateGate_spec (server : Server) (pCreate : Nat) :
    (mgmtCreateGate server pCreate).2.buffers = server.buffers ∧
      (∀ name, server.gateSdb.index name ≠ none ->
        (mgmtCreateGate server pCreate).2.gateSdb.index name ≠ none) ∧
      ((mgmtCreateGate server pCreate).1 = 0 ->
        (mgmtCreateGate server pCreate).2.gateSdb.index (server.name pCreate) ≠ none) := by
  unfold mgmtCreateGate
  split
  · exact ⟨rfl, fun _ => id, fun success => by cases success⟩
  split
  · exact ⟨rfl, fun _ => id, fun success => by cases success⟩
  rename_i fresh
  have inserted : sdbInsertRow server.gateSdb (server.name pCreate) pCreate = some {
      index := Function.update server.gateSdb.index (server.name pCreate) (some pCreate)
      numOfRows := server.gateSdb.numOfRows + 1
      id := server.gateSdb.id + 1 } := if_neg fresh
  rw [inserted]
  refine ⟨rfl, fun name known => ?_, fun _ => ?_⟩
  · dsimp only
    by_cases same : name = server.name pCreate
    · rw [same, update_self]
      exact Option.some_ne_none _
    · rwa [update_of_ne same]
  · dsimp only
    rw [update_self]
    exact Option.some_ne_none _

theorem Kept.create (kept : Kept world) (client : Client)
    (fits : Fits client world (.create name setting)) :
    ∃ next given, step client world buffer (.create name setting) = some (next, some given) ∧
      Right world (.create name setting) given ∧ Kept next := by
  obtain ⟨short, room, small⟩ := fits
  obtain ⟨msg, built, named, set, contLen⟩ := create_stands short room
  obtain ⟨buffers, index, success⟩ := mgmtCreateGate_spec (receive world.server buffer msg) buffer
  have ownName : (receive world.server buffer msg).name buffer = name.val :=
    text_of_stands (receive_stands named (by omega)) (by omega)
  rw [ownName] at success
  have answer : mgmtProcessShellMsg true (receive world.server buffer msg) buffer
      (.create name setting) =
        ((mgmtCreateGate (receive world.server buffer msg) buffer).2,
          taosSendSimpleRsp .createGateRsp
            (mgmtCreateGate (receive world.server buffer msg) buffer).1) := rfl
  unfold step tscBuildMsg
  simp only [built, answer]
  refine ⟨_, _, rfl, ⟨_, rfl, rfl, trivial⟩, ?_, ?_⟩
  · intro row other received
    dsimp only at received ⊢
    rw [buffers]
    by_cases same : row = buffer
    · rw [same, update_self] at received
      cases received
      rw [same]
      exact ⟨receive_stands set (by omega), small⟩
    · rw [update_of_ne same] at received
      have untouched : (receive world.server buffer msg).buffers row = world.server.buffers row :=
        update_of_ne same _ _
      rw [untouched]
      exact kept.stands row other received
  · intro other known
    dsimp only at known ⊢
    simp only [recorded, taosSendSimpleRsp, List.any_cons, List.any_nil, Bool.or_false,
      decide_eq_true_eq] at known
    by_cases code : (mgmtCreateGate (receive world.server buffer msg) buffer).1 = 0
    · rw [if_pos code] at known
      by_cases same : other = name.val
      · rw [same]
        exact success code
      · rw [update_of_ne same] at known
        exact index other (kept.indexed other known)
    · rw [if_neg code] at known
      exact index other (kept.indexed other known)

theorem Kept.query (kept : Kept world) (client : Client) (fits : Fits client world (.query name)) :
    ∃ next given, step client world buffer (.query name) = some (next, some given) ∧
      Right world (.query name) given ∧ Kept next := by
  obtain ⟨short, created, latest⟩ := fits
  obtain ⟨msg, built, named, contLen⟩ := @query_stands client name short
  obtain ⟨row, found⟩ := Option.ne_none_iff_exists'.mp (kept.indexed name.val created)
  obtain ⟨setting, known⟩ := Option.ne_none_iff_exists'.mp created
  obtain ⟨stands, small⟩ := kept.stands row setting ((latest row found).trans known)
  have ownName : (receive world.server buffer msg).name buffer = name.val :=
    text_of_stands (receive_stands named (by omega)) (by omega)
  -- a query ends before the setting of a row starts
  have stays : ∀ row bytes, Stands (world.server.buffers row) TSDB_GATE_ID_LEN bytes ->
      Stands ((receive world.server buffer msg).buffers row) TSDB_GATE_ID_LEN bytes := by
    intro row bytes stands
    apply stands.congr
    intro i _
    exact receive_behind row (by omega)
  have answer : mgmtProcessShellMsg true (receive world.server buffer msg) buffer (.query name) =
      (receive world.server buffer msg,
        [{ rspType := .queryGateRsp, code := 0, setting := some setting }]) := by
    unfold mgmtProcessShellMsg mgmtProcessQueryGateMsg
    rw [ownName]
    have same : (receive world.server buffer msg).gateSdb.index name.val = some row := found
    simp only [same]
    rw [Server.setting, text_of_stands (stays row setting stands) (Nat.lt_succ_of_le small)]
  unfold step tscBuildMsg
  simp only [built, answer]
  refine ⟨_, _, rfl, ⟨_, rfl, rfl, ?_⟩, ?_, kept.indexed⟩
  · dsimp only
    rw [known]
    exact ⟨rfl, rfl⟩
  · intro row other received
    obtain ⟨stands, small⟩ := kept.stands row other received
    exact ⟨stays row other stands, small⟩

theorem Kept.answers (client : Client) {events : List (Nat × GateRequest)} :
    ∀ {world : World}, Kept world -> FitsRun client world events -> Answers client world events := by
  induction events with
  | nil => exact fun _ _ => trivial
  | cons event later ih =>
    obtain ⟨buffer, request⟩ := event
    intro world kept fits
    have step : ∃ next given, step client world buffer request = some (next, some given) ∧
        Right world request given ∧ Kept next := by
      cases request with
      | create name setting => exact kept.create client fits.1
      | query name => exact kept.query client fits.1
      | update name setting => exact fits.1.elim
      | delete name => exact fits.1.elim
    obtain ⟨next, given, result, right, keeps⟩ := step
    refine ⟨next, some given, result, ?_, ih keeps (fits.2 next _ result)⟩
    rintro answer same
    cases same
    exact right

theorem answers_of_fits (client : Client) (events : List (Nat × GateRequest))
    (fits : FitsRun client empty events) : Answers client empty events := by
  apply Kept.answers client _ fits
  constructor
  · intro row setting received
    cases received
  · intro name created
    exact absurd rfl created

def oneClient : Client :=
  { tsRpcHeadSize := 72
    allocSize := 1024
    db := ⟨[], by simp⟩
    dbFits := by decide
    headFits := by decide }

def first : Token := ⟨[97], by simp⟩
def second : Token := ⟨[98], by simp⟩

set_option maxRecDepth 4000 in
theorem answers_createQuery :
    Answers oneClient empty [(0, .create first first), (1, .query first)] := by
  apply answers_of_fits oneClient
  refine ⟨⟨by decide, by decide, by decide⟩, fun next given same => ⟨?_, fun _ _ _ => trivial⟩⟩
  cases same
  refine ⟨by decide, by decide, fun row found => ?_⟩
  cases found
  decide

set_option maxRecDepth 4000 in
/-- The second gate is created in the buffer of the first one, whose setting is gone;
and an update is answered as a query. -/
theorem setting_overwritten : ¬ Answers oneClient empty
        [(0, .create first first), (0, .create second second), (1, .query first)] ∧
      ¬ Answers oneClient empty [(0, .update first first)] := by
  constructor
  · rintro ⟨_, _, one, -, _, _, two, -, _, _, three, right, -⟩
    cases one
    cases two
    cases three
    obtain ⟨rsp, same, -, -, setting⟩ := right _ rfl
    cases same
    revert setting
    decide
  · rintro ⟨_, _, one, right, -⟩
    cases one
    obtain ⟨rsp, same, rspType, -⟩ := right _ rfl
    cases same
    revert rspType
    decide

end Luomi.Mgmt.GateRuns
