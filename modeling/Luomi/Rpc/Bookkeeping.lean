import Luomi.Rpc.Rejection

/-!
# The sessions of a channel

Slots, ids and the hash of a channel agree as long as every new session gets its
security information and every connection is closed under the name it was created
for.
-/

namespace Luomi.Rpc.Session

open IdPool
open Function (update_of_ne update_self)

/-- The ids in use are the slots that are taken, and the hash leads to connections
created for what it says. -/
structure Booked (pChann : SRpcChann) : Prop where
  ids : ∀ id, InUse pChann.idPool id ↔ (pChann.connList id).live = true
  inside : ∀ slot, (pChann.connList slot).live = true -> slot < pChann.sessions
  hash : ∀ key slot, taosGetStrHashData pChann.hash (some key) = some slot ->
    (pChann.connList slot).live = true ∧ (pChann.connList slot).createdFor = some key

structure Kept (pChann : SRpcChann) : Prop extends Booked pChann where
  pool : Sound pChann.idPool
  maxId : pChann.idPool.maxId = pChann.sessions
  sid : ∀ slot, (pChann.connList slot).live = true -> (pChann.connList slot).conn.sid = slot
  distinct : (pChann.hash.map Prod.fst).Nodup

def Creates (server : STaosRpc) (arrival : Arrival) : Prop :=
  match existingSlot server arrival with
  | some slot => ((server.channList (channOf server arrival.header)).connList slot).live = false
  | none => arrival.header.msgType % 2 = 1 ∧
      0 < (server.channList (channOf server arrival.header)).idPool.numOfFree

/-- A new session finds its security information, and a connection is closed under the
name the hash has for it. -/
def Regular (server : STaosRpc) : SessionEvent -> Prop
  | .receive arrival => Admitted server arrival -> Creates server arrival ->
      server.afp = true -> (arrival.afp arrival.header.meterId).ret = 0
  | .close chann slot => ∀ key,
      taosGetStrHashData (server.channList chann).hash (some key) = some slot ->
        key = (((server.channList chann).connList slot).peerIp,
          ((server.channList chann).connList slot).peerUid,
          ((server.channList chann).connList slot).conn.peerId)
  | .act _ _ change => ∀ conn, (change conn).live = conn.live ∧
      (change conn).conn.sid = conn.conn.sid ∧ (change conn).createdFor = conn.createdFor

section Hash

variable {hash : List ((UInt32 × UInt32 × UInt32) × Nat)} {key other : UInt32 × UInt32 × UInt32}

theorem taosGetStrHashData_cons (entry : (UInt32 × UInt32 × UInt32) × Nat) :
    taosGetStrHashData (entry :: hash) (some other) =
      if entry.1 = other then some entry.2 else taosGetStrHashData hash (some other) := by
  unfold taosGetStrHashData
  simp only [List.find?_cons]
  by_cases same : entry.1 = other
  · rw [if_pos same, same, beq_self_eq_true]
    rfl
  · rw [if_neg same, beq_false_of_ne same]

theorem taosGetStrHashData_eq_none :
    taosGetStrHashData hash (some key) = none ↔ key ∉ hash.map Prod.fst := by
  unfold taosGetStrHashData
  rw [Option.map_eq_none_iff, List.find?_eq_none]
  constructor
  · intro absent member
    obtain ⟨entry, inHash, rfl⟩ := List.mem_map.mp member
    exact absent entry inHash (beq_self_eq_true _)
  · intro absent entry inHash same
    exact absent (List.mem_map.mpr ⟨entry, inHash, eq_of_beq same⟩)

theorem taosGetStrHashData_delete (distinct : (hash.map Prod.fst).Nodup) :
    taosGetStrHashData (taosDeleteStrHash hash key) (some other) =
      if other = key then none else taosGetStrHashData hash (some other) := by
  induction hash with
  | nil =>
    split <;> rfl
  | cons entry rest ih =>
    obtain ⟨fresh, later⟩ := List.nodup_cons.mp distinct
    unfold taosDeleteStrHash
    rw [List.eraseP_cons]
    by_cases own : entry.1 = key
    · rw [own, beq_self_eq_true, cond_true]
      rw [own] at fresh
      by_cases same : other = key
      · rw [if_pos same, same]
        exact taosGetStrHashData_eq_none.mpr fresh
      · rw [if_neg same, taosGetStrHashData_cons, own, if_neg (Ne.symm same)]
    · have behind := ih later
      unfold taosDeleteStrHash at behind
      rw [beq_false_of_ne own, cond_false, taosGetStrHashData_cons, taosGetStrHashData_cons]
      by_cases here : entry.1 = other
      · have differs : other ≠ key := fun same => own (here.trans same)
        rw [if_pos here, if_neg differs, if_pos here]
      · rw [if_neg here, if_neg here]
        exact behind

end Hash

section Channel

variable {pChann : SRpcChann}
  {conn : SessionConn} {slot : Nat}

theorem Kept.setConn (kept : Kept pChann) (live : conn.live = (pChann.connList slot).live)
    (sid : conn.conn.sid = (pChann.connList slot).conn.sid)
    (createdFor : conn.createdFor = (pChann.connList slot).createdFor) :
    Kept (pChann.setConn slot conn) := by
  have same : ∀ other, ((pChann.setConn slot conn).connList other).live =
        (pChann.connList other).live ∧
      ((pChann.setConn slot conn).connList other).conn.sid = (pChann.connList other).conn.sid ∧
      ((pChann.setConn slot conn).connList other).createdFor =
        (pChann.connList other).createdFor := by
    intro other
    unfold SRpcChann.setConn
    by_cases own : other = slot
    · subst own
      simp only [update_self]
      exact ⟨live, sid, createdFor⟩
    · have kept := update_of_ne own conn pChann.connList
      exact ⟨congrArg _ kept, congrArg (fun conn : SessionConn => conn.conn.sid) kept,
        congrArg _ kept⟩
  refine ⟨⟨?_, ?_, ?_⟩, kept.pool, kept.maxId, ?_, kept.distinct⟩
  · intro id
    rw [(same id).1]
    exact kept.ids id
  · intro other isLive
    rw [(same other).1] at isLive
    exact kept.inside other isLive
  · intro key other found
    rw [(same other).1, (same other).2.2]
    exact kept.hash key other found
  · intro other isLive
    rw [(same other).1] at isLive
    rw [(same other).2.1]
    exact kept.sid other isLive

theorem Kept.opened (kept : Kept pChann) {id : Nat} {idPool : Pool}
    {hashstr : HashStr} (allocated : taosAllocateId pChann.idPool = (some id, idPool))
    (unknown : taosGetStrHashData pChann.hash hashstr = none) (live : conn.live = true)
    (sid : conn.conn.sid = id) (createdFor : conn.createdFor = hashstr) :
    Kept
      { SRpcChann.setConn { pChann with idPool := idPool } id conn with
        hash := taosAddStrHash pChann.hash hashstr id } := by
  rcases taosAllocateId_spec kept.pool with
    ⟨nothing, -⟩ | ⟨taken, isTaken, unused, -, below, maxId, -, sound, inUse⟩
  · rw [allocated] at nothing
    cases nothing
  rw [allocated] at isTaken maxId sound inUse
  cases isTaken
  have dead : (pChann.connList id).live ≠ true := mt (kept.ids id).mpr unused
  have elsewhere : ∀ other, other ≠ id ->
      Function.update pChann.connList id conn other = pChann.connList other :=
    fun other differs => update_of_ne differs _ _
  have notOpened : ∀ key other, taosGetStrHashData pChann.hash (some key) = some other ->
      other ≠ id := by
    intro key other found same
    have old := (kept.hash key other found).1
    rw [same] at old
    exact dead old
  refine ⟨⟨?_, ?_, ?_⟩, sound, maxId.trans kept.maxId, ?_, ?_⟩
  · intro other
    simp only [SRpcChann.setConn]
    rw [inUse other]
    by_cases same : other = id
    · rw [same, update_self]
      exact iff_of_true (Or.inl rfl) live
    · rw [elsewhere other same, <- kept.ids other]
      exact ⟨fun either => either.resolve_left same, Or.inr⟩
  · intro other isLive
    simp only [SRpcChann.setConn] at isLive
    by_cases same : other = id
    · rw [same]
      have bound := kept.maxId
      exact bound ▸ below
    · rw [elsewhere other same] at isLive
      exact kept.inside other isLive
  · intro key other found
    simp only [SRpcChann.setConn]
    have own : (Function.update pChann.connList id conn id).live = true ∧
        (Function.update pChann.connList id conn id).createdFor = hashstr := by
      rw [update_self]
      exact ⟨live, createdFor⟩
    have older : taosGetStrHashData pChann.hash (some key) = some other ->
        (Function.update pChann.connList id conn other).live = true ∧
          (Function.update pChann.connList id conn other).createdFor = some key := by
      intro old
      rw [elsewhere other (notOpened key other old)]
      exact kept.hash key other old
    cases hashstr with
    | none => exact older found
    | some name =>
      rw [taosAddStrHash, taosGetStrHashData_cons] at found
      by_cases same : name = key
      · rw [if_pos same] at found
        cases found
        rw [<- same]
        exact own
      · rw [if_neg same] at found
        exact older found
  · intro other isLive
    simp only [SRpcChann.setConn] at isLive ⊢
    by_cases same : other = id
    · rw [same, update_self]
      exact sid
    · rw [elsewhere other same] at isLive ⊢
      exact kept.sid other isLive
  · cases hashstr with
    | none => exact kept.distinct
    | some name =>
      exact List.nodup_cons.mpr ⟨taosGetStrHashData_eq_none.mp unknown, kept.distinct⟩

theorem Kept.closed (kept : Kept pChann) {key : UInt32 × UInt32 × UInt32}
    (live : (pChann.connList slot).live = true)
    (named : ∀ other, taosGetStrHashData pChann.hash (some other) = some slot -> other = key) :
    Kept
      { pChann.setConn slot zeroConn with
        hash := taosDeleteStrHash pChann.hash key
        idPool := taosFreeId pChann.idPool (pChann.connList slot).conn.sid } := by
  rw [kept.sid slot live]
  obtain ⟨sound, maxId, inUse⟩ := taosFreeId_spec kept.pool ((kept.ids slot).mpr live)
  have elsewhere : ∀ other, other ≠ slot ->
      Function.update pChann.connList slot zeroConn other = pChann.connList other :=
    fun other differs => update_of_ne differs _ _
  have dead : (Function.update pChann.connList slot zeroConn slot).live ≠ true := by
    rw [update_self]
    exact Bool.false_ne_true
  refine ⟨⟨?_, ?_, ?_⟩, sound, maxId.trans kept.maxId, ?_, ?_⟩
  · intro other
    simp only [SRpcChann.setConn]
    rw [inUse other]
    by_cases same : other = slot
    · rw [same]
      exact iff_of_false (fun both => both.1 rfl) dead
    · rw [elsewhere other same, <- kept.ids other]
      exact ⟨And.right, fun used => ⟨same, used⟩⟩
  · intro other isLive
    simp only [SRpcChann.setConn] at isLive
    by_cases same : other = slot
    · rw [same] at isLive
      exact absurd isLive dead
    · rw [elsewhere other same] at isLive
      exact kept.inside other isLive
  · intro other found isFound
    simp only [SRpcChann.setConn]
    rw [taosGetStrHashData_delete kept.distinct] at isFound
    by_cases same : other = key
    · rw [if_pos same] at isFound
      cases isFound
    · rw [if_neg same] at isFound
      have differs : found ≠ slot := by
        intro isSlot
        rw [isSlot] at isFound
        exact same (named other isFound)
      rw [elsewhere found differs]
      exact kept.hash other found isFound
  · intro other isLive
    simp only [SRpcChann.setConn] at isLive ⊢
    by_cases same : other = slot
    · rw [same] at isLive
      exact absurd isLive dead
    · rw [elsewhere other same] at isLive ⊢
      exact kept.sid other isLive
  · exact kept.distinct.sublist (List.eraseP_sublist.map _)

end Channel

structure AllKept (server : STaosRpc) : Prop where
  idMgmt : server.idMgmt = .free
  channs : ∀ chann, Kept (server.channList chann)

section Server

variable {server : STaosRpc}

theorem AllKept.update (kept : AllKept server) {next : STaosRpc} (chann : Nat)
    (idMgmt : next.idMgmt = server.idMgmt) (own : Kept (next.channList chann))
    (others : ∀ other, other ≠ chann -> next.channList other = server.channList other) :
    AllKept next := by
  refine ⟨idMgmt.trans kept.idMgmt, ?_⟩
  intro other
  by_cases same : other = chann
  · rw [same]
    exact own
  · rw [others other same]
    exact kept.channs other

theorem setChann_others (server : STaosRpc) {chann : Nat} (pChann : SRpcChann) {other : Nat}
    (differs : other ≠ chann) :
    (server.setChann chann pChann).channList other = server.channList other :=
  update_of_ne differs _ _

theorem openSlot_created {chann sid : Nat} {hashstr : HashStr} {arrival : Arrival}
    (dead : ((server.channList chann).connList sid).live = false)
    (secured : server.afp = true -> (arrival.afp arrival.header.meterId).ret = 0) :
    ∃ index conn, openSlot server chann sid hashstr arrival =
        (success, some sid, { server with index := index }.setChann chann
          { (server.channList chann).setConn sid conn with
            hash := taosAddStrHash (server.channList chann).hash hashstr sid }) ∧
      conn.live = true ∧ conn.conn.sid = sid ∧ conn.createdFor = hashstr := by
  unfold openSlot
  simp only
  rw [if_pos dead, if_neg fun fails => fails.2 (secured fails.1)]
  refine ⟨_, _, rfl, createdConn_live _ _ _ _ _, ?_, ?_⟩
  all_goals
    unfold createdConn
    simp only
    split <;> rfl

section

variable (kept : AllKept server)
include kept

variable {arrival : Arrival}

theorem AllKept.existing_live {slot : Nat} (known : existingSlot server arrival = some slot) :
    ((server.channList (channOf server arrival.header)).connList slot).live = true := by
  have own := kept.channs (channOf server arrival.header)
  unfold existingSlot at known
  simp only at known
  by_cases unknown : server.idMgmt = .free ∧ (sidOf server arrival.header = 0 ∨
      ((server.channList (channOf server arrival.header)).connList
        (sidOf server arrival.header)).live = false)
  · rw [if_pos unknown] at known
    by_cases request : arrival.header.msgType % 2 = 1
    · rw [if_pos request] at known
      obtain ⟨entry, found, isSlot⟩ := Option.map_eq_some_iff.mp known
      cases hashstr : hashstrOf server arrival with
      | none =>
        rw [hashstr] at found
        cases found
      | some key =>
        rw [hashstr] at found
        obtain ⟨live, -⟩ := own.hash key entry found
        rw [<- isSlot, own.sid entry live]
        exact live
    · rw [if_neg request] at known
      cases known
  · rw [if_neg unknown] at known
    have same := Option.some.inj known
    have there := (not_or.mp (not_and.mp unknown kept.idMgmt)).2
    rw [<- same]
    exact Bool.eq_true_of_not_eq_false there

theorem AllKept.lookup (secured : Creates server arrival -> server.afp = true ->
      (arrival.afp arrival.header.meterId).ret = 0) :
    (∃ code, lookupConn server arrival = (code, none, server)) ∨
      ∃ slot next, lookupConn server arrival = (success, some slot, next) ∧ AllKept next := by
  have known : ∀ slot, existingSlot server arrival = some slot ->
      (∃ code, openSlot server (channOf server arrival.header) slot (hashstrOf server arrival)
          arrival = (code, none, server)) ∨
        ∃ slot' next, openSlot server (channOf server arrival.header) slot
          (hashstrOf server arrival) arrival = (success, some slot', next) ∧ AllKept next := by
    intro slot exists'
    rw [openSlot_live (kept.existing_live exists')]
    split
    · exact Or.inl ⟨_, rfl⟩
    · exact Or.inr ⟨_, _, rfl, kept⟩
  unfold lookupConn taosGetRpcConn
  simp only
  by_cases unknown : server.idMgmt = .free ∧ (sidOf server arrival.header = 0 ∨
      ((server.channList (channOf server arrival.header)).connList
        (sidOf server arrival.header)).live = false)
  · rw [if_pos unknown]
    by_cases request : arrival.header.msgType % 2 = 1
    · rw [if_pos (decide_eq_true request)]
      cases found : taosGetStrHashData (server.channList (channOf server arrival.header)).hash
          (hashstrOf server arrival) with
      | some slot =>
        apply known
        unfold existingSlot
        rw [if_pos unknown, if_pos request, found]
        rfl
      | none =>
        have absent : existingSlot server arrival = none := by
          unfold existingSlot
          rw [if_pos unknown, if_pos request, found]
          rfl
        have own := kept.channs (channOf server arrival.header)
        rcases taosAllocateId_spec own.pool with
          ⟨nothing, -⟩ | ⟨id, isId, unused, -, -, -, fewer, -⟩
        · rw [nothing]
          exact Or.inl ⟨_, rfl⟩
        · cases allocated : taosAllocateId
              (server.channList (channOf server arrival.header)).idPool with
          | mk taken idPool =>
            rw [allocated] at isId
            cases isId
            have creates : Creates server arrival := by
              unfold Creates
              rw [absent]
              exact ⟨request, Nat.zero_lt_of_lt fewer⟩
            have dead : (((server.setChann (channOf server arrival.header)
                { server.channList (channOf server arrival.header) with
                  idPool := idPool }).channList (channOf server arrival.header)).connList
                id).live = false := by
              rw [setChann_channList]
              exact Bool.eq_false_iff.mpr (mt (own.ids id).mpr unused)
            obtain ⟨index, conn, opens, live, sid, createdFor⟩ :=
              @openSlot_created _ _ _ (hashstrOf server arrival) _ dead (secured creates)
            refine Or.inr ⟨id, _, opens, ?_⟩
            rw [setChann_channList]
            refine kept.update (channOf server arrival.header) rfl ?_ ?_
            · rw [setChann_channList]
              exact own.opened allocated found live sid createdFor
            · intro other differs
              rw [setChann_others _ _ differs]
              exact setChann_others server _ differs
    · rw [if_neg (by rw [decide_eq_true_iff]; exact request)]
      exact Or.inl ⟨_, rfl⟩
  · rw [if_neg unknown]
    apply known
    unfold existingSlot
    rw [if_neg unknown]

theorem AllKept.process
    {taosAuthenticateMsg : Arrival -> List UInt8 -> Bool} (chann slot : Nat) (arrival : Arrival) :
    AllKept (processConn taosAuthenticateMsg server chann slot arrival).server := by
  obtain ⟨conn, isNext, live, sid, createdFor⟩ :=
    @processConn_frame taosAuthenticateMsg server chann slot arrival
  rw [isNext]
  refine kept.update chann rfl ?_ fun other differs => setChann_others server _ differs
  rw [setChann_channList]
  exact (kept.channs chann).setConn live sid createdFor

theorem AllKept.step (taosAuthenticateMsg : Arrival -> List UInt8 -> Bool)
    {event : SessionEvent} (regular : Regular server event) :
    AllKept (sessionStep taosAuthenticateMsg server event) := by
  cases event with
  | receive arrival =>
    simp only [sessionStep]
    rcases taosProcessMsgHeader_cases taosAuthenticateMsg server arrival with
      ⟨code, -, early⟩ | ⟨admitted, looked⟩
    · rw [early]
      exact kept
    · rw [looked]
      rcases kept.lookup (regular admitted) with ⟨code, refused⟩ | ⟨slot, next, found, nextKept⟩
      · rw [refused]
        exact kept
      · rw [found]
        exact nextKept.process _ _ _
  | close chann slot =>
    unfold sessionStep taosCloseRpcConn
    simp only
    split
    · rename_i live
      rw [if_pos kept.idMgmt]
      refine kept.update chann rfl ?_ fun other differs => setChann_others server _ differs
      rw [setChann_channList]
      exact (kept.channs chann).closed live regular
    · exact kept
  | act chann slot change =>
    unfold sessionStep
    obtain ⟨live, sid, createdFor⟩ := regular ((server.channList chann).connList slot)
    refine kept.update chann rfl ?_ fun other differs => setChann_others server _ differs
    rw [setChann_channList]
    exact (kept.channs chann).setConn live sid createdFor

end

end Server

def AlwaysRegular (taosAuthenticateMsg : Arrival -> List UInt8 -> Bool) :
    STaosRpc -> List SessionEvent -> Prop
  | _, [] => True
  | server, event :: events =>
    Regular server event ∧
      AlwaysRegular taosAuthenticateMsg (sessionStep taosAuthenticateMsg server event) events

theorem sessionRun_kept (taosAuthenticateMsg : Arrival -> List UInt8 -> Bool)
    (events : List SessionEvent) : ∀ {server : STaosRpc}, AllKept server ->
      AlwaysRegular taosAuthenticateMsg server events ->
        AllKept (sessionRun taosAuthenticateMsg server events) := by
  induction events with
  | nil => exact fun kept _ => kept
  | cons event events ih =>
    intro server kept regular
    exact ih (kept.step taosAuthenticateMsg regular.1) regular.2

/-- `taosOpenRpcChann`. -/
def newChann (sessions : Nat) : SRpcChann where
  sessions := sessions
  connList := fun _ => zeroConn
  idPool := taosInitIdPool sessions
  hash := []

/-- A server with new channels and free ids; the pool has at least three ids, and so
have the channels. -/
structure NewServer where
  server : STaosRpc
  sessions : Nat -> Nat
  enough : ∀ chann, 3 ≤ sessions chann
  idMgmt : server.idMgmt = .free
  channs : ∀ chann, server.channList chann = newChann (sessions chann)

theorem newChann_kept {sessions : Nat} (enough : 3 ≤ sessions) : Kept (newChann sessions) := by
  refine ⟨⟨?_, ?_, ?_⟩, taosInitIdPool_sound sessions, max_eq_right enough, ?_, List.nodup_nil⟩
  · intro id
    exact iff_of_false (not_inUse_init sessions id) Bool.false_ne_true
  · intro slot live
    cases live
  · intro key slot found
    cases found
  · intro slot live
    cases live

theorem NewServer.kept (new : NewServer) : AllKept new.server := by
  refine ⟨new.idMgmt, ?_⟩
  intro chann
  rw [new.channs chann]
  exact newChann_kept (new.enough chann)

/-- In a regular run every channel stays in order, and a packet for which no connection
is found changes nothing. -/
theorem regularRun_booked (taosAuthenticateMsg : Arrival -> List UInt8 -> Bool) (new : NewServer)
    (events : List SessionEvent) (regular : AlwaysRegular taosAuthenticateMsg new.server events) :
    (∀ chann, Booked ((sessionRun taosAuthenticateMsg new.server events).channList chann)) ∧
    ∀ arrival, Admitted (sessionRun taosAuthenticateMsg new.server events) arrival ->
      Regular (sessionRun taosAuthenticateMsg new.server events) (.receive arrival) ->
      (lookupConn (sessionRun taosAuthenticateMsg new.server events) arrival).2.1 = none ->
      (lookupConn (sessionRun taosAuthenticateMsg new.server events) arrival).2.2 =
        sessionRun taosAuthenticateMsg new.server events := by
  have kept := sessionRun_kept taosAuthenticateMsg events new.kept regular
  refine ⟨fun chann => (kept.channs chann).toBooked, ?_⟩
  intro arrival admitted regularNext fails
  rcases kept.lookup (regularNext admitted) with ⟨code, refused⟩ | ⟨slot, next, found, -⟩
  · rw [refused]
  · rw [found] at fails
    cases fails

def emptyServer : NewServer where
  server :=
    { bits := 20, numOfChanns := 1, numOfThreads := 1, idMgmt := .free, type := .udps
      localPort := 0, index := 0, afp := false, channList := fun _ => newChann 4 }
  sessions := fun _ => 4
  enough := fun _ => by omega
  idMgmt := rfl
  channs := fun _ => rfl

/-- A request of the peer with the link id 5 from an address. -/
def requestFrom (ip : UInt32) (destId : Nat) (tranId : UInt16) : Arrival where
  header :=
    { tcp := false, spi := 0, tranId := tranId, uid := 0, sourceId := 5, destId := destId
      meterId := [], port := 0, msgType := 1, msgLen := 49, content := 0, timeStamp := 0 }
  dataLen := 49
  ip := ip
  port := 7
  chandle := 0
  now := 0
  random := 0
  afp := fun _ => ⟨0, 0, 0, [], []⟩

/-- A session is opened and closed. -/
theorem openClose_booked : Booked ((sessionRun (fun _ _ => true) emptyServer.server
      [.receive (requestFrom 1 0 3), .close 0 1]).channList 0) := by
  refine (regularRun_booked (fun _ _ => true) emptyServer
    [.receive (requestFrom 1 0 3), .close 0 1] ⟨?_, ?_, trivial⟩).1 0
  · intro _ _ secured
    cases secured
  · intro key found
    have hash : ((sessionStep (fun _ _ => true) emptyServer.server
        (.receive (requestFrom 1 0 3))).channList 0).hash = [((1, 0, 5), 1)] := by decide +kernel
    rw [hash, taosGetStrHashData_cons] at found
    split at found
    · rename_i same
      exact same.symm
    · cases found

/-- A session whose peer has moved leaves its name behind when it is closed. -/
theorem moved_not_booked :
    ¬ ∀ (taosAuthenticateMsg : Arrival -> List UInt8 -> Bool) (new : NewServer)
      (events : List SessionEvent),
      ∀ chann, Booked ((sessionRun taosAuthenticateMsg new.server events).channList chann) := by
  intro booked
  have stale := booked (fun _ _ => true) emptyServer
    [.receive (requestFrom 1 0 3), .receive (requestFrom 2 1 4), .close 0 1] 0
  have live := (stale.hash (1, 0, 5) 1 (by decide +kernel)).1
  revert live
  decide +kernel

end Luomi.Rpc.Session
