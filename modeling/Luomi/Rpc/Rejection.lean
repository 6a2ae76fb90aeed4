import Luomi.Rpc.Session

/-!
# Packets that fail the authentication

A packet whose digest is refused is discarded, but the connection has already taken
over the address, the port, the uid and the handle of its sender, and a request may
have opened a session.  Nothing changes where the packet names a known session and
says about the peer what the connection knows.
-/

namespace Luomi.Rpc.Session

open IdPool
open Function (update update_eq_self update_self)

/-- The packet is refused by the check of its time or its digest. -/
def Rejected (processed : Processed) : Prop :=
  processed.code = invalidTimeStamp ∨ processed.code = authFailure

instance (processed : Processed) : Decidable (Rejected processed) :=
  inferInstanceAs (Decidable (_ ∨ _))

def existingSlot (server : STaosRpc) (arrival : Arrival) : Option Nat :=
  let pChann := server.channList (channOf server arrival.header)
  let sid := sidOf server arrival.header
  if server.idMgmt = .free ∧ (sid = 0 ∨ (pChann.connList sid).live = false) then
    if arrival.header.msgType % 2 = 1 then
      (taosGetStrHashData pChann.hash (hashstrOf server arrival)).map fun slot =>
        (pChann.connList slot).conn.sid
    else none
  else some sid

/-- A packet says about the peer what the connection knows. -/
structure SamePeer (conn : SessionConn) (arrival : Arrival) : Prop where
  ip : conn.peerIp = arrival.ip
  uid : arrival.header.uid = 0 ∨ arrival.header.uid = conn.peerUid
  port : arrival.header.port ≠ 0 ∧ arrival.header.port = conn.peerPort ∨
    arrival.header.port = 0 ∧ (arrival.port = 0 ∨ arrival.port = conn.peerPort)
  chandle : arrival.chandle = 0 ∨ arrival.chandle = conn.chandle

/-- A packet for a session that is there, from the peer it is known to have. -/
def Settled (server : STaosRpc) (arrival : Arrival) : Prop :=
  ∃ slot, existingSlot server arrival = some slot ∧
    ((server.channList (channOf server arrival.header)).connList slot).live = true ∧
    SamePeer ((server.channList (channOf server arrival.header)).connList slot) arrival

theorem updatePeer_eq_iff (conn : SessionConn) (arrival : Arrival) :
    updatePeer conn arrival = conn ↔ SamePeer conn arrival := by
  constructor
  · intro same
    have ip := congrArg SessionConn.peerIp same
    have uid := congrArg SessionConn.peerUid same
    have port := congrArg SessionConn.peerPort same
    have chandle := congrArg SessionConn.chandle same
    simp only [updatePeer] at ip uid port chandle
    refine ⟨ip.symm, ?_, ?_, ?_⟩
    · by_cases named : arrival.header.uid ≠ 0
      · rw [if_pos named] at uid
        exact Or.inr uid
      · exact Or.inl (not_not.mp named)
    · by_cases named : arrival.header.port ≠ 0
      · rw [if_pos named] at port
        exact Or.inl ⟨named, port⟩
      · rw [if_neg named] at port
        refine Or.inr ⟨not_not.mp named, ?_⟩
        by_cases given : arrival.port ≠ 0
        · rw [if_pos given] at port
          exact Or.inr port
        · exact Or.inl (not_not.mp given)
    · by_cases given : arrival.chandle ≠ 0
      · rw [if_pos given] at chandle
        exact Or.inr chandle
      · exact Or.inl (not_not.mp given)
  · intro same
    obtain ⟨ip, uid, port, chandle⟩ := same
    have uidSame : (if arrival.header.uid ≠ 0 then arrival.header.uid else conn.peerUid) =
        conn.peerUid := by
      split
      · rename_i named
        exact uid.resolve_left named
      · rfl
    have portSame : (if arrival.header.port ≠ 0 then arrival.header.port
        else if arrival.port ≠ 0 then arrival.port else conn.peerPort) = conn.peerPort := by
      split
      · rename_i named
        exact (port.resolve_right fun absent => named absent.1).2
      · split
        · rename_i unnamed given
          rcases port with ⟨named, -⟩ | ⟨-, absent | same⟩
          · exact absurd named unnamed
          · exact absurd absent given
          · exact same
        · rfl
    have chandleSame : (if arrival.chandle ≠ 0 then arrival.chandle else conn.chandle) =
        conn.chandle := by
      split
      · rename_i given
        exact chandle.resolve_left given
      · rfl
    unfold updatePeer
    rw [uidSame, portSame, chandleSame, if_neg (not_not.mpr ip), <- ip]

def Opened (server next : STaosRpc) (chann : Nat) : Prop :=
  (next.channList chann).idPool.numOfFree < (server.channList chann).idPool.numOfFree ∨
    ∃ slot, ((server.channList chann).connList slot).live = false ∧
      ((next.channList chann).connList slot).live = true

section Get

variable {server : STaosRpc} {chann sid : Nat} {hashstr : HashStr} {arrival : Arrival}

theorem Opened.ne {next : STaosRpc} (opened : Opened server next chann) : next ≠ server := by
  rintro rfl
  rcases opened with fewer | ⟨slot, dead, live⟩
  · exact Nat.lt_irrefl _ fewer
  · rw [dead] at live
    cases live

theorem setChann_channList (server : STaosRpc) (chann : Nat) (pChann : SRpcChann) :
    (server.setChann chann pChann).channList chann = pChann :=
  update_self _ _ _

theorem setConn_connList (pChann : SRpcChann) (slot : Nat) (conn : SessionConn) :
    (pChann.setConn slot conn).connList slot = conn :=
  update_self _ _ _

theorem createdConn_live (server : STaosRpc) (chann sid : Nat) (hashstr : HashStr)
    (arrival : Arrival) : (createdConn server chann sid hashstr arrival).live = true := by
  unfold createdConn
  simp only
  split <;> rfl

theorem openSlot_live (live : ((server.channList chann).connList sid).live = true) :
    openSlot server chann sid hashstr arrival =
      if ((server.channList chann).connList sid).meterId ≠ arrival.header.meterId then
        (mismatchedMeterId, none, server)
      else (success, some sid, server) := by
  unfold openSlot
  simp only
  rw [if_neg fun dead => by rw [live] at dead; cases dead]

theorem openSlot_dead (dead : ((server.channList chann).connList sid).live = false) :
    (((openSlot server chann sid hashstr arrival).2.2.channList chann).connList sid).live = true ∧
      ((openSlot server chann sid hashstr arrival).2.2.channList chann).idPool =
        (server.channList chann).idPool := by
  unfold openSlot
  simp only
  rw [if_pos dead]
  split
  · rw [setChann_channList, setConn_connList]
    exact ⟨createdConn_live _ _ _ _ _, rfl⟩
  · rw [setChann_channList]
    refine ⟨?_, rfl⟩
    simp only [SRpcChann.setConn, update_self]
    exact createdConn_live _ _ _ _ _

theorem openSlot_idPool : ((openSlot server chann sid hashstr arrival).2.2.channList chann).idPool =
    (server.channList chann).idPool := by
  cases live : ((server.channList chann).connList sid).live with
  | false => exact (openSlot_dead live).2
  | true =>
    rw [openSlot_live live]
    split <;> rfl

/-- The call of `taosGetRpcConn` for a packet. -/
def lookupConn (server : STaosRpc) (arrival : Arrival) : Nat × Option Nat × STaosRpc :=
  taosGetRpcConn server (channOf server arrival.header) (sidOf server arrival.header)
    (decide (arrival.header.msgType % 2 = 1)) (hashstrOf server arrival) arrival

inductive Lookup (server : STaosRpc) (arrival : Arrival) : Nat × Option Nat × STaosRpc -> Prop where
  | found (slot : Nat) (known : existingSlot server arrival = some slot)
      (live : ((server.channList (channOf server arrival.header)).connList slot).live = true) :
      Lookup server arrival
        (if ((server.channList (channOf server arrival.header)).connList slot).meterId ≠
            arrival.header.meterId then (mismatchedMeterId, none, server)
        else (success, some slot, server))
  | refused (code : Nat) (isCode : code = maxSessions ∨ code = unexpectedResponse) :
      Lookup server arrival (code, none, server)
  | opened (result : Nat × Option Nat × STaosRpc) (unsettled : ¬ Settled server arrival)
      (opened : Opened server result.2.2 (channOf server arrival.header)) :
      Lookup server arrival result

theorem Lookup.of_known {slot : Nat} (known : existingSlot server arrival = some slot) :
    Lookup server arrival
      (openSlot server (channOf server arrival.header) slot (hashstrOf server arrival) arrival) := by
  cases live : ((server.channList (channOf server arrival.header)).connList slot).live with
  | true =>
    rw [openSlot_live live]
    exact Lookup.found slot known live
  | false =>
    refine Lookup.opened _ ?_ (Or.inr ⟨slot, live, (openSlot_dead live).1⟩)
    rintro ⟨other, isOther, otherLive, -⟩
    cases Option.some.inj (known.symm.trans isOther)
    rw [live] at otherLive
    cases otherLive

theorem lookupConn_lookup (server : STaosRpc) (arrival : Arrival) :
    Lookup server arrival (lookupConn server arrival) := by
  unfold lookupConn taosGetRpcConn
  simp only
  by_cases unknown : server.idMgmt = .free ∧ (sidOf server arrival.header = 0 ∨
      ((server.channList (channOf server arrival.header)).connList
        (sidOf server arrival.header)).live = false)
  · rw [if_pos unknown]
    by_cases request : arrival.header.msgType % 2 = 1
    · rw [if_pos (decide_eq_true request)]
      cases found : taosGetStrHashData (server.channList (channOf server arrival.header)).hash
          (hashstrOf server arrival) with
      | some slot =>
        apply Lookup.of_known
        unfold existingSlot
        rw [if_pos unknown, if_pos request, found]
        rfl
      | none =>
        have absent : ¬ Settled server arrival := by
          rintro ⟨other, isOther, -⟩
          unfold existingSlot at isOther
          rw [if_pos unknown, if_pos request, found] at isOther
          cases isOther
        simp only
        by_cases free : 0 < (server.channList (channOf server arrival.header)).idPool.numOfFree
        · rw [taosAllocateId, if_pos free]
          refine Lookup.opened _ absent (Or.inl ?_)
          simp only
          rw [openSlot_idPool, setChann_channList]
          exact Nat.sub_lt free Nat.one_pos
        · rw [taosAllocateId, if_neg free]
          exact Lookup.refused maxSessions (Or.inl rfl)
    · rw [if_neg (by rw [decide_eq_true_iff]; exact request)]
      exact Lookup.refused unexpectedResponse (Or.inr rfl)
  · rw [if_neg unknown]
    apply Lookup.of_known
    unfold existingSlot
    rw [if_neg unknown]

end Get

section Process

variable {taosAuthenticateMsg : Arrival -> List UInt8 -> Bool} {server : STaosRpc}
  {chann slot : Nat} {arrival : Arrival}

theorem transaction_notRejected (conn : SRpcConn) (header : STaosHeader) :
    (Rpc.taosProcessMsgHeader conn header).1 ≠ invalidTimeStamp ∧
      (Rpc.taosProcessMsgHeader conn header).1 ≠ authFailure := by
  unfold Rpc.taosProcessMsgHeader
  split
  · unfold processRequest
    simp only
    repeat' split
    all_goals exact ⟨ne_of_beq_false rfl, ne_of_beq_false rfl⟩
  · unfold processResponse
    simp only
    repeat' split
    all_goals exact ⟨ne_of_beq_false rfl, ne_of_beq_false rfl⟩

theorem transaction_sid (conn : SRpcConn) (header : STaosHeader) :
    (Rpc.taosProcessMsgHeader conn header).2.1.sid = conn.sid := by
  unfold Rpc.taosProcessMsgHeader
  split
  · unfold processRequest
    by_cases unknown : conn.peerId = 0
    all_goals simp only [unknown, if_true, if_false]
    all_goals repeat' split
    all_goals rfl
  · unfold processResponse
    simp only
    repeat' split
    all_goals rfl

theorem processConn_frame :
    ∃ conn, (processConn taosAuthenticateMsg server chann slot arrival).server =
        server.setChann chann ((server.channList chann).setConn slot conn) ∧
      conn.live = ((server.channList chann).connList slot).live ∧
      conn.conn.sid = ((server.channList chann).connList slot).conn.sid ∧
      conn.createdFor = ((server.channList chann).connList slot).createdFor := by
  unfold processConn
  simp only
  split
  · exact ⟨_, rfl, rfl, rfl, rfl⟩
  · split
    · exact ⟨_, rfl, rfl, rfl, rfl⟩
    · exact ⟨_, rfl, rfl, transaction_sid _ _, rfl⟩

theorem Opened.process {next : STaosRpc} (opened : Opened server next chann) :
    Opened server (processConn taosAuthenticateMsg next chann slot arrival).server chann := by
  obtain ⟨conn, isNext, live, -⟩ := @processConn_frame taosAuthenticateMsg next chann slot arrival
  rw [isNext]
  rcases opened with fewer | ⟨other, dead, lives⟩
  · left
    rw [setChann_channList]
    exact fewer
  · refine Or.inr ⟨other, dead, ?_⟩
    rw [setChann_channList]
    unfold SRpcChann.setConn
    by_cases same : other = slot
    · subst same
      simp only [update_self]
      rw [live]
      exact lives
    · simp only [Function.update_of_ne same]
      exact lives

/-- A packet that is refused leaves the connection as it is but for its peer. -/
theorem processConn_rejected
    (rejected : Rejected (processConn taosAuthenticateMsg server chann slot arrival)) :
    (processConn taosAuthenticateMsg server chann slot arrival).server =
      server.setChann chann ((server.channList chann).setConn slot
        (updatePeer ((server.channList chann).connList slot) arrival)) := by
  unfold processConn at rejected ⊢
  simp only at rejected ⊢
  by_cases tcp : arrival.header.tcp = true
  · rw [if_pos tcp] at rejected
    exact absurd rejected (not_or.mpr ⟨ne_of_beq_false rfl, ne_of_beq_false rfl⟩)
  · rw [if_neg tcp] at rejected ⊢
    cases refuses : authenticate taosAuthenticateMsg
        (updatePeer ((server.channList chann).connList slot) arrival) arrival with
    | some code => rfl
    | none =>
      simp only [refuses] at rejected
      exact absurd rejected (not_or.mpr (transaction_notRejected _ _))

theorem setConn_eq_iff (conn : SessionConn) :
    server.setChann chann ((server.channList chann).setConn slot conn) = server ↔
      conn = (server.channList chann).connList slot := by
  constructor
  · intro same
    have lists := congrArg (fun next : STaosRpc => (next.channList chann).connList slot) same
    simp only [setChann_channList, setConn_connList] at lists
    exact lists
  · rintro rfl
    unfold STaosRpc.setChann SRpcChann.setConn
    rw [update_eq_self, update_eq_self]

def Admitted (server : STaosRpc) (arrival : Arrival) : Prop :=
  0 < arrival.header.msgType ∧ arrival.header.msgType < msgTypeMax ∧
    arrival.dataLen = arrival.header.msgLen ∧
    channOf server arrival.header < server.numOfChanns ∧
    (server.channList (channOf server arrival.header)).sessions ≠ 0 ∧
    sidOf server arrival.header <
      (server.channList (channOf server arrival.header)).sessions

def processFound (taosAuthenticateMsg : Arrival -> List UInt8 -> Bool) (chann : Nat)
    (arrival : Arrival) (result : Nat × Option Nat × STaosRpc) : Processed :=
  match result with
  | (code, none, server) => ⟨code, none, server, []⟩
  | (_, some slot, server) => processConn taosAuthenticateMsg server chann slot arrival

/-- A packet is turned away by what its header says, or its session is looked up. -/
theorem taosProcessMsgHeader_cases (taosAuthenticateMsg : Arrival -> List UInt8 -> Bool)
    (server : STaosRpc) (arrival : Arrival) :
    (∃ code, (code ≠ invalidTimeStamp ∧ code ≠ authFailure) ∧
      taosProcessMsgHeader taosAuthenticateMsg server arrival = ⟨code, none, server, []⟩) ∨
    Admitted server arrival ∧ taosProcessMsgHeader taosAuthenticateMsg server arrival =
      processFound taosAuthenticateMsg (channOf server arrival.header) arrival
        (lookupConn server arrival) := by
  unfold taosProcessMsgHeader
  simp only
  split
  · exact Or.inl ⟨_, ⟨ne_of_beq_false rfl, ne_of_beq_false rfl⟩, rfl⟩
  rename_i isType
  split
  · exact Or.inl ⟨_, ⟨ne_of_beq_false rfl, ne_of_beq_false rfl⟩, rfl⟩
  rename_i sized
  split
  · exact Or.inl ⟨_, ⟨ne_of_beq_false rfl, ne_of_beq_false rfl⟩, rfl⟩
  rename_i isChann
  split
  · exact Or.inl ⟨_, ⟨ne_of_beq_false rfl, ne_of_beq_false rfl⟩, rfl⟩
  rename_i active
  split
  · exact Or.inl ⟨_, ⟨ne_of_beq_false rfl, ne_of_beq_false rfl⟩, rfl⟩
  rename_i isSid
  obtain ⟨below, positive⟩ := not_or.mp isType
  exact Or.inr ⟨⟨not_le.mp positive, not_le.mp below, not_not.mp sized, not_le.mp isChann, active,
    not_le.mp isSid⟩, rfl⟩

/-- A packet that is refused changes nothing exactly where it is settled. -/
theorem rejected_iff
    (rejected : Rejected (taosProcessMsgHeader taosAuthenticateMsg server arrival)) :
    (taosProcessMsgHeader taosAuthenticateMsg server arrival).server = server ↔
      Settled server arrival := by
  rcases taosProcessMsgHeader_cases taosAuthenticateMsg server arrival with
    ⟨code, notRejected, early⟩ | ⟨-, looked⟩
  · rw [early] at rejected
    exact absurd rejected (not_or.mpr notRejected)
  rw [looked] at rejected ⊢
  have lookup := lookupConn_lookup server arrival
  generalize lookupConn server arrival = result at rejected lookup
  cases lookup with
  | found slot known live =>
    by_cases other :
        ((server.channList (channOf server arrival.header)).connList slot).meterId ≠
          arrival.header.meterId
    · rw [if_pos other] at rejected
      exact absurd rejected (not_or.mpr ⟨ne_of_beq_false rfl, ne_of_beq_false rfl⟩)
    · rw [if_neg other] at rejected ⊢
      have refused := processConn_rejected rejected
      have same : (processFound taosAuthenticateMsg (channOf server arrival.header) arrival
          (success, some slot, server)).server = server ↔
          updatePeer ((server.channList (channOf server arrival.header)).connList slot) arrival =
            (server.channList (channOf server arrival.header)).connList slot := by
        unfold processFound
        rw [refused]
        exact setConn_eq_iff _
      rw [same, updatePeer_eq_iff]
      constructor
      · exact fun peer => ⟨slot, known, live, peer⟩
      · rintro ⟨again, isAgain, -, peer⟩
        cases Option.some.inj (known.symm.trans isAgain)
        exact peer
  | refused code isCode =>
    rcases isCode with rfl | rfl
    all_goals exact absurd rejected (not_or.mpr ⟨ne_of_beq_false rfl, ne_of_beq_false rfl⟩)
  | opened result unsettled opened =>
    have after : Opened server (processFound taosAuthenticateMsg (channOf server arrival.header)
        arrival result).server (channOf server arrival.header) := by
      obtain ⟨code, slot, next⟩ := result
      cases slot with
      | none => exact opened
      | some slot => exact opened.process
    exact iff_of_false after.ne unsettled

end Process

section Runs

variable (taosAuthenticateMsg : Arrival -> List UInt8 -> Bool)

/-- What happens to a server: packets arrive, and connections are closed or changed by
the application and the timers. -/
inductive SessionEvent where
  | receive (arrival : Arrival)
  | close (chann slot : Nat)
  | act (chann slot : Nat) (change : SessionConn -> SessionConn)

def sessionStep (server : STaosRpc) : SessionEvent -> STaosRpc
  | .receive arrival => (taosProcessMsgHeader taosAuthenticateMsg server arrival).server
  | .close chann slot => taosCloseRpcConn server chann slot
  | .act chann slot change =>
    server.setChann chann ((server.channList chann).setConn slot
      (change ((server.channList chann).connList slot)))

def sessionRun : STaosRpc -> List SessionEvent -> STaosRpc
  | server, [] => server
  | server, event :: events => sessionRun (sessionStep taosAuthenticateMsg server event) events

def RejectedEvent (server : STaosRpc) : SessionEvent -> Prop
  | .receive arrival => Rejected (taosProcessMsgHeader taosAuthenticateMsg server arrival)
  | .close _ _ => False
  | .act _ _ _ => False

instance (server : STaosRpc) (event : SessionEvent) :
    Decidable (RejectedEvent taosAuthenticateMsg server event) :=
  match event with
  | .receive arrival =>
    inferInstanceAs
      (Decidable (Rejected (taosProcessMsgHeader taosAuthenticateMsg server arrival)))
  | .close _ _ => inferInstanceAs (Decidable False)
  | .act _ _ _ => inferInstanceAs (Decidable False)

def withoutRejected : STaosRpc -> List SessionEvent -> List SessionEvent
  | _, [] => []
  | server, event :: events =>
    let later := withoutRejected (sessionStep taosAuthenticateMsg server event) events
    if RejectedEvent taosAuthenticateMsg server event then later else event :: later

def RejectedSettled : STaosRpc -> List SessionEvent -> Prop
  | _, [] => True
  | server, event :: events =>
    (∀ arrival, event = .receive arrival ->
      Rejected (taosProcessMsgHeader taosAuthenticateMsg server arrival) ->
        Settled server arrival) ∧
    RejectedSettled (sessionStep taosAuthenticateMsg server event) events

theorem sessionRun_withoutRejected (events : List SessionEvent) : ∀ {server : STaosRpc},
    RejectedSettled taosAuthenticateMsg server events ->
      sessionRun taosAuthenticateMsg server (withoutRejected taosAuthenticateMsg server events) =
        sessionRun taosAuthenticateMsg server events := by
  induction events with
  | nil => exact fun _ => rfl
  | cons event events ih =>
    intro server settled
    have rest := ih settled.2
    rw [withoutRejected]
    by_cases refused : RejectedEvent taosAuthenticateMsg server event
    · rw [if_pos refused, sessionRun, <- rest]
      cases event with
      | receive arrival =>
        have same := (rejected_iff refused).mpr (settled.1 arrival rfl refused)
        rw [sessionStep, same]
      | close chann slot => exact absurd refused id
      | act chann slot change => exact absurd refused id
    · rw [if_neg refused, sessionRun, sessionRun, rest]

end Runs

/-- A refused packet changes nothing exactly where it is settled, and runs that differ
only in such packets end in the same state. -/
theorem rejected_unchanged (taosAuthenticateMsg : Arrival -> List UInt8 -> Bool) :
    (∀ server arrival, Rejected (taosProcessMsgHeader taosAuthenticateMsg server arrival) ->
      ((taosProcessMsgHeader taosAuthenticateMsg server arrival).server = server ↔
        Settled server arrival)) ∧
    ∀ server events others, RejectedSettled taosAuthenticateMsg server events ->
      RejectedSettled taosAuthenticateMsg server others ->
      withoutRejected taosAuthenticateMsg server events =
        withoutRejected taosAuthenticateMsg server others ->
      sessionRun taosAuthenticateMsg server events = sessionRun taosAuthenticateMsg server others := by
  refine ⟨fun _ _ rejected => rejected_iff rejected, ?_⟩
  intro server events others settled othersSettled same
  rw [<- sessionRun_withoutRejected taosAuthenticateMsg events settled, same,
    sessionRun_withoutRejected taosAuthenticateMsg others othersSettled]

def keyedServer : STaosRpc where
  bits := 20
  numOfChanns := 1
  numOfThreads := 1
  idMgmt := .free
  type := .udps
  localPort := 0
  index := 0
  afp := true
  channList := fun _ =>
    { sessions := 4
      connList := update (fun _ => zeroConn) 1
        { zeroConn with
          live := true, conn := newConn 1 0x01000000 9, spi := 1, peerIp := 1, peerPort := 7 }
      idPool := (taosAllocateId (taosInitIdPool 4)).2
      hash := [((1, 0, 5), 1)] }

def forgedArrival (ip : UInt32) : Arrival where
  header :=
    { tcp := false, spi := 1, tranId := 3, uid := 0, sourceId := 5, destId := 1, meterId := []
      port := 0, msgType := 1, msgLen := 69, content := 0, timeStamp := 0 }
  dataLen := 69
  ip := ip
  port := 7
  chandle := 0
  now := 0
  random := 0
  afp := fun _ => ⟨0, 1, 0, [], []⟩

/-- A forged request from the address of the peer changes nothing. -/
theorem forgedArrival_unchanged :
    (taosProcessMsgHeader (fun _ _ => false) keyedServer (forgedArrival 1)).server = keyedServer :=
  ((rejected_unchanged fun _ _ => false).1 keyedServer (forgedArrival 1) (by decide +kernel)).mpr
    ⟨1, by decide +kernel, by decide +kernel,
      ⟨by decide +kernel, Or.inl rfl, Or.inr ⟨rfl, Or.inr (by decide +kernel)⟩, Or.inl rfl⟩⟩

/-- A forged request from another address takes the session over. -/
theorem forgedArrival_changes : ¬ ∀ server arrival,
      Rejected (taosProcessMsgHeader (fun _ _ => false) server arrival) ->
        (taosProcessMsgHeader (fun _ _ => false) server arrival).server = server := by
  intro unchanged
  have same := unchanged keyedServer (forgedArrival 2) (by decide +kernel)
  have before : ((keyedServer.channList 0).connList 1).peerIp = 1 := by decide +kernel
  have after : (((taosProcessMsgHeader (fun _ _ => false) keyedServer
      (forgedArrival 2)).server.channList 0).connList 1).peerIp = 2 := by decide +kernel
  rw [same, before] at after
  exact absurd after (by decide)

end Luomi.Rpc.Session
