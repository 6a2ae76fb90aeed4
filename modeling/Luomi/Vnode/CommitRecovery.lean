import Luomi.Vnode.CommitRoundTrip

/-!
# Where a log goes on after a restart

The write pointer is set behind the records whose lengths the replay has added up.
Records of meters that are gone are read but not counted; of records out of range
the head is read and the whole length is counted.
-/

namespace Luomi.Vnode.CommitRecovery

open LittleEndian StreamScan CommitLog CommitReplay
  Luomi.Vnode.CommitRoundTrip
open List (append_assoc append_nil drop_left' flatMap_nil map_cons mem_cons mem_cons_self mem_map
  nil_append not_mem_nil sum_cons)
open Option (bind_eq_bind bind_some map_some)

def foundHead : Found -> SCommitHead
  | .invalid head => head
  | .record head _ => head

abbrev Sighting := Nat × SCommitHead

def note (state : Nat × List Sighting) (found : Found) (size : Nat) : Nat × List Sighting :=
  (state.1 + size, state.2 ++ [(state.1, foundHead found)])

section Seen

variable (stale : Bytes -> Bytes) (maxSessions : Int)

def seenFrom (start : Nat) (stream : Bytes) : List Sighting :=
  (scan (readRecord stale maxSessions) note stream (start, [])).2

def starts : Nat -> List Record -> List Sighting
  | _, [] => []
  | start, record :: records =>
    (start, recordHead record) :: starts (start + recordLen record) records

/-- Only the last record may be out of range, and then what stands behind its head is
not accepted. -/
def OnlyLast (zeros : Nat) : List Record -> Prop
  | [] => True
  | record :: records =>
    (InRange maxSessions record ∨ records = [] ∧ readRecord stale maxSessions
      ((recordBytes record ++ List.replicate zeros 0).drop sizeofCommitHead) = none) ∧
    OnlyLast zeros records

variable {stale : Bytes -> Bytes} {maxSessions : Int}

theorem scanFrom_note (fuel : Nat) : ∀ (stream : Bytes) (start : Nat) (before : List Sighting),
    (scanFrom (readRecord stale maxSessions) note fuel stream (start, before)).2 =
      before ++ (scanFrom (readRecord stale maxSessions) note fuel stream (start, [])).2 := by
  induction fuel with
  | zero => exact fun stream start before => (append_nil before).symm
  | succ fuel ih =>
    intro stream start before
    rw [scanFrom, scanFrom]
    cases readRecord stale maxSessions stream with
    | none => exact (append_nil before).symm
    | some pair =>
      simp only [note]
      rw [ih, ih _ _ ([] ++ _), nil_append, append_assoc]

variable {stream : Bytes}

theorem seenFrom_step {found : Found} {size : Nat} (start : Nat)
    (finds : readRecord stale maxSessions stream = some (found, size)) :
    seenFrom stale maxSessions start stream =
      (start, foundHead found) :: seenFrom stale maxSessions (start + size) (stream.drop size) := by
  unfold seenFrom
  rw [scan_step readRecord_progresses finds]
  exact scanFrom_note _ _ _ _

theorem seenFrom_stop (start : Nat) (stops : readRecord stale maxSessions stream = none) :
    seenFrom stale maxSessions start stream = [] := by
  unfold seenFrom
  rw [scan_stop stops]

theorem seenFrom_eq_nil_iff (start : Nat) (stream : Bytes) :
    seenFrom stale maxSessions start stream = [] ↔ readRecord stale maxSessions stream = none := by
  constructor
  · intro empty
    cases finds : readRecord stale maxSessions stream with
    | none => rfl
    | some pair =>
      rw [seenFrom_step start finds] at empty
      cases empty
  · exact seenFrom_stop start

theorem seenFrom_ne_starts {start place : Nat} (elsewhere : start ≠ place) (stream : Bytes)
    (record : Record) (records : List Record) :
    seenFrom stale maxSessions start stream ≠ starts place (record :: records) := by
  intro same
  cases finds : readRecord stale maxSessions stream with
  | none =>
    rw [seenFrom_stop start finds] at same
    cases same
  | some pair =>
    rw [seenFrom_step start finds] at same
    exact elsewhere (congrArg Prod.fst (List.cons.inj same).1)

/-- The records are seen at their places if and only if their sums are small and none
but the last is out of range. -/
theorem seenFrom_iff (sessions : 0 < maxSessions) {zeros : Nat} (room : sizeofCommitHead ≤ zeros)
    (records : List Record) : ∀ start : Nat, (∀ record ∈ records, Sized record) ->
      (seenFrom stale maxSessions start (records.flatMap recordBytes ++ List.replicate zeros 0) =
          starts start records ↔
        (∀ record ∈ records, ChecksOut record) ∧ OnlyLast stale maxSessions zeros records) := by
  induction records with
  | nil =>
    intro start _
    rw [flatMap_nil, nil_append, seenFrom_stop start (readRecord_zeros sessions room)]
    exact ⟨fun _ => ⟨fun record member => absurd member not_mem_nil, trivial⟩, fun _ => rfl⟩
  | cons record records ih =>
    intro start sized
    have others := ih (start + recordLen record)
      fun other member => sized other (List.mem_cons_of_mem _ member)
    rw [List.flatMap_cons, append_assoc, List.forall_mem_cons]
    by_cases small : ChecksOut record
    · by_cases inRange : InRange maxSessions record
      · have finds := @readRecord_record stale _ _ small
          (sized record mem_cons_self) ((inRange_iff record).mp inRange)
          (records.flatMap recordBytes ++ List.replicate zeros 0)
        rw [seenFrom_step start finds, List.drop_left, recordBytes_length, starts]
        show (start, recordHead record) :: _ = (start, recordHead record) :: _ ↔ _
        rw [List.cons_inj_right, others]
        constructor
        · rintro ⟨checks, range⟩
          exact ⟨⟨small, checks⟩, Or.inl inRange, range⟩
        · rintro ⟨⟨-, checks⟩, -, range⟩
          exact ⟨checks, range⟩
      · have finds := @readRecord_invalid stale _ _ small
          (not_not.mp (mt (inRange_iff record).mpr inRange))
          (records.flatMap recordBytes ++ List.replicate zeros 0)
        rw [seenFrom_step start finds, starts]
        constructor
        · intro same
          have tail := (List.cons.inj same).2
          cases records with
          | nil =>
            have stops := (seenFrom_eq_nil_iff _ _).mp tail
            exact ⟨⟨small, fun other member => absurd member not_mem_nil⟩,
              Or.inr ⟨rfl, stops⟩, trivial⟩
          | cons next records =>
            refine absurd tail (seenFrom_ne_starts ?_ _ _ _)
            have positive := (sized record mem_cons_self).positive
            unfold recordLen
            omega
        · rintro ⟨-, last, -⟩
          obtain ⟨rfl, stops⟩ := last.resolve_left inRange
          exact congrArg ((start, recordHead record) :: ·) (seenFrom_stop _ stops)
    · rw [seenFrom_stop start (readRecord_unchecked small _)]
      constructor
      · exact fun same => by cases same
      · exact fun all => absurd all.1.1 small

end Seen

section Effect

variable (maxSessions : Int) (meterList : Nat -> Option SMeterObj)

instance (record : Record) : Decidable (InRange maxSessions record) :=
  inferInstanceAs (Decidable (_ ∧ _))

instance (sid : BitVec 32) : Decidable (Live meterList sid) :=
  decidable_of_iff ((meterList sid.toInt.toNat).any (fun pObj => !pObj.deleting) = true)
    (by simp [Live, Option.any_eq_true_iff_get, Option.eq_some_iff_get_eq])

def counted (record : Record) : Nat :=
  if InRange maxSessions record ∧ ¬ Live meterList record.sid then 0 else recordLen record

def calledFor (record : Record) : Option Action :=
  if InRange maxSessions record ∧ Live meterList record.sid then
    (processOf record.action).map fun process => actionOf process record
  else none

/-- A record as a run of the vnode leaves it in the log. -/
structure Logged (record : Record) : Prop where
  small : ChecksOut record
  sized : Sized record
  known : record.action.toInt = 0 ∨ record.action.toInt = 1

variable {stale : Bytes -> Bytes} {maxSessions : Int} {meterList : Nat -> Option SMeterObj}

theorem advance_gone {record : Record} (gone : ¬ Live meterList record.sid) (restore : Restore)
    (size : Nat) : advance meterList (some restore) (.record (recordHead record) record.cont) size =
      some restore := by
  unfold advance
  simp only [bind_eq_bind, bind_some]
  cases meter : meterList (recordHead record).sid.toInt.toNat with
  | none => rfl
  | some pObj =>
    have deleting : pObj.deleting = true := by
      by_contra ready
      exact gone ⟨pObj, meter, Bool.eq_false_iff.mpr ready⟩
    simp only [deleting, if_true]
    rfl

theorem replay_onlyLast (sessions : 0 < maxSessions) {zeros : Nat}
    (room : sizeofCommitHead ≤ zeros) (records : List Record) :
    ∀ restore : Restore, (∀ record ∈ records, Logged record) ->
      OnlyLast stale maxSessions zeros records ->
      replay stale maxSessions meterList (records.flatMap recordBytes ++ List.replicate zeros 0)
          (some restore) =
        some ⟨restore.totalLen + (records.map (counted maxSessions meterList)).sum,
          restore.actions ++ records.filterMap (calledFor maxSessions meterList)⟩ := by
  induction records with
  | nil =>
    intro restore _ _
    rw [flatMap_nil, nil_append, replay_zeros sessions room]
    simp
  | cons record records ih =>
    intro restore logged onlyLast
    obtain ⟨small, sized, known⟩ := logged record mem_cons_self
    have others := fun next => ih next
      (fun other member => logged other (List.mem_cons_of_mem _ member)) onlyLast.2
    rw [List.flatMap_cons, append_assoc, map_cons, sum_cons]
    by_cases inRange : InRange maxSessions record
    · rw [replay_record small sized inRange]
      by_cases live : Live meterList record.sid
      · obtain ⟨process, isProcess⟩ :=
          Option.isSome_iff_exists.mp ((processOf_isSome_iff record.action).mpr known)
        have count : counted maxSessions meterList record = recordLen record :=
          if_neg fun gone => gone.2 live
        have call : calledFor maxSessions meterList record = some (actionOf process record) := by
          rw [calledFor, if_pos ⟨inRange, live⟩, isProcess, map_some]
        rw [advance_live live sized, isProcess, map_some, others, count,
          List.filterMap_cons_some call]
        simp only [applied, append_assoc, List.singleton_append, Nat.cast_add, add_assoc]
      · have count : counted maxSessions meterList record = 0 := if_pos ⟨inRange, live⟩
        have call : calledFor maxSessions meterList record = none := if_neg fun both => live both.2
        rw [advance_gone live, others, count, List.filterMap_cons_none call, Nat.zero_add]
    · obtain ⟨rfl, stops⟩ := onlyLast.1.resolve_left inRange
      have count : counted maxSessions meterList record = recordLen record :=
        if_neg fun gone => inRange gone.1
      have call : calledFor maxSessions meterList record = none :=
        if_neg fun both => inRange both.1
      have finds := @readRecord_invalid stale _ _ small
        (not_not.mp (mt (inRange_iff record).mpr inRange)) (List.replicate zeros 0)
      have contLen := sized.contLen
      unfold replay
      rw [flatMap_nil, nil_append, scan_step readRecord_progresses finds,
        scan_stop stops, count, List.filterMap_cons_none call]
      show some (Restore.count restore (recordHead record)) = _
      simp only [Restore.count, contLen, recordLen, List.map_nil, List.sum_nil,
        List.filterMap_nil, append_nil]
      push_cast
      rfl

end Effect

def totalOf (records : List Record) : Nat := (records.map recordLen).sum

theorem totalOf_append (front back : List Record) :
    totalOf (front ++ back) = totalOf front + totalOf back := by
  simp [totalOf]

/-- A vnode that starts with a log of records, what it writes then, and the meters it
has when it starts once more. -/
structure Restart (stale : Bytes -> Bytes) where
  vnode : SVnodeObj
  commitLog : vnode.commitLog = true
  sessions : 0 < vnode.maxSessions
  records : List Record
  version : BitVec 64
  logged : ∀ record ∈ records, Logged record
  olog : Option Bytes
  old : (vnodeRestoreDataFromLog stale vnode.maxSessions vnode.meterList olog).isSome
  renewed : Option (BitVec 64)
  current : BitVec 64
  news : List Call
  meters : ∀ call ∈ news, MeterOf vnode call.pObj
  sized : ∀ call ∈ news, Sized call.record
  known : ∀ call ∈ news, call.action.toInt = 0 ∨ call.action.toInt = 1
  space : 8 + totalOf (records ++ news.map Call.record) + 100 ≤ vnode.mappingSize
  later : Nat -> Option SMeterObj

section Restart

variable {stale : Bytes -> Bytes} (restart : Restart stale)

def Restart.all : List Record := restart.records ++ restart.news.map Call.record

def Restart.zeros (records : List Record) : Nat :=
  restart.vnode.mappingSize - (8 + totalOf records)

/-- The log: a version, the records and zeros. -/
def Restart.body : Bytes :=
  restart.records.flatMap recordBytes ++ List.replicate (restart.zeros restart.records) 0

def Restart.file : Bytes := leBytes 8 restart.version.toNat ++ restart.body

/-- The write pointer stands behind the last record, and a second replay reads every
old record and every new one in its place and applies them. -/
def Recovered : Prop :=
  ∃ opened actions, vnodeInitCommit stale restart.vnode restart.olog (some restart.file)
      restart.renewed restart.current = some (opened, actions) ∧
    opened.pWrite = some ((8 + totalOf restart.records : Nat) : Int) ∧
    ∃ last, writeAll opened restart.news = some last ∧
      seenFrom stale restart.vnode.maxSessions 8 (last.pMem.drop 8) = starts 8 restart.all ∧
      ∃ restore, vnodeRestoreDataFromLog stale restart.vnode.maxSessions restart.later
          (some last.pMem) = some restore ∧
        restore.actions =
          restart.all.filterMap (calledFor restart.vnode.maxSessions restart.later)

/-- The meters of the old records are there, none but the very last record is out of
range, and the new records have small check sums. -/
structure Counted : Prop where
  present : ∀ record ∈ restart.records, InRange restart.vnode.maxSessions record ->
    Live restart.vnode.meterList record.sid
  inRange : OnlyLast stale restart.vnode.maxSessions (restart.zeros restart.all) restart.all
  small : ∀ call ∈ restart.news, ChecksOut call.record

variable {records : List Record}

theorem onlyLast_of_inRange {maxSessions : Int} (zeros : Nat)
    (inRange : ∀ record ∈ records, InRange maxSessions record) :
    OnlyLast stale maxSessions zeros records := by
  induction records with
  | nil => trivial
  | cons record records ih =>
    exact ⟨Or.inl (inRange record mem_cons_self),
      ih fun other member => inRange other (List.mem_cons_of_mem _ member)⟩

theorem inRange_of_onlyLast {maxSessions : Int} {zeros : Nat} {front back : List Record}
    (more : back ≠ []) (onlyLast : OnlyLast stale maxSessions zeros (front ++ back)) :
    ∀ record ∈ front, InRange maxSessions record := by
  induction front with
  | nil => exact fun record member => absurd member not_mem_nil
  | cons record front ih =>
    intro other member
    rcases mem_cons.mp member with rfl | later
    · refine onlyLast.1.resolve_right fun last => more ?_
      exact (List.append_eq_nil_iff.mp last.1).2
    · exact ih onlyLast.2 other later

theorem Restart.onlyLast_records
    (onlyLast : OnlyLast stale restart.vnode.maxSessions (restart.zeros restart.all) restart.all) :
    OnlyLast stale restart.vnode.maxSessions (restart.zeros restart.records) restart.records := by
  by_cases none' : restart.news.map Call.record = []
  · have all : restart.all = restart.records := by
      unfold Restart.all
      rw [none', append_nil]
    rw [all] at onlyLast
    exact onlyLast
  · exact onlyLast_of_inRange _ (inRange_of_onlyLast none' onlyLast)

theorem Restart.room : 8 + totalOf restart.records + 100 ≤ restart.vnode.mappingSize := by
  have space := restart.space
  rw [totalOf_append] at space
  omega

theorem Restart.body_length : restart.body.length + 8 = restart.vnode.mappingSize := by
  have room := restart.room
  unfold Restart.body Restart.zeros
  rw [List.length_append, flatMap_recordBytes_length, List.length_replicate]
  unfold totalOf at room ⊢
  omega

theorem open_whole {vnode : SVnodeObj} {version body : Bytes} (eight : version.length = 8)
    (size : body.length + 8 = vnode.mappingSize) (firstV : BitVec 64) :
    vnodeOpenCommitLog vnode (some (version ++ body)) firstV =
      some { vnode with pMem := leBytes 8 firstV.toNat ++ body, pWrite := some 8 } := by
  have length : (version ++ body).length = vnode.mappingSize := by
    rw [List.length_append, eight, Nat.add_comm]
    exact size
  unfold vnodeOpenCommitLog
  simp only [Option.getD_some, length, Nat.lt_irrefl, if_false, Nat.sub_self, List.replicate_zero,
    append_nil, writeAt, List.take_zero, nil_append, Nat.zero_add, leBytes_length, drop_left' eight]

theorem Restart.renewedLog_file (old : Restore) : ∃ version : Bytes, version.length = 8 ∧
    renewedLog restart.vnode old restart.renewed (some restart.file) =
      some (version ++ restart.body) := by
  unfold renewedLog
  cases restart.renewed with
  | none => exact ⟨_, leBytes_length .., rfl⟩
  | some version =>
    by_cases commits : old.totalLen ≠ 0 ∧ restart.vnode.commitLog = true
    · simp only [if_pos commits, Restart.file]
      rw [open_whole (leBytes_length ..) restart.body_length]
      exact ⟨_, leBytes_length .., rfl⟩
    · simp only [if_neg commits]
      exact ⟨_, leBytes_length .., rfl⟩

def Restart.opened (restore : Restore) (firstV : BitVec 64) : SVnodeObj :=
  { restart.vnode with
    pMem := leBytes 8 firstV.toNat ++ restart.body
    pWrite := some (8 + restore.totalLen) }

/-- The start replays the log and opens it behind what the replay has counted. -/
theorem Restart.init : ∃ (before : List Action) (firstV : Restore -> BitVec 64),
    vnodeInitCommit stale restart.vnode restart.olog (some restart.file) restart.renewed
        restart.current =
      (replay stale restart.vnode.maxSessions restart.vnode.meterList restart.body
        (some ⟨0, []⟩)).map fun restore =>
          (restart.opened restore (firstV restore), before ++ restore.actions) := by
  obtain ⟨old, isOld⟩ := Option.isSome_iff_exists.mp restart.old
  obtain ⟨version, eight, log⟩ := restart.renewedLog_file old
  refine ⟨old.actions, fun restore => if restore.totalLen = 0 then restart.current
    else wordOf 64 ((version ++ restart.body).take 8), ?_⟩
  unfold vnodeInitCommit
  simp only [isOld, bind_eq_bind, bind_some]
  rw [log, vnodeRestoreDataFromLog_some eight, restart.commitLog]
  cases replay stale restart.vnode.maxSessions restart.vnode.meterList restart.body
      (some ⟨0, []⟩) with
  | none => rfl
  | some restore =>
    simp only [bind_some, if_true]
    rw [open_whole eight restart.body_length]
    rfl

variable {restore : Restore}

theorem Restart.written (firstV : BitVec 64) (total : restore.totalLen = totalOf restart.records) :
    Written (restart.opened restore firstV) (leBytes 8 firstV.toNat) restart.records := by
  refine ⟨leBytes_length .., ?_, ⟨restart.zeros restart.records, ?_⟩, ?_⟩
  · show (leBytes 8 firstV.toNat ++ restart.body).length = restart.vnode.mappingSize
    rw [List.length_append, leBytes_length, Nat.add_comm]
    exact restart.body_length
  · show leBytes 8 firstV.toNat ++ restart.body = _
    rw [Restart.body, append_assoc]
  · show some (8 + restore.totalLen) = _
    rw [total, totalOf]
    push_cast
    rfl

theorem writeAll_succeeds {version : Bytes} (calls : List Call) :
    ∀ {vnode : SVnodeObj} {records : List Record}, Written vnode version records ->
      8 + totalOf (records ++ calls.map Call.record) + 100 ≤ vnode.mappingSize ->
      ∃ last, writeAll vnode calls = some last := by
  induction calls with
  | nil => exact fun _ _ => ⟨_, rfl⟩
  | cons call calls ih =>
    intro vnode records written space
    have split : records ++ (call :: calls).map Call.record =
        records ++ [call.record] ++ calls.map Call.record := by simp
    rw [split] at space
    have total := space
    rw [totalOf_append, totalOf_append] at total
    have one : totalOf [call.record] = recordLen call.record := by simp [totalOf]
    have first : 8 + (records.map recordLen).sum + recordLen call.record + 100 ≤
        vnode.mappingSize := by
      unfold totalOf at total one
      omega
    obtain ⟨next, success⟩ := written.succeeds first
    obtain ⟨nextWritten, size, -⟩ := written.write success
    obtain ⟨last, rest⟩ := ih nextWritten (by rw [size]; exact space)
    exact ⟨last, (writeAll_cons ..).mpr ⟨next, success, rest⟩⟩

theorem Restart.last_file {firstV : BitVec 64} {last : SVnodeObj}
    (total : restore.totalLen = totalOf restart.records)
    (writes : writeAll (restart.opened restore firstV) restart.news = some last) :
    last.pMem = leBytes 8 firstV.toNat ++ (restart.all.flatMap recordBytes ++
      List.replicate (restart.zeros restart.all) 0) := by
  obtain ⟨written, size, -⟩ := (restart.written firstV total).writeAll restart.news writes
  obtain ⟨-, mem⟩ := written.zeros
  rw [mem, size, append_assoc]
  rfl

theorem Restart.all_sized : ∀ record ∈ restart.all, Sized record := by
  intro record member
  rcases List.mem_append.mp member with old | new
  · exact (restart.logged record old).sized
  · obtain ⟨call, isCall, rfl⟩ := mem_map.mp new
    exact restart.sized call isCall

theorem Restart.all_logged (small : ∀ call ∈ restart.news, ChecksOut call.record) :
    ∀ record ∈ restart.all, Logged record := by
  intro record member
  rcases List.mem_append.mp member with old | new
  · exact restart.logged record old
  · obtain ⟨call, isCall, rfl⟩ := mem_map.mp new
    exact ⟨small call isCall, restart.sized call isCall, restart.known call isCall⟩

theorem Restart.zeros_room (part : totalOf records ≤ totalOf restart.all) :
    sizeofCommitHead ≤ restart.zeros records := by
  have space := restart.space
  unfold Restart.all at part
  show 16 ≤ _
  unfold Restart.zeros
  omega

theorem Restart.replay_body
    (onlyLast : OnlyLast stale restart.vnode.maxSessions (restart.zeros restart.records)
      restart.records) :
    replay stale restart.vnode.maxSessions restart.vnode.meterList restart.body (some ⟨0, []⟩) =
      some ⟨(restart.records.map (counted restart.vnode.maxSessions restart.vnode.meterList)).sum,
        restart.records.filterMap
          (calledFor restart.vnode.maxSessions restart.vnode.meterList)⟩ := by
  have part : totalOf restart.records ≤ totalOf restart.all := by
    rw [Restart.all, totalOf_append]
    exact Nat.le_add_right _ _
  have result := @replay_onlyLast _ _ restart.vnode.meterList restart.sessions
    _ (restart.zeros_room part) restart.records ⟨0, []⟩ restart.logged onlyLast
  rw [Int.zero_add, nil_append] at result
  exact result

theorem counted_total_iff {maxSessions : Int} {meterList : Nat -> Option SMeterObj}
    (records : List Record) : (records.map (counted maxSessions meterList)).sum = totalOf records ↔
      ∀ record ∈ records, InRange maxSessions record -> Live meterList record.sid := by
  have least : ∀ records : List Record,
      (records.map (counted maxSessions meterList)).sum ≤ totalOf records := by
    intro records
    refine List.sum_le_sum fun record _ => ?_
    unfold counted
    split
    · exact Nat.zero_le _
    · exact le_rfl
  induction records with
  | nil => exact ⟨fun _ record member => absurd member not_mem_nil, fun _ => rfl⟩
  | cons record records ih =>
    have less := least records
    have positive := recordLen_pos record
    have total : totalOf (record :: records) = recordLen record + totalOf records := by
      simp [totalOf]
    rw [map_cons, sum_cons, List.forall_mem_cons, total]
    by_cases gone : InRange maxSessions record ∧ ¬ Live meterList record.sid
    · have count : counted maxSessions meterList record = 0 := if_pos gone
      rw [count]
      constructor
      · intro same
        omega
      · exact fun both => absurd (both.1 gone.1) gone.2
    · have count : counted maxSessions meterList record = recordLen record := if_neg gone
      rw [count]
      constructor
      · intro same
        exact ⟨fun inRange => by_contra fun dead => gone ⟨inRange, dead⟩,
          ih.mp (Nat.add_left_cancel same)⟩
      · intro both
        rw [ih.mpr both.2]

/-- A restart recovers the log if and only if every record is counted, read whole and
written with a small check sum. -/
theorem recovered_iff : Recovered restart ↔ Counted restart := by
  obtain ⟨before, firstV, init⟩ := restart.init
  constructor
  · rintro ⟨opened, actions, start, pWrite, last, writes, seen, -⟩
    rw [init] at start
    obtain ⟨restore, isRestore, both⟩ := Option.map_eq_some_iff.mp start
    cases both
    have total : restore.totalLen = totalOf restart.records := by
      have same : (8 : Int) + restore.totalLen = ((8 + totalOf restart.records : Nat) : Int) :=
        Option.some.inj pWrite
      push_cast at same
      omega
    rw [restart.last_file total writes, drop_left' (leBytes_length ..),
      seenFrom_iff restart.sessions (restart.zeros_room le_rfl) _ _ restart.all_sized] at seen
    obtain ⟨checks, onlyLast⟩ := seen
    rw [restart.replay_body (restart.onlyLast_records onlyLast)] at isRestore
    cases isRestore
    refine ⟨(counted_total_iff restart.records).mp (Int.natCast_inj.mp total), onlyLast, ?_⟩
    intro call isCall
    exact checks _ (List.mem_append_right _ (List.mem_map_of_mem isCall))
  · rintro ⟨present, onlyLast, small⟩
    rw [restart.replay_body (restart.onlyLast_records onlyLast),
      (counted_total_iff restart.records).mpr present, map_some] at init
    set restore : Restore := ⟨totalOf restart.records, restart.records.filterMap
      (calledFor restart.vnode.maxSessions restart.vnode.meterList)⟩
    have total : restore.totalLen = totalOf restart.records := rfl
    obtain ⟨last, writes⟩ := writeAll_succeeds restart.news
      (restart.written (firstV restore) total) restart.space
    have file := restart.last_file total writes
    have logged := restart.all_logged small
    refine ⟨_, _, init, ?_, last, writes, ?_, ?_⟩
    · show some ((8 : Int) + _) = _
      push_cast
      rfl
    · rw [file, drop_left' (leBytes_length ..),
        seenFrom_iff restart.sessions (restart.zeros_room le_rfl) _ _ restart.all_sized]
      exact ⟨fun record member => (logged record member).small, onlyLast⟩
    · rw [file, vnodeRestoreDataFromLog_some (leBytes_length ..),
        replay_onlyLast restart.sessions (restart.zeros_room le_rfl) _ _ logged onlyLast]
      exact ⟨_, rfl, nil_append _⟩

end Restart

def lostMeterVnode : SVnodeObj where
  maxSessions := 2
  commitLog := true
  meterList := fun sid => if sid = 0 then some ⟨0, 0, false⟩ else none
  mappingSize := 200
  pMem := []
  pWrite := none

def lostMeterRecords : List Record := [⟨1, 0, 0, [7]⟩, ⟨0, 0, 0, [8]⟩]

def lostMeterRestart (stale : Bytes -> Bytes) : Restart stale where
  vnode := lostMeterVnode
  commitLog := rfl
  sessions := by decide
  records := lostMeterRecords
  version := 0
  logged := by
    intro record member
    rcases mem_cons.mp member with rfl | last
    · exact ⟨by decide, ⟨by decide, by decide⟩, Or.inl (by decide)⟩
    · cases List.mem_singleton.mp last
      exact ⟨by decide, ⟨by decide, by decide⟩, Or.inl (by decide)⟩
  olog := none
  old := rfl
  renewed := none
  current := 0
  news := []
  meters := fun call member => absurd member not_mem_nil
  sized := fun call member => absurd member not_mem_nil
  known := fun call member => absurd member not_mem_nil
  space := by decide
  later := lostMeterVnode.meterList

/-- The write pointer is set 21 bytes before the end of the second record. -/
theorem lostMeter_not_recovered :
    ¬ ∀ (stale : Bytes -> Bytes) (restart : Restart stale), Recovered restart := by
  intro recovered
  obtain ⟨opened, actions, start, pWrite, -⟩ := recovered _ (lostMeterRestart fun _ => [])
  have place : (vnodeInitCommit (fun _ => []) lostMeterVnode none
      (some (lostMeterRestart fun _ => []).file) none 0).map (fun result => result.1.pWrite) =
        some (some 29) := by
    decide +kernel
  have opens : vnodeInitCommit (fun _ => []) lostMeterVnode none
      (some (lostMeterRestart fun _ => []).file) none 0 = some (opened, actions) := start
  rw [opens, map_some, pWrite] at place
  exact absurd place (by decide)

end Luomi.Vnode.CommitRecovery
