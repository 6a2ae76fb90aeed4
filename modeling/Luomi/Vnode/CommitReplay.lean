import Luomi.Vnode.CommitLog

/-!
# Replaying a commit log

A record comes back whole if its check sum is below 2^23: the head keeps it in a
signed field of 24 bits, but compares it as an unsigned number.
-/

namespace Luomi.Vnode.CommitReplay

open LittleEndian StreamScan CommitLog
open List (append_assoc drop_left' length_append take_left')

@[simp] theorem headBytes_length (head : SCommitHead) :
    (headBytes head).length = sizeofCommitHead := by
  simp [headBytes, sizeofCommitHead]

theorem wordOf_field {width : Nat} (size : Nat) (enough : width ≤ 8 * size)
    (word : BitVec width) (front back : Bytes) (offset : Nat) (place : front.length = offset) :
    wordOf width (((front ++ (leBytes size word.toNat ++ back)).drop offset).take size) = word := by
  rw [drop_left' place, take_left' (leBytes_length ..)]
  exact wordOf_leBytes size enough word

theorem headOf_headBytes (head : SCommitHead) (rest : Bytes) :
    headOf (headBytes head ++ rest) = head := by
  have sversion := wordOf_field 4 (by decide) head.sversion []
    (leBytes 4 head.sid.toNat ++ (leBytes 4 head.contLen.toNat ++ (leBytes 1 head.action.toNat ++
      (leBytes 3 head.simpleCheck.toNat ++ rest)))) 0 rfl
  have sid := wordOf_field 4 (by decide) head.sid (leBytes 4 head.sversion.toNat)
    (leBytes 4 head.contLen.toNat ++ (leBytes 1 head.action.toNat ++
      (leBytes 3 head.simpleCheck.toNat ++ rest))) 4 (by simp)
  have contLen := wordOf_field 4 (by decide) head.contLen
    (leBytes 4 head.sversion.toNat ++ leBytes 4 head.sid.toNat)
    (leBytes 1 head.action.toNat ++ (leBytes 3 head.simpleCheck.toNat ++ rest)) 8 (by simp)
  have action := wordOf_field 1 (by decide) head.action
    (leBytes 4 head.sversion.toNat ++ leBytes 4 head.sid.toNat ++ leBytes 4 head.contLen.toNat)
    (leBytes 3 head.simpleCheck.toNat ++ rest) 12 (by simp)
  have check := wordOf_field 3 (by decide) head.simpleCheck
    (leBytes 4 head.sversion.toNat ++ leBytes 4 head.sid.toNat ++ leBytes 4 head.contLen.toNat ++
      leBytes 1 head.action.toNat) rest 13 (by simp)
  simp only [append_assoc, List.nil_append, List.drop_zero] at sversion sid contLen action check
  simp only [headOf, headBytes, append_assoc, sversion, sid, contLen, action, check]

@[simp] theorem recordBytes_length (record : Record) :
    (recordBytes record).length = recordLen record := by
  simp [recordBytes, recordLen, sizeofSimpleCheck, Nat.add_assoc]

theorem recordLen_pos (record : Record) : 0 < recordLen record := by
  unfold recordLen sizeofCommitHead
  omega

def ChecksOut (record : Record) : Prop :=
  (simpleSum record.sversion record.sid (BitVec.ofNat 32 record.cont.length)
    record.action).toNat < 2 ^ 23

instance (record : Record) : Decidable (ChecksOut record) :=
  inferInstanceAs (Decidable (_ < _))

theorem simpleSum_lt (sversion sid contLen : BitVec 32) (action : BitVec 8) :
    (simpleSum sversion sid contLen action).toNat < 2 ^ 24 := by
  unfold simpleSum
  rw [BitVec.toNat_and]
  have mask : (0xFFFFFF#32).toNat = 2 ^ 24 - 1 := by decide
  rw [mask, Nat.and_two_pow_sub_one_eq_mod]
  exact Nat.mod_lt _ (by decide)

theorem signExtend_setWidth_iff {sum : BitVec 32} (short : sum.toNat < 2 ^ 24) :
    (sum.setWidth 24).signExtend 32 = sum ↔ sum.toNat < 2 ^ 23 := by
  have low : (sum.setWidth 24).toNat = sum.toNat := by
    rw [BitVec.toNat_setWidth, Nat.mod_eq_of_lt short]
  have msb : (sum.setWidth 24).msb = decide (2 ^ 23 ≤ sum.toNat) := by
    rw [BitVec.msb_eq_decide, low]
  constructor
  · intro same
    by_contra large
    rw [Nat.not_lt] at large
    have wide := congrArg BitVec.toNat same
    rw [BitVec.toNat_signExtend, msb, decide_eq_true large] at wide
    simp only [if_true] at wide
    omega
  · intro small
    apply BitVec.eq_of_toNat_eq
    rw [BitVec.toNat_signExtend, msb, decide_eq_false (Nat.not_le.mpr small)]
    simp only [BitVec.toNat_setWidth, Bool.false_eq_true, if_false, Nat.add_zero]
    omega

theorem checked_recordHead_iff (record : Record) :
    checked (recordHead record) = true ↔ ChecksOut record := by
  unfold checked ChecksOut simpleCheck recordHead
  rw [decide_eq_true_iff, eq_comm]
  exact signExtend_setWidth_iff (simpleSum_lt _ _ _ _)

section Turn

variable {stale : Bytes -> Bytes} {maxSessions : Int}

theorem readRecord_progresses : Progresses (readRecord stale maxSessions) := by
  intro rest found size finds
  unfold readRecord at finds
  by_cases empty : rest = []
  · rw [if_pos empty] at finds
    cases finds
  · rw [if_neg empty] at finds
    refine ⟨?_, empty⟩
    have head : 0 < sizeofCommitHead := by decide
    dsimp only at finds
    split at finds
    · cases finds
    · split at finds
      · cases finds
        exact head
      · split at finds
        · split at finds
          · cases finds
          · cases finds
            exact Nat.lt_of_lt_of_le head (Nat.le_add_right _ _)
        · cases finds

/-- The content has a length an `int` can hold, and it is not empty. -/
structure Sized (record : Record) : Prop where
  positive : 1 ≤ record.cont.length
  short : record.cont.length < 2 ^ 31

theorem Sized.contLen {record : Record} (sized : Sized record) :
    (recordHead record).contLen.toInt = record.cont.length := by
  have short := sized.short
  show (BitVec.ofNat 32 record.cont.length).toInt = record.cont.length
  rw [BitVec.toInt_eq_toNat_cond, BitVec.toNat_ofNat]
  omega

theorem recordBytes_append (record : Record) (rest : Bytes) :
    recordBytes record ++ rest = headBytes (recordHead record) ++
      (record.cont ++ (leBytes 4 (simpleCheck (recordHead record)).toNat ++ rest)) := by
  simp only [recordBytes, append_assoc]

theorem headOf_recordBytes (record : Record) (rest more : Bytes) :
    headOf ((recordBytes record ++ rest).take sizeofCommitHead ++ more) = recordHead record := by
  rw [recordBytes_append, take_left' (headBytes_length _)]
  exact headOf_headBytes _ _

theorem recordBytes_append_ne_nil (record : Record) (rest : Bytes) :
    recordBytes record ++ rest ≠ [] := by
  have positive := recordLen_pos record
  apply List.ne_nil_of_length_pos
  rw [length_append, recordBytes_length]
  omega

theorem readRecord_unchecked {record : Record} (large : ¬ ChecksOut record) (rest : Bytes) :
    readRecord stale maxSessions (recordBytes record ++ rest) = none := by
  unfold readRecord
  rw [if_neg (recordBytes_append_ne_nil record rest)]
  dsimp only
  rw [headOf_recordBytes, if_pos fun accepted => large ((checked_recordHead_iff record).mp accepted)]

theorem readRecord_invalid {record : Record} (small : ChecksOut record)
    (invalid : outOfRange maxSessions (recordHead record)) (rest : Bytes) :
    readRecord stale maxSessions (recordBytes record ++ rest) =
      some (.invalid (recordHead record), sizeofCommitHead) := by
  unfold readRecord
  rw [if_neg (recordBytes_append_ne_nil record rest)]
  dsimp only
  rw [headOf_recordBytes, if_neg (not_not.mpr ((checked_recordHead_iff record).mpr small)),
    if_pos invalid]

theorem readRecord_record {record : Record} (small : ChecksOut record) (sized : Sized record)
    (valid : ¬ outOfRange maxSessions (recordHead record)) :
    Frames (readRecord stale maxSessions) (recordBytes record)
      (.record (recordHead record) record.cont) := by
  intro rest
  have positive : 0 < (recordHead record).contLen.toInt := by
    rw [sized.contLen]
    exact Int.natCast_pos.mpr sized.positive
  have length : (recordHead record).contLen.toInt.toNat = record.cont.length := by
    rw [sized.contLen, Int.toNat_natCast]
  have behind : (recordBytes record ++ rest).drop sizeofCommitHead =
      (record.cont ++ leBytes 4 (simpleCheck (recordHead record)).toNat) ++ rest := by
    rw [recordBytes_append, drop_left' (headBytes_length _), append_assoc]
  have size : (record.cont ++ leBytes 4 (simpleCheck (recordHead record)).toNat).length =
      record.cont.length + sizeofSimpleCheck := by
    simp [sizeofSimpleCheck]
  unfold readRecord
  rw [if_neg (recordBytes_append_ne_nil record rest)]
  dsimp only
  rw [headOf_recordBytes, if_neg (not_not.mpr ((checked_recordHead_iff record).mpr small)),
    if_neg valid, if_pos positive, length, behind, take_left' size, append_assoc,
    List.drop_left, List.take_left, take_left' (leBytes_length ..),
    wordOf_leBytes 4 (by decide), if_neg (not_not.mpr rfl), recordBytes_length]
  rfl

theorem readRecord_zeros (sessions : 0 < maxSessions) {count : Nat}
    (room : sizeofCommitHead ≤ count) :
    readRecord stale maxSessions (List.replicate count 0) = none := by
  have zeros : headOf ((List.replicate count (0 : UInt8)).take sizeofCommitHead ++
      stale (List.replicate count 0)) = ⟨0, 0, 0, 0, 0⟩ := by
    rw [List.take_replicate, Nat.min_eq_left room]
    exact headOf_headBytes ⟨0, 0, 0, 0, 0⟩ _
  have range : ¬ outOfRange maxSessions ⟨0, 0, 0, 0, 0⟩ := by
    have zero : (0 : BitVec 32).toInt = 0 := by decide
    have insert : (0 : BitVec 8).toInt = 0 := by decide
    unfold outOfRange tsdbActionMax
    rw [zero, insert]
    omega
  unfold readRecord
  split
  · rfl
  · dsimp only
    rw [zeros, if_neg (by decide), if_neg range, if_neg (by decide)]

end Turn

structure Written (vnode : SVnodeObj) (version : Bytes) (records : List Record) : Prop where
  eight : version.length = 8
  size : vnode.pMem.length = vnode.mappingSize
  mem : ∃ zeros, vnode.pMem = version ++ records.flatMap recordBytes ++ List.replicate zeros 0
  pWrite : vnode.pWrite = some ((8 + (records.map recordLen).sum : Nat) : Int)

theorem flatMap_recordBytes_length (records : List Record) :
    (records.flatMap recordBytes).length = (records.map recordLen).sum := by
  simp [List.length_flatMap]

theorem Written.zeros {vnode : SVnodeObj} {version : Bytes} {records : List Record}
    (written : Written vnode version records) :
    8 + (records.map recordLen).sum ≤ vnode.mappingSize ∧
      vnode.pMem = version ++ records.flatMap recordBytes ++
        List.replicate (vnode.mappingSize - (8 + (records.map recordLen).sum)) 0 := by
  obtain ⟨zeros, mem⟩ := written.mem
  have size := written.size
  rw [mem, length_append, length_append, List.length_replicate, written.eight,
    flatMap_recordBytes_length] at size
  have count : zeros = vnode.mappingSize - (8 + (records.map recordLen).sum) := by omega
  rw [<- count]
  exact ⟨by omega, mem⟩

theorem written_fresh {vnode opened : SVnodeObj} {firstV : BitVec 64}
    (room : 8 ≤ vnode.mappingSize) (open' : vnodeOpenCommitLog vnode none firstV = some opened) :
    Written opened (leBytes 8 firstV.toNat) [] := by
  unfold vnodeOpenCommitLog at open'
  simp only [Option.getD_none, List.length_nil, Nat.not_lt_zero, if_false, Nat.sub_zero,
    List.nil_append, Option.some.injEq] at open'
  subst open'
  have mem : writeAt (List.replicate vnode.mappingSize 0) 0 (leBytes 8 firstV.toNat) =
      leBytes 8 firstV.toNat ++ List.replicate (vnode.mappingSize - 8) 0 := by
    simp [writeAt, List.drop_replicate]
  refine ⟨leBytes_length .., ?_, ⟨vnode.mappingSize - 8, ?_⟩, rfl⟩
  · show (writeAt _ _ _).length = _
    rw [mem, length_append, leBytes_length, List.length_replicate]
    exact Nat.add_sub_cancel' room
  · show writeAt _ _ _ = _
    rw [mem]
    simp

theorem writeAt_zeros (front : Bytes) (zeros : Nat) (bytes : Bytes) :
    writeAt (front ++ List.replicate zeros 0) front.length bytes =
      front ++ bytes ++ List.replicate (zeros - bytes.length) 0 := by
  unfold writeAt
  rw [List.take_left, <- List.drop_drop, List.drop_left, List.drop_replicate]

section Write

variable {vnode next : SVnodeObj} {version : Bytes} {records : List Record} {call : Call}

/-- A call that finds space adds its record and leaves 100 bytes behind it. -/
theorem Written.write (written : Written vnode version records)
    (success : vnodeWriteToCommitLog vnode call = some (0, next)) :
    Written next version (records ++ [call.record]) ∧ next.mappingSize = vnode.mappingSize ∧
      next.maxSessions = vnode.maxSessions ∧ next.meterList = vnode.meterList ∧
      8 + ((records ++ [call.record]).map recordLen).sum + 100 ≤ vnode.mappingSize := by
  obtain ⟨inside, mem⟩ := written.zeros
  have sum : ((records ++ [call.record]).map recordLen).sum =
      (records.map recordLen).sum + recordLen call.record := by simp
  unfold vnodeWriteToCommitLog at success
  rw [written.pWrite] at success
  dsimp only at success
  split at success
  · have code : actionInProgress ≠ 0 := by decide
    exact absurd (congrArg Prod.fst (Option.some.inj success)) code
  · rename_i space
    split at success
    · cases success
    · have left : 8 + (records.map recordLen).sum + recordLen call.record + 100 ≤
          vnode.mappingSize := by
        omega
      cases success
      have front : (version ++ records.flatMap recordBytes).length =
          8 + (records.map recordLen).sum := by
        rw [length_append, written.eight, flatMap_recordBytes_length]
      have write : writeAt vnode.pMem (8 + (records.map recordLen).sum) (recordBytes call.record) =
          version ++ (records ++ [call.record]).flatMap recordBytes ++
            List.replicate (vnode.mappingSize - (8 + (records.map recordLen).sum) -
              recordLen call.record) 0 := by
        rw [mem, <- front, writeAt_zeros, recordBytes_length]
        simp
      refine ⟨⟨written.eight, ?_, ⟨vnode.mappingSize - (8 + (records.map recordLen).sum) -
        recordLen call.record, ?_⟩, ?_⟩, rfl, rfl, rfl, ?_⟩
      · show (writeAt _ _ _).length = vnode.mappingSize
        rw [Int.toNat_natCast, write, length_append, length_append, List.length_replicate,
          written.eight, flatMap_recordBytes_length, sum]
        omega
      · show writeAt _ _ _ = _
        rw [Int.toNat_natCast, write]
      · rw [sum, <- Nat.add_assoc, Nat.cast_add (8 + _)]
      · rw [sum]
        omega

theorem Written.succeeds (written : Written vnode version records)
    (space : 8 + (records.map recordLen).sum + recordLen call.record + 100 ≤ vnode.mappingSize) :
    ∃ next, vnodeWriteToCommitLog vnode call = some (0, next) := by
  unfold vnodeWriteToCommitLog
  rw [written.pWrite]
  dsimp only
  rw [if_neg (by omega), if_neg (by omega)]
  exact ⟨_, rfl⟩

end Write

theorem writeAll_cons (vnode : SVnodeObj) (call : Call) (calls : List Call) (last : SVnodeObj) :
    writeAll vnode (call :: calls) = some last ↔
      ∃ next, vnodeWriteToCommitLog vnode call = some (0, next) ∧
        writeAll next calls = some last := by
  rw [writeAll]
  constructor
  · intro all
    split at all
    · rename_i next success
      exact ⟨next, success, all⟩
    · cases all
  · rintro ⟨next, success, all⟩
    rw [success]
    exact all

theorem Written.writeAll {version : Bytes} (calls : List Call) :
    ∀ {vnode last : SVnodeObj} {records : List Record}, Written vnode version records ->
      writeAll vnode calls = some last -> Written last version (records ++ calls.map Call.record) ∧
          last.mappingSize = vnode.mappingSize ∧
          (calls ≠ [] -> 8 + ((records ++ calls.map Call.record).map recordLen).sum + 100 ≤
            vnode.mappingSize) := by
  induction calls with
  | nil =>
    intro vnode last records written all
    cases all
    rw [List.map_nil, List.append_nil]
    exact ⟨written, rfl, fun nonempty => absurd rfl nonempty⟩
  | cons call calls ih =>
    intro vnode last records written all
    obtain ⟨next, success, rest⟩ := (writeAll_cons ..).mp all
    obtain ⟨nextWritten, size, -, -, space⟩ := written.write success
    obtain ⟨lastWritten, lastSize, lastSpace⟩ := ih nextWritten rest
    have records' : records ++ (call :: calls).map Call.record =
        records ++ [call.record] ++ calls.map Call.record := by simp
    rw [records']
    refine ⟨lastWritten, lastSize.trans size, fun _ => ?_⟩
    cases calls with
    | nil => simpa using space
    | cons other others =>
      rw [<- size]
      exact lastSpace (List.cons_ne_nil _ _)

section Replay

variable {stale : Bytes -> Bytes} {maxSessions : Int} {meterList : Nat -> Option SMeterObj}

def InRange (maxSessions : Int) (record : Record) : Prop :=
  (0 ≤ record.sid.toInt ∧ record.sid.toInt < maxSessions) ∧ record.action.toInt < tsdbActionMax

theorem inRange_iff (record : Record) :
    InRange maxSessions record ↔ ¬ outOfRange maxSessions (recordHead record) := by
  show _ ↔ ¬ (maxSessions ≤ record.sid.toInt ∨ record.sid.toInt < 0 ∨
    tsdbActionMax ≤ record.action.toInt)
  unfold InRange
  omega

def Live (meterList : Nat -> Option SMeterObj) (sid : BitVec 32) : Prop :=
  ∃ pObj, meterList sid.toInt.toNat = some pObj ∧ pObj.deleting = false

/-- `*firstV` and the records behind it. -/
def replay (stale : Bytes -> Bytes) (maxSessions : Int) (meterList : Nat -> Option SMeterObj)
    (stream : Bytes) (state : Option Restore) : Option Restore :=
  scan (readRecord stale maxSessions) (advance meterList) stream state

theorem vnodeRestoreDataFromLog_some {version : Bytes} (eight : version.length = 8)
    (stream : Bytes) :
    vnodeRestoreDataFromLog stale maxSessions meterList (some (version ++ stream)) =
      replay stale maxSessions meterList stream (some ⟨0, []⟩) := by
  have head : ∃ byte bytes, version = byte :: bytes :=
    List.exists_cons_of_length_pos (by omega)
  obtain ⟨byte, bytes, rfl⟩ := head
  show scan _ _ (((byte :: bytes) ++ stream).drop 8) _ = _
  rw [drop_left' eight]
  rfl

theorem replay_none (stream : Bytes) : replay stale maxSessions meterList stream none = none := by
  unfold replay scan
  generalize stream.length = fuel
  induction fuel generalizing stream with
  | zero => rfl
  | succ fuel ih =>
    rw [scanFrom]
    cases readRecord stale maxSessions stream with
    | none => rfl
    | some pair => exact ih _

def actionOf (process : Process) (record : Record) : Action :=
  ⟨process, record.sid, record.sversion, record.cont⟩

def applied (restore : Restore) (process : Process) (record : Record) : Restore where
  totalLen := restore.totalLen + recordLen record
  actions := restore.actions ++ [actionOf process record]

variable {record : Record} {restore : Restore}

theorem replay_record (small : ChecksOut record) (sized : Sized record)
    (inRange : InRange maxSessions record) (rest : Bytes) (state : Option Restore) :
    replay stale maxSessions meterList (recordBytes record ++ rest) state =
      replay stale maxSessions meterList rest
        (advance meterList state (.record (recordHead record) record.cont)
          (recordBytes record).length) :=
  scan_frame readRecord_progresses
    (readRecord_record small sized ((inRange_iff record).mp inRange)) rest state

theorem advance_live (live : Live meterList record.sid) (sized : Sized record) (size : Nat) :
    advance meterList (some restore) (.record (recordHead record) record.cont) size =
      (processOf record.action).map fun process => applied restore process record := by
  obtain ⟨pObj, found, ready⟩ := live
  have meter : meterList (recordHead record).sid.toInt.toNat = some pObj := found
  have contLen := sized.contLen
  unfold advance
  simp only [Option.bind_eq_bind, Option.bind_some, meter, ready, Bool.false_eq_true, if_false]
  show (processOf record.action).bind _ = _
  cases processOf record.action with
  | none => rfl
  | some process =>
    simp only [Option.bind_some, Option.map_some, Restore.count, applied, contLen, recordLen]
    rfl

theorem replay_zeros (sessions : 0 < maxSessions) {count : Nat} (room : sizeofCommitHead ≤ count)
    (state : Option Restore) :
    replay stale maxSessions meterList (List.replicate count 0) state = state :=
  scan_stop (readRecord_zeros sessions room) state

end Replay

end Luomi.Vnode.CommitReplay
