import Luomi.Base.LittleEndian
import Luomi.Base.StreamScan

/-!
# The commit log of a vnode (`vnodeCommit.c`)

The log is a file mapped into memory: the version of the vnode, then the records
one after the other, then zeros up to the size of the mapping.  A record is a head,
the content and the check sum of the head once more.

Signed sums wrap, as on the platforms the sources assume.  A read that comes to
the end of the file leaves the rest of its buffer as it was; `stale` is what it
finds there.
-/

namespace Luomi.Vnode.CommitLog

open LittleEndian StreamScan

abbrev Bytes := List UInt8

def tsdbActionMax : Int := 4

def actionInProgress : Nat := 1

/-- `SCommitHead`: both bit fields are signed. -/
structure SCommitHead where
  sversion : BitVec 32
  sid : BitVec 32
  contLen : BitVec 32
  action : BitVec 8
  simpleCheck : BitVec 24

def sizeofCommitHead : Nat := 16

def sizeofSimpleCheck : Nat := 4

def headBytes (head : SCommitHead) : Bytes :=
  leBytes 4 head.sversion.toNat ++ leBytes 4 head.sid.toNat ++ leBytes 4 head.contLen.toNat ++
    leBytes 1 head.action.toNat ++ leBytes 3 head.simpleCheck.toNat

def headOf (bytes : Bytes) : SCommitHead where
  sversion := wordOf 32 (bytes.take 4)
  sid := wordOf 32 ((bytes.drop 4).take 4)
  contLen := wordOf 32 ((bytes.drop 8).take 4)
  action := wordOf 8 ((bytes.drop 12).take 1)
  simpleCheck := wordOf 24 ((bytes.drop 13).take 3)

/-- `(head.sversion+head.sid+head.contLen+head.action) & 0xFFFFFF`. -/
def simpleSum (sversion sid contLen : BitVec 32) (action : BitVec 8) : BitVec 32 :=
  (sversion + sid + contLen + action.signExtend 32) &&& 0xFFFFFF#32

/-- `head.simpleCheck` as an `int`. -/
def simpleCheck (head : SCommitHead) : BitVec 32 := head.simpleCheck.signExtend 32

def checked (head : SCommitHead) : Bool :=
  simpleSum head.sversion head.sid head.contLen head.action = simpleCheck head

structure Record where
  sid : BitVec 32
  action : BitVec 8
  sversion : BitVec 32
  cont : Bytes

def recordLen (record : Record) : Nat :=
  sizeofCommitHead + record.cont.length + sizeofSimpleCheck

/-- The head `vnodeWriteToCommitLog` builds. -/
def recordHead (record : Record) : SCommitHead :=
  let contLen := BitVec.ofNat 32 record.cont.length
  { sversion := record.sversion
    sid := record.sid
    contLen := contLen
    action := record.action
    simpleCheck := (simpleSum record.sversion record.sid contLen record.action).setWidth 24 }

def recordBytes (record : Record) : Bytes :=
  headBytes (recordHead record) ++ record.cont ++
    leBytes 4 (simpleCheck (recordHead record)).toNat

structure SMeterObj where
  sid : BitVec 32
  sversion : BitVec 32
  /-- `vnodeIsMeterState(pObj, TSDB_METER_STATE_DELETING)`. -/
  deleting : Bool

/-- `SVnodeObj` with what concerns the log; `pWrite` is the offset in the mapping. -/
structure SVnodeObj where
  maxSessions : Int
  commitLog : Bool
  meterList : Nat -> Option SMeterObj
  mappingSize : Nat
  pMem : Bytes
  pWrite : Option Int

/-- A call of `vnodeWriteToCommitLog`. -/
structure Call where
  pObj : SMeterObj
  action : BitVec 8
  cont : Bytes
  sversion : BitVec 32

/-- The record a call writes: its version is that of the meter. -/
def Call.record (call : Call) : Record where
  sid := call.pObj.sid
  action := call.action
  sversion := call.pObj.sversion
  cont := call.cont

/-- `memcpy` into the mapping. -/
def writeAt (mem : Bytes) (offset : Nat) (bytes : Bytes) : Bytes :=
  mem.take offset ++ bytes ++ mem.drop (offset + bytes.length)

/-- `vnodeWriteToCommitLog`: its code and the vnode; `none` where it would write
outside the mapping.  The space that is left is compared as `size_t`.  The commit
timer is set in the background. -/
def vnodeWriteToCommitLog (vnode : SVnodeObj) (call : Call) : Option (Nat × SVnodeObj) :=
  match vnode.pWrite with
  | none => some (0, vnode)
  | some pWrite =>
    let left := (vnode.mappingSize : Int) - pWrite
    if 0 ≤ left ∧ left < (recordLen call.record + 100 : Nat) then
      some (actionInProgress, vnode)
    else if pWrite < 0 ∨ left < recordLen call.record then none
    else
      some (0, { vnode with
        pMem := writeAt vnode.pMem pWrite.toNat (recordBytes call.record)
        pWrite := some (pWrite + recordLen call.record) })

def writeAll : SVnodeObj -> List Call -> Option SVnodeObj
  | vnode, [] => some vnode
  | vnode, call :: calls =>
    match vnodeWriteToCommitLog vnode call with
    | some (0, next) => writeAll next calls
    | _ => none

/-- `vnodeProcessAction`: the table has two entries. -/
inductive Process where
  | vnodeInsertPoints
  | vnodeImportPoints
  deriving DecidableEq

def vnodeProcessAction : List Process := [.vnodeInsertPoints, .vnodeImportPoints]

/-- `vnodeProcessAction[head.action]`; `none` outside the table. -/
def processOf (action : BitVec 8) : Option Process :=
  if action.toInt < 0 then none else vnodeProcessAction[action.toInt.toNat]?

inductive Found where
  /-- The session or the action is out of range: nothing but the head is read. -/
  | invalid (head : SCommitHead)
  | record (head : SCommitHead) (cont : Bytes)

section Replay

variable (stale : Bytes -> Bytes) (maxSessions : Int)

def outOfRange (head : SCommitHead) : Prop :=
  maxSessions ≤ head.sid.toInt ∨ head.sid.toInt < 0 ∨ tsdbActionMax ≤ head.action.toInt

instance (head : SCommitHead) : Decidable (outOfRange maxSessions head) :=
  inferInstanceAs (Decidable (_ ∨ _))

/-- One turn of the loop in `vnodeRestoreDataFromLog`: what it reads and how far it
goes; `none` where the loop ends. -/
def readRecord (rest : Bytes) : Option (Found × Nat) :=
  if rest = [] then none
  else
    let head := headOf (rest.take sizeofCommitHead ++ stale rest)
    if ¬ checked head then none
    else if outOfRange maxSessions head then some (.invalid head, sizeofCommitHead)
    else if 0 < head.contLen.toInt then
      let behind := rest.drop sizeofCommitHead
      let size := head.contLen.toInt.toNat + sizeofSimpleCheck
      let cont := behind.take size ++ stale behind
      if wordOf 32 ((cont.drop head.contLen.toInt.toNat).take 4) ≠ simpleCheck head then none
      else some (.record head (cont.take head.contLen.toInt.toNat), sizeofCommitHead + size)
    else none

structure Action where
  process : Process
  sid : BitVec 32
  sversion : BitVec 32
  cont : Bytes
  deriving DecidableEq

/-- The variables of the loop; the sum is a `size_t`, negative where it wraps. -/
structure Restore where
  totalLen : Int
  actions : List Action
  deriving DecidableEq

/-- `totalLen += sizeof(head) + head.contLen + sizeof(simpleCheck)`. -/
def Restore.count (restore : Restore) (head : SCommitHead) : Restore :=
  { restore with
    totalLen := restore.totalLen + (sizeofCommitHead + head.contLen.toInt + sizeofSimpleCheck) }

/-- What a turn of the loop does; `none` once a function outside the table is called. -/
def advance (meterList : Nat -> Option SMeterObj) (state : Option Restore) (found : Found)
    (_ : Nat) : Option Restore := do
  let restore <- state
  match found with
  | .invalid head => return restore.count head
  | .record head cont =>
    match meterList head.sid.toInt.toNat with
    | none => return restore
    | some pObj =>
      if pObj.deleting then return restore
      else
        let process <- processOf head.action
        return Restore.count
          { restore with actions := restore.actions ++ [⟨process, head.sid, head.sversion, cont⟩] }
          head

/-- `vnodeRestoreDataFromLog`: no file gives 0, an empty one the error -1. -/
def vnodeRestoreDataFromLog (meterList : Nat -> Option SMeterObj) (file : Option Bytes) :
    Option Restore :=
  match file with
  | none => some ⟨0, []⟩
  | some [] => some ⟨-1, []⟩
  | some bytes =>
    scan (readRecord stale maxSessions) (advance meterList) (bytes.drop 8) (some ⟨0, []⟩)

end Replay

/-- `vnodeOpenCommitLog`: the file is made as long as the mapping and gets the
version. -/
def vnodeOpenCommitLog (vnode : SVnodeObj) (file : Option Bytes) (firstV : BitVec 64) :
    Option SVnodeObj :=
  let old := file.getD []
  if vnode.mappingSize < old.length then none
  else
    let mem := old ++ List.replicate (vnode.mappingSize - old.length) 0
    some { vnode with pMem := writeAt mem 0 (leBytes 8 firstV.toNat), pWrite := some 8 }

/-- What the commit of the old log leaves of the file `.log`: where the old log had
records and there are points to write, the log is opened with the version `renewed`.
A log that cannot be opened is removed. -/
def renewedLog (vnode : SVnodeObj) (old : Restore) (renewed : Option (BitVec 64))
    (log : Option Bytes) : Option Bytes :=
  match renewed with
  | some version =>
    if old.totalLen ≠ 0 ∧ vnode.commitLog then
      (vnodeOpenCommitLog vnode log version).map SVnodeObj.pMem
    else log
  | none => log

/-- `vnodeInitCommit` on the files `.olog` and `.log`, with the version of the vnode
once they are replayed. -/
def vnodeInitCommit (stale : Bytes -> Bytes) (vnode : SVnodeObj) (olog log : Option Bytes)
    (renewed : Option (BitVec 64)) (version : BitVec 64) :
    Option (SVnodeObj × List Action) := do
  let old <- vnodeRestoreDataFromLog stale vnode.maxSessions vnode.meterList olog
  let log := renewedLog vnode old renewed log
  let new <- vnodeRestoreDataFromLog stale vnode.maxSessions vnode.meterList log
  if vnode.commitLog then
    let firstV := if new.totalLen = 0 then version else wordOf 64 ((log.getD []).take 8)
    let opened <- vnodeOpenCommitLog vnode log firstV
    return ({ opened with pWrite := opened.pWrite.map (· + new.totalLen) },
      old.actions ++ new.actions)
  else return (vnode, old.actions ++ new.actions)

end Luomi.Vnode.CommitLog
