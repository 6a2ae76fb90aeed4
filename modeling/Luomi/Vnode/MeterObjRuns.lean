import Luomi.Vnode.MeterObjRecords

/-!
# What the meter object file restores

Every record lies behind the index, the records are apart, and the record of a session
holds the last meter the session had.  A meter that is removed leaves its record as it is,
with its name and a positive offset, so it is there again when the vnode is opened.
-/

namespace Luomi.Vnode.MeterObjRuns

open MemoryCells
open Luomi.Vnode.CommitFile (Bytes crc32c)
open Luomi.Vnode.MeterObjFile Luomi.Vnode.MeterObjRecords
open Function (update_eq_self update_of_ne update_self)
open Option (filter_some none_or some.inj some_or)

variable {pVnode pVnode' : SVnodeObj} {last : Nat -> Option SMeterObj}

/-! ## The record of a session -/

/-- Where the record of a session is: the sign of the offset is no part of it. -/
def place (pVnode : SVnodeObj) (sid : Nat) : Int := |(pVnode.meterIndex sid).offset|

structure Held (pVnode : SVnodeObj) (sid : Nat) (pObj : SMeterObj) : Prop where
  inside : sid < pVnode.maxSessions
  own : pObj.saved.sid.toNat = sid
  sized : Sized pObj
  opened : Opened pVnode pObj.saved
  nonzero : (pVnode.meterIndex sid).offset ≠ 0
  sign : (pVnode.meterIndex sid).offset < 0 -> ¬ Named pObj.saved
  length : (pVnode.meterIndex sid).length = (recordBytes pObj).length
  behind : indexEnd pVnode.maxSessions ≤ place pVnode sid
  before : place pVnode sid + (recordBytes pObj).length ≤ pVnode.file.size
  record : readCells pVnode.file.cells (place pVnode sid) (recordBytes pObj).length =
    recordBytes pObj

structure Filed (pVnode : SVnodeObj) (last : Nat -> Option SMeterObj) : Prop where
  size : indexEnd pVnode.maxSessions ≤ pVnode.file.size
  never : ∀ sid, last sid = none -> pVnode.meterIndex sid = ⟨0, 0⟩
  held : ∀ sid pObj, last sid = some pObj ->
    ∃ pObj', Held pVnode sid pObj' ∧ (Named pObj'.saved ↔ Named pObj.saved)
  apart : ∀ sid other, sid ≠ other -> (pVnode.meterIndex sid).offset ≠ 0 ->
    (pVnode.meterIndex other).offset ≠ 0 ->
    place pVnode sid + (pVnode.meterIndex sid).length ≤ place pVnode other ∨
      place pVnode other + (pVnode.meterIndex other).length ≤ place pVnode sid

structure Stored (pVnode : SVnodeObj) (last : Nat -> Option SMeterObj) : Prop where
  filed : Filed pVnode last
  onFile : pVnode.file.index = pVnode.meterIndex
  live : ∀ sid pObj, pVnode.meterList sid = some pObj ->
    last sid = some pObj ∧ Held pVnode sid pObj

/-! ## Writing a record -/

structure SameCfg (pVnode pVnode' : SVnodeObj) : Prop where
  vnode : pVnode'.vnode = pVnode.vnode
  maxSessions : pVnode'.maxSessions = pVnode.maxSessions
  cacheBlockSize : pVnode'.cacheBlockSize = pVnode.cacheBlockSize
  blocksPerMeter : pVnode'.blocksPerMeter = pVnode.blocksPerMeter

variable {saved : SavedObj}

theorem SameCfg.opened (same : SameCfg pVnode pVnode')
    (opened : Opened pVnode saved) : Opened pVnode' saved := by
  refine ⟨opened.vnode.trans same.vnode.symm, ?_, opened.lastKey⟩
  have cache := opened.cache
  unfold vnodeAllocateCacheInfo at cache ⊢
  rwa [same.cacheBlockSize, same.blocksPerMeter]

theorem Held.frame {sid : Nat} {pObj : SMeterObj} (held : Held pVnode sid pObj)
    (same : SameCfg pVnode pVnode') (header : pVnode'.meterIndex sid = pVnode.meterIndex sid)
    (size : pVnode.file.size ≤ pVnode'.file.size)
    (cells : ∀ i, place pVnode sid ≤ i -> i < place pVnode sid + (recordBytes pObj).length ->
      pVnode'.file.cells i = pVnode.file.cells i) : Held pVnode' sid pObj := by
  have placed : place pVnode' sid = place pVnode sid := by
    unfold place
    rw [header]
  refine ⟨same.maxSessions ▸ held.inside, held.own, held.sized, same.opened held.opened, ?_, ?_,
    ?_, ?_, ?_, ?_⟩
  · rw [header]
    exact held.nonzero
  · rw [header]
    exact held.sign
  · rw [header]
    exact held.length
  · rw [placed, same.maxSessions]
    exact held.behind
  · rw [placed]
    exact held.before.trans size
  · rw [placed, readCells_congr cells]
    exact held.record

/-- A record is written behind the end, or over the old record of the session where it fits
there. -/
structure Put (pVnode pVnode' : SVnodeObj) (sid : Nat) (pObj : SMeterObj) : Prop where
  same : SameCfg pVnode pVnode'
  others : ∀ other, other ≠ sid -> pVnode'.meterIndex other = pVnode.meterIndex other
  length : (pVnode'.meterIndex sid).length = (recordBytes pObj).length
  sign : (pVnode'.meterIndex sid).offset < 0 -> ¬ Named pObj.saved
  cells : pVnode'.file.cells =
    writeCells pVnode.file.cells (place pVnode' sid) (recordBytes pObj)
  size : pVnode'.file.size =
    max pVnode.file.size (place pVnode' sid + (recordBytes pObj).length)
  placed : place pVnode' sid = pVnode.file.size ∨
    (pVnode.meterIndex sid).offset ≠ 0 ∧ place pVnode' sid = place pVnode sid ∧
      (recordBytes pObj).length ≤ (pVnode.meterIndex sid).length

section Writing

variable {sid : Nat} {pObj : SMeterObj}

theorem Put.behind (put : Put pVnode pVnode' sid pObj) (filed : Filed pVnode last) :
    indexEnd pVnode'.maxSessions ≤ place pVnode' sid := by
  rw [put.same.maxSessions]
  rcases put.placed with atEnd | ⟨nonzero, over', -⟩
  · rw [atEnd]
    exact filed.size
  · cases known : last sid with
    | none => exact absurd (by rw [filed.never sid known]) nonzero
    | some pObj' =>
      obtain ⟨old, held, -⟩ := filed.held sid pObj' known
      rw [over']
      exact held.behind

theorem indexEnd_pos (maxSessions : Nat) : 0 < indexEnd maxSessions := by
  unfold indexEnd CommitFile.tsdbFileHeaderLen CommitFile.sizeofChksum
  omega

section

variable (put : Put pVnode pVnode' sid pObj)
include put

theorem Put.held_self (filed : Filed pVnode last)
    (inside : sid < pVnode.maxSessions) (sid_eq : pObj.saved.sid.toNat = sid)
    (sized : Sized pObj) (opened : Opened pVnode pObj.saved) : Held pVnode' sid pObj := by
  have behind := put.behind filed
  refine ⟨put.same.maxSessions ▸ inside, sid_eq, sized, put.same.opened opened, ?_, put.sign,
    put.length, behind, ?_, ?_⟩
  · intro zero
    have positive := (indexEnd_pos pVnode'.maxSessions).trans_le behind
    unfold place at positive
    rw [zero] at positive
    simp at positive
  · rw [put.size]
    exact le_max_right _ _
  · rw [put.cells, readCells_writeCells]

variable {other : Nat}

theorem Put.apart (filed : Filed pVnode last)
    (differ : other ≠ sid) (nonzero : (pVnode.meterIndex other).offset ≠ 0) :
    place pVnode other + (pVnode.meterIndex other).length ≤ place pVnode' sid ∨
      place pVnode' sid + (recordBytes pObj).length ≤ place pVnode other := by
  rcases put.placed with atEnd | ⟨nonzero', over', fits⟩
  · left
    cases known : last other with
    | none => exact absurd (by rw [filed.never other known]) nonzero
    | some pObj' =>
      obtain ⟨old, held, -⟩ := filed.held other pObj' known
      rw [atEnd, held.length]
      exact held.before
  · rw [over']
    rcases filed.apart other sid differ nonzero nonzero' with before | behind
    · exact Or.inl before
    · exact Or.inr (by omega)

variable {pObj' : SMeterObj}

theorem Put.held_other (filed : Filed pVnode last) (differ : other ≠ sid) (held : Held pVnode other pObj') :
    Held pVnode' other pObj' := by
  refine held.frame put.same (put.others other differ) ?_ ?_
  · rw [put.size]
    exact le_max_left _ _
  · intro i lower upper
    rw [put.cells]
    rcases put.apart filed differ held.nonzero with before | behind
    · rw [held.length] at before
      exact writeCells_before (by omega)
    · exact writeCells_behind (by omega)

theorem Put.filed (filed : Filed pVnode last)
    (inside : sid < pVnode.maxSessions) (sid_eq : pObj.saved.sid.toNat = sid)
    (sized : Sized pObj) (opened : Opened pVnode pObj.saved)
    (names : Named pObj.saved ↔ Named pObj'.saved) :
    Filed pVnode' (Function.update last sid (some pObj')) := by
  have placed_other : ∀ other, other ≠ sid -> place pVnode' other = place pVnode other := by
    intro other differ
    unfold place
    rw [put.others other differ]
  refine ⟨?_, ?_, ?_, ?_⟩
  · rw [put.size, put.same.maxSessions]
    exact filed.size.trans (le_max_left _ _)
  · intro other none'
    by_cases same : other = sid
    · rw [same, update_self] at none'
      exact absurd none' (by simp)
    · rw [update_of_ne same] at none'
      rw [put.others other same]
      exact filed.never other none'
  · intro other pObj'' known
    by_cases same : other = sid
    · subst same
      rw [update_self] at known
      obtain rfl := some.inj known
      exact ⟨pObj, put.held_self filed inside sid_eq sized opened, names⟩
    · rw [update_of_ne same] at known
      obtain ⟨old, held, names'⟩ := filed.held other pObj'' known
      exact ⟨old, put.held_other filed same held, names'⟩
  · intro one other differ nonzero nonzero'
    by_cases first : one = sid
    · subst first
      rw [put.others other differ.symm] at nonzero' ⊢
      rw [placed_other other differ.symm, put.length]
      exact (put.apart filed differ.symm nonzero').symm
    · rw [put.others one first] at nonzero ⊢
      rw [placed_other one first]
      by_cases second : other = sid
      · subst second
        rw [put.length]
        exact put.apart filed first nonzero
      · rw [put.others other second] at nonzero' ⊢
        rw [placed_other other second]
        exact filed.apart one other differ nonzero nonzero'

end

end Writing

/-! ## Saving a meter -/

/-- A record goes to the end, or where the old one is if it fits there; only a meter without a
name gets a negative offset. -/
theorem saveTo_placed (header : SMeterObjHeader) (newLength : Int) {size : Int} (saved : SavedObj)
    (positive : 0 < size) :
    |(saveTo header newLength size saved).1| = (saveTo header newLength size saved).2 ∧
      ((saveTo header newLength size saved).1 < 0 -> ¬ Named saved) ∧
      ((saveTo header newLength size saved).2 = size ∨ header.offset ≠ 0 ∧
        (saveTo header newLength size saved).2 = |header.offset| ∧ newLength ≤ header.length) := by
  obtain ⟨offset, length⟩ := header
  unfold saveTo
  dsimp only
  by_cases append : offset = 0 ∨ length < newLength
  · rw [if_pos append]
    exact ⟨abs_of_pos positive, fun negative => absurd negative positive.not_gt, Or.inl rfl⟩
  rw [if_neg append]
  rw [not_or, not_lt] at append
  by_cases negative : offset < 0
  · rw [if_pos negative, abs_of_neg negative]
    exact ⟨abs_of_pos (by omega), fun negative' => absurd negative' (by dsimp only; omega),
      Or.inr ⟨append.1, rfl, append.2⟩⟩
  · rw [if_neg negative]
    have nonneg : 0 ≤ offset := not_lt.mp negative
    rw [abs_of_nonneg nonneg]
    by_cases named : Named saved
    · rw [if_pos named]
      exact ⟨abs_of_nonneg nonneg, fun negative' => absurd negative' negative,
        Or.inr ⟨append.1, rfl, append.2⟩⟩
    · rw [if_neg named]
      exact ⟨by rw [abs_neg, abs_of_nonneg nonneg], fun _ => named,
        Or.inr ⟨append.1, rfl, append.2⟩⟩

variable {pObj : SMeterObj} {sid : Nat}

theorem vnodeSaveMeterObjToFile_meterIndex (pVnode : SVnodeObj) (sized : Sized pObj) :
    (vnodeSaveMeterObjToFile pObj pVnode).meterIndex = Function.update
      pVnode.meterIndex pObj.saved.sid.toNat
      ⟨(saveTo (pVnode.meterIndex pObj.saved.sid.toNat) (recordBytes pObj).length
        pVnode.file.size pObj.saved).1, (recordBytes pObj).length⟩ := by
  unfold vnodeSaveMeterObjToFile
  simp only [headerLength_recordBytes sized]

theorem vnodeSaveMeterObjToFile_cells (pObj : SMeterObj) :
    (vnodeSaveMeterObjToFile pObj pVnode).file.cells = writeCells pVnode.file.cells (saveTo
      (pVnode.meterIndex pObj.saved.sid.toNat) (recordBytes pObj).length pVnode.file.size
      pObj.saved).2 (recordBytes pObj) := by
  unfold vnodeSaveMeterObjToFile ObjFile.write
  dsimp only

theorem vnodeSaveMeterObjToFile_size (pObj : SMeterObj) :
    (vnodeSaveMeterObjToFile pObj pVnode).file.size = max pVnode.file.size ((saveTo
      (pVnode.meterIndex pObj.saved.sid.toNat) (recordBytes pObj).length pVnode.file.size
      pObj.saved).2 + (recordBytes pObj).length) := by
  unfold vnodeSaveMeterObjToFile ObjFile.write
  dsimp only

theorem vnodeSaveMeterObjToFile_put (filed : Filed pVnode last) (sized : Sized pObj) :
    Put pVnode (vnodeSaveMeterObjToFile pObj pVnode) pObj.saved.sid.toNat pObj := by
  obtain ⟨absolute, sign, placed⟩ := saveTo_placed
    (pVnode.meterIndex pObj.saved.sid.toNat) (recordBytes pObj).length pObj.saved
    ((indexEnd_pos pVnode.maxSessions).trans_le filed.size)
  have index_eq := vnodeSaveMeterObjToFile_meterIndex pVnode sized
  have place_eq : place (vnodeSaveMeterObjToFile pObj pVnode) pObj.saved.sid.toNat = (saveTo
      (pVnode.meterIndex pObj.saved.sid.toNat) (recordBytes pObj).length pVnode.file.size
      pObj.saved).2 := by
    unfold place
    rw [index_eq, update_self]
    exact absolute
  refine ⟨⟨rfl, rfl, rfl, rfl⟩, ?_, ?_, ?_, ?_, ?_, ?_⟩
  · intro other differ
    rw [index_eq, update_of_ne differ]
  · simp only [index_eq, update_self]
  · rw [index_eq, update_self]
    exact sign
  · rw [place_eq]
    exact vnodeSaveMeterObjToFile_cells pObj
  · rw [place_eq]
    exact vnodeSaveMeterObjToFile_size pObj
  · rw [place_eq]
    exact placed

theorem vnodeSaveMeterObjToFile_onFile (onFile : pVnode.file.index = pVnode.meterIndex)
    (pObj : SMeterObj) : (vnodeSaveMeterObjToFile pObj pVnode).file.index =
      (vnodeSaveMeterObjToFile pObj pVnode).meterIndex := by
  unfold vnodeSaveMeterObjToFile
  dsimp only
  rw [onFile]

@[simp]
theorem setMeter_self (sid : Nat) (pObj : Option SMeterObj) :
    (setMeter sid pObj pVnode).meterList sid = pObj :=
  update_self ..

variable {other : Nat}

theorem setMeter_of_ne (differ : other ≠ sid) (pObj : Option SMeterObj) :
    (setMeter sid pObj pVnode).meterList other = pVnode.meterList other :=
  update_of_ne differ ..

theorem save_meterList (pObj : SMeterObj) :
    (vnodeSaveMeterObjToFile pObj pVnode).meterList = pVnode.meterList :=
  rfl

variable {pNew : Option SMeterObj}

theorem Held.setMeter (held : Held pVnode sid pObj) : Held (setMeter other pNew pVnode) sid pObj :=
  held.frame ⟨rfl, rfl, rfl, rfl⟩ rfl le_rfl fun _ _ _ => rfl

theorem Filed.setMeter (filed : Filed pVnode last) : Filed (setMeter other pNew pVnode) last := by
  refine ⟨filed.size, filed.never, ?_, filed.apart⟩
  intro sid pObj known
  obtain ⟨pObj', held, names⟩ := filed.held sid pObj known
  exact ⟨pObj', held.setMeter, names⟩

theorem save_setMeter (pObj : SMeterObj) (sid : Nat) (pNew : Option SMeterObj) :
    vnodeSaveMeterObjToFile pObj (setMeter sid pNew pVnode) =
      setMeter sid pNew (vnodeSaveMeterObjToFile pObj pVnode) := by
  unfold vnodeSaveMeterObjToFile MeterObjFile.setMeter
  dsimp only

theorem saved_stored (stored : Stored pVnode last)
    (inside : pObj.saved.sid.toNat < pVnode.maxSessions) (sized : Sized pObj)
    (opened : Opened pVnode pObj.saved) :
    Stored (vnodeSaveMeterObjToFile pObj (setMeter pObj.saved.sid.toNat (some pObj) pVnode))
      (Function.update last pObj.saved.sid.toNat (some pObj)) := by
  have put := vnodeSaveMeterObjToFile_put stored.filed sized
  rw [save_setMeter]
  refine ⟨(put.filed stored.filed inside rfl sized opened Iff.rfl).setMeter,
    vnodeSaveMeterObjToFile_onFile stored.onFile pObj, ?_⟩
  intro sid pObj' live
  by_cases same : sid = pObj.saved.sid.toNat
  · subst same
    rw [setMeter_self] at live
    obtain rfl := some.inj live
    exact ⟨update_self .., (put.held_self stored.filed inside rfl sized opened).setMeter⟩
  · rw [setMeter_of_ne same, save_meterList] at live
    obtain ⟨known, held⟩ := stored.live sid pObj' live
    rw [update_of_ne same]
    exact ⟨known, (put.held_other stored.filed same held).setMeter⟩

theorem vnodeRemoveMeterObj_stored (stored : Stored pVnode last) (sid : Nat) (safe : Bool)
    (now : BitVec 64) : Stored (vnodeRemoveMeterObj sid safe now pVnode) last := by
  unfold vnodeRemoveMeterObj
  cases live : pVnode.meterList sid with
  | none => exact stored
  | some pObj =>
    obtain ⟨known, held⟩ := stored.live sid pObj live
    cases safe with
    | false => exact stored
    | true =>
      dsimp only
      rw [if_pos rfl]
      have sized : Sized { pObj with saved := { pObj.saved with timeStamp := now } } :=
        ⟨held.sized.idLength, held.sized.numOfColumns, held.sized.sqlLen,
          held.sized.columns, held.sized.sqlLength⟩
      have opened : Opened pVnode { pObj.saved with timeStamp := now } := by
        refine ⟨held.opened.vnode, ?_, held.opened.lastKey⟩
        have cache := held.opened.cache
        unfold vnodeAllocateCacheInfo at cache ⊢
        rw [<- cache]
      have put := vnodeSaveMeterObjToFile_put stored.filed sized
      dsimp only at put
      rw [held.own] at put
      refine ⟨Filed.setMeter ?_, vnodeSaveMeterObjToFile_onFile stored.onFile _, ?_⟩
      · rw [<- update_eq_self sid last, known]
        exact put.filed stored.filed held.inside held.own sized opened Iff.rfl
      · intro other pObj' live'
        by_cases same : other = sid
        · subst same
          rw [setMeter_self] at live'
          exact absurd live' (by simp)
        · rw [setMeter_of_ne same, save_meterList] at live'
          obtain ⟨known', held'⟩ := stored.live other pObj' live'
          exact ⟨known', (put.held_other stored.filed same held').setMeter⟩

/-! ## One event -/

def noted (pVnode : SVnodeObj) (last : Nat -> Option SMeterObj) (sid : Nat) : Option SMeterObj :=
  (pVnode.meterList sid).or (last sid)

theorem Stored.noted_eq (stored : Stored pVnode last) : noted pVnode last = last := by
  funext sid
  unfold noted
  cases live : pVnode.meterList sid with
  | none => rfl
  | some pObj => exact (stored.live sid pObj live).1.symm

def Keeps (last : Nat -> Option SMeterObj) (pVnode : SVnodeObj) : Prop :=
  Stored pVnode (noted pVnode last)

theorem Stored.keeps (stored : Stored pVnode last) : Keeps last pVnode := by
  unfold Keeps
  rwa [stored.noted_eq]

theorem saved_keeps (stored : Stored pVnode last)
    (own : pObj.saved.sid.toNat = sid) (inside : sid < pVnode.maxSessions) (sized : Sized pObj)
    (opened : Opened pVnode pObj.saved) :
    Keeps last (vnodeSaveMeterObjToFile pObj (setMeter sid (some pObj) pVnode)) := by
  subst own
  have saved := saved_stored stored inside sized opened
  have same : noted (vnodeSaveMeterObjToFile pObj
      (setMeter pObj.saved.sid.toNat (some pObj) pVnode)) last =
        Function.update last pObj.saved.sid.toNat (some pObj) := by
    rw [<- saved.noted_eq]
    funext other
    unfold noted
    by_cases this : other = pObj.saved.sid.toNat
    · rw [this, save_meterList, setMeter_self]
      rfl
    · rw [update_of_ne this]
  unfold Keeps
  rwa [same]

theorem opened_cache (vnode : saved.vnode = pVnode.vnode)
    (lastKey : saved.lastKey = saved.lastKeyOnFile) :
    Opened pVnode (vnodeAllocateCacheInfo pVnode saved) := by
  unfold vnodeAllocateCacheInfo
  exact ⟨vnode, rfl, lastKey⟩

theorem length_strcpy (dst src : Bytes) : (strcpy dst src).length = dst.length := by
  unfold strcpy
  rw [List.length_take, List.length_append, List.length_cons, List.length_drop]
  omega

theorem columns_ofNat {schema : List SColumn} (columns : schema.length ≤ tsdbMaxColumns) :
    (BitVec.ofNat 16 schema.length).toNat = schema.length := by
  unfold tsdbMaxColumns at columns
  rw [BitVec.toNat_ofNat, Nat.mod_eq_of_lt (by omega)]

theorem meterOf_sized (pVnode : SVnodeObj) (pCreate : SCreateMsg) :
    Sized (meterOf pVnode pCreate) := by
  have sqlLength := pCreate.sqlLength
  unfold tsdbMaxSavedSqlLen at sqlLength
  refine ⟨pCreate.idLength, columns_ofNat pCreate.columns, ?_, pCreate.columns, pCreate.sqlLength⟩
  change (BitVec.ofNat 16 pCreate.sql.length).toNat = pCreate.sql.length
  rw [BitVec.toNat_ofNat, Nat.mod_eq_of_lt (by omega)]

theorem vnodeUpdateMeter_keeps (stored : Stored pVnode last) (pNew : SCreateMsg) (ready : Bool) :
    Keeps last (vnodeUpdateMeter (meterOf pVnode pNew) ready pVnode) := by
  unfold vnodeUpdateMeter
  cases live : pVnode.meterList (meterOf pVnode pNew).saved.sid.toNat with
  | none => exact stored.keeps
  | some pObj =>
    obtain ⟨-, held⟩ := stored.live _ pObj live
    cases ready with
    | false => exact stored.keeps
    | true =>
      dsimp only
      rw [if_pos rfl]
      refine saved_keeps stored held.own held.inside ?_ ?_
      · exact ⟨(length_strcpy _ _).trans held.sized.idLength, columns_ofNat pNew.columns,
          held.sized.sqlLen, pNew.columns, held.sized.sqlLength⟩
      · exact ⟨held.opened.vnode, rfl, held.opened.lastKey⟩

theorem vnodeRemoveMeterObj_same (sid : Nat) (safe : Bool) (now : BitVec 64) :
    SameCfg pVnode (vnodeRemoveMeterObj sid safe now pVnode) := by
  unfold vnodeRemoveMeterObj
  cases pVnode.meterList sid with
  | none => exact ⟨rfl, rfl, rfl, rfl⟩
  | some pObj =>
    cases safe with
    | false => exact ⟨rfl, rfl, rfl, rfl⟩
    | true => exact ⟨rfl, rfl, rfl, rfl⟩

theorem vnodeCreateMeterObj_keeps (stored : Stored pVnode last) {pCreate : SCreateMsg}
    (inside : pCreate.sid.toNat < pVnode.maxSessions) (outside : Outside) :
    Keeps last (vnodeCreateMeterObj (meterOf pVnode pCreate) outside pVnode) := by
  have create : ∀ pVnode', Stored pVnode' last -> SameCfg pVnode pVnode' ->
      Keeps last (if outside.allocated then
        vnodeSaveMeterObjToFile { meterOf pVnode pCreate with
            saved := vnodeAllocateCacheInfo pVnode' (meterOf pVnode pCreate).saved }
          (setMeter (meterOf pVnode pCreate).saved.sid.toNat (some { meterOf pVnode pCreate with
            saved := vnodeAllocateCacheInfo pVnode' (meterOf pVnode pCreate).saved }) pVnode')
        else pVnode') := by
    intro pVnode' stored' same
    cases outside.allocated with
    | false => exact stored'.keeps
    | true =>
      rw [if_pos rfl]
      have sized := meterOf_sized pVnode pCreate
      refine saved_keeps stored' rfl (same.maxSessions ▸ inside) ?_ ?_
      · exact ⟨sized.idLength, sized.numOfColumns, sized.sqlLen, sized.columns, sized.sqlLength⟩
      · exact opened_cache same.vnode.symm rfl
  unfold vnodeCreateMeterObj
  dsimp only
  cases live : pVnode.meterList (meterOf pVnode pCreate).saved.sid.toNat with
  | none => exact create pVnode stored ⟨rfl, rfl, rfl, rfl⟩
  | some pObj =>
    dsimp only
    split
    · split
      · exact stored.keeps
      · exact vnodeUpdateMeter_keeps stored pCreate outside.ready
    · exact create _ (vnodeRemoveMeterObj_stored stored _ _ _) (vnodeRemoveMeterObj_same ..)

theorem vnodeProcessCreateMeterMsg_keeps (stored : Stored pVnode last) (pCreate : SCreateMsg)
    (outside : Outside) : Keeps last (vnodeProcessCreateMeterMsg pCreate outside pVnode) := by
  unfold vnodeProcessCreateMeterMsg
  split
  · exact stored.keeps
  · rename_i inside
    split
    · exact stored.keeps
    · exact vnodeCreateMeterObj_keeps stored (not_le.mp inside) outside

theorem vnodeCloseStreamCallback_keeps (stored : Stored pVnode last) (sid : Nat) :
    Keeps last (vnodeCloseStreamCallback sid pVnode) := by
  unfold vnodeCloseStreamCallback
  cases live : pVnode.meterList sid with
  | none => exact stored.keeps
  | some pObj =>
    obtain ⟨-, held⟩ := stored.live sid pObj live
    dsimp only
    split
    · exact stored.keeps
    · refine saved_keeps stored held.own held.inside ?_ ?_
      · exact ⟨held.sized.idLength, held.sized.numOfColumns, rfl, held.sized.columns, Nat.zero_le _⟩
      · refine ⟨held.opened.vnode, ?_, held.opened.lastKey⟩
        have cache := held.opened.cache
        unfold vnodeAllocateCacheInfo at cache ⊢
        rw [<- cache]

/-! ## Saving all meters -/

theorem saveAllTo_held (held : Held pVnode sid pObj) :
    0 < place pVnode sid ∧ saveAllTo (pVnode.meterIndex sid) (recordBytes pObj).length
      pVnode.file.size = (place pVnode sid, place pVnode sid) := by
  have nonzero := held.nonzero
  unfold saveAllTo place
  have same : ¬ ((recordBytes pObj).length : Int) < (pVnode.meterIndex sid).length :=
    not_lt.mpr held.length.le
  rw [if_neg (not_or.mpr ⟨nonzero, same⟩)]
  by_cases negative : (pVnode.meterIndex sid).offset < 0
  · rw [if_pos negative, abs_of_neg negative]
    exact ⟨by omega, rfl⟩
  · rw [if_neg negative, abs_of_nonneg (not_lt.mp negative)]
    exact ⟨by omega, rfl⟩

theorem saveMeterOfAll_put (live : pVnode.meterList sid = some pObj) (held : Held pVnode sid pObj) :
    Put pVnode (saveMeterOfAll pVnode sid) sid pObj := by
  obtain ⟨positive, target⟩ := saveAllTo_held held
  have saved : saveMeterOfAll pVnode sid = { pVnode with
      meterIndex := Function.update pVnode.meterIndex sid
        ⟨place pVnode sid, (recordBytes pObj).length⟩
      file := pVnode.file.write (place pVnode sid) (recordBytes pObj) } := by
    unfold saveMeterOfAll
    rw [live]
    simp only [target, headerLength_recordBytes held.sized]
  have placed : place (saveMeterOfAll pVnode sid) sid = place pVnode sid := by
    rw [saved, place]
    simp only [update_self]
    exact abs_of_pos positive
  refine ⟨?_, ?_, ?_, ?_, ?_, ?_, ?_⟩
  · rw [saved]
    exact ⟨rfl, rfl, rfl, rfl⟩
  · intro other differ
    rw [saved]
    exact update_of_ne differ ..
  · rw [saved]
    simp only [update_self]
  · rw [saved]
    simp only [update_self]
    intro negative
    omega
  · rw [placed, saved]
    simp only [ObjFile.write]
  · rw [placed, saved]
    simp only [ObjFile.write]
  · exact Or.inr ⟨held.nonzero, placed, held.length.ge⟩

/-- The live meters have their records, also while not all of them are saved. -/
structure Listed (pVnode : SVnodeObj) (last : Nat -> Option SMeterObj) : Prop where
  filed : Filed pVnode last
  live : ∀ sid pObj, pVnode.meterList sid = some pObj ->
    last sid = some pObj ∧ Held pVnode sid pObj

theorem saveMeterOfAll_listed (listed : Listed pVnode last) (sid : Nat) :
    Listed (saveMeterOfAll pVnode sid) last := by
  cases live : pVnode.meterList sid with
  | none =>
    unfold saveMeterOfAll
    rw [live]
    exact listed
  | some pObj =>
    obtain ⟨known, held⟩ := listed.live sid pObj live
    have put := saveMeterOfAll_put live held
    have list_eq : (saveMeterOfAll pVnode sid).meterList = pVnode.meterList := by
      unfold saveMeterOfAll
      rw [live]
    constructor
    · rw [<- update_eq_self sid last, known]
      exact put.filed listed.filed held.inside held.own held.sized held.opened Iff.rfl
    · intro other pObj' live'
      rw [list_eq] at live'
      obtain ⟨known', held'⟩ := listed.live other pObj' live'
      refine ⟨known', ?_⟩
      by_cases same : other = sid
      · subst same
        obtain rfl := some.inj (live.symm.trans live')
        exact put.held_self listed.filed held.inside held.own held.sized held.opened
      · exact put.held_other listed.filed same held'

theorem vnodeSaveAllMeterObjToFile_keeps (stored : Stored pVnode last) :
    Keeps last (vnodeSaveAllMeterObjToFile pVnode) := by
  have turns : ∀ (sids : List Nat) (pVnode : SVnodeObj), Listed pVnode last ->
      Listed (sids.foldl saveMeterOfAll pVnode) last := by
    intro sids
    induction sids with
    | nil => exact fun _ listed => listed
    | cons sid sids ih => exact fun pVnode listed => ih _ (saveMeterOfAll_listed listed sid)
  have listed := turns (List.range pVnode.maxSessions) pVnode ⟨stored.filed, stored.live⟩
  have held : ∀ {pVnode : SVnodeObj} {sid : Nat} {pObj : SMeterObj}, Held pVnode sid pObj ->
      Held { pVnode with file := { pVnode.file with index := pVnode.meterIndex } } sid pObj :=
    fun held => held.frame ⟨rfl, rfl, rfl, rfl⟩ rfl le_rfl fun _ _ _ => rfl
  apply Stored.keeps
  unfold vnodeSaveAllMeterObjToFile
  refine ⟨⟨listed.filed.size, listed.filed.never, ?_, listed.filed.apart⟩, rfl, ?_⟩
  · intro sid pObj known
    obtain ⟨pObj', held', names⟩ := listed.filed.held sid pObj known
    exact ⟨pObj', held held', names⟩
  · intro sid pObj live
    obtain ⟨known, held'⟩ := listed.live sid pObj live
    exact ⟨known, held held'⟩

/-! ## Opening the vnode -/

def withMeters (pVnode : SVnodeObj) (meterList : Nat -> Option SMeterObj) : SVnodeObj :=
  { pVnode with meterList := meterList }

def restored (record : Option SMeterObj) : Option SMeterObj :=
  record.filter fun pObj => Named pObj.saved

theorem openMeters_skip (pVnode : SVnodeObj) (sids : List Nat)
    (unnamed : (pVnode.meterIndex sid).offset ≤ 0) :
    openMeters (sid :: sids) pVnode = openMeters sids pVnode := by
  rw [openMeters]
  exact if_pos (Or.inl unnamed)

theorem openMeters_read (sids : List Nat)
    (held : Held pVnode sid pObj) (positive : 0 < (pVnode.meterIndex sid).offset) :
    openMeters (sid :: sids) pVnode =
      openMeters sids (if Named pObj.saved then setMeter sid (some pObj) pVnode else pVnode) := by
  have size := length_recordBytes held.sized
  have restore := vnodeRestoreMeterObj_objBytes held.sized held.opened (held.own.symm ▸ held.inside)
  have header := held.length
  have before := held.before
  have record := held.record
  unfold place at before record
  rw [abs_of_pos positive] at before record
  rw [openMeters]
  generalize pVnode.meterIndex sid = entry at header before record positive ⊢
  obtain ⟨offset, length⟩ := entry
  dsimp only at header before record positive ⊢
  subst header
  rw [if_neg (by omega), if_neg (by omega), record, if_pos (recordBytes_checked pObj),
    take_recordBytes, restore, held.own]

theorem Stored.records (stored : Stored pVnode last) : ∃ record : Nat -> Option SMeterObj,
    (∀ sid, last sid = none -> record sid = none) ∧
    (∀ sid pObj, last sid = some pObj -> ∃ pObj', record sid = some pObj' ∧
      Held pVnode sid pObj' ∧ (Named pObj'.saved ↔ Named pObj.saved)) ∧
    ∀ sid pObj, pVnode.meterList sid = some pObj -> record sid = some pObj := by
  have each : ∀ sid, ∃ record : Option SMeterObj, (last sid = none -> record = none) ∧
      (∀ pObj, last sid = some pObj -> ∃ pObj', record = some pObj' ∧
        Held pVnode sid pObj' ∧ (Named pObj'.saved ↔ Named pObj.saved)) ∧
      ∀ pObj, pVnode.meterList sid = some pObj -> record = some pObj := by
    intro sid
    cases live : pVnode.meterList sid with
    | some pObj =>
      obtain ⟨known, held⟩ := stored.live sid pObj live
      refine ⟨some pObj, fun none' => absurd (none'.symm.trans known) (by simp), ?_, fun _ => id⟩
      intro pObj' known'
      obtain rfl := some.inj (known.symm.trans known')
      exact ⟨pObj, rfl, held, Iff.rfl⟩
    | none =>
      cases known : last sid with
      | none => exact ⟨none, fun _ => rfl, fun _ absurd' => absurd absurd' (by simp),
          fun _ absurd' => absurd absurd' (by simp)⟩
      | some pObj =>
        obtain ⟨pObj', held, names⟩ := stored.filed.held sid pObj known
        refine ⟨some pObj', fun absurd' => absurd absurd' (by simp), ?_,
          fun _ absurd' => absurd absurd' (by simp)⟩
        intro pObj'' known'
        obtain rfl := some.inj known'
        exact ⟨pObj', rfl, held, names⟩
  choose record nothing known live using each
  exact ⟨record, nothing, known, live⟩

variable {record : Nat -> Option SMeterObj}

theorem openMeters_records (nothing : ∀ sid, record sid = none -> pVnode.meterIndex sid = ⟨0, 0⟩)
    (held : ∀ sid pObj, record sid = some pObj -> Held pVnode sid pObj) (sids : List Nat)
    (meterList : Nat -> Option SMeterObj) :
    openMeters sids (withMeters pVnode meterList) = withMeters pVnode fun sid =>
      if sid ∈ sids then (restored (record sid)).or (meterList sid) else meterList sid := by
  induction sids generalizing meterList with
  | nil =>
    rw [openMeters]
    simp only [List.not_mem_nil, if_false]
  | cons sid sids ih =>
    have turn : openMeters (sid :: sids) (withMeters pVnode meterList) =
        openMeters sids (withMeters pVnode (Function.update meterList sid
          ((restored (record sid)).or (meterList sid)))) := by
      cases known : record sid with
      | none =>
        rw [openMeters_skip (withMeters pVnode meterList) sids (by
          change (pVnode.meterIndex sid).offset ≤ 0
          rw [nothing sid known])]
        exact congrArg (fun list => openMeters sids (withMeters pVnode list))
          (update_eq_self sid meterList).symm
      | some pObj =>
        have held' : Held (withMeters pVnode meterList) sid pObj :=
          (held sid pObj known).frame ⟨rfl, rfl, rfl, rfl⟩ rfl le_rfl fun _ _ _ => rfl
        have same : Function.update meterList sid (meterList sid) = meterList :=
          update_eq_self sid meterList
        by_cases positive : 0 < (pVnode.meterIndex sid).offset
        · rw [openMeters_read sids held' positive]
          by_cases named : Named pObj.saved
          · rw [if_pos named, restored, filter_some, if_pos (by simpa using named)]
            rfl
          · rw [if_neg named, restored, filter_some, if_neg (by simpa using named), none_or, same]
        · have negative : (pVnode.meterIndex sid).offset < 0 :=
            lt_of_le_of_ne (not_lt.mp positive) held'.nonzero
          have unnamed : ¬ Named pObj.saved := held'.sign negative
          have skip := openMeters_skip (withMeters pVnode meterList) sids negative.le
          rw [skip, restored, filter_some, if_neg (by simpa using unnamed), none_or, same]
    rw [turn, ih]
    congr 1
    funext other
    by_cases same : other = sid
    · subst same
      rw [update_self, if_pos List.mem_cons_self]
      split
      · cases restored (record other) with
        | none => rfl
        | some pObj => rfl
      · rfl
    · rw [update_of_ne same]
      simp only [List.mem_cons, same, false_or]

theorem vnodeOpenMetersVnode_records (stored : Stored pVnode last) (nothing : ∀ sid, last sid = none -> record sid = none)
    (known : ∀ sid pObj, last sid = some pObj -> ∃ pObj', record sid = some pObj' ∧
      Held pVnode sid pObj' ∧ (Named pObj'.saved ↔ Named pObj.saved)) :
    vnodeOpenMetersVnode pVnode = withMeters pVnode fun sid => restored (record sid) := by
  have held : ∀ sid pObj, record sid = some pObj -> Held pVnode sid pObj := by
    intro sid pObj some'
    cases last' : last sid with
    | none => exact absurd ((nothing sid last').symm.trans some') (by simp)
    | some pObj' =>
      obtain ⟨pObj'', some'', held, -⟩ := known sid pObj' last'
      obtain rfl := some.inj (some'.symm.trans some'')
      exact held
  have never : ∀ sid, record sid = none -> pVnode.meterIndex sid = ⟨0, 0⟩ := by
    intro sid none'
    apply stored.filed.never
    cases last' : last sid with
    | none => rfl
    | some pObj' =>
      obtain ⟨pObj'', some'', -⟩ := known sid pObj' last'
      exact absurd (none'.symm.trans some'') (by simp)
  unfold vnodeOpenMetersVnode
  rw [stored.onFile]
  rw [show { pVnode with meterList := fun _ => none, meterIndex := pVnode.meterIndex } =
    withMeters pVnode fun _ => none from rfl, openMeters_records never held]
  congr 1
  funext sid
  by_cases inside : sid < pVnode.maxSessions
  · rw [if_pos (List.mem_range.mpr inside), Option.or_none]
  · rw [if_neg (by simpa using inside)]
    cases some' : record sid with
    | none => rfl
    | some pObj => exact absurd (held sid pObj some').inside inside

theorem restored_eq_some {record : Option SMeterObj} :
    restored record = some pObj ↔ record = some pObj ∧ Named pObj.saved := by
  unfold restored
  rw [Option.filter_eq_some_iff, decide_eq_true_eq]

theorem vnodeOpenMetersVnode_keeps (stored : Stored pVnode last) :
    Keeps last (vnodeOpenMetersVnode pVnode) := by
  obtain ⟨record, nothing, known, -⟩ := stored.records
  have held : ∀ {sid : Nat} {pObj : SMeterObj}, Held pVnode sid pObj ->
      Held (vnodeOpenMetersVnode pVnode) sid pObj := by
    rw [vnodeOpenMetersVnode_records stored nothing known]
    exact fun held => held.frame ⟨rfl, rfl, rfl, rfl⟩ rfl le_rfl fun _ _ _ => rfl
  have back : ∀ sid pObj, (vnodeOpenMetersVnode pVnode).meterList sid = some pObj ->
      Held (vnodeOpenMetersVnode pVnode) sid pObj := by
    intro sid pObj live
    rw [vnodeOpenMetersVnode_records stored nothing known] at live
    obtain ⟨some', -⟩ := restored_eq_some.mp live
    cases last' : last sid with
    | none => exact absurd ((nothing sid last').symm.trans some') (by simp)
    | some pObj' =>
      obtain ⟨pObj'', some'', held', -⟩ := known sid pObj' last'
      obtain rfl := some.inj (some'.symm.trans some'')
      exact held held'
  have file_eq : (vnodeOpenMetersVnode pVnode).file = pVnode.file := by
    rw [vnodeOpenMetersVnode_records stored nothing known, withMeters]
  have index_eq : (vnodeOpenMetersVnode pVnode).meterIndex = pVnode.meterIndex := by
    rw [vnodeOpenMetersVnode_records stored nothing known, withMeters]
  have max_eq : (vnodeOpenMetersVnode pVnode).maxSessions = pVnode.maxSessions := by
    rw [vnodeOpenMetersVnode_records stored nothing known, withMeters]
  unfold Keeps noted
  refine ⟨⟨?_, ?_, ?_, ?_⟩, ?_, ?_⟩
  · rw [file_eq, max_eq]
    exact stored.filed.size
  · intro sid none'
    rw [index_eq]
    exact stored.filed.never sid (Option.or_eq_none_iff.mp none').2
  · intro sid pObj some'
    cases live : (vnodeOpenMetersVnode pVnode).meterList sid with
    | some pObj' =>
      rw [live, some_or] at some'
      obtain rfl := some.inj some'
      exact ⟨_, back sid _ live, Iff.rfl⟩
    | none =>
      rw [live, none_or] at some'
      obtain ⟨pObj', held', names⟩ := stored.filed.held sid pObj some'
      exact ⟨pObj', held held', names⟩
  · unfold place
    rw [index_eq]
    exact stored.filed.apart
  · rw [file_eq, index_eq]
    exact stored.onFile
  · intro sid pObj live
    refine ⟨?_, back sid pObj live⟩
    rw [live, some_or]

/-! ## Runs -/

theorem step_keeps (stored : Stored pVnode last) (event : Event) :
    Keeps last (step pVnode event) := by
  cases event with
  | create pCreate outside => exact vnodeProcessCreateMeterMsg_keeps stored pCreate outside
  | update pNew ready => exact vnodeUpdateMeter_keeps stored pNew ready
  | remove sid safe now => exact (vnodeRemoveMeterObj_stored stored sid safe now).keeps
  | closeStream sid => exact vnodeCloseStreamCallback_keeps stored sid
  | saveAll => exact vnodeSaveAllMeterObjToFile_keeps stored
  | reopen => exact vnodeOpenMetersVnode_keeps stored

def lastMeters (pVnode : SVnodeObj) (last : Nat -> Option SMeterObj) :
    List Event -> Nat -> Option SMeterObj
  | [] => last
  | event :: events => lastMeters (step pVnode event) (noted (step pVnode event) last) events

theorem run_stored (stored : Stored pVnode last) (events : List Event) :
    Stored (run pVnode events) (lastMeters pVnode last events) := by
  induction events generalizing pVnode last with
  | nil => exact stored
  | cons event events ih => exact ih (step_keeps stored event)

theorem newVnode_stored (vnode : BitVec 16) (maxSessions : Nat)
    (cacheBlockSize blocksPerMeter : Int) (rowsInFileBlock : BitVec 32) :
    Stored (newVnode vnode maxSessions cacheBlockSize blocksPerMeter rowsInFileBlock)
      fun _ => none :=
  ⟨⟨le_rfl, fun _ _ => rfl, fun _ _ absurd' => absurd absurd' (by simp),
    fun _ _ _ nonzero => absurd rfl nonzero⟩, rfl, fun _ _ absurd' => absurd absurd' (by
      simp [newVnode])⟩

/-- The entries of the index with a positive offset have records behind the index, apart from
each other, with a right check sum. -/
structure IndexSound (pVnode : SVnodeObj) : Prop where
  record : ∀ sid, 0 < (pVnode.file.index sid).offset ->
    indexEnd pVnode.maxSessions ≤ (pVnode.file.index sid).offset ∧
      (pVnode.file.index sid).offset + (pVnode.file.index sid).length ≤ pVnode.file.size ∧
      taosCheckChecksumWhole (readCells pVnode.file.cells (pVnode.file.index sid).offset
        (pVnode.file.index sid).length) = true
  apart : ∀ sid other, sid ≠ other -> 0 < (pVnode.file.index sid).offset ->
    0 < (pVnode.file.index other).offset ->
    (pVnode.file.index sid).offset + (pVnode.file.index sid).length ≤
        (pVnode.file.index other).offset ∨
      (pVnode.file.index other).offset + (pVnode.file.index other).length ≤
        (pVnode.file.index sid).offset

theorem Stored.indexSound (stored : Stored pVnode last) : IndexSound pVnode := by
  constructor
  · intro sid
    rw [stored.onFile]
    intro positive
    cases known : last sid with
    | none =>
      rw [stored.filed.never sid known] at positive
      exact absurd positive (by simp)
    | some pObj =>
      obtain ⟨pObj', held, -⟩ := stored.filed.held sid pObj known
      have behind := held.behind
      have before := held.before
      have record := held.record
      unfold place at behind before record
      rw [abs_of_pos positive] at behind before record
      rw [held.length, record]
      exact ⟨behind, before, recordBytes_checked pObj'⟩
  · intro sid other differ
    rw [stored.onFile]
    intro positive positive'
    have apart := stored.filed.apart sid other differ positive.ne' positive'.ne'
    unfold place at apart
    rwa [abs_of_pos positive, abs_of_pos positive'] at apart

theorem Stored.reopened_iff (stored : Stored pVnode last) :
    (vnodeOpenMetersVnode pVnode).meterList = pVnode.meterList ↔
      ∀ sid pObj, last sid = some pObj -> (Named pObj.saved ↔ (pVnode.meterList sid).isSome) := by
  obtain ⟨record, nothing, known, live⟩ := stored.records
  rw [vnodeOpenMetersVnode_records stored nothing known]
  constructor
  · intro same sid pObj last'
    obtain ⟨pObj', some', -, names⟩ := known sid pObj last'
    rw [<- congrFun same sid, <- names]
    change _ ↔ (restored (record sid)).isSome
    rw [some', restored, filter_some]
    by_cases named : Named pObj'.saved
    · simp [named]
    · simp [named]
  · intro meters
    funext sid
    change restored (record sid) = pVnode.meterList sid
    cases last' : last sid with
    | none =>
      rw [nothing sid last']
      cases live' : pVnode.meterList sid with
      | none => rfl
      | some pObj => exact absurd (last'.symm.trans (stored.live sid pObj live').1) (by simp)
    | some pObj =>
      obtain ⟨pObj', some', -, names⟩ := known sid pObj last'
      have meters' := meters sid pObj last'
      cases live' : pVnode.meterList sid with
      | none =>
        rw [live'] at meters'
        have unnamed : ¬ Named pObj'.saved := fun named =>
          absurd (meters'.mp (names.mp named)) (by simp)
        rw [some', restored, filter_some, if_neg (by simpa using unnamed)]
      | some pObj'' =>
        rw [live sid pObj'' live']
        obtain rfl := some.inj ((stored.live sid pObj'' live').1.symm.trans last')
        rw [live'] at meters'
        exact restored_eq_some.mpr ⟨rfl, meters'.mpr rfl⟩

/-- A message for a meter `a` with one column. -/
def oneColumn : SCreateMsg where
  uid := 1
  meterId := 97 :: List.replicate 116 0
  sid := 0
  timeStamp := 0
  sversion := 0
  schema := [⟨0, 8, 9⟩]
  sql := []
  idLength := by decide
  columns := by decide
  sqlLength := by decide

end Luomi.Vnode.MeterObjRuns
