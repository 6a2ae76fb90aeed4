import Luomi.Vnode.CachedRows
import Luomi.Vnode.InsertPoints

/-!
# Replaying inserts

The log is written between two groups of checks.  What the first group looks at is the
same when the record is replayed; of the second group the version of the schema is not,
since the record has the version of the meter and not that of the message.
-/

namespace Luomi.Vnode.InsertReplay

open Cache hiding SVnodeObj
open List (map_cons mem_cons mem_cons_of_mem mem_cons_self mem_map not_mem_nil)
open CachePool CacheSteady CommitWindow CachedRows InsertPoints
open Option (bind_eq_bind bind_some getD_none getD_some isSome_iff_exists isSome_map isSome_some
  map_some)

section Replay

variable {Data : Type}

/-! ## The rows of a record -/

theorem stampRows_spec (left : Nat) (i tsKey : Int) (payLoad : Int -> Point Data) :
    (stampRows left i tsKey payLoad).2 = tsKey + left ∧
      ∀ j, (stampRows left i tsKey payLoad).1 j =
        if i ≤ j ∧ j < i + left then { payLoad j with key := tsKey + (j - i) } else payLoad j := by
  induction left generalizing i tsKey payLoad with
  | zero =>
    refine ⟨(Int.add_zero _).symm, fun j => ?_⟩
    rw [if_neg (by push_cast; omega)]
    rfl
  | succ left ih =>
    obtain ⟨key, rows⟩ := ih (i + 1) (tsKey + 1)
      (Function.update payLoad i { payLoad i with key := tsKey })
    refine ⟨?_, fun j => ?_⟩
    · rw [stampRows, key]
      push_cast
      ring
    · rw [stampRows, rows j]
      by_cases first : j = i
      · subst first
        rw [if_neg (by omega), if_pos (by push_cast; omega), Function.update_self, Int.sub_self,
          Int.add_zero]
      · rw [Function.update_of_ne first]
        by_cases later : i + 1 ≤ j ∧ j < i + 1 + left
        · rw [if_pos later, if_pos (by push_cast; omega)]
          have shift : tsKey + 1 + (j - (i + 1)) = tsKey + (j - i) := by ring
          rw [shift]
        · rw [if_neg later, if_neg (by push_cast; omega)]

/-- Two messages that put the same rows into a cache. -/
structure SameRows (precision : Precision) (cont cont' : SSubmitMsg Data) (tsKey tsKey' : Int) :
    Prop where
  numOfRows : cont'.numOfRows = cont.numOfRows
  rows : ∀ i, 0 ≤ i -> i < cont.numOfPoints -> cont'.payLoad i = cont.payLoad i
  valid : ∀ i, 0 ≤ i -> i < cont.numOfPoints ->
    (ValidTimestamp precision (cont.payLoad i).key tsKey' ↔
      ValidTimestamp precision (cont.payLoad i).key tsKey)

variable {cont : SSubmitMsg Data} {point : Point Data} {vnode live : SVnodeObj Data}
  {cont' : SSubmitMsg Data} {precision : Precision} {tsKey tsKey' : Int}

theorem SameRows.numOfPoints (same : SameRows precision cont cont' tsKey tsKey') :
    cont'.numOfPoints = cont.numOfPoints :=
  congrArg BitVec.toInt same.numOfRows

theorem numOfPoints_lt (cont : SSubmitMsg Data) : cont.numOfPoints < 32768 := by
  have upper := BitVec.toInt_lt (x := cont.numOfRows)
  exact upper

theorem stamped_numOfRows (cont : SSubmitMsg Data) (tsKey : Int) :
    (stamped cont tsKey).1.numOfRows = cont.numOfRows := by
  unfold stamped
  split
  · rfl
  · rfl

theorem stamped_nonzero (tsKey : Int) (some' : (cont.payLoad 0).key ≠ 0) :
    stamped cont tsKey = (cont, tsKey) :=
  if_neg some'

theorem stamped_zero (tsKey : Int) (none' : (cont.payLoad 0).key = 0) :
    (stamped cont tsKey).2 = tsKey + cont.numOfPoints.toNat ∧
      ∀ i, 0 ≤ i -> i < cont.numOfPoints ->
        (stamped cont tsKey).1.payLoad i = { cont.payLoad i with key := tsKey + i } := by
  obtain ⟨key, rows⟩ := stampRows_spec cont.numOfPoints.toNat 0 tsKey cont.payLoad
  rw [stamped, if_pos none']
  refine ⟨key, fun i lower upper => ?_⟩
  have row := rows i
  rw [if_pos ⟨lower, by omega⟩, Int.sub_zero] at row
  exact row

theorem numOfPoints_le_span (cont : SSubmitMsg Data) (precision : Precision) :
    cont.numOfPoints ≤ 36500 * tsMsPerDay precision := by
  have upper := numOfPoints_lt cont
  cases precision with
  | milli =>
    show _ ≤ 36500 * (86400000 : Int)
    omega
  | micro =>
    show _ ≤ 36500 * (86400000000 : Int)
    omega

theorem stamped_same (precision : Precision) (clock : Int) {msg : SSubmitMsg Data}
    (numOfRows : msg.numOfRows = cont.numOfRows) (rows : ∀ i, 0 ≤ i -> i < cont.numOfPoints ->
      msg.payLoad i = (stamped cont clock).1.payLoad i) :
    SameRows precision (stamped cont clock).1 (stamped msg clock).1 (stamped cont clock).2
      (stamped msg clock).2 := by
  have counted : msg.numOfPoints = cont.numOfPoints := congrArg BitVec.toInt numOfRows
  have isCount : (stamped cont clock).1.numOfPoints = cont.numOfPoints :=
    congrArg BitVec.toInt (stamped_numOfRows cont clock)
  have sameRows : (stamped msg clock).1.numOfRows = (stamped cont clock).1.numOfRows := by
    rw [stamped_numOfRows, stamped_numOfRows, numOfRows]
  by_cases none' : (cont.payLoad 0).key = 0
  · obtain ⟨key, isRow⟩ := stamped_zero clock none'
    by_cases again : (msg.payLoad 0).key = 0
    · -- the clock stands at 0, so the rows get the same time stamps again
      obtain ⟨key', isRow'⟩ := stamped_zero clock again
      refine ⟨sameRows, fun i lower upper => ?_, fun i lower upper => ?_⟩
      · rw [isCount] at upper
        rw [isRow' i lower (counted ▸ upper), rows i lower upper, isRow i lower upper]
      · rw [key, key', counted]
    · rw [stamped_nonzero clock again]
      refine ⟨by rw [stamped_numOfRows]; exact numOfRows, fun i lower upper => ?_,
        fun i lower upper => ?_⟩
      · exact rows i lower (isCount ▸ upper)
      · rw [isCount] at upper
        have span := numOfPoints_le_span cont precision
        rw [key, isRow i lower upper]
        unfold ValidTimestamp
        constructor
        · exact fun ⟨nonneg, _⟩ => ⟨nonneg, by show clock + i ≤ _; omega⟩
        · exact fun ⟨nonneg, _⟩ => ⟨nonneg, by show clock + i ≤ _; omega⟩
  · rw [stamped_nonzero clock none'] at rows ⊢
    by_cases some' : 0 < cont.numOfPoints
    · have first : (msg.payLoad 0).key ≠ 0 := by
        rw [rows 0 le_rfl some']
        exact none'
      rw [stamped_nonzero clock first]
      exact ⟨numOfRows, rows, fun _ _ _ => Iff.rfl⟩
    · refine ⟨(stamped_numOfRows msg clock).trans numOfRows, ?_, ?_⟩
      · intro i lower upper
        exact absurd (lt_of_le_of_lt lower upper) some'
      · intro i lower upper
        exact absurd (lt_of_le_of_lt lower upper) some'

theorem recordMsg_payLoad (beyond : Int -> Point Data) (meter : CommitLog.SMeterObj) (sid : Nat)
    (cont : SSubmitMsg Data) (contLen : Int) {i : Int} (lower : 0 ≤ i)
    (upper : i < cont.numOfPoints) :
    (recordMsg beyond (recordOf meter sid cont contLen)).payLoad i = cont.payLoad i := by
  have inside : i.toNat < cont.numOfPoints.toNat := by omega
  have index : ((i.toNat : Nat) : Int) = i := Int.toNat_of_nonneg lower
  show (if 0 ≤ i then _ else _) = _
  rw [if_pos lower]
  simp only [recordOf, List.getElem?_map, List.getElem?_range inside, map_some, getD_some, index]

theorem recordMsg_same (precision : Precision) (clock : Int) (beyond : Int -> Point Data)
    (meter : CommitLog.SMeterObj) (sid : Nat) (cont : SSubmitMsg Data) (contLen : Int) :
    SameRows precision (stamped cont clock).1
      (stamped (recordMsg beyond (recordOf meter sid (stamped cont clock).1 contLen)) clock).1
      (stamped cont clock).2
      (stamped (recordMsg beyond (recordOf meter sid (stamped cont clock).1 contLen)) clock).2 := by
  have isCount : (stamped cont clock).1.numOfPoints = cont.numOfPoints :=
    congrArg BitVec.toInt (stamped_numOfRows cont clock)
  apply stamped_same precision clock
  · exact stamped_numOfRows cont clock
  · intro i lower upper
    exact recordMsg_payLoad beyond meter sid (stamped cont clock).1 contLen lower (isCount ▸ upper)

/-! ## The loop over the rows -/

theorem insertRows_same
    (same : SameRows precision cont cont' tsKey tsKey') (deleting : Bool) (sid left : Nat)
    {i : Int} (points : Int) (cache : Cache.SVnodeObj (Point Data)) (lower : 0 ≤ i)
    (upper : i + left ≤ max 0 cont.numOfPoints) :
    insertRows precision deleting sid tsKey' cont'.payLoad left i points cache =
      insertRows precision deleting sid tsKey cont.payLoad left i points cache := by
  induction left generalizing i points cache with
  | zero => rfl
  | succ left ih =>
    push_cast at upper
    have row := same.rows i lower (by omega)
    have valid := same.valid i lower (by omega)
    have rest := fun points cache => @ih (i + 1) points cache (by omega) (by omega)
    simp only [insertRows, row, rest, valid]

/-! ## What a call keeps -/

/-- The rows of every meter are in order and not newer than its last key. -/
structure Ordered (cache : Cache.SVnodeObj (Point Data)) : Prop where
  increasing : ∀ sid, ((cachedRows cache sid).map Point.key).Pairwise (· < ·)
  below : ∀ sid pObj pInfo, cacheOf cache sid = some (pObj, pInfo) ->
    ∀ row ∈ cachedRows cache sid, row.key ≤ pObj.lastKey

structure Kept (cache : Cache.SVnodeObj (Point Data)) : Prop where
  steady : Steady cache
  allHeld : AllHeld cache
  ordered : Ordered cache

variable {cache next : Cache.SVnodeObj (Point Data)} {sid : Nat} {pObj : SMeterObj}
  {pInfo : SCacheInfo}

theorem meterOf (isCache : cacheOf cache sid = some (pObj, pInfo)) :
    cache.meterList sid = some pObj :=
  (cacheAt_some isCache).1

variable {code : Int} {pInfo' : SCacheInfo} {pObj' : SMeterObj}

theorem lastKey_put (put : RowPut cache next sid point code) {other : Nat}
    (isCache : cacheOf next other = some (pObj', pInfo')) :
    ∃ pObj pInfo, cacheOf cache other = some (pObj, pInfo) ∧ pObj'.lastKey = pObj.lastKey := by
  have same := put.meters other
  rw [isCache] at same
  obtain ⟨⟨pObj, pInfo⟩, found, keys⟩ := Option.map_eq_some_iff.mp same.symm
  exact ⟨pObj, pInfo, found, keys.symm⟩

theorem Kept.refused (kept : Kept cache)
    (put : RowPut cache next sid point code) (negative : code < 0) : Kept next := by
  have same : ∀ other, cachedRows next other = cachedRows cache other := by
    intro other
    by_cases isSid : other = sid
    · rw [isSid, put.mine, if_pos negative, List.append_nil]
    · exact put.others other isSid
  refine ⟨put.steady, put.allHeld, ?_, ?_⟩
  · intro other
    rw [same other]
    exact kept.ordered.increasing other
  · intro other pObj' pInfo' isCache row isRow
    obtain ⟨pObj, pInfo, found, key⟩ := lastKey_put put isCache
    rw [same other] at isRow
    rw [key]
    exact kept.ordered.below other pObj pInfo found row isRow

theorem Kept.put (kept : Kept cache) (put : RowPut cache next sid point code) (nonneg : ¬ code < 0)
    (isCache : cacheOf cache sid = some (pObj, pInfo)) (newer : pObj.lastKey < point.key)
    (isNext : cacheOf next sid = some (pObj', pInfo')) :
    Kept (setMeter next sid { pObj' with lastKey := point.key }) := by
  have mine := put.mine
  rw [if_neg nonneg] at mine
  have older : ∀ row ∈ cachedRows cache sid, row.key < point.key := fun row isRow =>
    lt_of_le_of_lt (kept.ordered.below sid pObj pInfo isCache row isRow) newer
  refine ⟨steady_setLastKey put.steady isNext _, allHeld_setLastKey put.allHeld isNext _, ?_, ?_⟩
  · intro other
    rw [cachedRows_setLastKey isNext]
    by_cases same : other = sid
    · rw [same, mine, List.map_append, List.pairwise_append]
      refine ⟨kept.ordered.increasing sid, List.pairwise_singleton _ _, ?_⟩
      intro key isKey last isLast
      obtain ⟨row, isRow, rfl⟩ := mem_map.mp isKey
      rw [map_cons, List.map_nil, List.mem_singleton] at isLast
      rw [isLast]
      exact older row isRow
    · rw [put.others other same]
      exact kept.ordered.increasing other
  · intro other otherObj otherInfo otherCache row isRow
    rw [cachedRows_setLastKey isNext] at isRow
    by_cases same : other = sid
    · subst same
      rw [cacheOf_setLastKey isNext] at otherCache
      cases otherCache
      rw [mine, List.mem_append] at isRow
      rcases isRow with old | new
      · exact (older row old).le
      · rw [List.mem_singleton.mp new]
    · rw [cacheOf_setLastKey_ne same] at otherCache
      obtain ⟨oldObj, oldInfo, found, key⟩ := lastKey_put put otherCache
      rw [put.others other same] at isRow
      rw [key]
      exact kept.ordered.below other oldObj oldInfo found row isRow

def SameMeters (cache next : Cache.SVnodeObj (Point Data)) : Prop :=
  ∀ sid, (cacheOf next sid).isSome = (cacheOf cache sid).isSome

theorem sameMeters_put (put : RowPut cache next sid point code) : SameMeters cache next := by
  intro other
  have same := congrArg Option.isSome (put.meters other)
  rw [isSome_map, isSome_map] at same
  exact same

theorem sameMeters_setLastKey (isCache : cacheOf cache sid = some (pObj, pInfo)) (key : Int) :
    SameMeters cache (setMeter cache sid { pObj with lastKey := key }) := by
  intro other
  by_cases same : other = sid
  · rw [same, cacheOf_setLastKey isCache, isCache]
    rfl
  · rw [cacheOf_setLastKey_ne same]

theorem insertRows_kept (precision : Precision) (deleting : Bool) (tsKey : Int)
    (payLoad : Int -> Point Data) (left : Nat) (i points : Int) (kept : Kept cache)
    (known : (cacheOf cache sid).isSome) :
    ∃ code points' next, insertRows precision deleting sid tsKey payLoad left i points cache =
      some (code, points', next) ∧ Kept next ∧ SameMeters cache next := by
  induction left generalizing i points cache with
  | zero => exact ⟨0, points, cache, rfl, kept, fun _ => rfl⟩
  | succ left ih =>
    obtain ⟨⟨pObj, pInfo⟩, isCache⟩ := isSome_iff_exists.mp known
    rw [insertRows]
    cases deleting with
    | true => exact ⟨_, _, cache, rfl, kept, fun _ => rfl⟩
    | false =>
      simp only [Bool.false_eq_true, if_false, meterOf isCache, bind_eq_bind, bind_some]
      by_cases stale : (payLoad i).key ≤ pObj.lastKey
      · rw [if_pos stale]
        exact ih (i + 1) points kept known
      rw [if_neg stale]
      by_cases valid : ValidTimestamp precision (payLoad i).key tsKey
      · rw [if_neg (not_not.mpr valid)]
        obtain ⟨code, mid, run, put⟩ :=
          vnodeInsertPointToCache_put kept.steady kept.allHeld isCache (payLoad i)
        simp only [run, bind_some]
        by_cases negative : code < 0
        · rw [if_pos negative]
          exact ⟨_, _, mid, rfl, kept.refused put negative, sameMeters_put put⟩
        · rw [if_neg negative]
          have midKnown := sameMeters_put put sid
          rw [isCache] at midKnown
          obtain ⟨⟨midObj, midInfo⟩, isMid⟩ := isSome_iff_exists.mp midKnown
          simp only [meterOf isMid, bind_some]
          have keptNext := kept.put put negative isCache (not_le.mp stale) isMid
          have same := sameMeters_setLastKey isMid (payLoad i).key
          obtain ⟨code', points', next, rest, keptLast, sameLast⟩ :=
            ih (i + 1) (points + 1) keptNext ((same sid).trans midKnown)
          exact ⟨code', points', next, rest, keptLast, fun other =>
            (sameLast other).trans ((same other).trans (sameMeters_put put other))⟩
      · rw [if_pos valid]
        exact ⟨_, _, cache, rfl, kept, fun _ => rfl⟩

/-! ## Behind the log -/

/-- The cache `insertLogged` leaves. -/
def insertedCache (cfg : SVnodeCfg) (meter : CommitLog.SMeterObj) (sid : Nat)
    (cont : SSubmitMsg Data) (tsKey cfile : Int) (sversion : BitVec 32)
    (cache : Cache.SVnodeObj (Point Data)) : Cache.SVnodeObj (Point Data) :=
  if meter.sversion.toInt < sversion.toInt then cache
  else if OutOfFiles cfg cfile (fileIdOf cfg (cont.payLoad 0).key) ∨
      OutOfFiles cfg cfile (fileIdOf cfg (cont.payLoad (cont.numOfPoints - 1)).key) then cache
  else
    ((insertRows cfg.precision meter.deleting sid tsKey cont.payLoad cont.numOfPoints.toNat 0 0
      cache).map fun result => result.2.2).getD cache

variable {meter : CommitLog.SMeterObj}

theorem insertLogged_ends (isMeter : vnode.log.meterList sid = some meter) (kept : Kept vnode.cache)
    (known : (cacheOf vnode.cache sid).isSome) (cont : SSubmitMsg Data) (tsKey cfile : Int)
    (sversion : BitVec 32) : ∃ code points next, insertLogged vnode sid cont tsKey cfile sversion =
        some (code, points, next) ∧
      next.cfg = vnode.cfg ∧ next.logOpen = vnode.logOpen ∧ next.log = vnode.log ∧
      next.records = vnode.records ∧
      next.cache = insertedCache vnode.cfg meter sid cont tsKey cfile sversion vnode.cache ∧
      Kept next.cache ∧ SameMeters vnode.cache next.cache := by
  unfold insertLogged insertedCache
  simp only [isMeter, bind_eq_bind, bind_some]
  by_cases newer : meter.sversion.toInt < sversion.toInt
  · rw [if_pos newer, if_pos newer]
    exact ⟨_, _, vnode, rfl, rfl, rfl, rfl, rfl, rfl, kept, fun _ => rfl⟩
  rw [if_neg newer, if_neg newer]
  by_cases out : OutOfFiles vnode.cfg cfile (fileIdOf vnode.cfg (cont.payLoad 0).key) ∨
      OutOfFiles vnode.cfg cfile (fileIdOf vnode.cfg (cont.payLoad (cont.numOfPoints - 1)).key)
  · rw [if_pos out, if_pos out]
    exact ⟨_, _, vnode, rfl, rfl, rfl, rfl, rfl, rfl, kept, fun _ => rfl⟩
  rw [if_neg out, if_neg out]
  obtain ⟨code, points, next, run, keptNext, same⟩ := insertRows_kept vnode.cfg.precision
    meter.deleting tsKey cont.payLoad cont.numOfPoints.toNat 0 0 kept known
  have nextKnown := (same sid).trans known
  obtain ⟨⟨pObj, pInfo⟩, isNext⟩ := isSome_iff_exists.mp nextKnown
  simp only [run, bind_some, meterOf isNext, map_some, getD_some]
  exact ⟨_, _, _, rfl, rfl, rfl, rfl, rfl, rfl, keptNext, same⟩

variable {cfg : SVnodeCfg}

theorem insertedCache_same
    (same : SameRows cfg.precision cont cont' tsKey tsKey') (meter : CommitLog.SMeterObj)
    (cfile : Int) {sversion : BitVec 32} (notNewer : ¬ meter.sversion.toInt < sversion.toInt) :
    insertedCache cfg meter sid cont' tsKey' cfile meter.sversion cache =
      insertedCache cfg meter sid cont tsKey cfile sversion cache := by
  unfold insertedCache
  rw [if_neg (lt_irrefl _), if_neg notNewer, same.numOfPoints]
  by_cases some' : 0 < cont.numOfPoints
  · have loop := insertRows_same same meter.deleting sid cont.numOfPoints.toNat 0 cache le_rfl
      (by omega)
    rw [same.rows 0 le_rfl some', same.rows (cont.numOfPoints - 1) (by omega) (by omega), loop]
  · -- without rows nothing is put into the cache, whatever the keys in front and behind say
    have none' : cont.numOfPoints.toNat = 0 := by omega
    rw [none']
    simp only [insertRows, map_some, getD_some, ite_self]

/-! ## A call and its record -/

structure Same (live replayed : SVnodeObj Data) : Prop where
  cfg : replayed.cfg = live.cfg
  meterList : replayed.log.meterList = live.log.meterList
  cache : replayed.cache = live.cache

structure Ready (vnode : SVnodeObj Data) : Prop where
  logOpen : vnode.logOpen = true
  commitLog : vnode.log.commitLog = true
  place : ∃ pWrite, vnode.log.pWrite = some pWrite ∧ 0 ≤ pWrite ∧ pWrite ≤ vnode.log.mappingSize
  meters : ∀ sid, (cacheOf vnode.cache sid).isSome -> (vnode.log.meterList sid).isSome
  kept : Kept vnode.cache

/-- The mapping has room for the record of a message, with the 100 bytes to spare. -/
def LogSpace (vnode : SVnodeObj Data) (contLen : Int) : Prop :=
  ∃ pWrite, vnode.log.pWrite = some pWrite ∧
    pWrite + (CommitLog.sizeofCommitHead + contLen.toNat + CommitLog.sizeofSimpleCheck + 100 : Nat) ≤
      vnode.log.mappingSize

structure Logs (vnode : SVnodeObj Data) (call : Call Data) (pObj : SMeterObj) : Prop where
  meter : vnode.cache.meterList call.sid = some pObj
  length : expectedLen pObj call.cont.numOfPoints = call.contLen
  batch : ¬ TooBig vnode.cfg pObj call.cont.numOfPoints
  room : ¬ Full vnode.cache pObj call.cont.numOfPoints
  space : LogSpace vnode call.contLen

def NewerLogged (vnode : SVnodeObj Data) (call : Call Data) : Prop :=
  ∃ pObj meter, Logs vnode call pObj ∧ vnode.log.meterList call.sid = some meter ∧
    meter.sversion.toInt < call.sversion.toInt

theorem writeLog_ends (byteOf : SSubmitMsg Data -> Nat -> UInt8) (ready : Ready vnode)
    (isMeter : vnode.log.meterList sid = some meter) (cont : SSubmitMsg Data) (contLen : Int)
    (sversion : BitVec 32) :
    (∃ code, code ≠ 0 ∧ writeLog byteOf vnode sid cont contLen sversion = some (code, vnode)) ∨
      (∃ log, writeLog byteOf vnode sid cont contLen sversion = some (0, { vnode with
          log := log, records := vnode.records ++ [recordOf meter sid cont contLen] }) ∧
        log.commitLog = true ∧ log.meterList = vnode.log.meterList ∧
        (∃ pWrite, log.pWrite = some pWrite ∧ 0 ≤ pWrite ∧ pWrite ≤ log.mappingSize) ∧
        LogSpace vnode contLen) := by
  obtain ⟨pWrite, place, lower, upper⟩ := ready.place
  unfold writeLog
  rw [if_pos ready.logOpen]
  simp only [isMeter, bind_eq_bind, bind_some]
  unfold CommitLog.vnodeWriteToCommitLog
  rw [place]
  simp only
  have length : CommitLog.recordLen (CommitLog.Call.record ⟨meter, tsdbActionInsert,
      contBytes byteOf cont contLen, sversion⟩) =
      CommitLog.sizeofCommitHead + contLen.toNat + CommitLog.sizeofSimpleCheck := by
    unfold CommitLog.recordLen CommitLog.Call.record contBytes
    rw [List.length_map, List.length_range]
  rw [length]
  by_cases small : 0 ≤ (vnode.log.mappingSize : Int) - pWrite ∧
      (vnode.log.mappingSize : Int) - pWrite < (CommitLog.sizeofCommitHead + contLen.toNat +
        CommitLog.sizeofSimpleCheck + 100 : Nat)
  · rw [if_pos small]
    refine Or.inl ⟨1, by decide, ?_⟩
    simp only [bind_some, CommitLog.actionInProgress, isSome_some]
    rfl
  · rw [if_neg small, if_neg (by push_cast at small ⊢; omega)]
    let bytes := CommitLog.recordBytes (CommitLog.Call.record
      ⟨meter, tsdbActionInsert, contBytes byteOf cont contLen, sversion⟩)
    let written : CommitLog.SVnodeObj := { vnode.log with
      pMem := CommitLog.writeAt vnode.log.pMem pWrite.toNat bytes
      pWrite := some (pWrite + (CommitLog.sizeofCommitHead + contLen.toNat +
        CommitLog.sizeofSimpleCheck : Nat)) }
    refine Or.inr ⟨written, ?_, ready.commitLog, rfl, ⟨_, rfl, ?_, ?_⟩, ⟨pWrite, place, ?_⟩⟩
    · simp only [bind_some, isSome_some]
      rfl
    · omega
    · show pWrite + _ ≤ (vnode.log.mappingSize : Int)
      push_cast at small ⊢
      omega
    · push_cast at small ⊢
      omega

/-- A call is logged and its record does what it did, or it changes nothing. -/
structure Logged (byteOf : SSubmitMsg Data -> Nat -> UInt8) (clock : Int) (live next : SVnodeObj Data)
    (record : LogRecord Data) : Prop where
  records : next.records = live.records ++ [record]
  replays : ∀ replayed beyond, Same live replayed ->
    ∃ replayed', replayRecord byteOf clock beyond replayed record = some replayed' ∧
      Same next replayed'

theorem stamped_numOfPoints (cont : SSubmitMsg Data) (tsKey : Int) :
    (stamped cont tsKey).1.numOfPoints = cont.numOfPoints :=
  congrArg BitVec.toInt (stamped_numOfRows cont tsKey)

section

variable (byteOf : SSubmitMsg Data -> Nat -> UInt8) (clock : Int) {contLen : Int}
  (isMeter : vnode.cache.meterList sid = some pObj)

include isMeter

theorem vnodeInsertPoints_checked (length : expectedLen pObj cont.numOfPoints = contLen)
    (batch : ¬ TooBig vnode.cfg pObj cont.numOfPoints)
    (room : ¬ Full vnode.cache pObj cont.numOfPoints) (source : Source) (sversion : BitVec 32) :
    vnodeInsertPoints byteOf clock vnode sid cont contLen source sversion =
      if vnode.log.commitLog ∧ source ≠ .log then
        (writeLog byteOf vnode sid (stamped cont clock).1 contLen sversion).bind fun result =>
          if result.1 ≠ 0 then some (result.1, none, result.2)
          else insertLogged result.2 sid (stamped cont clock).1 (stamped cont clock).2
            (fileIdOf vnode.cfg clock) sversion
      else insertLogged vnode sid (stamped cont clock).1 (stamped cont clock).2
        (fileIdOf vnode.cfg clock) sversion := by
  rw [<- stamped_numOfPoints cont clock] at batch room
  unfold vnodeInsertPoints
  simp only [isMeter, bind_eq_bind, bind_some]
  rw [if_neg (not_not.mpr length), if_neg batch, if_neg room]
  rfl

theorem vnodeInsertPoints_refused
    (refused : expectedLen pObj cont.numOfPoints ≠ contLen ∨ TooBig vnode.cfg pObj cont.numOfPoints
      ∨ Full vnode.cache pObj cont.numOfPoints)
    (source : Source) (sversion : BitVec 32) :
    ∃ code points, vnodeInsertPoints byteOf clock vnode sid cont contLen source sversion =
      some (code, points, vnode) := by
  rw [<- stamped_numOfPoints cont clock] at refused
  unfold vnodeInsertPoints
  simp only [isMeter, bind_eq_bind, bind_some]
  by_cases length : expectedLen pObj cont.numOfPoints = contLen
  · rw [if_neg (not_not.mpr length)]
    by_cases batch : TooBig vnode.cfg pObj (stamped cont clock).1.numOfPoints
    · rw [if_pos batch]
      exact ⟨_, _, rfl⟩
    · rw [if_neg batch]
      have full : Full vnode.cache pObj (stamped cont clock).1.numOfPoints := by
        rcases refused with wrong | big | full
        · rw [stamped_numOfPoints] at wrong
          exact absurd length wrong
        · exact absurd big batch
        · exact full
      rw [if_pos full]
      exact ⟨_, _, rfl⟩
  · rw [if_pos length]
    exact ⟨_, _, rfl⟩

end

/-- A call changes nothing but the log, or it is logged and its record does what it did. -/
inductive CallEnds (byteOf : SSubmitMsg Data -> Nat -> UInt8) (clock : Int)
    (live next : SVnodeObj Data) : Prop where
  | unchanged (same : next = live)
  | logged (record : LogRecord Data) (logged : Logged byteOf clock live next record)

theorem applyCall_ends (byteOf : SSubmitMsg Data -> Nat -> UInt8) (clock : Int) (ready : Ready live)
    (call : Call Data)
    (known : (cacheOf live.cache call.sid).isSome) (notNewer : ¬ NewerLogged live call) :
    ∃ next, applyCall byteOf clock live call = some next ∧ Ready next ∧
      next.log.meterList = live.log.meterList ∧ SameMeters live.cache next.cache ∧
      CallEnds byteOf clock live next := by
  obtain ⟨⟨pObj, pInfo⟩, isCache⟩ := isSome_iff_exists.mp known
  have isMeter := meterOf isCache
  obtain ⟨meter, isLogMeter⟩ := isSome_iff_exists.mp (ready.meters call.sid known)
  unfold applyCall
  by_cases refused : expectedLen pObj call.cont.numOfPoints ≠ call.contLen ∨
      TooBig live.cfg pObj call.cont.numOfPoints ∨ Full live.cache pObj call.cont.numOfPoints
  · obtain ⟨code, points, run⟩ :=
      vnodeInsertPoints_refused byteOf clock isMeter refused call.source call.sversion
    rw [run]
    exact ⟨live, rfl, ready, rfl, fun _ => rfl, CallEnds.unchanged rfl⟩
  rw [not_or, not_or, not_not] at refused
  obtain ⟨length, batch, room⟩ := refused
  rw [vnodeInsertPoints_checked byteOf clock isMeter length batch room call.source call.sversion,
    if_pos ⟨ready.commitLog, call.notLog⟩]
  rcases writeLog_ends byteOf ready isLogMeter (stamped call.cont clock).1 call.contLen
    call.sversion with ⟨code, failed, run⟩ | ⟨log, run, commitLog, meterList, place, space⟩
  · rw [run, bind_some, if_pos failed]
    exact ⟨live, rfl, ready, rfl, fun _ => rfl, CallEnds.unchanged rfl⟩
  rw [run, bind_some, if_neg (not_not.mpr rfl)]
  have versions : ¬ meter.sversion.toInt < call.sversion.toInt := fun newer =>
    notNewer ⟨pObj, meter, ⟨isMeter, length, batch, room, space⟩, isLogMeter, newer⟩
  let record := recordOf meter call.sid (stamped call.cont clock).1 call.contLen
  let wrote : SVnodeObj Data := { live with log := log, records := live.records ++ [record] }
  have wroteMeter : wrote.log.meterList call.sid = some meter := by
    show log.meterList call.sid = _
    rw [meterList]
    exact isLogMeter
  have wroteKept : Kept wrote.cache := ready.kept
  obtain ⟨code, points, next, inserted, cfg, logOpen, isLog, records, isCacheNext, kept, same⟩ :=
    insertLogged_ends wroteMeter wroteKept known (stamped call.cont clock).1
      (stamped call.cont clock).2 (fileIdOf live.cfg clock) call.sversion
  have keptMeters : next.log.meterList = live.log.meterList := by
    rw [isLog]
    exact meterList
  refine ⟨next, ?_, ?_, keptMeters, same, CallEnds.logged record ⟨records, ?_⟩⟩
  · show Option.map _ (insertLogged wrote _ _ _ _ _) = _
    rw [inserted]
    rfl
  · refine ⟨logOpen.trans ready.logOpen, ?_, ?_, ?_, kept⟩
    · rw [isLog]
      exact commitLog
    · rw [isLog]
      exact place
    · intro sid isKnown
      rw [keptMeters]
      exact ready.meters sid ((same sid).symm.trans isKnown)
  · intro replayed beyond isSame
    have rows := recordMsg_same live.cfg.precision clock beyond meter call.sid call.cont call.contLen
    have counted : (recordMsg beyond record).numOfPoints = call.cont.numOfPoints :=
      stamped_numOfPoints call.cont clock
    have replayedMeter : replayed.log.meterList call.sid = some meter :=
      (congrFun isSame.meterList call.sid).trans isLogMeter
    have replayedKept : Kept replayed.cache := isSame.cache ▸ ready.kept
    obtain ⟨code', points', replayed', inserted', cfg', -, isLog', -, isCache', -, -⟩ :=
      insertLogged_ends replayedMeter replayedKept (isSame.cache ▸ known)
        (stamped (recordMsg beyond record) clock).1 (stamped (recordMsg beyond record) clock).2
        (fileIdOf replayed.cfg clock) meter.sversion
    refine ⟨replayed', ?_, ?_, ?_, ?_⟩
    · have isReplayedMeter : replayed.cache.meterList call.sid = some pObj := isSame.cache ▸ isMeter
      rw [<- counted] at length batch room
      rw [<- isSame.cfg] at batch
      rw [<- isSame.cache] at room
      have checked := vnodeInsertPoints_checked byteOf clock isReplayedMeter length batch room .log
        meter.sversion
      rw [if_neg fun both => both.2 rfl, inserted'] at checked
      exact congrArg (Option.map fun result => result.2.2) checked
    · rw [cfg', isSame.cfg, cfg]
    · rw [isLog', isSame.meterList, keptMeters]
    · rw [isCache', isCacheNext, isSame.cfg, isSame.cache]
      exact insertedCache_same rows meter (fileIdOf live.cfg clock) versions

/-! ## Runs -/

/-- Along a run no call that gets as far as the log has a newer schema. -/
def VersionsKept (byteOf : SSubmitMsg Data -> Nat -> UInt8) (clock : Int) :
    List (Call Data) -> SVnodeObj Data -> Prop
  | [], _ => True
  | call :: calls, vnode => ¬ NewerLogged vnode call ∧
      ∀ next, applyCall byteOf clock vnode call = some next ->
        VersionsKept byteOf clock calls next

theorem applyCalls_ends (byteOf : SSubmitMsg Data -> Nat -> UInt8) (clock : Int)
    (beyond : Nat -> Int -> Point Data) (calls : List (Call Data))
    (ready : Ready live) (known : ∀ call ∈ calls, (cacheOf live.cache call.sid).isSome)
    (versions : VersionsKept byteOf clock calls live) :
    ∃ last records, applyCalls byteOf clock calls live = some last ∧ Ready last ∧
      last.records = live.records ++ records ∧ ∀ number replayed, Same live replayed -> ∃ replayed',
        replayRecords byteOf clock beyond number records replayed = some replayed' ∧
          Same last replayed' := by
  induction calls generalizing live with
  | nil =>
    exact ⟨live, [], rfl, ready, (List.append_nil _).symm, fun _ replayed same =>
      ⟨replayed, rfl, same⟩⟩
  | cons call calls ih =>
    obtain ⟨next, run, readyNext, -, same, ends⟩ := applyCall_ends byteOf clock ready call
      (known call mem_cons_self) versions.1
    obtain ⟨last, records, rest, readyLast, isRecords, replays⟩ := ih readyNext
      (fun other isOther => (same other.sid).trans (known other (mem_cons_of_mem _ isOther)))
      (versions.2 next run)
    have applied : applyCalls byteOf clock (call :: calls) live = some last := by
      rw [applyCalls, run]
      exact rest
    cases ends with
    | unchanged isLive =>
      subst isLive
      exact ⟨last, records, applied, readyLast, isRecords, replays⟩
    | logged record logged =>
      refine ⟨last, record :: records, applied, readyLast, ?_, ?_⟩
      · rw [isRecords, logged.records, List.append_assoc]
        rfl
      · intro number replayed isSame
        obtain ⟨mid, replay, isMid⟩ := logged.replays replayed (beyond number) isSame
        obtain ⟨replayed', later, isLast⟩ := replays (number + 1) mid isMid
        refine ⟨replayed', ?_, isLast⟩
        rw [replayRecords, replay]
        exact later

theorem versionsKept_of_le (byteOf : SSubmitMsg Data -> Nat -> UInt8) (clock : Int)
    (calls : List (Call Data)) (ready : Ready live)
    (known : ∀ call ∈ calls, (cacheOf live.cache call.sid).isSome)
    (older : ∀ call ∈ calls, ∀ meter, live.log.meterList call.sid = some meter ->
      call.sversion.toInt ≤ meter.sversion.toInt) : VersionsKept byteOf clock calls live := by
  induction calls generalizing live with
  | nil => trivial
  | cons call calls ih =>
    have notNewer : ¬ NewerLogged live call := by
      rintro ⟨pObj, meter, -, isMeter, newer⟩
      exact absurd (older call mem_cons_self meter isMeter) (not_le.mpr newer)
    refine ⟨notNewer, fun next isNext => ?_⟩
    obtain ⟨next', run, readyNext, meterList, same, -⟩ := applyCall_ends byteOf clock ready call
      (known call mem_cons_self) notNewer
    cases isNext.symm.trans run
    apply ih readyNext
    · exact fun other isOther =>
        (same other.sid).trans (known other (mem_cons_of_mem _ isOther))
    · intro other isOther
      rw [meterList]
      exact older other (mem_cons_of_mem _ isOther)

/-! ## A fresh vnode -/

theorem kept_allocated (kept : Kept cache) (inside : sid < cache.maxSessions)
    (none' : cacheOf cache sid = none) {numOfColumns bytesPerPoint blocksPerMeter : Nat}
    {lastKeyOnFile pointsPerFileBlock : Int}
    (fits : Fits cache.cacheBlockSize (CacheOperations.newMeter cache.cacheBlockSize numOfColumns
      bytesPerPoint lastKeyOnFile pointsPerFileBlock blocksPerMeter)) :
    Kept (vnodeAllocateCacheInfo cache sid numOfColumns bytesPerPoint lastKeyOnFile
      pointsPerFileBlock blocksPerMeter) := by
  have mine : cacheOf (vnodeAllocateCacheInfo cache sid numOfColumns bytesPerPoint lastKeyOnFile
      pointsPerFileBlock blocksPerMeter) sid = some (CacheOperations.newMeter cache.cacheBlockSize
        numOfColumns bytesPerPoint lastKeyOnFile pointsPerFileBlock blocksPerMeter,
          CacheOperations.newInfo blocksPerMeter) :=
    cacheAt_update_same _ _ _
  have others : ∀ other, other ≠ sid -> cacheOf (vnodeAllocateCacheInfo cache sid numOfColumns
      bytesPerPoint lastKeyOnFile pointsPerFileBlock blocksPerMeter) other = cacheOf cache other :=
    fun other ne => cacheAt_update_ne ne _
  have empty : cachedRows (vnodeAllocateCacheInfo cache sid numOfColumns bytesPerPoint
      lastKeyOnFile pointsPerFileBlock blocksPerMeter) sid = [] := by
    rw [cachedRows_some mine]
    rfl
  have rows : ∀ other, other ≠ sid -> cachedRows (vnodeAllocateCacheInfo cache sid numOfColumns
      bytesPerPoint lastKeyOnFile pointsPerFileBlock blocksPerMeter) other =
        cachedRows cache other := by
    intro other ne
    refine cachedRows_congr ?_ rfl
    rw [others other ne]
  refine ⟨CacheOperations.vnodeAllocateCacheInfo_steady kept.steady inside none' fits, ?_, ?_, ?_⟩
  · intro other pObj pInfo isCache
    by_cases same : other = sid
    · rw [same, mine] at isCache
      cases isCache
      rfl
    · rw [others other same] at isCache
      exact kept.allHeld other pObj pInfo isCache
  · intro other
    by_cases same : other = sid
    · rw [same, empty]
      exact List.Pairwise.nil
    · rw [rows other same]
      exact kept.ordered.increasing other
  · intro other pObj pInfo isCache row isRow
    by_cases same : other = sid
    · rw [same, empty] at isRow
      cases isRow
    · rw [rows other same] at isRow
      rw [others other same] at isCache
      exact kept.ordered.below other pObj pInfo isCache row isRow

/-- The rows of a meter fit the blocks of the cache, and a `short` can count them. -/
def FitsBlocks (cfg : SVnodeCfg) (meter : SMeterCfg) : Prop :=
  Fits cfg.cacheBlockSize (CacheOperations.newMeter cfg.cacheBlockSize meter.numOfColumns
    meter.bytesPerPoint meter.lastKeyOnFile cfg.rowsInFileBlock cfg.blocksPerMeter)

theorem openMeters_kept (cfg : SVnodeCfg) (meters : List SMeterCfg) (kept : Kept cache)
    (size : cache.cacheBlockSize = cfg.cacheBlockSize)
    (inside : ∀ meter ∈ meters, meter.sid < cache.maxSessions)
    (distinct : (meters.map SMeterCfg.sid).Nodup)
    (absent : ∀ meter ∈ meters, cacheOf cache meter.sid = none)
    (fits : ∀ meter ∈ meters, FitsBlocks cfg meter) :
    Kept (openMeters cfg meters cache) ∧ ∀ sid, (cacheOf (openMeters cfg meters cache) sid).isSome ↔
      (cacheOf cache sid).isSome ∨ sid ∈ meters.map SMeterCfg.sid := by
  induction meters generalizing cache with
  | nil => exact ⟨kept, fun sid => ⟨Or.inl, fun known => known.resolve_right not_mem_nil⟩⟩
  | cons meter meters ih =>
    rw [map_cons, List.nodup_cons] at distinct
    have fitsMeter := fits meter mem_cons_self
    unfold FitsBlocks at fitsMeter
    rw [<- size] at fitsMeter
    have keptNext := kept_allocated kept (inside meter mem_cons_self)
      (absent meter mem_cons_self) fitsMeter
    have others : ∀ other, other ≠ meter.sid -> cacheOf (vnodeAllocateCacheInfo cache meter.sid
        meter.numOfColumns meter.bytesPerPoint meter.lastKeyOnFile cfg.rowsInFileBlock
        cfg.blocksPerMeter) other = cacheOf cache other :=
      fun other ne => cacheAt_update_ne ne _
    have mine : (cacheOf (vnodeAllocateCacheInfo cache meter.sid meter.numOfColumns
        meter.bytesPerPoint meter.lastKeyOnFile cfg.rowsInFileBlock cfg.blocksPerMeter)
          meter.sid).isSome := by
      unfold cacheOf vnodeAllocateCacheInfo
      exact congrArg Option.isSome (cacheAt_update_same _ _ _)
    obtain ⟨keptLast, known⟩ := ih keptNext size
      (fun other isOther => inside other (mem_cons_of_mem _ isOther)) distinct.2
      (fun other isOther => by
        rw [others other.sid fun same => distinct.1 (same ▸ List.mem_map_of_mem isOther)]
        exact absent other (mem_cons_of_mem _ isOther))
      fun other isOther => fits other (mem_cons_of_mem _ isOther)
    refine ⟨keptLast, fun sid => (known sid).trans ?_⟩
    rw [map_cons, mem_cons]
    by_cases same : sid = meter.sid
    · subst same
      exact ⟨fun _ => Or.inr (Or.inl rfl), fun _ => Or.inl mine⟩
    · rw [others sid same]
      exact or_congr_right ⟨Or.inr, fun either => either.resolve_left same⟩

theorem logMeter_isSome {meters : List SMeterCfg}
    (known : sid ∈ meters.map SMeterCfg.sid) : (logMeter meters sid).isSome := by
  obtain ⟨meter, isMeter, rfl⟩ := mem_map.mp known
  unfold logMeter
  rw [isSome_map, List.find?_isSome]
  exact ⟨meter, isMeter, decide_eq_true rfl⟩

theorem eight_le_mappingSize {meter : SMeterCfg} (fits : FitsBlocks cfg meter) :
    8 ≤ mappingSize cfg := by
  have inside := fits.inside
  have some' := fits.some'
  have blocks : 1 ≤ (cfg.totalBlocks : Int) := by
    have positive := cfg.some'
    omega
  have points : 0 ≤ (CacheOperations.newMeter cfg.cacheBlockSize meter.numOfColumns
      meter.bytesPerPoint meter.lastKeyOnFile cfg.rowsInFileBlock
      cfg.blocksPerMeter).pointsPerBlock * (CacheOperations.newMeter cfg.cacheBlockSize
        meter.numOfColumns meter.bytesPerPoint meter.lastKeyOnFile cfg.rowsInFileBlock
        cfg.blocksPerMeter).bytesPerPoint :=
    mul_nonneg some'.le (Int.natCast_nonneg _)
  have size : 32 ≤ cfg.cacheBlockSize := by
    unfold sizeofCacheBlock at inside
    omega
  have product : 32 ≤ cfg.cacheBlockSize * cfg.totalBlocks := by nlinarith
  unfold mappingSize
  omega

theorem freshVnode_kept {setup : Setup Data} {start : SVnodeObj Data}
    (isStart : freshVnode setup = some start)
    (fits : ∀ meter ∈ setup.meters, FitsBlocks setup.cfg meter) :
    Kept start.cache ∧ start.records = [] ∧ start.log.meterList = logMeter setup.meters ∧
      (∀ sid, (cacheOf start.cache sid).isSome ↔ sid ∈ setup.meters.map SMeterCfg.sid) ∧
      (8 ≤ mappingSize setup.cfg -> Ready start) := by
  have opened : Kept (CacheRuns.vnodeOpenCachePool setup.cfg.toSVnodeCfg setup.rows) := by
    refine ⟨CacheRuns.open_steady _ _, ?_, ?_, ?_⟩
    · intro sid pObj pInfo isCache
      cases isCache
    · exact fun sid => List.Pairwise.nil
    · intro sid pObj pInfo isCache
      cases isCache
  obtain ⟨kept, known⟩ := openMeters_kept setup.cfg setup.meters opened rfl setup.inside
    setup.distinct (fun _ _ => rfl) fits
  have known' : ∀ sid, (cacheOf (openMeters setup.cfg setup.meters
      (CacheRuns.vnodeOpenCachePool setup.cfg.toSVnodeCfg setup.rows)) sid).isSome ↔
        sid ∈ setup.meters.map SMeterCfg.sid := by
    intro sid
    rw [known sid]
    exact ⟨fun either => either.resolve_left Bool.false_ne_true, Or.inr⟩
  unfold freshVnode CommitLog.vnodeOpenCommitLog at isStart
  simp only [getD_none, List.length_nil, Nat.not_lt_zero, if_false, bind_eq_bind,
    bind_some] at isStart
  cases isStart
  refine ⟨kept, rfl, rfl, known', fun large => ⟨rfl, rfl, ⟨8, rfl, by decide, ?_⟩, ?_, kept⟩⟩
  · exact Int.ofNat_le.mpr large
  · intro sid isKnown
    exact logMeter_isSome ((known' sid).mp isKnown)

theorem freshVnode_isSome (setup : Setup Data) : ∃ start, freshVnode setup = some start := by
  unfold freshVnode CommitLog.vnodeOpenCommitLog
  simp only [getD_none, List.length_nil, Nat.not_lt_zero, if_false, bind_eq_bind, bind_some]
  exact ⟨_, rfl⟩

/-! ## The live run and the replay -/

def lastKeyOf (cache : Cache.SVnodeObj (Point Data)) (sid : Nat) : Option Int :=
  (cache.meterList sid).map SMeterObj.lastKey

structure Agree (live replayed : SVnodeObj Data) : Prop where
  rows : ∀ sid, cachedRows replayed.cache sid = cachedRows live.cache sid
  lastKeys : ∀ sid, lastKeyOf replayed.cache sid = lastKeyOf live.cache sid
  increasing : ∀ sid, ((cachedRows live.cache sid).map Point.key).Pairwise (· < ·)
  replayedIncreasing : ∀ sid, ((cachedRows replayed.cache sid).map Point.key).Pairwise (· < ·)

def ReplayAgrees (byteOf : SSubmitMsg Data -> Nat -> UInt8) (clock : Int)
    (beyond : Nat -> Int -> Point Data) (setup : Setup Data) (calls : List (Call Data)) : Prop :=
  ∃ start live replayed, freshVnode setup = some start ∧
    applyCalls byteOf clock calls start = some live ∧
    replayRecords byteOf clock beyond 0 live.records start = some replayed ∧ Agree live replayed

theorem Agree.of_kept {replayed : SVnodeObj Data} (kept : Kept live.cache)
    (same : replayed.cache = live.cache) : Agree live replayed :=
  ⟨fun sid => by rw [same], fun sid => by rw [same], kept.ordered.increasing,
    fun sid => by rw [same]; exact kept.ordered.increasing sid⟩

/-- Where every meter fits its blocks and no call that gets as far as the log has a newer
schema, the replay agrees with the run. -/
theorem keptVersions_agree (byteOf : SSubmitMsg Data -> Nat -> UInt8) (clock : Int)
    (beyond : Nat -> Int -> Point Data) (setup : Setup Data) (calls : List (Call Data))
    (known : ∀ call ∈ calls, call.sid ∈ setup.meters.map SMeterCfg.sid)
    (fits : ∀ meter ∈ setup.meters, FitsBlocks setup.cfg meter)
    (versions : ∀ start, freshVnode setup = some start -> VersionsKept byteOf clock calls start) :
    ReplayAgrees byteOf clock beyond setup calls := by
  obtain ⟨start, isStart⟩ := freshVnode_isSome setup
  obtain ⟨kept, records, -, cached, large⟩ := freshVnode_kept isStart fits
  cases calls with
  | nil =>
    refine ⟨start, start, start, isStart, rfl, ?_, Agree.of_kept kept rfl⟩
    rw [records]
    rfl
  | cons call calls =>
    obtain ⟨meter, isMeter, -⟩ := mem_map.mp (known call mem_cons_self)
    have ready := large (eight_le_mappingSize (fits meter isMeter))
    obtain ⟨live, logged, run, readyLive, isRecords, replays⟩ := applyCalls_ends byteOf clock
      beyond (call :: calls) ready (fun other isOther => (cached other.sid).mpr
        (known other isOther)) (versions start isStart)
    obtain ⟨replayed, replay, same⟩ := replays 0 start ⟨rfl, rfl, rfl⟩
    rw [records, List.nil_append] at isRecords
    refine ⟨start, live, replayed, isStart, run, ?_, Agree.of_kept readyLive.kept same.cache⟩
    rw [isRecords]
    exact replay

def twoMeters : Setup Int where
  cfg := { cacheBlockSize := 100, totalBlocks := 8, maxSessions := 3, some' := by decide,
           blocksPerMeter := 4, rowsInFileBlock := 200, precision := .milli, daysPerFile := 10,
           maxFiles := 10 }
  meters := [⟨1, 0, 1, 8, 0, false⟩, ⟨2, 0, 2, 12, 500, false⟩]
  inside := by decide
  distinct := by decide
  firstKey := 0
  lastKey := 0
  version := 0
  rows := fun _ _ => ⟨0, 0⟩

def shellCall (sid : Nat) (numOfRows : BitVec 16) (bytesPerPoint : Int) (keys : List Int)
    (sversion : BitVec 32) : Call Int where
  sid := sid
  cont := ⟨numOfRows, fun i => ⟨keys.getD i.toNat 0, i⟩⟩
  contLen := numOfRows.toInt * bytesPerPoint + 2
  source := .shell
  sversion := sversion
  notLog := by decide

/-- Rows without time stamps, a stale row between two new ones, a duplicate and a message that is
too short. -/
theorem mixedCalls_agree : ReplayAgrees (fun _ _ => 0) 1000 (fun _ _ => ⟨0, 7⟩) twoMeters
    [shellCall 1 3 8 [0, 5, 6] 0, shellCall 2 3 12 [600, 550, 700] 0, shellCall 1 1 8 [1002] 0,
      shellCall 2 2 8 [800, 900] 0] := by
  have fits : ∀ meter ∈ twoMeters.meters, FitsBlocks twoMeters.cfg meter := by
    intro meter isMeter
    simp only [twoMeters, mem_cons, not_mem_nil, or_false] at isMeter
    rcases isMeter with rfl | rfl
    all_goals exact ⟨by decide +kernel, by decide +kernel, by decide +kernel⟩
  have known : ∀ call ∈ [shellCall 1 3 8 [0, 5, 6] 0, shellCall 2 3 12 [600, 550, 700] 0,
      shellCall 1 1 8 [1002] 0, shellCall 2 2 8 [800, 900] 0],
      call.sid ∈ twoMeters.meters.map SMeterCfg.sid := by
    intro call isCall
    simp only [mem_cons, not_mem_nil, or_false] at isCall
    rcases isCall with rfl | rfl | rfl | rfl <;> decide
  apply keptVersions_agree _ _ _ _ _ known fits
  intro start isStart
  obtain ⟨-, -, meterList, cached, large⟩ := freshVnode_kept isStart fits
  apply versionsKept_of_le _ _ _ (large (by decide))
  · exact fun call isCall => (cached call.sid).mpr (known call isCall)
  · intro call isCall meter isMeter
    rw [meterList] at isMeter
    simp only [mem_cons, not_mem_nil, or_false] at isCall
    rcases isCall with rfl | rfl | rfl | rfl <;> cases isMeter <;> decide

/-- A row with a newer schema is logged and not inserted, but the replay inserts it. -/
theorem newerSchema_not_agree : ¬ ReplayAgrees (fun _ _ => 0) 1000 (fun _ _ => ⟨0, 7⟩) twoMeters
    [shellCall 1 1 8 [1000] 1] := by
  rintro ⟨start, live, replayed, isStart, isLive, isReplayed, agree⟩
  have counts : ((freshVnode twoMeters).bind fun start =>
      (applyCalls (fun _ _ => 0) 1000 [shellCall 1 1 8 [1000] 1] start).bind fun live =>
        (replayRecords (fun _ _ => 0) 1000 (fun _ _ => ⟨0, 7⟩) 0 live.records start).map
          fun replayed => ((cachedRows live.cache 1).length, (cachedRows replayed.cache 1).length)) =
        some (0, 1) := by
    decide +kernel
  rw [isStart, bind_some, isLive, bind_some, isReplayed, map_some, agree.rows 1] at counts
  simp only [Option.some.injEq, Prod.mk.injEq] at counts
  omega

end Replay

end Luomi.Vnode.InsertReplay
