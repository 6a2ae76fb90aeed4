import Luomi.Vnode.CommitHead

/-!
# The head files of a commit, window by window

A commit writes the head files of one window after the other.  The files of the other
windows and the owners of the lists stay, and what a commit relies on in a cache holds
again.
-/

namespace Luomi.Vnode.CommitHeadRuns

open CommitFile CommitQuery CommitBlocks HeadLists CommitHead
open Option (map_some ne_none_iff_exists' some.inj)

section Runs

variable {Row : Type} {settings : Settings Row} {ssid esid : Nat} {window : Window}
  {pVnode next : SVnodeObj Row}

def SameOwners (meterList meterList' : Nat -> Option (SMeterObj Row)) : Prop :=
  ∀ sid, (meterList' sid).map (fun pObj => (pObj.uid, pObj.deleting)) =
    (meterList sid).map fun pObj => (pObj.uid, pObj.deleting)

variable {meterList : Nat -> Option (SMeterObj Row)}

theorem SameOwners.ownLists {meterList' : Nat -> Option (SMeterObj Row)}
    (same : SameOwners meterList meterList') (maxSessions : Nat) (head : HeadFile) :
    OwnLists maxSessions meterList' head ↔ OwnLists maxSessions meterList head := by
  have oneWay : ∀ {meterList meterList' : Nat -> Option (SMeterObj Row)},
      SameOwners meterList meterList' -> OwnLists maxSessions meterList head ->
        OwnLists maxSessions meterList' head := by
    intro meterList meterList' same own sid inside pObj' here' live some'
    have owner := same sid
    rw [here', map_some, eq_comm, Option.map_eq_some_iff] at owner
    obtain ⟨pObj, here, owner⟩ := owner
    obtain ⟨uid, deleting⟩ := Prod.mk.inj owner
    rw [<- uid]
    exact own sid inside pObj here (deleting.trans live) some'
  exact ⟨oneWay fun sid => (same sid).symm, oneWay same⟩

variable {pObj : SMeterObj Row}

theorem readMeterInfo_points {head : HeadFile} {sid : Nat}
    {pMeter : SMeterInfo} (run : readMeterInfo head pObj sid = some pMeter) :
    pMeter.committedPoints = 0 := by
  unfold readMeterInfo at run
  dsimp only at run
  split at run
  · rw [<- some.inj run]
    rfl
  split at run
  · split at run
    · split at run
      · exact absurd run (by simp)
      split at run
      · split at run
        · split at run
          · rw [<- some.inj run]
            rfl
          · exact absurd run (by simp)
        · rw [<- some.inj run]
          rfl
      · rw [<- some.inj run]
        rfl
    · exact absurd run (by simp)
  · rw [<- some.inj run]
    rfl

section

variable (steps : WindowCommit settings ssid esid window pVnode next) (sid : Nat)

theorem noPoints : (steps.meterInfo sid).committedPoints = 0 := by
  obtain ⟨outside, inside⟩ := readMeterInfos_eq List.nodup_range steps.read sid
  by_cases absent : sid ∉ List.range pVnode.maxSessions ∨ pVnode.meterList sid = none
  · rw [outside absent]
    rfl
  · rw [not_or, not_not] at absent
    obtain ⟨pObj, here⟩ := ne_none_iff_exists'.mp absent.2
    exact readMeterInfo_points (inside absent.1 pObj here)

theorem notedCommit :
    (steps.layout.meterInfo sid).committedPoints = (steps.turn.meterInfo sid).committedPoints ∧
      (steps.layout.meterInfo sid).commitSlot = (steps.turn.meterInfo sid).commitSlot ∧
      (steps.layout.meterInfo sid).commitPos = (steps.turn.meterInfo sid).commitPos := by
  by_cases absent : sid ∉ List.range pVnode.maxSessions ∨ steps.turn.meterList sid = none
  · rw [steps.laidOut.otherInfo sid absent]
    exact ⟨rfl, rfl, rfl⟩
  · rw [not_or, not_not] at absent
    obtain ⟨pObj, here⟩ := ne_none_iff_exists'.mp absent.2
    rw [steps.laidOut.meterInfo sid absent.1 pObj here]
    exact ⟨rfl, rfl, rfl⟩

end

theorem updateCommitInfos_idle {meterInfo : Nat -> SMeterInfo} {sid : Nat}
    (none' : (meterInfo sid).committedPoints = 0) :
    updateCommitInfos meterInfo ssid esid meterList sid = meterList sid := by
  unfold updateCommitInfos
  simp [none']

section

variable (steps : WindowCommit settings ssid esid window pVnode next)
include steps

section

variable (fits : ∀ sid pObj, pVnode.meterList sid = some pObj -> MeterFits settings pObj)
include fits

theorem meter_after {sid : Nat} (here : pVnode.meterList sid = some pObj) :
    ∃ pObj', next.meterList sid = some pObj' ∧ pObj'.uid = pObj.uid ∧
      pObj'.deleting = pObj.deleting ∧ MeterFits settings pObj' := by
  have list_eq : next.meterList = updateCommitInfos steps.layout.meterInfo ssid esid
      steps.turn.meterList := congrArg SVnodeObj.meterList steps.next_eq
  obtain ⟨points, slot, pos⟩ := notedCommit steps sid
  have none' := noPoints steps sid
  obtain ⟨untouched, turned⟩ := commitMeters_turns List.nodup_range' fits steps.commit sid
  dsimp only at untouched turned
  by_cases outside : sid ∉ List.range' ssid (esid + 1 - ssid) ∨ pObj.pCache = none
  · obtain ⟨infoSame, listSame⟩ := untouched (outside.imp_right fun noCache => by
      rw [here, Option.bind_some, noCache])
    dsimp only at infoSame listSame
    rw [infoSame, none'] at points
    rw [list_eq, updateCommitInfos_idle points, listSame, here]
    exact ⟨pObj, rfl, rfl, rfl, fits sid pObj here⟩
  · rw [not_or, not_not] at outside
    obtain ⟨pInfo, cached⟩ := ne_none_iff_exists'.mp outside.2
    obtain ⟨files, files', key, list, ⟨turn⟩⟩ := turned outside.1 pObj pInfo here cached
    dsimp only at turn
    by_cases idle : (steps.turn.meterInfo sid).committedPoints = 0
    · rw [idle] at points
      rw [list_eq, updateCommitInfos_idle points, list]
      exact ⟨_, rfl, rfl, rfl, (fits sid pObj here).lastKeyOnFile key⟩
    · obtain ⟨count, noted⟩ := turn.committed none'
      obtain ⟨slot', pos'⟩ := noted (by omega)
      rw [list_eq]
      unfold updateCommitInfos
      rw [list, map_some]
      dsimp only
      split
      case isFalse =>
        exact ⟨_, rfl, rfl, rfl, (fits sid pObj here).lastKeyOnFile key⟩
      case isTrue =>
        refine ⟨_, rfl, rfl, rfl, (fits sid pObj here).room, ?_⟩
        intro pInfo' cached'
        dsimp only at cached'
        rw [cached, map_some, Option.some.injEq] at cached'
        subst cached'
        obtain ⟨fit, increasing, -⟩ := (fits sid pObj here).cache pInfo cached
        refine ⟨fit, increasing, ?_⟩
        dsimp only
        rw [slot, pos, slot', pos']
        exact turn.placed

theorem noMeter_after {sid : Nat}
    (here : pVnode.meterList sid = none) : next.meterList sid = none := by
  have list_eq : next.meterList = updateCommitInfos steps.layout.meterInfo ssid esid
      steps.turn.meterList := congrArg SVnodeObj.meterList steps.next_eq
  rw [list_eq]
  unfold updateCommitInfos
  rw [steps.noMeter fits here, Option.map_none]

theorem sameOwners : SameOwners pVnode.meterList next.meterList := by
  intro sid
  cases here : pVnode.meterList sid with
  | none => rw [noMeter_after steps fits here]
  | some pObj =>
    obtain ⟨pObj', here', uid, deleting, -⟩ := meter_after steps fits here
    rw [here', map_some, map_some, uid, deleting]

theorem fits_after : ∀ sid pObj, next.meterList sid = some pObj -> MeterFits settings pObj := by
  intro sid pObj' here'
  cases here : pVnode.meterList sid with
  | none =>
    rw [noMeter_after steps fits here] at here'
    exact absurd here' (by simp)
  | some pObj =>
    obtain ⟨pObj'', here'', -, -, fit⟩ := meter_after steps fits here
    obtain rfl := some.inj (here'.symm.trans here'')
    exact fit

end

theorem maxSessions_after : next.maxSessions = pVnode.maxSessions :=
  (congrArg SVnodeObj.maxSessions steps.next_eq :)

theorem otherFiles {fileId : Int}
    (differ : fileId ≠ window.commitFileId) : next.files fileId = pVnode.files fileId := by
  have whole := congrArg (fun vnode => vnode.files fileId) steps.next_eq
  dsimp only at whole
  rwa [Function.update_of_ne differ] at whole

end

def HeadFits (pVnode : SVnodeObj Row) (fileId : Int) : Prop :=
  WellFormed pVnode.maxSessions (pVnode.files fileId).head ∧
    OwnLists pVnode.maxSessions pVnode.meterList (pVnode.files fileId).head

theorem commitWindow_headFits (fits : ∀ sid pObj, pVnode.meterList sid = some pObj ->
      MeterFits settings pObj)
    (wellFormed : WellFormed pVnode.maxSessions (pVnode.files window.commitFileId).head)
    (run : commitWindow settings ssid esid window pVnode = some next) :
    HeadFits next window.commitFileId ↔ NoStaleSlot settings ssid esid window pVnode := by
  obtain ⟨steps⟩ := commitWindow_commits run
  unfold HeadFits
  rw [maxSessions_after steps, (sameOwners steps fits).ownLists]
  constructor
  · rintro ⟨after, -⟩
    exact steps.noStaleSlot fits wellFormed after
  · intro noStale
    exact ⟨steps.wellFormed fits wellFormed noStale, steps.ownLists fits wellFormed noStale⟩

def visits (settings : Settings Row) (ssid esid : Nat) (delta : Int) :
    Nat -> Window -> SVnodeObj Row -> List (Window × SVnodeObj Row)
  | 0, _, _ => []
  | fuel + 1, window, pVnode =>
    (window, pVnode) ::
      match commitWindow settings ssid esid window pVnode with
      | none => []
      | some next =>
        if window.commitLastKey < next.lastKey then
          visits settings ssid esid delta fuel (nextWindow delta window) next
        else []

/-- The windows of `vnodeCommitMultiToFile`. -/
def commitVisits (settings : Settings Row) (ssid esid : Nat) (delta : Int) (fuel : Nat)
    (window : Window) (pVnode : SVnodeObj Row) : List (Window × SVnodeObj Row) :=
  if pVnode.lastKey = 0 then []
  else visits settings ssid esid delta fuel window { pVnode with firstKey := pVnode.lastKey + 1 }

theorem commitWindows_headFits (pVnode : SVnodeObj Row) {delta : Int} {fuel : Nat}
    {final : SVnodeObj Row}
    (fits : ∀ sid pObj, pVnode.meterList sid = some pObj -> MeterFits settings pObj)
    (wellFormed : ∀ fileId, window.commitFileId ≤ fileId ->
      WellFormed pVnode.maxSessions (pVnode.files fileId).head)
    (run : commitWindows settings ssid esid delta fuel window pVnode = some final) :
    SameOwners pVnode.meterList final.meterList ∧ final.maxSessions = pVnode.maxSessions ∧
      (∀ fileId < window.commitFileId, final.files fileId = pVnode.files fileId) ∧
      ((∀ visit ∈ visits settings ssid esid delta fuel window pVnode,
        HeadFits final visit.1.commitFileId) ↔
      ∀ visit ∈ visits settings ssid esid delta fuel window pVnode,
        NoStaleSlot settings ssid esid visit.1 visit.2) := by
  induction fuel generalizing window pVnode with
  | zero => exact absurd run (by simp [commitWindows])
  | succ fuel ih =>
    obtain ⟨next, step, run⟩ := Option.bind_eq_some_iff.mp run
    obtain ⟨steps⟩ := commitWindow_commits step
    have here := commitWindow_headFits fits (wellFormed _ le_rfl) step
    have owners := sameOwners steps fits
    have sessions := maxSessions_after steps
    unfold visits
    rw [step]
    simp only [List.forall_mem_cons]
    split at run
    case isFalse done =>
      obtain rfl := some.inj run
      rw [if_neg done]
      refine ⟨owners, sessions, fun fileId before => otherFiles steps before.ne, ?_⟩
      simpa using here
    case isTrue more =>
      rw [if_pos more]
      obtain ⟨owners', sessions', files, later⟩ := ih _ (fits_after steps fits) (by
        intro fileId behind
        unfold nextWindow at behind
        rw [sessions, otherFiles steps (by dsimp only at behind; omega)]
        exact wellFormed fileId (by dsimp only at behind; omega)) run
      have file := files window.commitFileId (by unfold nextWindow; dsimp only; omega)
      refine ⟨fun sid => (owners' sid).trans (owners sid), sessions'.trans sessions, ?_, ?_⟩
      · intro fileId before
        rw [files fileId (by unfold nextWindow; dsimp only; omega), otherFiles steps before.ne]
      · -- the windows behind it do not touch its head file
        have same : HeadFits final window.commitFileId ↔ HeadFits next window.commitFileId := by
          unfold HeadFits
          rw [sessions', file, owners'.ownLists]
        rw [same, here, later]

end Runs

def keySettings : Settings Int := ⟨id, fun _ => 0, 500, by decide⟩

def oneRowMeter (uid : BitVec 64) (commitPoint : Nat) : SMeterObj Int :=
  ⟨uid, 0, 1, 8, 4, 4, false, 5, 0, some ⟨[[5]], 0, commitPoint⟩⟩

theorem oneRowMeter_fits (uid : BitVec 64) {commitPoint : Nat} (inside : commitPoint ≤ 1) :
    MeterFits keySettings (oneRowMeter uid commitPoint) where
  room := Nat.succ_pos 3
  cache := by
    intro pInfo cached
    obtain rfl := some.inj cached
    exact ⟨by simp [oneRowMeter], by simp, Or.inr ⟨[5], rfl, inside⟩⟩

def oldBlock : SCompBlock := ⟨false, 512, 0, 1, 0, 100, 1, 3, 3⟩

def oldRecords : Records := fun place =>
  if place = 524 then some (.compInfo (checkedInfo 1 false 1))
  else if place = 548 then some (.compBlock oldBlock)
  else if place = 604 then some (.chksum (blocksChecksum 0 [oldBlock]))
  else none

theorem oldRecords_list : ListAt oldRecords 524 (checkedInfo 1 false 1) [oldBlock] where
  starts := if_pos rfl
  checked := checkedInfo_checked 1 false 1
  count := rfl
  nonempty := List.cons_ne_nil _ _
  stored := by decide +kernel
  chksum := by decide +kernel
  points := by simp [oldBlock]

def oneSlotHead (slot : Int) : HeadFile :=
  ⟨0, fun _ => slot, crc32c 0 (headerBytes 1 fun _ => slot), oldRecords⟩

theorem oneSlotHead_wellFormed {slot : Int} (either : slot = 0 ∨ slot = 524) :
    WellFormed 1 (oneSlotHead slot) := by
  refine ⟨rfl, ?_, ?_⟩
  · intro sid _ some'
    obtain rfl := either.resolve_left some'
    exact ⟨le_rfl, checkedInfo 1 false 1, [oldBlock], oldRecords_list⟩
  · intro sid inside other inside' differ
    omega

def oneSessionVnode (meter : SMeterObj Int) (slot : Int) : SVnodeObj Int :=
  ⟨1, 0, 1, 5, fun sid => if sid = 0 then some meter else none,
    fun _ => ⟨oneSlotHead slot, emptyFile, emptyFile⟩⟩

theorem oneSessionVnode_fits {meter : SMeterObj Int} (fits : MeterFits keySettings meter)
    (slot : Int) : ∀ sid pObj, (oneSessionVnode meter slot).meterList sid = some pObj ->
      MeterFits keySettings pObj := by
  intro sid pObj here
  unfold oneSessionVnode at here
  dsimp only at here
  split at here
  · obtain rfl := some.inj here
    exact fits
  · exact absurd here (by simp)

end Luomi.Vnode.CommitHeadRuns
