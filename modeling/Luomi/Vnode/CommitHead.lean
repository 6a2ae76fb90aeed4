import Luomi.Base.Placement
import Luomi.Vnode.CommitBlocks
import Luomi.Vnode.HeadLists

/-!
# The head file a commit writes

The slots of the sessions are copied from the old head file, and a meter gets a new one
only where it has blocks.  A slot stays behind where a meter was created anew or is being
deleted and no row of it is committed.
-/

namespace Luomi.Vnode.CommitHead

open CommitFile CommitQuery CommitBlocks HeadLists
open List (length_pos_iff mem_append mem_cons mem_cons_of_mem mem_cons_self mem_range nil_append
  nodup_range nodup_range')
open Function (update update_of_ne update_self)
open Option (bind_eq_bind bind_eq_some_iff bind_none bind_some isSome_iff_exists
  ne_none_iff_exists' some.inj)

def finalCount (pMeter : SMeterInfo) : Int := pMeter.oldNumOfBlocks + pMeter.newBlocks.length

section Commit

variable {Row : Type}

section

variable (meterList : Nat -> Option (SMeterObj Row)) (meterInfo : Nat -> SMeterInfo) (sid : Nat)

def listSize : Int :=
  if (meterList sid).isSome ∧ 0 < finalCount (meterInfo sid) then
    sizeOfList (finalCount (meterInfo sid))
  else 0

theorem listSize_nonneg : 0 ≤ listSize meterList meterInfo sid := by
  unfold listSize
  split
  case isTrue some' => exact (sizeOfList_pos _ some'.2.le).le
  case isFalse => exact le_rfl

end

/-- What the loop over some sessions makes of a layout. -/
structure LaidOut (meterList : Nat -> Option (SMeterObj Row)) (size : Nat -> Int)
    (sids : List Nat) (layout layout' : Layout) : Prop where
  meterInfo : ∀ sid ∈ sids, ∀ pObj, meterList sid = some pObj ->
    layout'.meterInfo sid = { layout.meterInfo sid with
      compInfoOffset := Placement.start size sids layout.compInfoOffset sid
      finalNumOfBlocks := finalCount (layout.meterInfo sid) }
  offset : ∀ sid ∈ sids, ∀ pObj, meterList sid = some pObj ->
    layout'.offsets sid = if 0 < finalCount (layout.meterInfo sid) then
      Placement.start size sids layout.compInfoOffset sid else layout.offsets sid
  noMeter : ∀ sid ∈ sids, meterList sid = none -> layout'.offsets sid = 0
  otherInfo : ∀ sid, sid ∉ sids ∨ meterList sid = none ->
    layout'.meterInfo sid = layout.meterInfo sid
  otherOffset : ∀ sid, sid ∉ sids -> layout'.offsets sid = layout.offsets sid

structure PlacedMeter (meterList : Nat -> Option (SMeterObj Row)) (sid : Nat)
    (layout layout' : Layout) : Prop where
  next : layout'.compInfoOffset = layout.compInfoOffset + listSize meterList layout.meterInfo sid
  meterInfo : ∀ pObj, meterList sid = some pObj ->
    layout'.meterInfo sid = { layout.meterInfo sid with
      compInfoOffset := layout.compInfoOffset
      finalNumOfBlocks := finalCount (layout.meterInfo sid) }
  offset : ∀ pObj, meterList sid = some pObj ->
    layout'.offsets sid = if 0 < finalCount (layout.meterInfo sid) then layout.compInfoOffset
      else layout.offsets sid
  noMeter : meterList sid = none -> layout'.offsets sid = 0
  noInfo : meterList sid = none -> layout'.meterInfo sid = layout.meterInfo sid
  otherInfo : ∀ other, other ≠ sid -> layout'.meterInfo other = layout.meterInfo other
  otherOffset : ∀ other, other ≠ sid -> layout'.offsets other = layout.offsets other

theorem layOutMeter_placed (meterList : Nat -> Option (SMeterObj Row)) (sid : Nat)
    (layout : Layout) :
    PlacedMeter meterList sid layout (layOutMeter (meterList sid) sid layout) := by
  have others : ∀ {α : Type} (f : Nat -> α) (value : α) (other : Nat), other ≠ sid ->
      update f sid value other = f other :=
    fun f value other differ => update_of_ne differ _ _
  cases here : meterList sid with
  | none =>
    refine ⟨?_, ?_, ?_, ?_, fun _ => rfl, fun _ _ => rfl, others _ _⟩
    · simp [layOutMeter, listSize, here]
    · simp [here]
    · simp [here]
    · simp [layOutMeter]
  | some pObj =>
    unfold layOutMeter
    by_cases some' : 0 < finalCount (layout.meterInfo sid)
    · have whole := some'
      unfold finalCount at whole
      simp only [if_pos whole]
      refine ⟨?_, ?_, ?_, by simp [here], by simp [here], others _ _, others _ _⟩
      · simp [listSize, here, some']
        rfl
      · intro _ _
        exact update_self _ _ _
      · intro _ _
        rw [if_pos some']
        exact update_self _ _ _
    · have whole := some'
      unfold finalCount at whole
      simp only [if_neg whole]
      refine ⟨?_, ?_, ?_, by simp [here], by simp [here], others _ _, fun _ _ => rfl⟩
      · simp [listSize, some']
      · intro _ _
        exact update_self _ _ _
      · intro _ _
        rw [if_neg some']

theorem PlacedMeter.finalCount_eq {meterList : Nat -> Option (SMeterObj Row)} {sid : Nat}
    {layout layout' : Layout} (placed : PlacedMeter meterList sid layout layout') (other : Nat) :
    finalCount (layout'.meterInfo other) = finalCount (layout.meterInfo other) := by
  by_cases same : other = sid
  · subst same
    cases here : meterList other with
    | none => rw [placed.noInfo here]
    | some pObj =>
      rw [placed.meterInfo pObj here]
      rfl
  · rw [placed.otherInfo other same]

variable {sids : List Nat}

theorem layOut_laidOut {meterList : Nat -> Option (SMeterObj Row)} {size : Nat -> Int} (nodup : sids.Nodup) (layout : Layout)
    (sizes : ∀ sid, size sid = listSize meterList layout.meterInfo sid) :
    LaidOut meterList size sids layout (layOut meterList sids layout) := by
  induction sids generalizing layout with
  | nil => exact ⟨by simp, by simp, by simp, fun _ _ => rfl, fun _ _ => rfl⟩
  | cons sid sids ih =>
    obtain ⟨fresh, nodup⟩ := List.nodup_cons.mp nodup
    have placed := layOutMeter_placed meterList sid layout
    unfold layOut
    generalize layOutMeter (meterList sid) sid layout = next at placed
    have later := ih nodup next (by
      intro other
      rw [sizes other]
      unfold listSize
      rw [placed.finalCount_eq])
    have front : next.compInfoOffset = layout.compInfoOffset + size sid := by
      rw [placed.next, sizes sid]
    have start_self : Placement.start size (sid :: sids) layout.compInfoOffset sid =
        layout.compInfoOffset := if_pos rfl
    have start_later : ∀ other ∈ sids, other ≠ sid ∧
        Placement.start size (sid :: sids) layout.compInfoOffset other =
          Placement.start size sids next.compInfoOffset other := by
      intro other member
      have differ : sid ≠ other := by
        rintro rfl
        exact fresh member
      rw [front]
      exact ⟨differ.symm, if_neg differ⟩
    refine ⟨?_, ?_, ?_, ?_, ?_⟩
    · intro other member pObj here
      rcases mem_cons.mp member with rfl | behind
      · rw [later.otherInfo other (Or.inl fresh), placed.meterInfo pObj here, start_self]
      · obtain ⟨differ, start_eq⟩ := start_later other behind
        rw [later.meterInfo other behind pObj here, placed.otherInfo other differ, start_eq]
    · intro other member pObj here
      rcases mem_cons.mp member with rfl | behind
      · rw [later.otherOffset other fresh, placed.offset pObj here, start_self]
      · obtain ⟨differ, start_eq⟩ := start_later other behind
        rw [later.offset other behind pObj here, placed.otherInfo other differ,
          placed.otherOffset other differ, start_eq]
    · intro other member here
      rcases mem_cons.mp member with rfl | behind
      · rw [later.otherOffset other fresh, placed.noMeter here]
      · exact later.noMeter other behind here
    · intro other outside
      by_cases same : other = sid
      · subst same
        have none' : meterList other = none :=
          outside.resolve_left (fun absent => absent mem_cons_self)
        rw [later.otherInfo other (Or.inl fresh), placed.noInfo none']
      · rw [later.otherInfo other (outside.imp_left fun absent member =>
          absent (mem_cons_of_mem _ member)), placed.otherInfo other same]
    · intro other outside
      rw [later.otherOffset other fun member => outside (mem_cons_of_mem _ member),
        placed.otherOffset other fun same => outside (same ▸ mem_cons_self)]

def SlotFits (head : HeadFile) (sid : Nat) : Prop :=
  head.compInfoOffset sid ≠ 0 ->
    0 < head.compInfoOffset sid ∧
      ∃ info blocks, ListAt head.records (head.compInfoOffset sid) info blocks

/-- The list of a session is the one of its meter, and this is not to be deleted. -/
def Owns (head : HeadFile) (pObj : SMeterObj Row) (sid : Nat) : Prop :=
  pObj.deleting = false ∧ head.compInfoOffset sid ≠ 0 ∧
    ∃ info, head.records (head.compInfoOffset sid) = some (.compInfo info) ∧ info.uid = pObj.uid

structure OwnNotes (head : HeadFile) (sid : Nat) (pMeter : SMeterInfo) (info : SCompInfo)
    (blocks : List SCompBlock) : Prop where
  list : ListAt head.records (head.compInfoOffset sid) info blocks
  notes : pMeter = { noMeterInfo with
    oldNumOfBlocks := blocks.length
    oldCompBlockOffset := head.compInfoOffset sid + sizeofCompInfo
    last := info.last
    lastBlock := pMeter.lastBlock }
  lastBlock : info.last = true -> blocks.getLast? = some pMeter.lastBlock

theorem readMeterInfo_cases {head : HeadFile} {pObj : SMeterObj Row} {sid : Nat}
    {pMeter : SMeterInfo} (fits : SlotFits head sid)
    (run : readMeterInfo head pObj sid = some pMeter) :
    (¬ Owns head pObj sid ∧ pMeter = noMeterInfo) ∨
      (Owns head pObj sid ∧ ∃ info blocks, info.uid = pObj.uid ∧
        OwnNotes head sid pMeter info blocks) := by
  unfold readMeterInfo at run
  cases deleting : pObj.deleting with
  | true =>
    rw [if_pos deleting] at run
    exact Or.inl ⟨fun owns => absurd (deleting.symm.trans owns.1) (by simp), (some.inj run).symm⟩
  | false =>
    rw [if_neg (by simp [deleting])] at run
    by_cases empty : head.compInfoOffset sid = 0
    · rw [if_neg (by simp [empty])] at run
      exact Or.inl ⟨fun owns => owns.2.1 empty, (some.inj run).symm⟩
    obtain ⟨positive, info, blocks, list⟩ := fits empty
    rw [if_pos positive] at run
    simp only [list.starts] at run
    rw [if_neg (not_not.mpr list.checked)] at run
    by_cases own : pObj.uid = info.uid
    · right
      refine ⟨⟨deleting, empty, info, list.starts, own.symm⟩, info, blocks, own.symm, ?_⟩
      rw [if_pos own] at run
      cases last : info.last with
      | false =>
        rw [if_neg (by simp [last]), list.count] at run
        obtain rfl := some.inj run
        exact ⟨list, by simp [last], by simp [last]⟩
      | true =>
        have place := list.last_stored
        rw [<- list.count] at place
        simp only [last, if_true, place] at run
        obtain rfl := some.inj run
        refine ⟨list, by simp [last, list.count], fun _ => ?_⟩
        exact List.getLast?_eq_some_getLast list.nonempty
    · left
      rw [if_neg own] at run
      refine ⟨?_, (some.inj run).symm⟩
      rintro ⟨-, -, info', found, same⟩
      rw [list.starts] at found
      obtain rfl := HeadRecord.compInfo.inj (some.inj found)
      exact own same.symm

theorem readMeterInfos_eq {head : HeadFile} {meterList : Nat -> Option (SMeterObj Row)} (nodup : sids.Nodup) {meterInfo meterInfo' : Nat -> SMeterInfo}
    (run : readMeterInfos head meterList sids meterInfo = some meterInfo') (sid : Nat) :
    (sid ∉ sids ∨ meterList sid = none -> meterInfo' sid = meterInfo sid) ∧
      (sid ∈ sids -> ∀ pObj, meterList sid = some pObj ->
        readMeterInfo head pObj sid = some (meterInfo' sid)) := by
  induction sids generalizing meterInfo with
  | nil =>
    obtain rfl := some.inj run
    exact ⟨fun _ => rfl, fun member => absurd member List.not_mem_nil⟩
  | cons first sids ih =>
    obtain ⟨fresh, nodup⟩ := List.nodup_cons.mp nodup
    unfold readMeterInfos at run
    cases here : meterList first with
    | none =>
      simp only [here] at run
      obtain ⟨outside, inside⟩ := ih nodup run
      refine ⟨fun absent => outside (absent.imp_left fun absent member =>
        absent (mem_cons_of_mem _ member)), ?_⟩
      intro member pObj found
      rcases mem_cons.mp member with rfl | later
      · exact absurd (here.symm.trans found) (by simp)
      · exact inside later pObj found
    | some pObj =>
      simp only [here] at run
      obtain ⟨pMeter, read, run⟩ := bind_eq_some_iff.mp run
      obtain ⟨outside, inside⟩ := ih nodup run
      by_cases same : sid = first
      · subst same
        have noted := outside (Or.inl fresh)
        rw [update_self] at noted
        refine ⟨fun absent => ?_, fun _ pObj' found => ?_⟩
        · rcases absent with absent | none'
          · exact absurd mem_cons_self absent
          · exact absurd (here.symm.trans none') (by simp)
        · obtain rfl := some.inj (here.symm.trans found)
          rw [noted]
          exact read
      · rw [update_of_ne same] at outside
        refine ⟨fun absent => outside (absent.imp_left fun absent member =>
          absent (mem_cons_of_mem _ member)), fun member => inside ?_⟩
        exact (mem_cons.mp member).resolve_left same

structure Noted (head : HeadFile) (pMeter : SMeterInfo) (old : List SCompBlock) : Prop where
  read : oldBlocks head pMeter = some (old, blocksChecksum 0 old)
  count : pMeter.oldNumOfBlocks = old.length
  points : ∀ block ∈ old ++ pMeter.newBlocks, 0 < block.numOfPoints

def FirstInWindow (settings : Settings Row) (window : Window) (pInfo : SCacheInfo Row) : Prop :=
  ∃ row ∈ (uncommitted pInfo).head?,
    window.commitFirstKey ≤ settings.key row ∧ settings.key row ≤ window.commitLastKey

variable {settings : Settings Row} {compression : Int} {window : Window} {pObj : SMeterObj Row}
  {pInfo : SCacheInfo Row} {files files' : OpenFiles Row} {pMeter pMeter' : SMeterInfo}

theorem noted_none (head : HeadFile) : Noted head noMeterInfo [] := by
  refine ⟨?_, rfl, by simp [noMeterInfo]⟩
  rw [blocksChecksum_nil]
  rfl

variable {blocks : List SCompBlock} {info : SCompInfo}

theorem OwnNotes.noted {head : HeadFile} {sid : Nat}
    (notes : OwnNotes head sid pMeter info blocks) : Noted head pMeter blocks := by
  have some' := length_pos_iff.mpr notes.list.nonempty
  rw [notes.notes]
  refine ⟨?_, rfl, by simpa [noMeterInfo] using notes.list.points⟩
  unfold oldBlocks
  simp only [noMeterInfo]
  rw [if_neg (by omega), Int.toNat_natCast, notes.list.stored]
  simp only [bind_eq_bind, bind_some, Bool.false_eq_true, if_false, notes.list.chksum]
  rfl

section

variable (turn : MeterTurn settings compression window pObj pInfo files files' pMeter pMeter')
include turn

theorem chunks_iff (notMerged : ¬ Merged pObj pMeter) :
    turn.chunks ≠ [] ↔ FirstInWindow settings window pInfo := by
  have flatten := turn.flatten
  rw [turn.notMerged notMerged, nil_append] at flatten
  constructor
  · intro some'
    have opens : Opens settings pInfo window.commitFirstKey := by
      by_contra closed
      exact some' (turn.idle fun either => either.elim closed notMerged)
    obtain ⟨row, head, lower⟩ := opens
    refine ⟨row, head, lower, turn.upTo row ?_⟩
    obtain ⟨chunk, chunks, split⟩ := List.exists_cons_of_ne_nil some'
    have nonempty := turn.nonempty chunk (by rw [split]; exact mem_cons_self)
    obtain ⟨first, rest, rfl⟩ := List.exists_cons_of_ne_nil nonempty
    rw [split, List.flatten_cons] at flatten
    rw [<- turn.split, <- flatten] at head
    obtain rfl := some.inj head
    rw [<- flatten]
    exact List.mem_append_left _ mem_cons_self
  · rintro ⟨row, head, lower, upper⟩ none'
    have beyond := turn.beyond (Or.inl ⟨row, head, lower⟩)
    rw [none', List.flatten_nil] at flatten
    have split := turn.split
    rw [<- flatten, nil_append] at split
    rw [split] at beyond
    exact absurd upper (beyond row (List.mem_of_mem_head? head)).not_ge

theorem newBlocks_points (fresh : pMeter.newBlocks = [])
    (last : pMeter.last = true -> 0 < pMeter.lastBlock.numOfPoints) :
    ∀ block ∈ pMeter'.newBlocks, 0 < block.numOfPoints := by
  intro block member
  rw [turn.newBlocks_eq, fresh, nil_append] at member
  rcases mem_append.mp member with copy | chunk
  · by_cases copied : Copied pObj pMeter
    · rw [copiedBlocks_pos copied, List.mem_singleton] at copy
      rw [copy]
      exact last copied.1
    · rw [copiedBlocks_neg copied] at copy
      exact absurd copy List.not_mem_nil
  · exact numOfPoints_chunkBlocks turn.nonempty _ block chunk

end

theorem noted_turn_none (head : HeadFile)
    (turn : MeterTurn settings compression window pObj pInfo files files' noMeterInfo pMeter') :
    Noted head pMeter' [] ∧ (0 < finalCount pMeter' ↔ FirstInWindow settings window pInfo) := by
  have notMerged : ¬ Merged pObj noMeterInfo := by
    simp [Merged, noMeterInfo]
  have notCopied : ¬ Copied pObj noMeterInfo := by
    simp [Copied, noMeterInfo]
  have points := newBlocks_points turn rfl (by simp [noMeterInfo])
  have none' : pMeter'.oldNumOfBlocks = 0 := turn.oldNumOfBlocks_eq
  have length : pMeter'.newBlocks.length = turn.chunks.length := by
    rw [turn.newBlocks_eq, copiedBlocks_neg notCopied, List.append_nil, List.length_append,
      length_chunkBlocks]
    exact Nat.zero_add _
  refine ⟨⟨?_, none', points⟩, ?_⟩
  · unfold oldBlocks
    rw [if_pos none', blocksChecksum_nil]
  · rw [<- chunks_iff turn notMerged, <- length_pos_iff]
    unfold finalCount
    omega

theorem newBlocks_nonempty
    (turn : MeterTurn settings compression window pObj pInfo files files' pMeter pMeter')
    (last : pMeter.last = true) (points : 0 < pMeter.lastBlock.numOfPoints) :
    pMeter'.newBlocks ≠ [] := by
  rw [turn.newBlocks_eq]
  by_cases copied : Copied pObj pMeter
  · rw [copiedBlocks_pos copied]
    simp
  · have merged : Merged pObj pMeter :=
      ⟨last, not_not.mp fun differ => copied ⟨last, differ⟩⟩
    obtain ⟨rows, -, whole⟩ := bind_eq_some_iff.mp (turn.merged merged)
    have some' : turn.chunks ≠ [] := by
      intro none'
      have flatten := turn.flatten
      rw [none', List.flatten_nil, eq_comm, List.append_eq_nil_iff] at flatten
      split at whole
      case isTrue count =>
        obtain rfl := some.inj whole
        rw [flatten.1, List.length_nil] at count
        omega
      case isFalse => exact absurd whole (by simp)
    rw [<- length_pos_iff, <- length_chunkBlocks turn.chunks] at some'
    rw [<- length_pos_iff, List.length_append]
    exact Nat.lt_of_lt_of_le some' (Nat.le_add_left _ _)

theorem OwnNotes.noted_turn {head : HeadFile} {sid : Nat} (notes : OwnNotes head sid pMeter info blocks)
    (turn : MeterTurn settings compression window pObj pInfo files files' pMeter pMeter') :
    Noted head pMeter' (if info.last then blocks.dropLast else blocks) ∧
      0 < finalCount pMeter' := by
  have some' := length_pos_iff.mpr notes.list.nonempty
  have last_eq : pMeter.last = info.last := congrArg SMeterInfo.last notes.notes
  have count : pMeter.oldNumOfBlocks = blocks.length :=
    congrArg SMeterInfo.oldNumOfBlocks notes.notes
  have place : pMeter'.oldCompBlockOffset = head.compInfoOffset sid + sizeofCompInfo :=
    (congrArg SMeterInfo.oldCompBlockOffset turn.pMeter_eq).trans
      (congrArg SMeterInfo.oldCompBlockOffset notes.notes)
  have fresh : pMeter.newBlocks = [] := congrArg SMeterInfo.newBlocks notes.notes
  have unchanged : pMeter.changed = false := congrArg SMeterInfo.changed notes.notes
  have lastPoints : pMeter.last = true -> 0 < pMeter.lastBlock.numOfPoints := by
    intro last
    apply notes.list.points
    exact List.mem_of_getLast? (notes.lastBlock (last_eq ▸ last))
  have newPoints := newBlocks_points turn fresh lastPoints
  have kept := turn.oldNumOfBlocks_eq
  have changed : pMeter'.changed = (pMeter.last || pMeter.changed) :=
    congrArg SMeterInfo.changed turn.pMeter_eq
  rw [last_eq, count] at kept
  rw [last_eq, unchanged, Bool.or_false] at changed
  cases last : info.last with
  | false =>
    rw [last] at kept changed
    simp only [Bool.false_eq_true, if_false, sub_zero] at kept ⊢
    refine ⟨⟨?_, kept, ?_⟩, ?_⟩
    · unfold oldBlocks
      rw [if_neg (by omega), kept, Int.toNat_natCast, place, notes.list.stored]
      simp only [bind_eq_bind, bind_some, changed, Bool.false_eq_true, if_false, notes.list.chksum]
      rfl
    · intro block member
      exact (mem_append.mp member).elim (notes.list.points block) (newPoints block)
    · unfold finalCount
      omega
  | true =>
    rw [last] at kept changed
    simp only [if_true] at kept ⊢
    have lastTrue : pMeter.last = true := last_eq.trans last
    have nonempty := length_pos_iff.mpr (newBlocks_nonempty turn lastTrue (lastPoints lastTrue))
    have length : pMeter'.oldNumOfBlocks = blocks.dropLast.length := by
      rw [kept, List.length_dropLast]
      omega
    refine ⟨⟨?_, length, ?_⟩, ?_⟩
    · unfold oldBlocks
      by_cases none' : pMeter'.oldNumOfBlocks = 0
      · have empty : blocks.dropLast = [] := by
          rw [<- List.length_eq_zero_iff]
          omega
        rw [if_pos none', empty, blocksChecksum_nil]
      · have read := readBlocks_take notes.list.stored (blocks.length - 1) (by omega)
        rw [<- List.dropLast_eq_take] at read
        rw [if_neg none', kept, place, show ((blocks.length : Int) - 1).toNat =
          blocks.length - 1 by omega, read]
        simp only [bind_eq_bind, bind_some, changed, if_true]
        rfl
    · intro block member
      rcases mem_append.mp member with old | new
      · exact notes.list.points block (List.mem_of_mem_dropLast old)
      · exact newPoints block new
    · unfold finalCount
      omega

/-- The steps of a commit: what is noted of the old head file, the turns of the meters, the
new offsets and the new records. -/
structure WindowCommit (settings : Settings Row) (ssid esid : Nat) (window : Window)
    (pVnode next : SVnodeObj Row) where
  meterInfo : Nat -> SMeterInfo
  turn : Turn Row
  layout : Layout
  records : Records
  header : HeaderChecked pVnode.maxSessions (pVnode.files window.commitFileId).head
  read : readMeterInfos (pVnode.files window.commitFileId).head pVnode.meterList
    (List.range pVnode.maxSessions) (fun _ => noMeterInfo) = some meterInfo
  commit : commitMeters settings pVnode.compression window
    (List.range' ssid (esid + 1 - ssid))
    { firstKey := pVnode.firstKey
      meterList := pVnode.meterList
      files := openLast (pVnode.files window.commitFileId) ssid
      meterInfo := meterInfo
      totalStorage := (pVnode.files window.commitFileId).head.totalStorage } = some turn
  layout_eq : layout = layOut turn.meterList (List.range pVnode.maxSessions)
    { compInfoOffset := tsdbFileHeaderLen + tmsize pVnode.maxSessions
      offsets := (pVnode.files window.commitFileId).head.compInfoOffset
      meterInfo := turn.meterInfo }
  write : writeMeters (pVnode.files window.commitFileId).head turn.meterList layout.meterInfo
    (List.range pVnode.maxSessions) (fun _ => none) = some records
  next_eq : next = { pVnode with
    firstKey := turn.firstKey
    meterList := updateCommitInfos layout.meterInfo ssid esid turn.meterList
    files := update pVnode.files window.commitFileId (vnodeCloseCommitFiles turn.files
      { totalStorage := turn.totalStorage
        compInfoOffset := layout.offsets
        checksum := crc32c 0 (headerBytes pVnode.maxSessions layout.offsets)
        records := records }) }

theorem commitWindow_commits {ssid esid : Nat} {pVnode next : SVnodeObj Row}
    (run : commitWindow settings ssid esid window pVnode = some next) :
    Nonempty (WindowCommit settings ssid esid window pVnode next) := by
  unfold commitWindow at run
  by_cases header : HeaderChecked pVnode.maxSessions (pVnode.files window.commitFileId).head
  · simp only [header, not_true, if_false, bind_eq_bind, Option.pure_def] at run
    obtain ⟨meterInfo, read, run⟩ := bind_eq_some_iff.mp run
    obtain ⟨turn, commit, run⟩ := bind_eq_some_iff.mp run
    obtain ⟨records, write, run⟩ := bind_eq_some_iff.mp run
    exact ⟨⟨meterInfo, turn, _, records, header, read, commit, rfl, write, (some.inj run).symm⟩⟩
  · simp [header] at run

/-- The check sum of the offsets is right, at an offset that is not 0 there is a list, and the
extents of the lists are apart. -/
structure WellFormed (maxSessions : Nat) (head : HeadFile) : Prop where
  header : HeaderChecked maxSessions head
  lists : ∀ sid < maxSessions, head.compInfoOffset sid ≠ 0 ->
    tsdbFileHeaderLen + tmsize maxSessions ≤ head.compInfoOffset sid ∧
      ∃ info blocks, ListAt head.records (head.compInfoOffset sid) info blocks
  apart : ∀ sid < maxSessions, ∀ other < maxSessions, sid ≠ other ->
    ∀ info, head.compInfoOffset sid ≠ 0 ->
      head.records (head.compInfoOffset sid) = some (.compInfo info) ->
    ∀ info', head.compInfoOffset other ≠ 0 ->
      head.records (head.compInfoOffset other) = some (.compInfo info') ->
    head.compInfoOffset sid + sizeOfList info.numOfBlocks ≤ head.compInfoOffset other ∨
      head.compInfoOffset other + sizeOfList info'.numOfBlocks ≤ head.compInfoOffset sid

def OwnLists (maxSessions : Nat) (meterList : Nat -> Option (SMeterObj Row)) (head : HeadFile) :
    Prop :=
  ∀ sid < maxSessions, ∀ pObj, meterList sid = some pObj -> pObj.deleting = false ->
    head.compInfoOffset sid ≠ 0 ->
    ∃ info blocks, info.uid = pObj.uid ∧
      ListAt head.records (head.compInfoOffset sid) info blocks

section

variable (settings : Settings Row) (ssid esid : Nat) (window : Window)

def Commits (pObj : SMeterObj Row) (sid : Nat) : Prop :=
  ssid ≤ sid ∧ sid ≤ esid ∧ ∃ pInfo, pObj.pCache = some pInfo ∧
    FirstInWindow settings window pInfo

/-- Where a session has a slot and a meter, the slot is the own one of the meter or a row of
the meter is committed. -/
def NoStaleSlot (pVnode : SVnodeObj Row) : Prop :=
  ∀ sid < pVnode.maxSessions, ∀ pObj, pVnode.meterList sid = some pObj ->
    (pVnode.files window.commitFileId).head.compInfoOffset sid ≠ 0 ->
    Owns (pVnode.files window.commitFileId).head pObj sid ∨
      Commits settings ssid esid window pObj sid

end

theorem WellFormed.slotFits {maxSessions : Nat} {head : HeadFile}
    (wellFormed : WellFormed maxSessions head) {sid : Nat} (inside : sid < maxSessions) :
    SlotFits head sid := by
  intro some'
  obtain ⟨lower, list⟩ := wellFormed.lists sid inside some'
  refine ⟨lt_of_lt_of_le ?_ lower, list⟩
  unfold tsdbFileHeaderLen tmsize sizeofCompHeader sizeofChksum
  omega

section Steps

variable {ssid esid : Nat} {pVnode next : SVnodeObj Row}

section

variable (steps : WindowCommit settings ssid esid window pVnode next)
include steps

section

variable (fits : ∀ sid pObj, pVnode.meterList sid = some pObj -> MeterFits settings pObj)
include fits

theorem WindowCommit.meter {sid : Nat} (here : pVnode.meterList sid = some pObj) :
    ∃ key, steps.turn.meterList sid = some { pObj with lastKeyOnFile := key } := by
  obtain ⟨untouched, turned⟩ := commitMeters_turns nodup_range' fits steps.commit sid
  by_cases outside : sid ∉ List.range' ssid (esid + 1 - ssid) ∨ pObj.pCache = none
  · have same := untouched (outside.imp_right fun noCache => by
      dsimp only
      rw [here, bind_some, noCache])
    exact ⟨pObj.lastKeyOnFile, same.2.trans here⟩
  · rw [not_or, not_not] at outside
    obtain ⟨pInfo, cached⟩ := ne_none_iff_exists'.mp outside.2
    obtain ⟨-, -, key, list, -⟩ := turned outside.1 pObj pInfo here cached
    exact ⟨key, list⟩

theorem WindowCommit.noMeter {sid : Nat} (here : pVnode.meterList sid = none) :
    steps.turn.meterList sid = none := by
  have untouched := (commitMeters_turns nodup_range' fits steps.commit sid).1
  exact (untouched (Or.inr (by dsimp only; rw [here, bind_none]))).2.trans here

theorem WindowCommit.noted
    (wellFormed : WellFormed pVnode.maxSessions (pVnode.files window.commitFileId).head)
    {sid : Nat} (inside : sid < pVnode.maxSessions) (here : pVnode.meterList sid = some pObj) :
    ∃ old, Noted (pVnode.files window.commitFileId).head (steps.turn.meterInfo sid) old ∧
      (0 < finalCount (steps.turn.meterInfo sid) ↔
        Owns (pVnode.files window.commitFileId).head pObj sid ∨
          Commits settings ssid esid window pObj sid) := by
  have read := (readMeterInfos_eq nodup_range steps.read sid).2 (mem_range.mpr inside) pObj here
  have old := readMeterInfo_cases (wellFormed.slotFits inside) read
  obtain ⟨untouched, turned⟩ := commitMeters_turns nodup_range' fits steps.commit sid
  by_cases outside : sid ∉ List.range' ssid (esid + 1 - ssid) ∨ pObj.pCache = none
  · have same := (untouched (outside.imp_right fun noCache => by
      dsimp only
      rw [here, bind_some, noCache])).1
    have idle : ¬ Commits settings ssid esid window pObj sid := by
      rintro ⟨lower, upper, pInfo, cached, -⟩
      rcases outside with absent | noCache
      · exact absent (List.mem_range'_1.mpr ⟨lower, by omega⟩)
      · exact absurd (noCache.symm.trans cached) (by simp)
    dsimp only at same
    rw [same]
    rcases old with ⟨foreign, none'⟩ | ⟨owns, info, blocks, -, notes⟩
    · rw [none']
      exact ⟨[], noted_none _, iff_of_false (by simp [finalCount, noMeterInfo])
        (not_or.mpr ⟨foreign, idle⟩)⟩
    · refine ⟨blocks, notes.noted, iff_of_true ?_ (Or.inl owns)⟩
      have count := notes.noted.count
      have some' := length_pos_iff.mpr notes.list.nonempty
      unfold finalCount
      omega
  · rw [not_or, not_not] at outside
    obtain ⟨pInfo, cached⟩ := ne_none_iff_exists'.mp outside.2
    obtain ⟨files, files', key, -, ⟨turn⟩⟩ := turned outside.1 pObj pInfo here cached
    obtain ⟨lower, upper⟩ := List.mem_range'_1.mp outside.1
    dsimp only at turn
    rcases old with ⟨foreign, none'⟩ | ⟨owns, info, blocks, -, notes⟩
    · rw [none'] at turn
      obtain ⟨noted, some'⟩ := noted_turn_none (pVnode.files window.commitFileId).head turn
      refine ⟨[], noted, some'.trans ⟨fun first => Or.inr ⟨lower, by omega, pInfo, cached, first⟩,
        fun either => ?_⟩⟩
      obtain ⟨-, -, pInfo', cached', first⟩ := either.resolve_left foreign
      obtain rfl := some.inj (cached.symm.trans cached')
      exact first
    · obtain ⟨noted, some'⟩ := notes.noted_turn turn
      exact ⟨_, noted, iff_of_true some' (Or.inl owns)⟩

end

end

def WindowCommit.place (steps : WindowCommit settings ssid esid window pVnode next)
    (sid : Nat) : Int :=
  Placement.start (listSize steps.turn.meterList steps.turn.meterInfo)
    (List.range pVnode.maxSessions) (tsdbFileHeaderLen + tmsize pVnode.maxSessions) sid

section

variable (steps : WindowCommit settings ssid esid window pVnode next)
include steps

theorem WindowCommit.laidOut :
    LaidOut steps.turn.meterList (listSize steps.turn.meterList steps.turn.meterInfo)
      (List.range pVnode.maxSessions)
      { compInfoOffset := tsdbFileHeaderLen + tmsize pVnode.maxSessions
        offsets := (pVnode.files window.commitFileId).head.compInfoOffset
        meterInfo := steps.turn.meterInfo } steps.layout := by
  rw [steps.layout_eq]
  exact layOut_laidOut nodup_range _ fun _ => rfl

section

variable (fits : ∀ sid pObj, pVnode.meterList sid = some pObj -> MeterFits settings pObj)
include fits

theorem WindowCommit.listed {sid : Nat}
    (inside : sid < pVnode.maxSessions) (some' : 0 < (steps.layout.meterInfo sid).finalNumOfBlocks) :
    (pVnode.meterList sid).isSome ∧ 0 < finalCount (steps.turn.meterInfo sid) ∧
      steps.layout.meterInfo sid = { steps.turn.meterInfo sid with
        compInfoOffset := steps.place sid
        finalNumOfBlocks := finalCount (steps.turn.meterInfo sid) } := by
  have member : sid ∈ List.range pVnode.maxSessions := mem_range.mpr inside
  cases here : pVnode.meterList sid with
  | none =>
    -- nothing is noted where there is no meter
    have noted := steps.laidOut.otherInfo sid (Or.inr (steps.noMeter fits here))
    have untouched := (commitMeters_turns nodup_range' fits steps.commit sid).1
      (Or.inr (by dsimp only; rw [here, bind_none]))
    have unread := (readMeterInfos_eq nodup_range steps.read sid).1 (Or.inr here)
    rw [noted] at some'
    dsimp only at some' untouched
    rw [untouched.1] at some'
    dsimp only at some'
    rw [unread] at some'
    exact absurd some' (by simp [noMeterInfo])
  | some pObj =>
    obtain ⟨key, here'⟩ := steps.meter fits here
    have noted := steps.laidOut.meterInfo sid member _ here'
    rw [noted] at some'
    exact ⟨rfl, some', noted⟩

theorem WindowCommit.apart
    {sid other : Nat} (inside : sid < pVnode.maxSessions) (inside' : other < pVnode.maxSessions)
    (differ : sid ≠ other) (some' : 0 < (steps.layout.meterInfo sid).finalNumOfBlocks)
    (some'' : 0 < (steps.layout.meterInfo other).finalNumOfBlocks) :
    steps.place sid + sizeOfList (finalCount (steps.turn.meterInfo sid)) ≤ steps.place other ∨
      steps.place other + sizeOfList (finalCount (steps.turn.meterInfo other)) ≤
        steps.place sid := by
  have size_eq : ∀ {sid : Nat}, sid < pVnode.maxSessions ->
      0 < (steps.layout.meterInfo sid).finalNumOfBlocks ->
      listSize steps.turn.meterList steps.turn.meterInfo sid =
        sizeOfList (finalCount (steps.turn.meterInfo sid)) := by
    intro sid inside some'
    obtain ⟨isSome, positive, -⟩ := steps.listed fits inside some'
    obtain ⟨pObj, here⟩ := isSome_iff_exists.mp isSome
    obtain ⟨key, here'⟩ := steps.meter fits here
    unfold listSize
    rw [if_pos ⟨by rw [here']; rfl, positive⟩]
  have either := Placement.apart (listSize_nonneg steps.turn.meterList steps.turn.meterInfo) differ
    (tsdbFileHeaderLen + tmsize pVnode.maxSessions) (mem_range.mpr inside)
    (mem_range.mpr inside')
  rw [size_eq inside some', size_eq inside' some''] at either
  exact either

theorem WindowCommit.lists
    (wellFormed : WellFormed pVnode.maxSessions (pVnode.files window.commitFileId).head) :
    (∀ sid < pVnode.maxSessions, ∀ pObj, pVnode.meterList sid = some pObj ->
      0 < finalCount (steps.turn.meterInfo sid) -> ∀ old,
      Noted (pVnode.files window.commitFileId).head (steps.turn.meterInfo sid) old ->
      ListAt steps.records (steps.place sid) (checkedInfo pObj.uid (steps.turn.meterInfo sid).last
        (finalCount (steps.turn.meterInfo sid))) (old ++ (steps.turn.meterInfo sid).newBlocks)) ∧
    ∀ place info, steps.records place = some (.compInfo info) ->
      ∃ sid < pVnode.maxSessions, (pVnode.meterList sid).isSome ∧
        0 < finalCount (steps.turn.meterInfo sid) ∧ place = steps.place sid := by
  have notes : ∀ sid, ∃ old, sid < pVnode.maxSessions -> (pVnode.meterList sid).isSome ->
      Noted (pVnode.files window.commitFileId).head (steps.turn.meterInfo sid) old := by
    intro sid
    by_cases both : sid < pVnode.maxSessions ∧ (pVnode.meterList sid).isSome
    · obtain ⟨pObj, here⟩ := isSome_iff_exists.mp both.2
      obtain ⟨old, noted, -⟩ := steps.noted fits wellFormed both.1 here
      exact ⟨old, fun _ _ => noted⟩
    · exact ⟨[], fun inside isSome => absurd ⟨inside, isSome⟩ both⟩
  choose olds notes using notes
  obtain ⟨records, write, lists, -, infos⟩ := writeMeters_lists
    (pVnode.files window.commitFileId).head steps.turn.meterList steps.layout.meterInfo olds
    (nodup_range (n := pVnode.maxSessions)) (by
      intro sid member pObj listed
      have inside := mem_range.mp member
      obtain ⟨isSome, -, notes_eq⟩ := steps.listed fits inside listed.2
      have noted := notes sid inside isSome
      rw [notes_eq]
      refine ⟨noted.read, ?_, noted.points⟩
      rw [List.length_append, Nat.cast_add, <- noted.count]
      rfl) (by
      rintro sid member other member' differ place ⟨some', lower, upper⟩ ⟨some'', lower', upper'⟩
      have inside := mem_range.mp member
      have inside' := mem_range.mp member'
      have either := steps.apart fits inside inside' differ some' some''
      rw [(steps.listed fits inside some').2.2] at lower upper
      rw [(steps.listed fits inside' some'').2.2] at lower' upper'
      dsimp only at lower upper lower' upper'
      omega) (fun _ => none)
  obtain rfl := some.inj (steps.write.symm.trans write)
  constructor
  · intro sid inside pObj here some' old noted
    have member := mem_range.mpr inside
    obtain ⟨key, here'⟩ := steps.meter fits here
    have notes_eq := steps.laidOut.meterInfo sid member _ here'
    have list := lists sid member _ ⟨here', by rw [notes_eq]; exact some'⟩
    have same := (notes sid inside (by rw [here]; rfl)).read
    rw [noted.read, Option.some.injEq, Prod.mk.injEq] at same
    rw [notes_eq, <- same.1] at list
    exact list
  · intro place info found
    rcases infos place info found with none' | ⟨sid, member, pObj, listed, same⟩
    · exact absurd none' (by simp)
    · have inside := mem_range.mp member
      obtain ⟨isSome, some', notes_eq⟩ := steps.listed fits inside listed.2
      rw [notes_eq] at same
      exact ⟨sid, inside, isSome, some', same⟩

theorem WindowCommit.slot {sid : Nat} (inside : sid < pVnode.maxSessions)
    (here : pVnode.meterList sid = some pObj) :
    steps.layout.offsets sid = if 0 < finalCount (steps.turn.meterInfo sid) then steps.place sid
      else (pVnode.files window.commitFileId).head.compInfoOffset sid := by
  obtain ⟨key, here'⟩ := steps.meter fits here
  exact steps.laidOut.offset sid (mem_range.mpr inside) _ here'

end

theorem WindowCommit.head : (next.files window.commitFileId).head =
      { totalStorage := steps.turn.totalStorage
        compInfoOffset := steps.layout.offsets
        checksum := crc32c 0 (headerBytes pVnode.maxSessions steps.layout.offsets)
        records := steps.records } := by
  have whole := congrArg (fun vnode => (vnode.files window.commitFileId).head) steps.next_eq
  dsimp only at whole
  rw [update_self] at whole
  exact whole

section

variable (fits : ∀ sid pObj, pVnode.meterList sid = some pObj -> MeterFits settings pObj)
include fits

theorem WindowCommit.isSome {sid : Nat}
    (inside : sid < pVnode.maxSessions) (some' : steps.layout.offsets sid ≠ 0) :
    ∃ pObj, pVnode.meterList sid = some pObj := by
  rw [<- ne_none_iff_exists']
  intro none'
  exact some' (steps.laidOut.noMeter sid (mem_range.mpr inside) (steps.noMeter fits none'))

theorem WindowCommit.kept
    (wellFormed : WellFormed pVnode.maxSessions (pVnode.files window.commitFileId).head)
    (noStale : NoStaleSlot settings ssid esid window pVnode) {sid : Nat}
    (inside : sid < pVnode.maxSessions)
    (here : pVnode.meterList sid = some pObj) (some' : steps.layout.offsets sid ≠ 0) :
    steps.layout.offsets sid = steps.place sid ∧ 0 < (steps.layout.meterInfo sid).finalNumOfBlocks ∧
      ∃ blocks, ListAt steps.records (steps.place sid) (checkedInfo pObj.uid
        (steps.turn.meterInfo sid).last (finalCount (steps.turn.meterInfo sid))) blocks := by
  obtain ⟨old, noted, kept⟩ := steps.noted fits wellFormed inside here
  have slot := steps.slot fits inside here
  have positive : 0 < finalCount (steps.turn.meterInfo sid) := by
    by_contra none'
    rw [if_neg none'] at slot
    exact none' (kept.mpr (noStale sid inside pObj here (slot ▸ some')))
  rw [if_pos positive] at slot
  obtain ⟨key, here'⟩ := steps.meter fits here
  have notes_eq := steps.laidOut.meterInfo sid (mem_range.mpr inside) _ here'
  refine ⟨slot, by rw [notes_eq]; exact positive, _,
    (steps.lists fits wellFormed).1 sid inside pObj here positive old noted⟩

theorem WindowCommit.wellFormed
    (wellFormed : WellFormed pVnode.maxSessions (pVnode.files window.commitFileId).head)
    (noStale : NoStaleSlot settings ssid esid window pVnode) :
    WellFormed pVnode.maxSessions (next.files window.commitFileId).head := by
  rw [steps.head]
  refine ⟨rfl, ?_, ?_⟩
  · intro sid inside some'
    dsimp only at some' ⊢
    obtain ⟨pObj, here⟩ := steps.isSome fits inside some'
    obtain ⟨slot, -, blocks, list⟩ := steps.kept fits wellFormed noStale inside here some'
    rw [slot]
    exact ⟨Placement.start_ge (listSize_nonneg _ _) _ _ _, _, blocks, list⟩
  · intro sid inside other inside' differ info some' starts info' some'' starts'
    dsimp only at some' some'' starts starts' ⊢
    obtain ⟨pObj, here⟩ := steps.isSome fits inside some'
    obtain ⟨pObj', here'⟩ := steps.isSome fits inside' some''
    obtain ⟨slot, positive, blocks, list⟩ := steps.kept fits wellFormed noStale inside here some'
    obtain ⟨slot', positive', blocks', list'⟩ :=
      steps.kept fits wellFormed noStale inside' here' some''
    rw [slot, list.starts] at starts
    rw [slot', list'.starts] at starts'
    obtain rfl := HeadRecord.compInfo.inj (some.inj starts)
    obtain rfl := HeadRecord.compInfo.inj (some.inj starts')
    rw [slot, slot']
    exact steps.apart fits inside inside' differ positive positive'

section

variable (wellFormed : WellFormed pVnode.maxSessions (pVnode.files window.commitFileId).head)

include wellFormed

theorem WindowCommit.ownLists (noStale : NoStaleSlot settings ssid esid window pVnode) :
    OwnLists pVnode.maxSessions pVnode.meterList (next.files window.commitFileId).head := by
  intro sid inside pObj here _ some'
  rw [steps.head] at some' ⊢
  obtain ⟨slot, -, blocks, list⟩ := steps.kept fits wellFormed noStale inside here some'
  dsimp only
  rw [slot]
  exact ⟨_, blocks, rfl, list⟩

theorem WindowCommit.noStaleSlot
    (after : WellFormed pVnode.maxSessions (next.files window.commitFileId).head) :
    NoStaleSlot settings ssid esid window pVnode := by
  intro sid inside pObj here some'
  by_contra stale
  obtain ⟨-, -, kept⟩ := steps.noted fits wellFormed inside here
  have none' : ¬ 0 < finalCount (steps.turn.meterInfo sid) :=
    fun positive => stale (kept.mp positive)
  have slot := steps.slot fits inside here
  rw [if_neg none'] at slot
  rw [steps.head] at after
  obtain ⟨lists, apart⟩ := steps.lists fits wellFormed
  rw [<- slot] at some'
  obtain ⟨-, info, blocks, list⟩ := after.lists sid inside some'
  obtain ⟨other, inside', isSome, positive, same⟩ := apart _ info list.starts
  dsimp only at same
  have differ : sid ≠ other := by
    rintro rfl
    exact none' positive
  obtain ⟨pObj', here'⟩ := isSome_iff_exists.mp isSome
  have slot' := steps.slot fits inside' here'
  rw [if_pos positive, <- same] at slot'
  have list' := list.starts
  dsimp only at list'
  have either := after.apart sid inside other inside' differ info some' list' info
    (by dsimp only; rw [slot']; exact some') (by dsimp only; rw [slot']; exact list')
  have size := sizeOfList_pos info.numOfBlocks (by rw [list.count]; omega)
  dsimp only at either
  rw [slot'] at either
  omega

end

end

end

end Steps

end Commit

end Luomi.Vnode.CommitHead
