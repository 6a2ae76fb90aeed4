import Luomi.Vnode.CommitFile

/-!
# The lists of blocks in a head file

At the offset of a meter there is a `SCompInfo`, behind it are the blocks, and behind these
is their check sum.  Writing the list of one meter leaves the others as they are.
-/

namespace Luomi.Vnode.HeadLists

open CommitFile
open List (length_cons mem_cons_of_mem mem_cons_self)
open Function (update update_of_ne update_self)

theorem crc32c_append (crci : BitVec 32) (front back : Bytes) :
    crc32c (crc32c crci front) back = crc32c crci (front ++ back) := by
  unfold crc32c
  rw [List.foldl_append, BitVec.xor_assoc, BitVec.xor_self, BitVec.xor_zero]

theorem blocksChecksum_append (chksum : BitVec 32) (old new : List SCompBlock) :
    blocksChecksum (blocksChecksum chksum old) new = blocksChecksum chksum (old ++ new) := by
  unfold blocksChecksum
  rw [crc32c_append, List.flatMap_append]

theorem blocksChecksum_nil (chksum : BitVec 32) : blocksChecksum chksum [] = chksum := by
  simp [blocksChecksum, crc32c, BitVec.xor_assoc]

theorem checkedInfo_checked (uid : BitVec 64) (last : Bool) (numOfBlocks : Int) :
    InfoChecked (checkedInfo uid last numOfBlocks) := rfl

abbrev Records := Int -> Option HeadRecord

variable {blocks : List SCompBlock} {offset : Int} {records : Records}
  {count : Nat}

theorem readBlocks_eq_some : readBlocks records count offset = some blocks ↔
      blocks.length = count ∧ ∀ (i : Nat) block, blocks[i]? = some block ->
        records (offset + sizeofCompBlock * i) = some (.compBlock block) := by
  induction count generalizing offset blocks with
  | zero =>
    simp only [readBlocks, Option.some.injEq, List.length_eq_zero_iff]
    constructor
    · rintro rfl
      exact ⟨rfl, by simp⟩
    · exact fun whole => whole.1.symm
  | succ count ih =>
    have next : ∀ i : Nat, offset + sizeofCompBlock + sizeofCompBlock * i =
        offset + sizeofCompBlock * ((i + 1 : Nat) : Int) := by
      intro i
      push_cast
      ring
    constructor
    · intro run
      unfold readBlocks at run
      split at run
      case h_1 block here =>
        obtain ⟨later, read, rfl⟩ := Option.map_eq_some_iff.mp run
        obtain ⟨length, places⟩ := ih.mp read
        refine ⟨by rw [length_cons, length], ?_⟩
        intro i block' found
        cases i with
        | zero =>
          obtain rfl := Option.some.inj found
          simpa using here
        | succ i =>
          rw [<- next]
          exact places i block' found
      case h_2 => exact absurd run (by simp)
    · rintro ⟨length, places⟩
      cases blocks with
      | nil => simp at length
      | cons block blocks =>
        have here := places 0 block rfl
        rw [Nat.cast_zero, mul_zero, add_zero] at here
        have read : readBlocks records count (offset + sizeofCompBlock) = some blocks := by
          refine ih.mpr ⟨Nat.succ.inj length, ?_⟩
          intro i block' found
          rw [next]
          exact places (i + 1) block' found
        unfold readBlocks
        simp only [here, read, Option.map_some]

theorem readBlocks_congr {records' : Records}
    (same : ∀ place, offset ≤ place -> place < offset + sizeofCompBlock * count ->
      records' place = records place) (read : readBlocks records count offset = some blocks) :
    readBlocks records' count offset = some blocks := by
  obtain ⟨length, places⟩ := readBlocks_eq_some.mp read
  refine readBlocks_eq_some.mpr ⟨length, ?_⟩
  intro i block found
  have inside := (List.getElem?_eq_some_iff.mp found).1
  rw [same _ (by unfold sizeofCompBlock; omega) (by unfold sizeofCompBlock; omega)]
  exact places i block found

theorem readBlocks_take (read : readBlocks records count offset = some blocks) (fewer : Nat)
    (atMost : fewer ≤ count) : readBlocks records fewer offset = some (blocks.take fewer) := by
  obtain ⟨length, places⟩ := readBlocks_eq_some.mp read
  refine readBlocks_eq_some.mpr ⟨by rw [List.length_take, length, min_eq_left atMost], ?_⟩
  intro i block found
  apply places i block
  rw [List.getElem?_take] at found
  split at found
  · exact found
  · exact absurd found (by simp)

section

variable {place : Int} (blocks : List SCompBlock) (records : Records)

theorem writeBlocks_before (before : place < offset) :
    writeBlocks blocks offset records place = records place := by
  induction blocks generalizing offset records with
  | nil => rfl
  | cons block blocks ih =>
    unfold writeBlocks
    rw [ih _ (by unfold sizeofCompBlock; omega), update_of_ne (by omega)]

theorem writeBlocks_behind (behind : offset + sizeofCompBlock * blocks.length ≤ place) :
    writeBlocks blocks offset records place = records place := by
  induction blocks generalizing offset records with
  | nil => rfl
  | cons block blocks ih =>
    rw [length_cons] at behind
    unfold sizeofCompBlock at behind
    push_cast at behind
    unfold writeBlocks
    rw [ih _ (by unfold sizeofCompBlock; omega), update_of_ne (by omega)]

end

theorem readBlocks_writeBlocks (blocks : List SCompBlock) (offset : Int) (records : Records) :
    readBlocks (writeBlocks blocks offset records) blocks.length offset = some blocks := by
  induction blocks generalizing offset records with
  | nil => rfl
  | cons block blocks ih =>
    have here : writeBlocks (block :: blocks) offset records offset = some (.compBlock block) := by
      unfold writeBlocks
      rw [writeBlocks_before _ _ (by unfold sizeofCompBlock; omega), update_self]
    have later := ih (offset + sizeofCompBlock) (update records offset (some (.compBlock block)))
    rw [length_cons]
    unfold readBlocks
    simp only [here]
    unfold writeBlocks
    rw [later, Option.map_some]

variable {info : SCompInfo}

theorem writeBlocks_compInfo {place : Int}
    (found : writeBlocks blocks offset records place = some (.compInfo info)) :
    records place = some (.compInfo info) := by
  induction blocks generalizing offset records with
  | nil => exact found
  | cons block blocks ih =>
    have before := ih found
    by_cases here : place = offset
    · rw [here, update_self] at before
      exact absurd before (by simp)
    · rwa [update_of_ne here] at before

/-- The list of a meter at an offset; each of its blocks has points. -/
structure ListAt (records : Records) (offset : Int) (info : SCompInfo)
    (blocks : List SCompBlock) : Prop where
  starts : records offset = some (.compInfo info)
  checked : InfoChecked info
  count : info.numOfBlocks = blocks.length
  nonempty : blocks ≠ []
  stored : readBlocks records blocks.length (offset + sizeofCompInfo) = some blocks
  chksum : records (offset + sizeofCompInfo + sizeofCompBlock * blocks.length) =
    some (.chksum (blocksChecksum 0 blocks))
  points : ∀ block ∈ blocks, 0 < block.numOfPoints

theorem ListAt.frame {records' : Records} {info : SCompInfo}
    (list : ListAt records offset info blocks)
    (same : ∀ place, offset ≤ place -> place < offset + sizeOfList blocks.length ->
      records' place = records place) : ListAt records' offset info blocks := by
  unfold sizeOfList sizeofCompInfo sizeofCompBlock sizeofChksum at same
  refine ⟨?_, list.checked, list.count, list.nonempty, ?_, ?_, list.points⟩
  · rw [same offset le_rfl (by omega)]
    exact list.starts
  · apply readBlocks_congr _ list.stored
    unfold sizeofCompInfo sizeofCompBlock
    intro place lower upper
    exact same place (by omega) (by omega)
  · rw [same _ (by unfold sizeofCompInfo sizeofCompBlock; omega)
      (by unfold sizeofCompInfo sizeofCompBlock; omega)]
    exact list.chksum

theorem ListAt.last_stored (list : ListAt records offset info blocks) :
    records (offset + sizeofCompInfo + sizeofCompBlock * ((blocks.length : Int) - 1)) =
      some (.compBlock (blocks.getLast list.nonempty)) := by
  have some' := List.length_pos_iff.mpr list.nonempty
  have place : ((blocks.length : Int) - 1) = (blocks.length - 1 : Nat) := by omega
  rw [place]
  apply (readBlocks_eq_some.mp list.stored).2
  rw [List.getLast_eq_getElem]
  exact List.getElem?_eq_getElem _

theorem sizeOfList_pos (count : Int) (nonneg : 0 ≤ count) : 0 < sizeOfList count := by
  unfold sizeOfList sizeofCompInfo sizeofCompBlock sizeofChksum
  omega

structure Ready (head : HeadFile) (pMeter : SMeterInfo) (old : List SCompBlock) : Prop where
  read : oldBlocks head pMeter = some (old, blocksChecksum 0 old)
  count : pMeter.finalNumOfBlocks = (old ++ pMeter.newBlocks).length
  points : ∀ block ∈ old ++ pMeter.newBlocks, 0 < block.numOfPoints

def InExtent (pMeter : SMeterInfo) (place : Int) : Prop :=
  0 < pMeter.finalNumOfBlocks ∧ pMeter.compInfoOffset ≤ place ∧
    place < pMeter.compInfoOffset + sizeOfList pMeter.finalNumOfBlocks

variable {old : List SCompBlock} {head : HeadFile}

theorem writeMeter_lists {pMeter : SMeterInfo}
    (ready : Ready head pMeter old) (some' : 0 < pMeter.finalNumOfBlocks) (uid : BitVec 64)
    (records : Records) : ∃ records', writeMeter head uid pMeter records = some records' ∧
      ListAt records' pMeter.compInfoOffset
        (checkedInfo uid pMeter.last pMeter.finalNumOfBlocks) (old ++ pMeter.newBlocks) ∧
      (∀ place, ¬ InExtent pMeter place -> records' place = records place) ∧
      ∀ place info, records' place = some (.compInfo info) ->
        place = pMeter.compInfoOffset ∨ records place = some (.compInfo info) := by
  have sum : (if pMeter.newBlocks = [] then blocksChecksum 0 old
      else blocksChecksum (blocksChecksum 0 old) pMeter.newBlocks) =
        blocksChecksum 0 (old ++ pMeter.newBlocks) := by
    by_cases none' : pMeter.newBlocks = []
    · rw [if_pos none', none', List.append_nil]
    · rw [if_neg none', blocksChecksum_append]
  have count := ready.count
  have points := ready.points
  unfold writeMeter
  simp only [ready.read, Option.bind_eq_bind, Option.bind_some, Option.pure_def, sum]
  generalize old ++ pMeter.newBlocks = blocks at *
  refine ⟨_, rfl, ⟨?_, rfl, count, ?_, ?_, ?_, points⟩, ?_, ?_⟩
  · rw [update_of_ne (by unfold sizeofCompInfo sizeofCompBlock; omega),
      writeBlocks_before _ _ (by unfold sizeofCompInfo; omega), update_self]
  · rintro rfl
    rw [count] at some'
    simp at some'
  · refine readBlocks_congr ?_ (readBlocks_writeBlocks blocks
      (pMeter.compInfoOffset + sizeofCompInfo) (update records pMeter.compInfoOffset
        (some (.compInfo (checkedInfo uid pMeter.last pMeter.finalNumOfBlocks)))))
    intro place _ before
    exact update_of_ne before.ne _ _
  · exact update_self _ _ _
  · intro place outside
    unfold InExtent sizeOfList sizeofCompInfo sizeofCompBlock sizeofChksum at outside
    rw [update_of_ne (by unfold sizeofCompInfo sizeofCompBlock; omega)]
    rcases lt_or_ge place pMeter.compInfoOffset with before | behind
    · rw [writeBlocks_before _ _ (by unfold sizeofCompInfo; omega), update_of_ne before.ne]
    · rw [writeBlocks_behind _ _ (by unfold sizeofCompInfo sizeofCompBlock; omega),
        update_of_ne (by omega)]
  · intro place info found
    by_cases here : place = pMeter.compInfoOffset
    · exact Or.inl here
    · right
      by_cases end' : place =
          pMeter.compInfoOffset + sizeofCompInfo + sizeofCompBlock * blocks.length
      · rw [end', update_self] at found
        exact absurd found (by simp)
      · rw [update_of_ne end'] at found
        have before := writeBlocks_compInfo found
        rwa [update_of_ne here] at before

section Meters

variable {Row : Type}

def Listed (meterList : Nat -> Option (SMeterObj Row)) (meterInfo : Nat -> SMeterInfo) (sid : Nat)
    (pObj : SMeterObj Row) : Prop :=
  meterList sid = some pObj ∧ 0 < (meterInfo sid).finalNumOfBlocks

theorem writeMeters_cons {meterList : Nat -> Option (SMeterObj Row)}
    {meterInfo : Nat -> SMeterInfo} {sid : Nat} (sids : List Nat)
    (ready : ∀ pObj, Listed meterList meterInfo sid pObj -> Ready head (meterInfo sid) old)
    (records : Records) : ∃ records', writeMeters head meterList meterInfo (sid :: sids) records =
        writeMeters head meterList meterInfo sids records' ∧
      (∀ pObj, Listed meterList meterInfo sid pObj -> ListAt records' (meterInfo sid).compInfoOffset
          (checkedInfo pObj.uid (meterInfo sid).last (meterInfo sid).finalNumOfBlocks)
          (old ++ (meterInfo sid).newBlocks)) ∧
      (∀ place, ¬ InExtent (meterInfo sid) place -> records' place = records place) ∧
      ∀ place info, records' place = some (.compInfo info) ->
        records place = some (.compInfo info) ∨ ∃ pObj, Listed meterList meterInfo sid pObj ∧
            place = (meterInfo sid).compInfoOffset := by
  cases here : meterList sid with
  | none =>
    refine ⟨records, ?_, ?_, fun _ _ => rfl, fun _ _ found => Or.inl found⟩
    · simp only [writeMeters, here]
    · rintro pObj ⟨found, _⟩
      exact absurd (here.symm.trans found) (by simp)
  | some pObj =>
    by_cases none' : (meterInfo sid).finalNumOfBlocks ≤ 0
    · refine ⟨records, ?_, ?_, fun _ _ => rfl, fun _ _ found => Or.inl found⟩
      · simp only [writeMeters, here]
        rw [if_pos none']
      · rintro pObj ⟨_, some'⟩
        exact absurd none' some'.not_ge
    · have listed : Listed meterList meterInfo sid pObj := ⟨here, not_le.mp none'⟩
      obtain ⟨records', run, list, frame, infos⟩ := writeMeter_lists (ready pObj listed)
        listed.2 pObj.uid records
      refine ⟨records', ?_, ?_, frame, ?_⟩
      · simp only [writeMeters, here]
        rw [if_neg none', run]
        rfl
      · rintro pObj' ⟨found, _⟩
        obtain rfl := Option.some.inj (here.symm.trans found)
        exact list
      · intro place info found
        rcases infos place info found with same | before
        · exact Or.inr ⟨pObj, listed, same⟩
        · exact Or.inl before

theorem writeMeters_lists (head : HeadFile) (meterList : Nat -> Option (SMeterObj Row))
    (meterInfo : Nat -> SMeterInfo) (old : Nat -> List SCompBlock) {sids : List Nat}
    (nodup : sids.Nodup) (ready : ∀ sid ∈ sids, ∀ pObj, Listed meterList meterInfo sid pObj ->
      Ready head (meterInfo sid) (old sid))
    (apart : ∀ sid ∈ sids, ∀ other ∈ sids, sid ≠ other -> ∀ place,
      InExtent (meterInfo sid) place -> ¬ InExtent (meterInfo other) place) (records : Records) :
    ∃ records', writeMeters head meterList meterInfo sids records = some records' ∧
      (∀ sid ∈ sids, ∀ pObj, Listed meterList meterInfo sid pObj ->
        ListAt records' (meterInfo sid).compInfoOffset
          (checkedInfo pObj.uid (meterInfo sid).last (meterInfo sid).finalNumOfBlocks)
          (old sid ++ (meterInfo sid).newBlocks)) ∧
      (∀ place, (∀ sid ∈ sids, ¬ InExtent (meterInfo sid) place) ->
        records' place = records place) ∧ ∀ place info, records' place = some (.compInfo info) ->
        records place = some (.compInfo info) ∨ ∃ sid ∈ sids, ∃ pObj,
          Listed meterList meterInfo sid pObj ∧ place = (meterInfo sid).compInfoOffset := by
  induction sids generalizing records with
  | nil => exact ⟨records, rfl, by simp, by simp, fun place info found => Or.inl found⟩
  | cons sid sids ih =>
    obtain ⟨fresh, nodup⟩ := List.nodup_cons.mp nodup
    obtain ⟨records₁, step, list, frame, infos⟩ := writeMeters_cons sids
      (ready sid mem_cons_self) records
    obtain ⟨records₂, run, lists, frames, infos'⟩ := ih nodup
      (fun other member => ready other (mem_cons_of_mem _ member))
      (fun one memberOne other memberOther =>
        apart one (mem_cons_of_mem _ memberOne) other (mem_cons_of_mem _ memberOther))
      records₁
    refine ⟨records₂, step.trans run, ?_, ?_, ?_⟩
    · intro other member pObj listed
      rcases List.mem_cons.mp member with rfl | later
      · -- the lists behind it leave it as it is
        apply (list pObj listed).frame
        intro place lower upper
        apply frames place
        intro later member'
        apply apart other mem_cons_self later (mem_cons_of_mem _ member')
        · rintro rfl
          exact fresh member'
        · refine ⟨listed.2, lower, ?_⟩
          rw [(ready other mem_cons_self pObj listed).count]
          exact upper
      · exact lists other later pObj listed
    · intro place outside
      rw [frames place fun other member => outside other (mem_cons_of_mem _ member),
        frame place (outside sid mem_cons_self)]
    · intro place info found
      rcases infos' place info found with before | ⟨other, member, pObj, listed, same⟩
      · rcases infos place info before with before | ⟨pObj, listed, same⟩
        · exact Or.inl before
        · exact Or.inr ⟨sid, mem_cons_self, pObj, listed, same⟩
      · exact Or.inr ⟨other, mem_cons_of_mem _ member, pObj, listed, same⟩

end Meters

end Luomi.Vnode.HeadLists
