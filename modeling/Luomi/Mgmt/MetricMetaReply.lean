import Luomi.Mgmt.MetricMetaMsg

/-!
# The bytes of a metric meta reply

The reply written meter by meter is the concatenation of its vnode lists after a head,
and it fits the size computed for it as long as that size is not cut.
-/

namespace Luomi.Mgmt.MetricMetaReply
open LittleEndian ByteBuffer MetricMetaMsg
open List (append_assoc flatMap_cons foldlM_cons foldl_cons length_append length_cons length_nil
  length_replicate map_cons mem_cons mem_cons_of_mem mem_cons_self mem_map nil_append nodup_cons
  pairwise_cons replicate_append_replicate)
open Option (bind_eq_bind bind_eq_some_iff bind_some getD_some some.inj)

variable {metric : SMetric}

/-! ## Layout -/

def vgroupRuns : List (STabObj metric) -> List (Nat × List (STabObj metric))
  | [] => []
  | meter :: rest =>
    match vgroupRuns rest with
    | [] => [(meter.vgId, [meter])]
    | (vgId, meters) :: more =>
      if vgId = meter.vgId then (vgId, meter :: meters) :: more
      else (meter.vgId, [meter]) :: (vgId, meters) :: more

def headFront (vnode : BitVec 32) : List UInt8 :=
  zeros 4 ++ (leBytes 4 vnode.toNat ++ (zeros 40 ++ leBytes 2 0))

def listHead (vnode : BitVec 32) (numOfSids : Nat) : List UInt8 :=
  headFront vnode ++ leBytes 4 numOfSids

def entryBytes (msg : SMetricMetaMsg metric) (meter : STabObj metric) : List UInt8 :=
  leBytes 4 meter.sid.toNat ++ (zeros 8 ++ (reqTags msg meter).flatten)

def listBytes (vnodeOf : Nat -> BitVec 32) (msg : SMetricMetaMsg metric)
    (group : Nat × List (STabObj metric)) : List UInt8 :=
  listHead (vnodeOf group.1) group.2.length ++ group.2.flatMap (entryBytes msg)

/-- The head of the reply while it is written; `tagLen` stands there in network order. -/
def page (numOfMeters numOfVnodes tagLen : Nat) (lists : List UInt8) : List UInt8 :=
  [TSDB_CODE_SUCCESS, TSDB_IE_TYPE_META] ++ (leBytes 4 numOfMeters ++
    (leBytes 4 numOfVnodes ++ ((leBytes 2 tagLen).reverse ++ lists)))

def replyBytes (vnodeOf : Nat -> BitVec 32) (msg : SMetricMetaMsg metric)
    (groups : List (Nat × List (STabObj metric))) : List UInt8 :=
  [TSDB_CODE_SUCCESS, TSDB_IE_TYPE_META] ++
    ((leBytes 4 (groups.flatMap Prod.snd).length).reverse ++ ((leBytes 4 groups.length).reverse ++
      ((leBytes 2 (mgmtGetReqTagsLength msg)).reverse ++ groups.flatMap (listBytes vnodeOf msg))))

section Lengths

variable {msg : SMetricMetaMsg metric} {meter : STabObj metric}

theorem tags_before (metric : SMetric) {col : Nat} (known : col < metric.tagBytes.length) :
    mgmtGetTagsLength metric col + metric.tagBytes.getD col 0 ≤ metric.tagBytes.sum := by
  have split := congrArg List.sum (List.take_append_drop col metric.tagBytes)
  rw [List.sum_append, List.drop_eq_getElem_cons known, List.sum_cons] at split
  rw [mgmtGetTagsLength, List.getD_eq_getElem?_getD, List.getElem?_eq_getElem known, getD_some]
  omega

theorem reqTag_length (meter : STabObj metric) {col : Int}
    (known : col = -1 ∨ 0 ≤ col ∧ col < metric.tagBytes.length) :
    (reqTag meter col).length = reqTagLength metric col := by
  unfold reqTag reqTagLength
  split
  next =>
    have := meter.named
    simp only [length_append, length_replicate]
    omega
  next column =>
    have inside : col.toNat < metric.tagBytes.length := by omega
    have bound := tags_before metric inside
    rw [mgmtMeterGetTag, List.length_take, List.length_drop, meter.tagged]
    omega

theorem reqTags_length (msg : SMetricMetaMsg metric) (meter : STabObj metric) :
    (reqTags msg meter).flatten.length = mgmtGetReqTagsLength msg := by
  rw [List.length_flatten, reqTags, mgmtGetReqTagsLength, List.map_map]
  congr 1
  apply List.map_congr_left
  intro col member
  exact reqTag_length meter (msg.known col member)

@[simp] theorem headFront_length (vnode : BitVec 32) : (headFront vnode).length = 50 := by
  simp [headFront]

@[simp] theorem listHead_length (vnode : BitVec 32) (numOfSids : Nat) :
    (listHead vnode numOfSids).length = 54 := by
  simp [listHead]

@[simp] theorem entryBytes_length (msg : SMetricMetaMsg metric) (meter : STabObj metric) :
    (entryBytes msg meter).length = 12 + mgmtGetReqTagsLength msg := by
  rw [entryBytes, length_append, length_append, reqTags_length, leBytes_length, length_replicate]
  omega

@[simp] theorem entries_length (msg : SMetricMetaMsg metric) (meters : List (STabObj metric)) :
    (meters.flatMap (entryBytes msg)).length = (12 + mgmtGetReqTagsLength msg) * meters.length := by
  induction meters with
  | nil => rfl
  | cons meter rest ih =>
    rw [flatMap_cons, length_append, ih, entryBytes_length, length_cons]
    ring

@[simp] theorem listBytes_length (vnodeOf : Nat -> BitVec 32) (msg : SMetricMetaMsg metric)
    (group : Nat × List (STabObj metric)) :
    (listBytes vnodeOf msg group).length =
      54 + (12 + mgmtGetReqTagsLength msg) * group.2.length := by
  rw [listBytes, length_append, listHead_length, entries_length]

theorem lists_length (vnodeOf : Nat -> BitVec 32) (msg : SMetricMetaMsg metric)
    (groups : List (Nat × List (STabObj metric))) :
    (groups.flatMap (listBytes vnodeOf msg)).length = 54 * groups.length +
        (12 + mgmtGetReqTagsLength msg) * (groups.flatMap Prod.snd).length := by
  induction groups with
  | nil => rfl
  | cons group rest ih =>
    simp only [flatMap_cons, length_append, ih, listBytes_length, length_cons]
    ring

@[simp] theorem page_length (numOfMeters numOfVnodes tagLen : Nat) (lists : List UInt8) :
    (page numOfMeters numOfVnodes tagLen lists).length = 12 + lists.length := by
  simp [page]
  omega

theorem page_append (numOfMeters numOfVnodes tagLen : Nat) (lists more : List UInt8) :
    page numOfMeters numOfVnodes tagLen (lists ++ more) =
      page numOfMeters numOfVnodes tagLen lists ++ more := by
  simp only [page, append_assoc]

end Lengths

/-! ## Steps -/

section Steps

variable {numOfMeters numOfVnodes numOfSids tagLen vgId pMsg : Nat} {ovgId : Int}
variable {pList : Option Nat} {vnode : BitVec 32} {done entries rest : List UInt8}
variable {msg : SMetricMetaMsg metric} {meter : STabObj metric}

theorem increase_numOfMeters (lists : List UInt8) :
    increase (page numOfMeters numOfVnodes tagLen lists) numOfMetersAt =
      some (page (numOfMeters + 1) numOfVnodes tagLen lists) :=
  increase_middle rfl

theorem increase_numOfVnodes (lists : List UInt8) :
    increase (page numOfMeters numOfVnodes tagLen lists) numOfVnodesAt =
      some (page numOfMeters (numOfVnodes + 1) tagLen lists) := by
  have shape (count : Nat) : page numOfMeters count tagLen lists =
      ([TSDB_CODE_SUCCESS, TSDB_IE_TYPE_META] ++ leBytes 4 numOfMeters) ++
        (leBytes 4 count ++ ((leBytes 2 tagLen).reverse ++ lists)) := by
    simp only [page, append_assoc]
  rw [shape, shape]
  exact increase_middle (by simp [numOfVnodesAt])

theorem startList_writes (located : pMsg = 12 + done.length) :
    startList vnode vgId ⟨page numOfMeters numOfVnodes tagLen (done ++ (zeros 54 ++ rest)), pMsg,
        ovgId, pList⟩ =
      some ⟨page numOfMeters (numOfVnodes + 1) tagLen (done ++ (listHead vnode 0 ++ rest)),
        pMsg + 54, vgId, some pMsg⟩ := by
  have place (more : List UInt8) :
      (((page numOfMeters numOfVnodes tagLen done) ++ more).length : Int) = pMsg + more.length := by
    rw [length_append, page_length, located]
    push_cast
    ring
  have counter : store32 (page numOfMeters numOfVnodes tagLen (done ++ (zeros 54 ++ rest)))
      (pMsg + 50) 0 =
        some (page numOfMeters numOfVnodes tagLen (done ++ (zeros 50 ++ (leBytes 4 0 ++ rest)))) := by
    have shape (word : List UInt8) :
        page numOfMeters numOfVnodes tagLen (done ++ (zeros 50 ++ (word ++ rest))) =
          (page numOfMeters numOfVnodes tagLen done ++ zeros 50) ++ (word ++ rest) := by
      rw [page_append, append_assoc]
    have fresh : zeros 54 ++ rest = zeros 50 ++ (zeros 4 ++ rest) := rfl
    rw [fresh, shape, shape]
    exact store32_middle (place (zeros 50)).symm rfl
  have index : store16 (page numOfMeters numOfVnodes tagLen
      (done ++ (zeros 50 ++ (leBytes 4 0 ++ rest)))) (pMsg + 48) 0 =
        some (page numOfMeters numOfVnodes tagLen
          (done ++ (zeros 48 ++ (leBytes 2 0 ++ (leBytes 4 0 ++ rest))))) := by
    have shape (word : List UInt8) :
        page numOfMeters numOfVnodes tagLen (done ++ (zeros 48 ++ (word ++ (leBytes 4 0 ++ rest)))) =
          (page numOfMeters numOfVnodes tagLen done ++ zeros 48) ++
            (word ++ (leBytes 4 0 ++ rest)) := by
      rw [page_append, append_assoc]
    have fresh : zeros 50 ++ (leBytes 4 0 ++ rest) =
        zeros 48 ++ (zeros 2 ++ (leBytes 4 0 ++ rest)) := rfl
    rw [fresh, shape, shape]
    exact store16_middle (place (zeros 48)).symm rfl
  have vnodeStored : store32 (page numOfMeters (numOfVnodes + 1) tagLen
      (done ++ (zeros 48 ++ (leBytes 2 0 ++ (leBytes 4 0 ++ rest))))) (pMsg + 4) vnode =
        some (page numOfMeters (numOfVnodes + 1) tagLen (done ++ (listHead vnode 0 ++ rest))) := by
    have shape (word : List UInt8) :
        page numOfMeters (numOfVnodes + 1) tagLen (done ++ (zeros 4 ++ (word ++
            (zeros 40 ++ (leBytes 2 0 ++ (leBytes 4 0 ++ rest)))))) =
          (page numOfMeters (numOfVnodes + 1) tagLen done ++ zeros 4) ++
            (word ++ (zeros 40 ++ (leBytes 2 0 ++ (leBytes 4 0 ++ rest)))) := by
      rw [page_append, append_assoc]
    have fresh : zeros 48 ++ (leBytes 2 0 ++ (leBytes 4 0 ++ rest)) =
        zeros 4 ++ (zeros 4 ++ (zeros 40 ++ (leBytes 2 0 ++ (leBytes 4 0 ++ rest)))) := rfl
    have header : listHead vnode 0 ++ rest = zeros 4 ++ (leBytes 4 vnode.toNat ++
        (zeros 40 ++ (leBytes 2 0 ++ (leBytes 4 0 ++ rest)))) := by
      simp only [listHead, headFront, append_assoc]
    have located' : ((pMsg + 4 : Nat) : Int) =
        (page numOfMeters (numOfVnodes + 1) tagLen done ++ zeros 4).length := by
      rw [length_append, page_length, located]
      rfl
    rw [fresh, header, shape, shape]
    exact store32_middle located' rfl
  simp only [startList, counter, bind_eq_bind, bind_some, index,
    increase_numOfVnodes, vnodeStored, sizeofSVnodeSidList]

theorem appendMeter_writes (located : pMsg = 12 + done.length + 54 + entries.length) :
    appendMeter msg (mgmtGetReqTagsLength msg)
        ⟨page numOfMeters numOfVnodes tagLen (done ++ (listHead vnode numOfSids ++
          (entries ++ (zeros (12 + mgmtGetReqTagsLength msg) ++ rest)))), pMsg, ovgId,
          some (12 + done.length)⟩ meter =
      some ⟨page (numOfMeters + 1) numOfVnodes tagLen (done ++ (listHead vnode (numOfSids + 1) ++
        (entries ++ (entryBytes msg meter ++ rest)))), pMsg + 12 + mgmtGetReqTagsLength msg, ovgId,
        some (12 + done.length)⟩ := by
  set length := mgmtGetReqTagsLength msg with lengthIs
  have counted (tail : List UInt8) : increase (page (numOfMeters + 1) numOfVnodes tagLen
      (done ++ (listHead vnode numOfSids ++ tail))) (((12 + done.length : Nat) : Int) + 50) =
        some (page (numOfMeters + 1) numOfVnodes tagLen
          (done ++ (listHead vnode (numOfSids + 1) ++ tail))) := by
    have shape (count : Nat) : page (numOfMeters + 1) numOfVnodes tagLen
        (done ++ (listHead vnode count ++ tail)) =
          (page (numOfMeters + 1) numOfVnodes tagLen done ++ headFront vnode) ++
            (leBytes 4 count ++ tail) := by
      rw [page_append, listHead, append_assoc, append_assoc]
    rw [shape, shape]
    apply increase_middle
    rw [length_append, page_length, headFront_length]
    push_cast
    ring
  set front := page (numOfMeters + 1) numOfVnodes tagLen
    (done ++ (listHead vnode (numOfSids + 1) ++ entries)) with frontIs
  have frontLength : front.length = pMsg := by
    rw [frontIs, page_length, length_append, length_append, listHead_length, located]
    omega
  have shape (tail : List UInt8) : page (numOfMeters + 1) numOfVnodes tagLen
      (done ++ (listHead vnode (numOfSids + 1) ++ (entries ++ tail))) = front ++ tail := by
    rw [frontIs, <- page_append, append_assoc, append_assoc]
  have fresh : zeros (12 + length) ++ rest = zeros 4 ++ (zeros 8 ++ (zeros length ++ rest)) := by
    rw [<- append_assoc, <- append_assoc, zeros, zeros, zeros, zeros,
      replicate_append_replicate, replicate_append_replicate]
  have sidStored : store32 (front ++ (zeros 4 ++ (zeros 8 ++ (zeros length ++ rest)))) pMsg
      meter.sid = some (front ++ (leBytes 4 meter.sid.toNat ++ (zeros 8 ++ (zeros length ++ rest)))) :=
    store32_middle (by rw [frontLength]) rfl
  have tagsStored : storeAll
      (front ++ (leBytes 4 meter.sid.toNat ++ (zeros 8 ++ (zeros length ++ rest))))
      ((pMsg + 12 : Nat) : Int) (reqTags msg meter) =
        some (front ++ (entryBytes msg meter ++ rest)) := by
    have split (tail : List UInt8) :
        front ++ (leBytes 4 meter.sid.toNat ++ (zeros 8 ++ tail)) =
          (front ++ (leBytes 4 meter.sid.toNat ++ zeros 8)) ++ tail := by
      simp only [append_assoc]
    rw [split, storeAll_middle, entryBytes]
    · simp only [append_assoc]
    · rw [length_append, frontLength]
      rfl
    · rw [reqTags_length, length_replicate]
  simp only [appendMeter, bind_eq_bind, bind_some, increase_numOfMeters, counted,
    shape, fresh, sidStored, sizeofSMeterSidExtInfo, tagsStored, reqTags_length, <- lengthIs,
    if_true]

end Steps

/-! ## Runs -/

section Runs

variable {numOfMeters numOfVnodes numOfSids tagLen vgId pMsg : Nat} {ovgId : Int}
variable {pList : Option Nat} {done entries rest : List UInt8}
variable {vnodeOf : Nat -> BitVec 32} {msg : SMetricMetaMsg metric}

theorem build_starts {w : Writing} {meter : STabObj metric} (other : (meter.vgId : Int) ≠ w.ovgId) :
    mgmtBuildMetricMetaMsg vnodeOf msg tagLen INT32_MAX w meter =
      (startList (vnodeOf meter.vgId) meter.vgId w).bind fun w => appendMeter msg tagLen w meter := by
  simp only [mgmtBuildMetricMetaMsg, startsList, if_pos other, bind_eq_bind, bind_some, if_true]

/-- A meter of the open list goes into that list while its counter is below the limit. -/
theorem build_continues {vnode : BitVec 32} {tail : List UInt8} {meter : STabObj metric}
    (same : meter.vgId = vgId) (few : numOfSids < INT32_MAX) :
    mgmtBuildMetricMetaMsg vnodeOf msg tagLen INT32_MAX
        ⟨page numOfMeters numOfVnodes tagLen (done ++ (listHead vnode numOfSids ++ tail)), pMsg,
          vgId, some (12 + done.length)⟩ meter = appendMeter msg tagLen
        ⟨page numOfMeters numOfVnodes tagLen (done ++ (listHead vnode numOfSids ++ tail)), pMsg,
          vgId, some (12 + done.length)⟩ meter := by
  have counter : load32 (page numOfMeters numOfVnodes tagLen
      (done ++ (listHead vnode numOfSids ++ tail))) (((12 + done.length : Nat) : Int) + 50) =
        some (BitVec.ofNat 32 numOfSids) := by
    have shape : page numOfMeters numOfVnodes tagLen (done ++ (listHead vnode numOfSids ++ tail)) =
        (page numOfMeters numOfVnodes tagLen done ++ headFront vnode) ++
          (leBytes 4 numOfSids ++ tail) := by
      rw [page_append, listHead, append_assoc, append_assoc]
    rw [shape]
    apply load32_middle
    rw [length_append, page_length, headFront_length]
    push_cast
    ring
  have small : (BitVec.ofNat 32 numOfSids).toInt = numOfSids :=
    toInt_ofNat32 (few.trans (by decide))
  have open' : ¬ (INT32_MAX : Int) ≤ numOfSids := by omega
  simp only [mgmtBuildMetricMetaMsg, startsList, same, ne_eq, not_true_eq_false, if_false,
    counter, Option.map_some, small, open', decide_false, bind_eq_bind, bind_some,
    Bool.false_eq_true]

theorem appendMeters_writes {vnode : BitVec 32} (meters : List (STabObj metric))
    (same : ∀ meter ∈ meters, meter.vgId = vgId) (few : numOfSids + meters.length ≤ INT32_MAX)
    (located : pMsg = 12 + done.length + 54 + entries.length) :
    meters.foldlM (mgmtBuildMetricMetaMsg vnodeOf msg (mgmtGetReqTagsLength msg) INT32_MAX)
        ⟨page numOfMeters numOfVnodes (mgmtGetReqTagsLength msg) (done ++ (listHead vnode numOfSids ++
          (entries ++ (zeros ((12 + mgmtGetReqTagsLength msg) * meters.length) ++ rest)))), pMsg,
          vgId, some (12 + done.length)⟩ =
      some ⟨page (numOfMeters + meters.length) numOfVnodes (mgmtGetReqTagsLength msg)
        (done ++ (listHead vnode (numOfSids + meters.length) ++
          (entries ++ (meters.flatMap (entryBytes msg) ++ rest)))),
        pMsg + (12 + mgmtGetReqTagsLength msg) * meters.length, vgId, some (12 + done.length)⟩ := by
  induction meters generalizing numOfMeters numOfSids entries pMsg with
  | nil => rfl
  | cons meter others ih =>
    simp only [length_cons] at few ⊢
    set width := 12 + mgmtGetReqTagsLength msg with widthIs
    have split : zeros (width * (others.length + 1)) ++ rest =
        zeros width ++ (zeros (width * others.length) ++ rest) := by
      rw [<- append_assoc, zeros, zeros, zeros, replicate_append_replicate]
      congr 2
      ring
    have moved (tail : List UInt8) : entries ++ (entryBytes msg meter ++ tail) =
        (entries ++ entryBytes msg meter) ++ tail := by
      rw [append_assoc]
    rw [foldlM_cons, build_continues (same meter mem_cons_self) (by omega), split,
      widthIs, appendMeter_writes located, bind_eq_bind, bind_some, <- widthIs, moved,
      ih (fun other member => same other (mem_cons_of_mem meter member)) (by omega)]
    · rw [flatMap_cons, append_assoc, append_assoc]
      congr 2
      · rw [Nat.add_assoc numOfMeters, Nat.add_assoc numOfSids, Nat.add_comm 1]
      · rw [widthIs]
        ring
    · rw [length_append, entryBytes_length, located]
      omega

/-- The first meter of a vgroup starts a list and then goes into it like the others. -/
theorem build_begins {tail : List UInt8} {meter : STabObj metric} (same : meter.vgId = vgId)
    (other : (vgId : Int) ≠ ovgId) : mgmtBuildMetricMetaMsg vnodeOf msg tagLen INT32_MAX
        ⟨page numOfMeters numOfVnodes tagLen (done ++ (zeros 54 ++ tail)), 12 + done.length, ovgId,
          pList⟩ meter = mgmtBuildMetricMetaMsg vnodeOf msg tagLen INT32_MAX
        ⟨page numOfMeters (numOfVnodes + 1) tagLen (done ++ (listHead (vnodeOf vgId) 0 ++ tail)),
          12 + done.length + 54, vgId, some (12 + done.length)⟩ meter := by
  rw [build_starts (by rw [same]; exact other), startList_writes rfl, bind_some, same,
    build_continues same (by decide)]

theorem list_writes (meters : List (STabObj metric)) (filled : meters ≠ [])
    (same : ∀ meter ∈ meters, meter.vgId = vgId) (few : meters.length ≤ INT32_MAX)
    (other : (vgId : Int) ≠ ovgId) :
    meters.foldlM (mgmtBuildMetricMetaMsg vnodeOf msg (mgmtGetReqTagsLength msg) INT32_MAX)
        ⟨page numOfMeters numOfVnodes (mgmtGetReqTagsLength msg)
          (done ++ (zeros (54 + (12 + mgmtGetReqTagsLength msg) * meters.length) ++ rest)),
          12 + done.length, ovgId, pList⟩ =
      some ⟨page (numOfMeters + meters.length) (numOfVnodes + 1) (mgmtGetReqTagsLength msg)
        ((done ++ listBytes vnodeOf msg (vgId, meters)) ++ rest),
        12 + (done ++ listBytes vnodeOf msg (vgId, meters)).length, vgId,
        some (12 + done.length)⟩ := by
  set width := 12 + mgmtGetReqTagsLength msg with widthIs
  have split : zeros (54 + width * meters.length) ++ rest =
      zeros 54 ++ (zeros (width * meters.length) ++ rest) := by
    rw [<- append_assoc, zeros, zeros, zeros, replicate_append_replicate]
  have begun (tail : List UInt8) : meters.foldlM
      (mgmtBuildMetricMetaMsg vnodeOf msg (mgmtGetReqTagsLength msg) INT32_MAX)
      ⟨page numOfMeters numOfVnodes (mgmtGetReqTagsLength msg) (done ++ (zeros 54 ++ tail)),
        12 + done.length, ovgId, pList⟩ =
      meters.foldlM (mgmtBuildMetricMetaMsg vnodeOf msg (mgmtGetReqTagsLength msg) INT32_MAX)
        ⟨page numOfMeters (numOfVnodes + 1) (mgmtGetReqTagsLength msg)
          (done ++ (listHead (vnodeOf vgId) 0 ++ ([] ++ tail))), 12 + done.length + 54, vgId,
          some (12 + done.length)⟩ := by
    cases meters with
    | nil => exact absurd rfl filled
    | cons meter others =>
      rw [foldlM_cons, foldlM_cons, build_begins (same meter mem_cons_self) other, nil_append]
  have whole : listBytes vnodeOf msg (vgId, meters) =
      listHead (vnodeOf vgId) meters.length ++ meters.flatMap (entryBytes msg) := rfl
  have located : 12 + done.length + 54 = 12 + done.length + 54 + ([] : List UInt8).length := rfl
  rw [split, begun, widthIs, appendMeters_writes meters same (by omega) located]
  congr 2
  · rw [whole, Nat.zero_add, nil_append]
    simp only [append_assoc]
  · rw [length_append, listBytes_length, <- widthIs]
    dsimp only
    ring

theorem keys_after {meters : List (STabObj metric)} {more : List (Nat × List (STabObj metric))}
    (distinct : (((vgId, meters) :: more).map Prod.fst).Nodup) :
    ∀ group ∈ more, (group.1 : Int) ≠ vgId := by
  intro group member equal
  apply (nodup_cons.mp distinct).1
  rw [mem_map]
  exact ⟨group, member, Int.ofNat_inj.mp equal⟩

theorem lists_write (groups : List (Nat × List (STabObj metric)))
    (filled : ∀ group ∈ groups, group.2 ≠ [])
    (same : ∀ group ∈ groups, ∀ meter ∈ group.2, meter.vgId = group.1)
    (few : ∀ group ∈ groups, group.2.length ≤ INT32_MAX) (distinct : (groups.map Prod.fst).Nodup)
    (other : ∀ group ∈ groups, (group.1 : Int) ≠ ovgId) :
    ∃ ovgId' pList', (groups.flatMap Prod.snd).foldlM
        (mgmtBuildMetricMetaMsg vnodeOf msg (mgmtGetReqTagsLength msg) INT32_MAX)
        ⟨page numOfMeters numOfVnodes (mgmtGetReqTagsLength msg)
          (done ++ (zeros (groups.flatMap (listBytes vnodeOf msg)).length ++ rest)),
          12 + done.length, ovgId, pList⟩ =
      some ⟨page (numOfMeters + (groups.flatMap Prod.snd).length) (numOfVnodes + groups.length)
        (mgmtGetReqTagsLength msg) (done ++ (groups.flatMap (listBytes vnodeOf msg) ++ rest)),
        12 + done.length + (groups.flatMap (listBytes vnodeOf msg)).length, ovgId', pList'⟩ := by
  induction groups generalizing numOfMeters numOfVnodes ovgId pList done with
  | nil => exact ⟨ovgId, pList, rfl⟩
  | cons group more ih =>
    obtain ⟨vgId, meters⟩ := group
    have distinctMore := (nodup_cons.mp distinct).2
    have others := keys_after distinct
    set list := listBytes vnodeOf msg (vgId, meters) with listIs
    have length : 54 + (12 + mgmtGetReqTagsLength msg) * meters.length = list.length := by
      rw [listIs, listBytes_length]
    have split : zeros (list ++ more.flatMap (listBytes vnodeOf msg)).length ++ rest =
        zeros (54 + (12 + mgmtGetReqTagsLength msg) * meters.length) ++
          (zeros (more.flatMap (listBytes vnodeOf msg)).length ++ rest) := by
      rw [<- append_assoc, zeros, zeros, zeros, replicate_append_replicate, length, length_append]
    obtain ⟨ovgId', pList', rests⟩ := @ih (numOfMeters + meters.length) (numOfVnodes + 1) vgId
      (some (12 + done.length)) (done ++ list)
      (fun group member => filled group (mem_cons_of_mem _ member))
      (fun group member => same group (mem_cons_of_mem _ member))
      (fun group member => few group (mem_cons_of_mem _ member)) distinctMore others
    refine ⟨ovgId', pList', ?_⟩
    rw [flatMap_cons, flatMap_cons, List.foldlM_append, split,
      list_writes meters (filled _ mem_cons_self) (same _ mem_cons_self)
        (few _ mem_cons_self) (other _ mem_cons_self), bind_eq_bind, bind_some, rests]
    congr 2
    · rw [length_append, length_cons, append_assoc, append_assoc,
        Nat.add_assoc numOfMeters, Nat.add_assoc numOfVnodes, Nat.add_comm 1]
    · rw [length_append, length_append, <- listIs]
      omega

end Runs

/-! ## The groups of the result list -/

section Groups

section

variable (meters : List (STabObj metric))
include meters

theorem runs_flatMap : (vgroupRuns meters).flatMap Prod.snd = meters := by
  induction meters with
  | nil => rfl
  | cons meter rest ih =>
    unfold vgroupRuns
    split
    next empty => rw [<- ih, empty]; rfl
    next vgId meters more runs =>
      rw [runs] at ih
      split
      all_goals rw [<- ih]; rfl

theorem runs_filled : ∀ group ∈ vgroupRuns meters, group.2 ≠ [] := by
  induction meters with
  | nil => intro group member; cases member
  | cons meter rest ih =>
    unfold vgroupRuns
    split
    next => simp
    next vgId meters more runs =>
      rw [runs] at ih
      split
      all_goals
        intro group member
        rcases mem_cons.mp member with rfl | later
      · exact List.cons_ne_nil _ _
      · exact ih group (mem_cons_of_mem _ later)
      · exact List.cons_ne_nil _ _
      · exact ih group later

theorem runs_same : ∀ group ∈ vgroupRuns meters, ∀ meter ∈ group.2, meter.vgId = group.1 := by
  induction meters with
  | nil => intro group member; cases member
  | cons first rest ih =>
    unfold vgroupRuns
    split
    next => simp
    next vgId meters more runs =>
      rw [runs] at ih
      split
      all_goals
        intro group member meter inside
        rcases mem_cons.mp member with rfl | later
      next equal =>
        rcases mem_cons.mp inside with rfl | old
        · exact equal.symm
        · exact ih _ mem_cons_self meter old
      next => exact ih group (mem_cons_of_mem _ later) meter inside
      next => rw [List.mem_singleton.mp inside]
      next => exact ih group later meter inside

end

variable {meters : List (STabObj metric)}

section

variable {group : Nat × List (STabObj metric)} (member : group ∈ vgroupRuns meters)

include member

theorem runs_key : ∃ meter ∈ meters, meter.vgId = group.1 := by
  obtain ⟨meter, inside⟩ := List.exists_mem_of_ne_nil _ (runs_filled meters group member)
  have listed : meter ∈ (vgroupRuns meters).flatMap Prod.snd :=
    List.mem_flatMap.mpr ⟨group, member, inside⟩
  rw [runs_flatMap] at listed
  exact ⟨meter, listed, runs_same meters group member meter inside⟩

theorem run_length : group.2.length ≤ meters.length := by
  have inside : group.2.Sublist ((vgroupRuns meters).map Prod.snd).flatten :=
    List.sublist_flatten_of_mem (List.mem_map_of_mem member)
  rw [<- List.flatMap_def, runs_flatMap] at inside
  exact inside.length_le

end

theorem runs_ordered (sorted : meters.Pairwise fun a b => a.vgId ≤ b.vgId) :
    ((vgroupRuns meters).map Prod.fst).Pairwise (· < ·) := by
  induction meters with
  | nil => exact List.Pairwise.nil
  | cons meter rest ih =>
    obtain ⟨below, sortedRest⟩ := pairwise_cons.mp sorted
    have keys := ih sortedRest
    have least : ∀ group ∈ vgroupRuns rest, meter.vgId ≤ group.1 := by
      intro group member
      obtain ⟨other, inside, equal⟩ := runs_key member
      rw [<- equal]
      exact below other inside
    unfold vgroupRuns
    split
    next => simp
    next vgId meters more runs =>
      rw [runs] at keys least
      split
      next => exact keys
      next different =>
        rw [map_cons, map_cons, pairwise_cons]
        have smaller : meter.vgId < vgId :=
          lt_of_le_of_ne (least _ mem_cons_self) (Ne.symm different)
        refine ⟨?_, keys⟩
        intro key member
        rcases mem_cons.mp member with rfl | later
        · exact smaller
        · exact smaller.trans ((pairwise_cons.mp keys).1 key later)

theorem runs_nodup (sorted : meters.Pairwise fun a b => a.vgId ≤ b.vgId) :
    ((vgroupRuns meters).map Prod.fst).Nodup :=
  (runs_ordered sorted).imp fun below => Nat.ne_of_lt below

theorem countVnode_eq (ovgId : Int) (count : Nat) (meter : STabObj metric) :
    countVnode (ovgId, count) meter =
      if (meter.vgId : Int) ≠ ovgId then ((meter.vgId : Int), count + 1) else (ovgId, count) := by
  unfold countVnode
  by_cases first : ovgId = -1
  · have other : (meter.vgId : Int) ≠ ovgId := by omega
    rw [if_pos first, if_pos other]
  · rw [if_neg first]
    by_cases same : ovgId = meter.vgId
    · rw [if_neg (not_not.mpr same), if_neg (not_not.mpr same.symm)]
    · rw [if_pos same, if_pos (Ne.symm same)]

theorem count_same {vgId : Nat} (meters : List (STabObj metric)) (count : Nat)
    (same : ∀ meter ∈ meters, meter.vgId = vgId) :
    meters.foldl countVnode ((vgId : Int), count) = ((vgId : Int), count) := by
  induction meters with
  | nil => rfl
  | cons meter rest ih =>
    rw [foldl_cons, countVnode_eq, same meter mem_cons_self, if_neg (not_not.mpr rfl)]
    exact ih fun other member => same other (mem_cons_of_mem meter member)

theorem count_runs (groups : List (Nat × List (STabObj metric))) {ovgId : Int} (count : Nat)
    (filled : ∀ group ∈ groups, group.2 ≠ [])
    (same : ∀ group ∈ groups, ∀ meter ∈ group.2, meter.vgId = group.1)
    (distinct : (groups.map Prod.fst).Nodup) (other : ∀ group ∈ groups, (group.1 : Int) ≠ ovgId) :
    ((groups.flatMap Prod.snd).foldl countVnode (ovgId, count)).2 = count + groups.length := by
  induction groups generalizing ovgId count with
  | nil => rfl
  | cons group more ih =>
    obtain ⟨vgId, meters⟩ := group
    have distinctMore := (nodup_cons.mp distinct).2
    have others := keys_after distinct
    have sameHere := same _ mem_cons_self
    have begun : meters.foldl countVnode (ovgId, count) = ((vgId : Int), count + 1) := by
      cases meters with
      | nil => exact absurd rfl (filled _ mem_cons_self)
      | cons meter rest =>
        have vgIdIs : meter.vgId = vgId := sameHere meter mem_cons_self
        have started : (meter.vgId : Int) ≠ ovgId := by
          rw [vgIdIs]
          exact other _ mem_cons_self
        rw [foldl_cons, countVnode_eq, if_pos started, vgIdIs]
        exact count_same rest _ fun meter member =>
          sameHere meter (mem_cons_of_mem _ member)
    rw [flatMap_cons, List.foldl_append, begun,
      ih _ (fun group member => filled group (mem_cons_of_mem _ member))
        (fun group member => same group (mem_cons_of_mem _ member)) distinctMore others,
      length_cons]
    omega

theorem numOfVnodes_eq (sorted : meters.Pairwise fun a b => a.vgId ≤ b.vgId) :
    mgmtGetNumOfVnodesInResult meters = (vgroupRuns meters).length := by
  have counted := count_runs (vgroupRuns meters) 0 (runs_filled meters) (runs_same meters)
    (runs_nodup sorted) (fun group _ => by omega : ∀ group ∈ vgroupRuns meters, (group.1 : Int) ≠ -1)
  rw [runs_flatMap, Nat.zero_add] at counted
  exact counted

end Groups

/-! ## The whole reply -/

section Whole

variable {vnodeOf : Nat -> BitVec 32} {msg : SMetricMetaMsg metric}

def rpcHead : Nat := sizeofSMsgNode + sizeofSTaosHeader + sizeofSTaosDigest

theorem built_fits {size : Nat} (fits : size + rpcHead < 2 ^ 31) :
    taosBuildRspMsgWithSize (BitVec.ofNat 32 size) =
      some (zeros (size + (sizeofSMsgNode + sizeofSTaosDigest))) := by
  have sum : BitVec.ofNat 32 size +
      BitVec.ofNat 32 (sizeofSMsgNode + sizeofSTaosHeader + sizeofSTaosDigest) =
        BitVec.ofNat 32 (size + rpcHead) := by
    rw [<- BitVec.ofNat_add]
    rfl
  have whole : (BitVec.ofNat 32 (size + rpcHead)).toNat = size + rpcHead := by
    rw [BitVec.toNat_ofNat, Nat.mod_eq_of_lt (by omega)]
  have enough : ¬ ((size + rpcHead : Nat) : Int) < sizeofSTaosHeader := by
    simp only [rpcHead, sizeofSMsgNode, sizeofSTaosHeader, sizeofSTaosDigest]
    omega
  rw [taosBuildRspMsgWithSize, sum, toInt_ofNat32 fits, if_neg enough, whole]
  congr 2

theorem startReply_writes (tagLen count : Nat) :
    startReply tagLen (zeros (12 + count)) = some (page 0 0 tagLen (zeros count)) := by
  have fresh : zeros (12 + count) =
      zeros 1 ++ (zeros 1 ++ (zeros 4 ++ (zeros 4 ++ (zeros 2 ++ zeros count)))) := by
    simp only [zeros, replicate_append_replicate]
    congr 1
    omega
  have code (tail : List UInt8) : store (zeros 1 ++ tail) 0 [TSDB_CODE_SUCCESS] =
      some ([TSDB_CODE_SUCCESS] ++ tail) :=
    @store_middle [] (zeros 1) tail [TSDB_CODE_SUCCESS] 0 rfl rfl
  have ieType (tail : List UInt8) : store ([TSDB_CODE_SUCCESS] ++ (zeros 1 ++ tail)) 1
      [TSDB_IE_TYPE_META] = some ([TSDB_CODE_SUCCESS, TSDB_IE_TYPE_META] ++ tail) :=
    @store_middle [TSDB_CODE_SUCCESS] (zeros 1) tail [TSDB_IE_TYPE_META] 1 rfl rfl
  have meters (tail : List UInt8) : store32 ([TSDB_CODE_SUCCESS, TSDB_IE_TYPE_META] ++
      (zeros 4 ++ tail)) numOfMetersAt 0 =
        some ([TSDB_CODE_SUCCESS, TSDB_IE_TYPE_META] ++ (leBytes 4 0 ++ tail)) :=
    store32_middle rfl rfl
  have vnodes (tail : List UInt8) : store32 ([TSDB_CODE_SUCCESS, TSDB_IE_TYPE_META] ++
      (leBytes 4 0 ++ (zeros 4 ++ tail))) numOfVnodesAt 0 =
        some ([TSDB_CODE_SUCCESS, TSDB_IE_TYPE_META] ++ (leBytes 4 0 ++ (leBytes 4 0 ++ tail))) := by
    rw [<- append_assoc, store32_middle (by rfl) (by rfl)]
    rfl
  have tagLenStored : store16 ([TSDB_CODE_SUCCESS, TSDB_IE_TYPE_META] ++
      (leBytes 4 0 ++ (leBytes 4 0 ++ (zeros 2 ++ zeros count)))) tagLenAt
        (reverseBytes 2 (BitVec.ofNat 16 tagLen)) = some (page 0 0 tagLen (zeros count)) := by
    rw [<- append_assoc, <- append_assoc, store16_middle (by rfl) (by rfl),
      leBytes_reverseBytes (by decide), leBytes_ofNat16]
    rfl
  simp only [startReply, fresh, code, ieType, meters, vnodes, tagLenStored, bind_eq_bind, bind_some]

theorem htonlAt_writes {left right : List UInt8} {place : Int} {value : Nat}
    (located : place = left.length) : htonlAt (left ++ (leBytes 4 value ++ right)) place =
      some (left ++ ((leBytes 4 value).reverse ++ right)) := by
  rw [htonlAt, load32_middle located, bind_eq_bind, bind_some,
    store32_middle located (leBytes_length ..), leBytes_reverseBytes (by decide), leBytes_ofNat32]

theorem finish_writes (numOfMeters numOfVnodes tagLen : Nat) (lists free : List UInt8) :
    ((htonlAt (page numOfMeters numOfVnodes tagLen (lists ++ free)) numOfMetersAt).bind
      fun content => (htonlAt content numOfVnodesAt).bind
        fun content => some (content.take (12 + lists.length))) =
    some ([TSDB_CODE_SUCCESS, TSDB_IE_TYPE_META] ++ ((leBytes 4 numOfMeters).reverse ++
      ((leBytes 4 numOfVnodes).reverse ++ ((leBytes 2 tagLen).reverse ++ lists)))) := by
  have meters : htonlAt (page numOfMeters numOfVnodes tagLen (lists ++ free)) numOfMetersAt =
      some ([TSDB_CODE_SUCCESS, TSDB_IE_TYPE_META] ++ ((leBytes 4 numOfMeters).reverse ++
        (leBytes 4 numOfVnodes ++ ((leBytes 2 tagLen).reverse ++ (lists ++ free))))) :=
    htonlAt_writes rfl
  have vnodes : htonlAt ([TSDB_CODE_SUCCESS, TSDB_IE_TYPE_META] ++
      ((leBytes 4 numOfMeters).reverse ++ (leBytes 4 numOfVnodes ++
        ((leBytes 2 tagLen).reverse ++ (lists ++ free))))) numOfVnodesAt =
      some (([TSDB_CODE_SUCCESS, TSDB_IE_TYPE_META] ++ ((leBytes 4 numOfMeters).reverse ++
        ((leBytes 4 numOfVnodes).reverse ++ ((leBytes 2 tagLen).reverse ++ lists)))) ++ free) := by
    rw [<- append_assoc, htonlAt_writes (by simp [numOfVnodesAt])]
    simp only [append_assoc]
  rw [meters, bind_some, vnodes, bind_some, List.take_left']
  simp
  omega

theorem size_covers (vnodeOf : Nat -> BitVec 32) (msg : SMetricMetaMsg metric)
    {meters : List (STabObj metric)} (sorted : meters.Pairwise fun a b => a.vgId ≤ b.vgId) :
    (replyBytes vnodeOf msg (vgroupRuns meters)).length ≤
      metricMetaMsgSize meters (mgmtGetReqTagsLength msg) INT32_MAX := by
  have written := lists_length vnodeOf msg (vgroupRuns meters)
  rw [runs_flatMap] at written
  have size := numOfVnodes_eq sorted
  simp only [replyBytes, length_append, List.length_reverse, leBytes_length, written,
    metricMetaMsgSize, size, sizeofSMeterSidExtInfo, sizeofSVnodeSidList, sizeofSMetricMeta,
    length_cons, length_nil]
  have more : 54 * (vgroupRuns meters).length ≤
      (meters.length / INT32_MAX + 1 + (vgroupRuns meters).length) * 54 := by
    rw [Nat.mul_comm]
    exact Nat.mul_le_mul_right 54 (Nat.le_add_left ..)
  omega

theorem reply_of_fits {meters : List (STabObj metric)}
    (sorted : meters.Pairwise fun a b => a.vgId ≤ b.vgId)
    (fits : metricMetaMsgSize meters (mgmtGetReqTagsLength msg) INT32_MAX + rpcHead < 2 ^ 31) :
    mgmtRetrieveMetricMeta vnodeOf msg meters =
      some (replyBytes vnodeOf msg (vgroupRuns meters)) := by
  set size := metricMetaMsgSize meters (mgmtGetReqTagsLength msg) INT32_MAX with sizeIs
  set lists := (vgroupRuns meters).flatMap (listBytes vnodeOf msg) with listsIs
  have covers := size_covers vnodeOf msg sorted
  have room : ∃ free, size + (sizeofSMsgNode + sizeofSTaosDigest) = 12 + (lists.length + free) := by
    simp only [replyBytes, length_append, List.length_reverse, leBytes_length,
      length_cons, length_nil, <- listsIs, <- sizeIs] at covers
    exact ⟨size + (sizeofSMsgNode + sizeofSTaosDigest) - (12 + lists.length), by omega⟩
  obtain ⟨free, roomIs⟩ := room
  have few : ∀ group ∈ vgroupRuns meters, group.2.length ≤ INT32_MAX := by
    intro group member
    have part := run_length member
    have least : 12 * meters.length ≤ (12 + mgmtGetReqTagsLength msg) * meters.length :=
      Nat.mul_le_mul_right _ (Nat.le_add_right ..)
    rw [metricMetaMsgSize, sizeofSMeterSidExtInfo] at sizeIs
    have : INT32_MAX = 2147483647 := rfl
    omega
  obtain ⟨ovgId, pList, written⟩ := @lists_write metric 0 0 (-1) none [] (zeros free) vnodeOf msg
    (vgroupRuns meters) (runs_filled meters) (runs_same meters) few (runs_nodup sorted)
    (fun group _ => by omega)
  have fresh : zeros (lists.length + free) = [] ++ (zeros lists.length ++ zeros free) := by
    rw [nil_append, zeros, zeros, zeros, replicate_append_replicate]
  rw [runs_flatMap, <- listsIs] at written
  have finished := finish_writes meters.length (vgroupRuns meters).length
    (mgmtGetReqTagsLength msg) lists (zeros free)
  simp only [nil_append, length_nil, Nat.zero_add, Nat.add_zero] at written fresh
  simp only [mgmtRetrieveMetricMeta, mgmtGetMetricMetaMsgSize, <- sizeIs, built_fits fits, roomIs,
    bind_eq_bind, bind_some, startReply_writes, fresh, sizeofSMetricMeta]
  rw [written, bind_some]
  dsimp only
  rw [finished, replyBytes, runs_flatMap, <- listsIs]

end Whole

/-! ## Replies that do not fit -/

section Unfit

variable {vnodeOf : Nat -> BitVec 32} {msg : SMetricMetaMsg metric} {w w' : Writing}

theorem reqTagLength_lt (metric : SMetric) (col : Int) : reqTagLength metric col < 2 ^ 15 := by
  unfold reqTagLength
  split
  next => decide
  next =>
    rw [List.getD_eq_getElem?_getD]
    rcases Nat.lt_or_ge col.toNat metric.tagBytes.length with inside | outside
    · rw [List.getElem?_eq_getElem inside, getD_some]
      exact metric.short _ (List.getElem_mem inside)
    · rw [List.getElem?_eq_none outside]
      decide

theorem reqTagsLength_lt (msg : SMetricMetaMsg metric) : mgmtGetReqTagsLength msg < 2 ^ 18 := by
  have bounded : ∀ length ∈ msg.tagCols.map (reqTagLength metric), length ≤ 2 ^ 15 := by
    intro length member
    obtain ⟨col, _, rfl⟩ := mem_map.mp member
    exact (reqTagLength_lt metric col).le
  have sum := List.sum_le_card_nsmul _ _ bounded
  have few := msg.few
  rw [List.length_map, smul_eq_mul] at sum
  rw [mgmtGetReqTagsLength]
  have : TSDB_MAX_TAGS = 6 := rfl
  omega

theorem appendMeter_progress {meter : STabObj metric}
    (ran : appendMeter msg (mgmtGetReqTagsLength msg) w meter = some w') :
    w'.content.length = w.content.length ∧ w'.ovgId = w.ovgId ∧
      w'.pMsg = w.pMsg + 12 + mgmtGetReqTagsLength msg ∧ w.pMsg + 4 ≤ w.content.length := by
  simp only [appendMeter, bind_eq_bind, bind_eq_some_iff] at ran
  obtain ⟨pList, _, one, metersCounted, two, sidsCounted, three, sidStored, four, tagsStored, last⟩ :=
    ran
  rw [if_pos (reqTags_length msg meter)] at last
  obtain rfl := some.inj last
  have lengthOne := increase_inside metersCounted
  have lengthTwo := increase_inside sidsCounted
  have sidInside := store_inside sidStored
  have lengthFour := storeAll_inside tagsStored
  rw [leBytes_length] at sidInside
  refine ⟨?_, rfl, ?_, ?_⟩
  · rw [lengthFour, sidInside.2.2, lengthTwo, lengthOne]
  · dsimp only
    rw [reqTags_length, sizeofSMeterSidExtInfo]
  · have := sidInside.2.1
    omega

theorem startList_progress {vnode : BitVec 32} {vgId : Nat}
    (ran : startList vnode vgId w = some w') :
    w'.content.length = w.content.length ∧ w'.ovgId = vgId ∧ w'.pMsg = w.pMsg + 54 := by
  simp only [startList, bind_eq_bind, bind_eq_some_iff] at ran
  obtain ⟨one, counterStored, two, indexStored, three, counted, four, vnodeStored, last⟩ := ran
  obtain rfl := some.inj last
  refine ⟨?_, rfl, rfl⟩
  rw [(store_inside vnodeStored).2.2, increase_inside counted, (store_inside indexStored).2.2,
    (store_inside counterStored).2.2]

theorem build_progress {meter : STabObj metric} {maxNumOfMeters : Nat}
    (ran : mgmtBuildMetricMetaMsg vnodeOf msg (mgmtGetReqTagsLength msg) maxNumOfMeters w meter =
      some w') :
    w'.content.length = w.content.length ∧ w'.ovgId = meter.vgId ∧
      w.pMsg + (if (meter.vgId : Int) ≠ w.ovgId then 54 else 0) + 12 + mgmtGetReqTagsLength msg ≤
        w'.pMsg ∧
      w'.pMsg ≤ w.content.length + 8 + mgmtGetReqTagsLength msg := by
  rw [mgmtBuildMetricMetaMsg, bind_eq_bind, bind_eq_some_iff] at ran
  obtain ⟨starts, decided, written⟩ := ran
  cases starts with
  | true =>
    rw [if_pos rfl, bind_eq_bind, bind_eq_some_iff] at written
    obtain ⟨opened, started, appended⟩ := written
    obtain ⟨lengthAppended, ovgIdAppended, pMsgAppended, inside⟩ := appendMeter_progress appended
    obtain ⟨lengthStarted, ovgIdStarted, pMsgStarted⟩ := startList_progress started
    have ovgId : w'.ovgId = meter.vgId := ovgIdAppended.trans ovgIdStarted
    refine ⟨lengthAppended.trans lengthStarted, ovgId, ?_, ?_⟩
    · split <;> omega
    · omega
  | false =>
    have same : (meter.vgId : Int) = w.ovgId := by
      by_contra other
      rw [startsList, if_pos other] at decided
      cases decided
    rw [if_neg Bool.false_ne_true, bind_eq_bind, bind_some] at written
    obtain ⟨lengthAppended, ovgIdAppended, pMsgAppended, inside⟩ := appendMeter_progress written
    rw [if_neg (not_not.mpr same)]
    exact ⟨lengthAppended, ovgIdAppended.trans same.symm, by omega, by omega⟩

theorem run_progress (meters : List (STabObj metric)) (count : Nat) (ran : meters.foldlM
      (mgmtBuildMetricMetaMsg vnodeOf msg (mgmtGetReqTagsLength msg) INT32_MAX) w = some w') :
    w.pMsg + (12 + mgmtGetReqTagsLength msg) * meters.length +
        54 * (meters.foldl countVnode (w.ovgId, count)).2 ≤ w'.pMsg + 54 * count ∧
      (meters = [] ∨ w'.pMsg ≤ w.content.length + 8 + mgmtGetReqTagsLength msg) := by
  induction meters generalizing w count with
  | nil =>
    obtain rfl := some.inj ran
    exact ⟨le_refl _, .inl rfl⟩
  | cons meter rest ih =>
    rw [foldlM_cons, bind_eq_bind, bind_eq_some_iff] at ran
    obtain ⟨between, first, others⟩ := ran
    obtain ⟨length, ovgId, moved, inside⟩ := build_progress first
    rw [foldl_cons, countVnode_eq, length_cons, Nat.mul_succ]
    by_cases other : (meter.vgId : Int) ≠ w.ovgId
    · have later := ih (count + 1) others
      rw [ovgId] at later
      rw [if_pos other] at moved ⊢
      refine ⟨by omega, .inr ?_⟩
      rcases later.2 with rfl | bounded
      · obtain rfl := some.inj others
        exact inside
      · rwa [length] at bounded
    · have later := ih count others
      have same : w.ovgId = meter.vgId := (not_not.mp other).symm
      rw [ovgId] at later
      rw [if_neg other] at moved ⊢
      rw [same]
      refine ⟨by omega, .inr ?_⟩
      rcases later.2 with rfl | bounded
      · obtain rfl := some.inj others
        exact inside
      · rwa [length] at bounded

theorem startReply_length {tagLen : Nat} {content content' : List UInt8}
    (ran : startReply tagLen content = some content') : content'.length = content.length := by
  simp only [startReply, bind_eq_bind, bind_eq_some_iff] at ran
  obtain ⟨one, code, two, ieType, three, meters, four, vnodes, last⟩ := ran
  rw [(store_inside last).2.2, (store_inside vnodes).2.2, (store_inside meters).2.2,
    (store_inside ieType).2.2, (store_inside code).2.2]

theorem built_cut {size : Nat} {content : List UInt8} (large : ¬ size + rpcHead < 2 ^ 31)
    (built : taosBuildRspMsgWithSize (BitVec.ofNat 32 size) = some content) :
    content.length < 2 ^ 31 ∧ content.length + 2 ^ 32 ≤ size + rpcHead := by
  have sum : BitVec.ofNat 32 size +
      BitVec.ofNat 32 (sizeofSMsgNode + sizeofSTaosHeader + sizeofSTaosDigest) =
        BitVec.ofNat 32 (size + rpcHead) := by
    rw [<- BitVec.ofNat_add]
    rfl
  rw [taosBuildRspMsgWithSize, sum] at built
  split at built
  next => cases built
  next enough =>
    obtain rfl := some.inj built
    have header : sizeofSTaosHeader = 48 := rfl
    rw [length_replicate]
    rw [BitVec.toInt_eq_toNat_cond, BitVec.toNat_ofNat] at enough
    rw [BitVec.toNat_ofNat]
    split at enough <;> omega

theorem no_reply {meters : List (STabObj metric)}
    (large : ¬ metricMetaMsgSize meters (mgmtGetReqTagsLength msg) INT32_MAX + rpcHead < 2 ^ 31) :
    mgmtRetrieveMetricMeta vnodeOf msg meters = none := by
  rw [<- Option.not_isSome_iff_eq_none, Option.isSome_iff_exists]
  rintro ⟨reply, replied⟩
  simp only [mgmtRetrieveMetricMeta, bind_eq_bind, bind_eq_some_iff] at replied
  obtain ⟨content, allocated, head, started, w, ran, finished⟩ := replied
  obtain ⟨small, cut⟩ := built_cut large allocated
  obtain ⟨taken, room⟩ := run_progress meters 0 ran
  have length := startReply_length started
  have tags := reqTagsLength_lt msg
  dsimp only at taken room
  rw [metricMetaMsgSize] at cut
  rw [<- mgmtGetNumOfVnodesInResult] at taken
  have limit : INT32_MAX = 2147483647 := rfl
  have heads : rpcHead = 92 := rfl
  have sizes : sizeofSMeterSidExtInfo = 12 ∧ sizeofSVnodeSidList = 54 ∧ sizeofSMetricMeta = 10 :=
    ⟨rfl, rfl, rfl⟩
  obtain ⟨entrySize, listSize, headSize⟩ := sizes
  rw [entrySize, listSize, headSize, heads, limit] at cut
  rw [headSize] at taken
  have least : 12 * meters.length ≤ (12 + mgmtGetReqTagsLength msg) * meters.length :=
    Nat.mul_le_mul_right _ (Nat.le_add_right ..)
  rcases room with rfl | bounded
  · simp only [length_nil, mgmtGetNumOfVnodesInResult, List.foldl_nil] at cut
    omega
  · have few : meters.length / 2147483647 = 0 := Nat.div_eq_of_lt (by omega)
    rw [few] at cut
    omega

end Unfit

end Luomi.Mgmt.MetricMetaReply
