import Luomi.Client.MetricMetaReads
import Luomi.Mgmt.MetricMetaReply

/-!
# The round trip of the metric meta

The management node writes the meters of a super table and the client finds every one of
them, under its vgroup and with its tags, exactly when no size and no offset is cut on the
way: the size of the reply and the offsets in the client's block are kept in 32 bits, the
length of the tags in 16.
-/

namespace Luomi.Client.MetricMetaRoundTrip
open LittleEndian ByteBuffer Mgmt.MetricMetaMsg Mgmt.MetricMetaReply MetricMeta MetricMetaBlock
open MetricMetaReads
open List (append_assoc length_append length_cons length_map map_append map_cons map_map
  mem_cons_self mem_map sum_cons)
open Option (bind_eq_bind bind_some map_some some.injEq)

variable {metric : SMetric}

structure Arranged (result : List (STabObj metric)) (groups : List (Nat × List (STabObj metric))) :
    Prop where
  each : (groups.flatMap Prod.snd).Perm result
  vgroup : ∀ group ∈ groups, ∀ meter ∈ group.2, meter.vgId = group.1
  once : (groups.map Prod.fst).Nodup
  filled : ∀ group ∈ groups, group.2 ≠ []

def entryAt (block : List UInt8) (i j : Nat) : Option Int := do
  let pSidList <- tscGetVnodeSidList block i
  tscGetMeterSidInfo block pSidList j

def tagsAt (block : List UInt8) (entry : Int) : Option (List UInt8) := do
  let tagLen <- load16 block 8
  load block (entry + 12) tagLen.toNat

structure Delivered (vnodeOf : Nat -> BitVec 32) (msg : SMetricMetaMsg metric)
    (groups : List (Nat × List (STabObj metric))) (block : List UInt8) : Prop where
  numOfMeters : (load32 block 0).map BitVec.toInt =
    some (((groups.map fun group => group.2.length).sum : Nat) : Int)
  numOfVnodes : (load32 block 4).map BitVec.toInt = some (groups.length : Int)
  lists : ∀ (i : Nat) group, groups[i]? = some group -> ∃ pSidList,
    tscGetVnodeSidList block i = some pSidList ∧
    load32 block (pSidList + 4) = some (vnodeOf group.1) ∧
    (load32 block (pSidList + 50)).map BitVec.toInt = some (group.2.length : Int)
  entries : ∀ (i j : Nat) group meter, groups[i]? = some group -> group.2[j]? = some meter ->
    ∃ entry, entryAt block i j = some entry ∧ load32 block entry = some meter.sid ∧
      tagsAt block entry = some (reqTags msg meter).flatten
  apart : ∀ (i j i' j' : Nat) group group', groups[i]? = some group -> groups[i']? = some group' ->
    j < group.2.length -> j' < group'.2.length -> (i < i' ∨ i = i' ∧ j < j') ->
    ∃ entry entry', entryAt block i j = some entry ∧ entryAt block i' j' = some entry' ∧
      entry + 12 + mgmtGetReqTagsLength msg ≤ entry'

/-- The reply stays in the size asked for, and the client makes of it a block that holds
the result list, without a copy outside a buffer on either side. -/
def RoundTrip (vnodeOf : Nat -> BitVec 32) (msg : SMetricMetaMsg metric)
    {result : List (STabObj metric)} (order : Reorganized result) : Prop :=
  ∃ reply block groups, mgmtRetrieveMetricMeta vnodeOf msg order.meters = some reply ∧
    (reply.length : Int) ≤ (mgmtGetMetricMetaMsgSize order.meters (mgmtGetReqTagsLength msg)
      INT32_MAX).toInt ∧
    tscProcessMetricMetaRsp (reply.drop 1) = some (.ok block) ∧
    Arranged result groups ∧ Delivered vnodeOf msg groups block

def vgroupPlace (msg : SMetricMetaMsg metric) (numOfVnodes : Nat)
    (before : List (Nat × List (STabObj metric))) : Nat :=
  10 + 8 * numOfVnodes +
    (before.map fun group => 54 + 8 * group.2.length +
      (12 + mgmtGetReqTagsLength msg) * group.2.length).sum

structure Representable (msg : SMetricMetaMsg metric) (meters : List (STabObj metric)) : Prop where
  reply : metricMetaMsgSize meters (mgmtGetReqTagsLength msg) INT32_MAX + rpcHead < 2 ^ 31
  tags : meters ≠ [] -> mgmtGetReqTagsLength msg < 2 ^ 16
  lists : ∀ before group after, vgroupRuns meters = before ++ group :: after ->
    vgroupPlace msg (vgroupRuns meters).length before < 2 ^ 31
  entries : ∀ group ∈ vgroupRuns meters, ∀ j < group.2.length,
    entryOffset (12 + mgmtGetReqTagsLength msg) group.2.length j < 2 ^ 31

section Wire

variable {vnodeOf : Nat -> BitVec 32} {msg : SMetricMetaMsg metric}

def wireList (vnodeOf : Nat -> BitVec 32) (msg : SMetricMetaMsg metric)
    (group : Nat × List (STabObj metric)) : WireList :=
  ⟨headFront (vnodeOf group.1), group.2.map (entryBytes msg)⟩

theorem wireList_wire (group : Nat × List (STabObj metric)) :
    (wireList vnodeOf msg group).wire = listBytes vnodeOf msg group := by
  simp only [WireList.wire, WireList.head, wireList, length_map, listBytes, listHead,
    List.flatMap_def]

theorem wireList_formed {group : Nat × List (STabObj metric)} (few : group.2.length < 2 ^ 31) :
    WellFormed (12 + mgmtGetReqTagsLength msg) (wireList vnodeOf msg group) where
  front := headFront_length _
  entries := by
    intro entry member
    obtain ⟨meter, _, rfl⟩ := mem_map.mp member
    exact entryBytes_length msg meter
  few := by
    rw [wireList, length_map]
    exact few

theorem wireList_place (numOfVnodes : Nat) (before : List (Nat × List (STabObj metric))) :
    listPlace (12 + mgmtGetReqTagsLength msg) numOfVnodes (before.map (wireList vnodeOf msg)) =
      vgroupPlace msg numOfVnodes before := by
  rw [listPlace, vgroupPlace, map_map]
  congr 2
  apply List.map_congr_left
  intro group _
  simp only [Function.comp_apply, packedSize, wireList, length_map]

theorem replyBytes_drop (groups : List (Nat × List (STabObj metric))) :
    (replyBytes vnodeOf msg groups).drop 1 =
      replyOf (groups.flatMap Prod.snd).length (mgmtGetReqTagsLength msg)
        (groups.map (wireList vnodeOf msg)) := by
  rw [replyBytes, replyOf, length_map, List.flatMap_map]
  simp only [wireList_wire]
  rfl

theorem wire_total (groups : List (Nat × List (STabObj metric))) :
    ((groups.map (wireList vnodeOf msg)).map fun list => list.entries.length).sum =
      (groups.flatMap Prod.snd).length := by
  rw [List.length_flatMap, map_map]
  congr 1
  apply List.map_congr_left
  intro group _
  exact length_map ..

end Wire

section Block

variable {vnodeOf : Nat -> BitVec 32} {msg : SMetricMetaMsg metric} {meters : List (STabObj metric)}

section

variable (vnodeOf : Nat -> BitVec 32) (msg : SMetricMetaMsg metric) (meters : List (STabObj metric))

def wireLists : List WireList :=
  (vgroupRuns meters).map (wireList vnodeOf msg)

def blockFor : List UInt8 :=
  blockOf meters.length (mgmtGetReqTagsLength msg % 2 ^ 16) (wireLists vnodeOf msg meters)

end

/-- A reply below 2 GB holds few meters and few lists. -/
structure Few (msg : SMetricMetaMsg metric) (meters : List (STabObj metric)) : Prop where
  tables : meters.length < 2 ^ 31
  vnodes : (vgroupRuns meters).length < 2 ^ 31
  block : 11 + 8 * (vgroupRuns meters).length + (54 * (vgroupRuns meters).length +
    (20 + mgmtGetReqTagsLength msg) * meters.length) < 2 ^ 32 - 100

theorem few_of_fits (sorted : meters.Pairwise fun a b => a.vgId ≤ b.vgId)
    (fits : metricMetaMsgSize meters (mgmtGetReqTagsLength msg) INT32_MAX + rpcHead < 2 ^ 31) :
    Few msg meters := by
  have lists : 54 * (vgroupRuns meters).length ≤
      (meters.length / INT32_MAX + 1 + (vgroupRuns meters).length) * 54 := by
    rw [Nat.mul_comm]
    exact Nat.mul_le_mul_right 54 (Nat.le_add_left ..)
  have least : 12 * meters.length ≤ (12 + mgmtGetReqTagsLength msg) * meters.length :=
    Nat.mul_le_mul_right _ (Nat.le_add_right ..)
  have wider : (20 + mgmtGetReqTagsLength msg) * meters.length =
      8 * meters.length + (12 + mgmtGetReqTagsLength msg) * meters.length := by ring
  rw [metricMetaMsgSize, numOfVnodes_eq sorted, Mgmt.MetricMetaMsg.sizeofSMeterSidExtInfo,
    Mgmt.MetricMetaMsg.sizeofSVnodeSidList, Mgmt.MetricMetaMsg.sizeofSMetricMeta] at fits
  have head : rpcHead = 92 := rfl
  constructor <;> omega

theorem wireLists_formed (few : Few msg meters) : ∀ list ∈ wireLists vnodeOf msg meters,
    WellFormed (12 + mgmtGetReqTagsLength msg) list := by
  intro list member
  obtain ⟨group, inside, rfl⟩ := mem_map.mp member
  exact wireList_formed (lt_of_le_of_lt (run_length inside) few.tables)

theorem process_result (few : Few msg meters)
    (short : meters ≠ [] -> mgmtGetReqTagsLength msg < 2 ^ 16) :
    tscProcessMetricMetaRsp ((replyBytes vnodeOf msg (vgroupRuns meters)).drop 1) =
      some (.ok (blockFor vnodeOf msg meters)) := by
  rw [replyBytes_drop, runs_flatMap, blockFor]
  have total := @wire_total metric vnodeOf msg (vgroupRuns meters)
  rw [runs_flatMap] at total
  cases meters with
  | nil =>
    have cut : leBytes 2 (mgmtGetReqTagsLength msg) =
        leBytes 2 (mgmtGetReqTagsLength msg % 2 ^ 16) := (leBytes_mod 2 _).symm
    have same : replyOf ([] : List (STabObj metric)).length (mgmtGetReqTagsLength msg)
        ((vgroupRuns ([] : List (STabObj metric))).map (wireList vnodeOf msg)) =
          replyOf ([] : List (STabObj metric)).length (mgmtGetReqTagsLength msg % 2 ^ 16) [] := by
      rw [replyOf, replyOf, cut]
      rfl
    rw [same]
    exact process_reply (fun list member => by cases member) rfl (by simp) (by simp)
      (Nat.mod_lt _ (by decide))
  | cons meter rest =>
    have tagLen := short (List.cons_ne_nil _ _)
    rw [Nat.mod_eq_of_lt tagLen]
    exact process_reply (wireLists_formed few) total few.tables
      (by rw [length_map]; exact few.vnodes) tagLen

end Block

section Found

variable {vnodeOf : Nat -> BitVec 32} {msg : SMetricMetaMsg metric} {meters : List (STabObj metric)}
variable {before after : List (Nat × List (STabObj metric))} {group : Nat × List (STabObj metric)}

theorem meters_positive (split : vgroupRuns meters = before ++ group :: after) : meters ≠ [] := by
  rintro rfl
  exact List.append_ne_nil_of_right_ne_nil before (List.cons_ne_nil group after) split.symm

section

variable (few : Few msg meters) (short : mgmtGetReqTagsLength msg < 2 ^ 16)
  (split : vgroupRuns meters = before ++ group :: after)

include few short split

theorem block_list : ∃ front rest, blockFor vnodeOf msg meters =
        front ++ ((wireList vnodeOf msg group).packed (12 + mgmtGetReqTagsLength msg) ++ rest) ∧
      front.length = vgroupPlace msg (vgroupRuns meters).length before ∧
        WellFormed (12 + mgmtGetReqTagsLength msg) (wireList vnodeOf msg group) := by
  have formed := @wireLists_formed metric vnodeOf msg meters few
  rw [wireLists, split, map_append, map_cons] at formed
  obtain ⟨front, rest, source, length⟩ := @block_split (mgmtGetReqTagsLength msg) meters.length
    _ _ _ formed
  refine ⟨front, rest, ?_, ?_, formed _ (List.mem_append_right _ mem_cons_self)⟩
  · rw [blockFor, Nat.mod_eq_of_lt short, wireLists, split, map_append, map_cons, source]
  · rw [length, wireList_place, <- map_cons, <- map_append, length_map, split]

theorem list_found : tscGetVnodeSidList (blockFor vnodeOf msg meters) before.length =
      some (BitVec.ofNat 32 (vgroupPlace msg (vgroupRuns meters).length before)).toInt := by
  have lists : wireLists vnodeOf msg meters = before.map (wireList vnodeOf msg) ++
      wireList vnodeOf msg group :: after.map (wireList vnodeOf msg) := by
    rw [wireLists, split, map_append, map_cons]
  have count : (wireLists vnodeOf msg meters).length = (vgroupRuns meters).length := by
    rw [wireLists, length_map]
  have found := @getVnodeSidList_reads (mgmtGetReqTagsLength msg) meters.length
    (before.map (wireList vnodeOf msg)) (after.map (wireList vnodeOf msg))
    (wireList vnodeOf msg group) (List.length_pos_iff.mpr (meters_positive split)) few.tables
    (by rw [<- lists, count]; exact few.vnodes)
  rw [<- lists, count, length_map, wireList_place] at found
  rw [blockFor, Nat.mod_eq_of_lt short, found]

end

def vgroupSize (msg : SMetricMetaMsg metric) (group : Nat × List (STabObj metric)) : Nat :=
  54 + 8 * group.2.length + (12 + mgmtGetReqTagsLength msg) * group.2.length

theorem vgroupSize_sum (msg : SMetricMetaMsg metric) (groups : List (Nat × List (STabObj metric))) :
    (groups.map (vgroupSize msg)).sum = 54 * groups.length +
      (20 + mgmtGetReqTagsLength msg) * (groups.flatMap Prod.snd).length := by
  induction groups with
  | nil => rfl
  | cons group rest ih =>
    rw [map_cons, sum_cons, ih, length_cons, List.flatMap_cons, length_append, vgroupSize]
    ring

theorem place_bound (few : Few msg meters) (split : vgroupRuns meters = before ++ group :: after) :
    vgroupPlace msg (vgroupRuns meters).length before + vgroupSize msg group < 2 ^ 32 - 100 := by
  have block := few.block
  have total := vgroupSize_sum msg (vgroupRuns meters)
  rw [runs_flatMap] at total
  rw [<- total] at block
  have parts : ((vgroupRuns meters).map (vgroupSize msg)).sum =
      (before.map (vgroupSize msg)).sum +
        (vgroupSize msg group + (after.map (vgroupSize msg)).sum) := by
    rw [split, map_append, List.sum_append, map_cons, sum_cons]
  have place : vgroupPlace msg (vgroupRuns meters).length before =
      10 + 8 * (vgroupRuns meters).length + (before.map (vgroupSize msg)).sum := rfl
  omega

section

variable (few : Few msg meters) (short : mgmtGetReqTagsLength msg < 2 ^ 16)
  (split : vgroupRuns meters = before ++ group :: after)

include few short split

theorem block_entry {done left : List (STabObj metric)} {meter : STabObj metric}
    (inside : group.2 = done ++ meter :: left) :
    ∃ front rest, blockFor vnodeOf msg meters = front ++ (entryBytes msg meter ++ rest) ∧
      front.length = vgroupPlace msg (vgroupRuns meters).length before +
        entryOffset (12 + mgmtGetReqTagsLength msg) group.2.length done.length := by
  obtain ⟨front, rest, source, length, formed⟩ :=
    @block_list metric vnodeOf msg meters before after group few short split
  have entries : (wireList vnodeOf msg group).entries =
      done.map (entryBytes msg) ++ entryBytes msg meter :: left.map (entryBytes msg) := by
    rw [wireList, inside, map_append, map_cons]
  obtain ⟨before', after', entrySource, entryLength⟩ := entry_split formed source entries
  refine ⟨before', after', entrySource, ?_⟩
  rw [entryLength, length, length_map, wireList, length_map]

theorem entry_found (low : vgroupPlace msg (vgroupRuns meters).length before < 2 ^ 31) {j : Nat}
    (inside : j < group.2.length) : entryAt (blockFor vnodeOf msg meters) before.length j =
      some ((vgroupPlace msg (vgroupRuns meters).length before : Int) + (BitVec.ofNat 32
        (entryOffset (12 + mgmtGetReqTagsLength msg) group.2.length j)).toInt) := by
  obtain ⟨front, rest, source, length, formed⟩ :=
    @block_list metric vnodeOf msg meters before after group few short split
  have count : (wireList vnodeOf msg group).entries.length = group.2.length := by
    rw [wireList, length_map]
  have read := getMeterSidInfo_reads formed source (by rw [count]; exact inside)
  rw [count, length] at read
  rw [entryAt, list_found few short split, toInt_ofNat32 low, bind_eq_bind, bind_some, read]

end

end Found

section Delivery

variable {vnodeOf : Nat -> BitVec 32} {msg : SMetricMetaMsg metric} {meters : List (STabObj metric)}
  {i : Nat}

theorem split_at {α : Type} {items : List α} {item : α} (found : items[i]? = some item) :
    items = items.take i ++ item :: items.drop (i + 1) ∧ (items.take i).length = i := by
  obtain ⟨inside, rfl⟩ := List.getElem?_eq_some_iff.mp found
  constructor
  · rw [<- List.drop_eq_getElem_cons inside, List.take_append_drop]
  · rw [List.length_take]
    omega

theorem place_lt {groups : List (Nat × List (STabObj metric))} {numOfVnodes i i' : Nat}
    {group : Nat × List (STabObj metric)} (found : groups[i]? = some group) (before : i < i') :
    vgroupPlace msg numOfVnodes (groups.take i) + vgroupSize msg group ≤
      vgroupPlace msg numOfVnodes (groups.take i') := by
  obtain ⟨inside, rfl⟩ := List.getElem?_eq_some_iff.mp found
  have part : (groups.take i ++ [groups[i]]).Sublist (groups.take i') := by
    rw [<- List.take_succ_eq_append_getElem inside]
    exact List.take_sublist_take_left before
  have sums := (part.map (vgroupSize msg)).sum_le_sum fun _ _ => Nat.zero_le _
  rw [map_append, List.sum_append, map_cons, sum_cons, List.map_nil, List.sum_nil] at sums
  have place (groups : List (Nat × List (STabObj metric))) : vgroupPlace msg numOfVnodes groups =
      10 + 8 * numOfVnodes + (groups.map (vgroupSize msg)).sum := rfl
  rw [place, place]
  omega

theorem blockFor_delivered (few : Few msg meters)
    (short : meters ≠ [] -> mgmtGetReqTagsLength msg < 2 ^ 16)
    (lists : ∀ before group after, vgroupRuns meters = before ++ group :: after ->
      vgroupPlace msg (vgroupRuns meters).length before < 2 ^ 31)
    (entries : ∀ group ∈ vgroupRuns meters, ∀ j < group.2.length,
      entryOffset (12 + mgmtGetReqTagsLength msg) group.2.length j < 2 ^ 31) :
    Delivered vnodeOf msg (vgroupRuns meters) (blockFor vnodeOf msg meters) := by
  have tagLen {before after : List (Nat × List (STabObj metric))}
      {group : Nat × List (STabObj metric)} (split : vgroupRuns meters = before ++ group :: after) :
      mgmtGetReqTagsLength msg < 2 ^ 16 := short (meters_positive split)
  have entry {i j : Nat} {group : Nat × List (STabObj metric)}
      (found : (vgroupRuns meters)[i]? = some group) (inside : j < group.2.length) :
      entryAt (blockFor vnodeOf msg meters) i j =
        some ((vgroupPlace msg (vgroupRuns meters).length ((vgroupRuns meters).take i) +
          entryOffset (12 + mgmtGetReqTagsLength msg) group.2.length j : Nat) : Int) := by
    obtain ⟨split, length⟩ := split_at found
    have at' := @entry_found metric vnodeOf msg meters _ _ group few (tagLen split) split
      (lists _ _ _ split) j inside
    rw [length, toInt_ofNat32 (entries group (List.mem_of_getElem? found) j inside)] at at'
    rw [at', Nat.cast_add]
  constructor
  case numOfMeters =>
    rw [blockFor, block_numOfMeters, map_some, toInt_ofNat32 few.tables]
    have whole := congrArg List.length (runs_flatMap meters)
    rw [List.length_flatMap] at whole
    rw [whole]
  case numOfVnodes =>
    rw [blockFor, block_numOfVnodes, map_some, wireLists, length_map, toInt_ofNat32 few.vnodes]
  case lists =>
    intro i group found
    obtain ⟨split, length⟩ := split_at found
    have low := lists _ _ _ split
    obtain ⟨front, rest, source, place, formed⟩ := @block_list metric vnodeOf msg meters _ _ group
      few (tagLen split) split
    have at' := @list_found metric vnodeOf msg meters _ _ group few (tagLen split) split
    rw [length, toInt_ofNat32 low, <- place] at at'
    refine ⟨_, at', ?_, ?_⟩
    · have shape : blockFor vnodeOf msg meters = (front ++ zeros 4) ++
          (leBytes 4 (vnodeOf group.1).toNat ++ (zeros 40 ++ (leBytes 2 0 ++
            (leBytes 4 (wireList vnodeOf msg group).entries.length ++
              (offsetBytes ((wireList vnodeOf msg group).offsets (12 + mgmtGetReqTagsLength msg)) ++
                (zeros (4 * (wireList vnodeOf msg group).entries.length) ++
                  ((wireList vnodeOf msg group).entries.flatten ++ rest))))))) := by
        rw [source, WireList.packed, WireList.head]
        simp only [wireList, headFront, append_assoc]
      rw [shape, load32_middle (by rw [length_append]; rfl), BitVec.ofNat_toNat, BitVec.setWidth_eq]
    · rw [list_counter formed source, map_some, toInt_ofNat32 formed.few, wireList, length_map]
  case entries =>
    intro i j group meter found listed
    obtain ⟨split, length⟩ := split_at found
    obtain ⟨inside, position⟩ := split_at listed
    have below : j < group.2.length := (List.getElem?_eq_some_iff.mp listed).1
    obtain ⟨front, rest, source, place⟩ := @block_entry metric vnodeOf msg meters _ _ group few
      (tagLen split) split _ _ meter inside
    rw [position] at place
    refine ⟨_, entry found below, ?_, ?_⟩
    · rw [<- place, source, entryBytes, append_assoc, load32_middle rfl, BitVec.ofNat_toNat,
        BitVec.setWidth_eq]
    · have stored : load16 (blockFor vnodeOf msg meters) 8 =
          some (BitVec.ofNat 16 (mgmtGetReqTagsLength msg)) := by
        rw [blockFor, Nat.mod_eq_of_lt (tagLen split), block_tagLen]
      have shape : blockFor vnodeOf msg meters =
          (front ++ (leBytes 4 meter.sid.toNat ++ zeros 8)) ++
            ((reqTags msg meter).flatten ++ rest) := by
        rw [source, entryBytes]
        simp only [append_assoc]
      rw [tagsAt, stored, bind_eq_bind, bind_some, BitVec.toNat_ofNat,
        Nat.mod_eq_of_lt (tagLen split), <- place, shape]
      apply load_middle
      · simp only [length_append, leBytes_length, List.length_replicate]
        push_cast
        ring
      · rw [reqTags_length]
  case apart =>
    intro i j i' j' group group' found found' inside inside' order
    refine ⟨_, _, entry found inside, entry found' inside', ?_⟩
    have step : (12 + mgmtGetReqTagsLength msg) * (j + 1) =
        (12 + mgmtGetReqTagsLength msg) * j + (12 + mgmtGetReqTagsLength msg) := by ring
    simp only [entryOffset]
    rcases order with earlier | ⟨rfl, earlier⟩
    · have room := @place_lt metric msg _ (vgroupRuns meters).length i i' group found earlier
      have last : (12 + mgmtGetReqTagsLength msg) * (j + 1) ≤
          (12 + mgmtGetReqTagsLength msg) * group.2.length := Nat.mul_le_mul_left _ inside
      rw [vgroupSize] at room
      omega
    · obtain rfl : group = group' := by
        rw [found] at found'
        exact Option.some.inj found'
      have last : (12 + mgmtGetReqTagsLength msg) * (j + 1) ≤
          (12 + mgmtGetReqTagsLength msg) * j' := Nat.mul_le_mul_left _ earlier
      omega

variable {group : Nat × List (STabObj metric)} {groups : List (Nat × List (STabObj metric))}

section

variable {block : List UInt8} (delivered : Delivered vnodeOf msg groups block)

include delivered

theorem Delivered.entry_inside {j : Nat} (found : groups[i]? = some group)
    (inside : j < group.2.length) : ∃ entry, entryAt block i j = some entry ∧ 0 ≤ entry := by
  obtain ⟨entry, at', sid, _⟩ := delivered.entries i j group group.2[j] found
    (List.getElem?_eq_getElem inside)
  refine ⟨entry, at', ?_⟩
  obtain ⟨bytes, loaded, _⟩ := Option.map_eq_some_iff.mp sid
  exact (load_inside loaded).1

theorem Delivered.list_inside (found : groups[i]? = some group) :
    ∃ pSidList, tscGetVnodeSidList block i = some pSidList ∧ 0 ≤ pSidList + 4 := by
  obtain ⟨pSidList, at', vnode, _⟩ := delivered.lists i group found
  refine ⟨pSidList, at', ?_⟩
  obtain ⟨bytes, loaded, _⟩ := Option.map_eq_some_iff.mp vnode
  exact (load_inside loaded).1

theorem Delivered.short {result : List (STabObj metric)} (arranged : Arranged result groups)
    (some' : result ≠ []) : mgmtGetReqTagsLength msg < 2 ^ 16 := by
  obtain ⟨meter, member⟩ := List.exists_mem_of_ne_nil _ some'
  obtain ⟨group, listed, inside⟩ := List.mem_flatMap.mp (arranged.each.mem_iff.mpr member)
  obtain ⟨i, found⟩ := List.mem_iff_getElem?.mp listed
  obtain ⟨j, position⟩ := List.mem_iff_getElem?.mp inside
  obtain ⟨entry, _, _, tags⟩ := delivered.entries i j group meter found position
  obtain ⟨tagLen, _, loaded⟩ := Option.bind_eq_some_iff.mp tags
  have whole := (load_inside loaded).2.2
  rw [reqTags_length] at whole
  rw [whole]
  exact tagLen.isLt

end

section

variable (delivered : Delivered vnodeOf msg groups (blockFor vnodeOf msg meters))
include delivered

theorem Delivered.same_lists
    (few : Few msg meters) : groups.length = (vgroupRuns meters).length := by
  have counted := delivered.numOfVnodes
  rw [blockFor, block_numOfVnodes, map_some, wireLists, length_map,
    toInt_ofNat32 few.vnodes, some.injEq, Int.ofNat_inj] at counted
  exact counted.symm

section

variable (few : Few msg meters) (short : mgmtGetReqTagsLength msg < 2 ^ 16)
  {before after : List (Nat × List (STabObj metric))}
  (split : vgroupRuns meters = before ++ group :: after)

include few short split

theorem Delivered.list_low : vgroupPlace msg (vgroupRuns meters).length before < 2 ^ 31 := by
  by_contra large
  have bound := place_bound few split
  have index : before.length < groups.length := by
    rw [delivered.same_lists few, split, length_append, length_cons]
    omega
  obtain ⟨pSidList, at', inside⟩ := delivered.list_inside (List.getElem?_eq_getElem index)
  rw [list_found few short split, toInt_ofNat32_large (by omega) (by omega), some.injEq] at at'
  omega

theorem Delivered.entry_low {j : Nat} (inside : j < group.2.length) :
    entryOffset (12 + mgmtGetReqTagsLength msg) group.2.length j < 2 ^ 31 := by
  by_contra large
  have bound := place_bound few split
  have low := delivered.list_low few short split
  have index : before.length < groups.length := by
    rw [delivered.same_lists few, split, length_append, length_cons]
    omega
  have found := List.getElem?_eq_getElem index
  have last : (12 + mgmtGetReqTagsLength msg) * j ≤
      (12 + mgmtGetReqTagsLength msg) * group.2.length := Nat.mul_le_mul_left _ inside.le
  have offset : entryOffset (12 + mgmtGetReqTagsLength msg) group.2.length j ≤
      vgroupSize msg group := by
    rw [entryOffset, vgroupSize]
    omega
  -- the list at this place counts the meters of the group
  have counts : groups[before.length].2.length = group.2.length := by
    obtain ⟨front, rest, source, place, formed⟩ := @block_list metric vnodeOf msg meters _ _ group
      few short split
    obtain ⟨pSidList, at', _, counted⟩ := delivered.lists _ _ found
    rw [list_found few short split, toInt_ofNat32 low, some.injEq, <- place] at at'
    rw [<- at', list_counter formed source, map_some, toInt_ofNat32 formed.few, wireList,
      length_map, some.injEq, Int.ofNat_inj] at counted
    exact counted.symm
  obtain ⟨entry, at', nonneg⟩ := delivered.entry_inside found (counts ▸ inside)
  rw [entry_found few short split low inside, toInt_ofNat32_large (by omega) (by omega),
    some.injEq] at at'
  omega

end

end

end Delivery

section RoundTrips

variable {vnodeOf : Nat -> BitVec 32} {msg : SMetricMetaMsg metric} {result : List (STabObj metric)}

theorem runs_arranged (order : Reorganized result) : Arranged result (vgroupRuns order.meters) where
  each := by
    rw [runs_flatMap]
    exact order.same
  vgroup := runs_same order.meters
  once := runs_nodup order.sorted
  filled := runs_filled order.meters

variable {order : Reorganized result}

theorem roundTrip_of_representable
    (representable : Representable msg order.meters) : RoundTrip vnodeOf msg order := by
  have few := few_of_fits order.sorted representable.reply
  refine ⟨_, _, vgroupRuns order.meters, reply_of_fits order.sorted representable.reply, ?_,
    process_result few representable.tags, runs_arranged order,
    blockFor_delivered few representable.tags representable.lists representable.entries⟩
  have covers := size_covers vnodeOf msg order.sorted
  rw [mgmtGetMetricMetaMsgSize, toInt_ofNat32 (lt_of_le_of_lt (Nat.le_add_right _ _)
    representable.reply)]
  exact Int.ofNat_le.mpr covers

theorem representable_of_roundTrip
    (roundTrip : RoundTrip vnodeOf msg order) : Representable msg order.meters := by
  obtain ⟨reply, block, groups, replied, _, processed, arranged, delivered⟩ := roundTrip
  have fits : metricMetaMsgSize order.meters (mgmtGetReqTagsLength msg) INT32_MAX + rpcHead <
      2 ^ 31 := by
    by_contra large
    rw [no_reply large] at replied
    cases replied
  have few := few_of_fits order.sorted fits
  have short : order.meters ≠ [] -> mgmtGetReqTagsLength msg < 2 ^ 16 := by
    intro some'
    apply delivered.short arranged
    rintro rfl
    exact some' order.same.eq_nil
  rw [reply_of_fits order.sorted fits, some.injEq] at replied
  rw [<- replied, process_result few short, some.injEq, Except.ok.injEq] at processed
  subst processed
  refine ⟨fits, short, ?_, ?_⟩
  · intro before group after split
    exact delivered.list_low few (short (meters_positive split)) split
  · intro group member j inside
    obtain ⟨before, after, split⟩ := List.append_of_mem member
    exact delivered.entry_low few (short (meters_positive split)) split inside

/-! A super table with one tag of 512 bytes and some four million child meters, a thousand
in each vgroup. -/

def tagged : SMetric := ⟨[512], by decide⟩

def tagAsked : SMetricMetaMsg tagged := ⟨[0], by decide, by decide⟩

/-- The i-th meter; the six letters of its name tell it from the others. -/
def tableName (i : Nat) : List UInt8 :=
  (List.range 6).map fun k => UInt8.ofNat (97 + i / 26 ^ k % 26)

def table (i : Nat) : STabObj tagged where
  meterId := [48, 46, 100, 46] ++ tableName i
  vgId := i / 1000 + 1
  sid := BitVec.ofNat 32 (i % 1000)
  pTagData := zeros 629
  named := by
    have name : extractMeterName ([48, 46, 100, 46] ++ tableName i) =
        (tableName i).takeWhile (· ≠ TS_PATH_DELIMITER) := rfl
    rw [name]
    refine ((List.takeWhile_sublist _).length_le).trans ?_
    rw [tableName, length_map]
    decide
  tagged := List.length_replicate ..

def tablesUpTo (count : Nat) : List (STabObj tagged) := (List.range count).map table

theorem tablesUpTo_sorted (count : Nat) :
    (tablesUpTo count).Pairwise fun a b => a.vgId ≤ b.vgId := by
  rw [tablesUpTo, List.pairwise_map]
  apply List.pairwise_lt_range.imp
  intro i j below
  exact Nat.add_le_add_right (Nat.div_le_div_right below.le) 1

def tablesOrder (count : Nat) : Reorganized (tablesUpTo count) where
  meters := tablesUpTo count
  same := List.Perm.refl _
  sorted := tablesUpTo_sorted count

theorem tables_length (count : Nat) : (tablesOrder count).meters.length = count := by
  have order : (tablesOrder count).meters = tablesUpTo count := rfl
  rw [order, tablesUpTo, length_map, List.length_range]

end RoundTrips

end Luomi.Client.MetricMetaRoundTrip
