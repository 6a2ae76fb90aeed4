import Luomi.Client.MetricMetaBlock

/-!
# Following the offsets of the metric meta

Where the offsets stored in a block lead: an offset below 2 GB leads to its own list or
entry, a larger one before the block.
-/

namespace Luomi.Client.MetricMetaReads
open LittleEndian ByteBuffer MetricMeta MetricMetaBlock
open List (append_assoc length_append map_cons sum_cons)

def listPlace (sidSize numOfVnodes : Nat) (before : List WireList) : Nat :=
  10 + 8 * numOfVnodes + (before.map (packedSize sidSize)).sum

def entryOffset (sidSize numOfSids j : Nat) : Nat :=
  54 + 8 * numOfSids + sidSize * j

section Split

variable {sidSize tagLen numOfMeters : Nat} {before after : List WireList} {list : WireList}

theorem listPlaces_split (place : Nat) (before after : List WireList) (list : WireList) :
    listPlaces sidSize place (before ++ list :: after) =
      listPlaces sidSize place before ++ (place + (before.map (packedSize sidSize)).sum) ::
        listPlaces sidSize
          (place + (before.map (packedSize sidSize)).sum + packedSize sidSize list) after := by
  induction before generalizing place with
  | nil => simp [listPlaces]
  | cons first rest ih =>
    rw [List.cons_append, listPlaces, ih, listPlaces, map_cons, sum_cons,
      List.cons_append, Nat.add_assoc place]

theorem packed_flatMap_length {lists : List WireList}
    (formed : ∀ list ∈ lists, WellFormed sidSize list) :
    (lists.flatMap (WireList.packed sidSize)).length = (lists.map (packedSize sidSize)).sum := by
  induction lists with
  | nil => rfl
  | cons list rest ih =>
    rw [List.flatMap_cons, length_append, (formed list List.mem_cons_self).packed_length,
      ih fun other member => formed other (List.mem_cons_of_mem _ member), map_cons,
      sum_cons]

theorem block_split (formed : ∀ other ∈ before ++ list :: after, WellFormed (12 + tagLen) other) :
    ∃ front rest, blockOf numOfMeters tagLen (before ++ list :: after) =
        front ++ (list.packed (12 + tagLen) ++ rest) ∧
      front.length = listPlace (12 + tagLen) (before ++ list :: after).length before := by
  have formedBefore : ∀ other ∈ before, WellFormed (12 + tagLen) other := fun other member =>
    formed other (List.mem_append_left _ member)
  set lists := before ++ list :: after with listsIs
  refine ⟨blockHead numOfMeters lists.length tagLen ++
    (offsetBytes (listPlaces (12 + tagLen) (10 + 8 * lists.length) lists) ++
      (zeros (4 * lists.length) ++ before.flatMap (WireList.packed (12 + tagLen)))),
    after.flatMap (WireList.packed (12 + tagLen)) ++ zeros 1, ?_, ?_⟩
  · have moved : lists.flatMap (WireList.packed (12 + tagLen)) =
        before.flatMap (WireList.packed (12 + tagLen)) ++
          (list.packed (12 + tagLen) ++ after.flatMap (WireList.packed (12 + tagLen))) := by
      rw [listsIs, List.flatMap_append, List.flatMap_cons]
    rw [blockOf, moved]
    simp only [append_assoc]
  · simp only [length_append, blockHead_length, offsetBytes_length, listPlaces_length,
      List.length_replicate, packed_flatMap_length formedBefore, listPlace]
    omega

end Split

section Header

variable {tagLen numOfMeters : Nat} {lists before after : List WireList} {list : WireList}

section

variable (numOfMeters tagLen : Nat) (lists : List WireList)

theorem block_numOfMeters :
    load32 (blockOf numOfMeters tagLen lists) 0 = some (BitVec.ofNat 32 numOfMeters) := by
  rw [blockOf, blockHead, append_assoc]
  exact @load32_middle [] _ 0 rfl numOfMeters

theorem block_numOfVnodes :
    load32 (blockOf numOfMeters tagLen lists) 4 = some (BitVec.ofNat 32 lists.length) := by
  rw [blockOf, blockHead, append_assoc, append_assoc]
  exact load32_middle (by simp)

theorem block_tagLen :
    load16 (blockOf numOfMeters tagLen lists) 8 = some (BitVec.ofNat 16 tagLen) := by
  rw [blockOf, blockHead, append_assoc, append_assoc, <- append_assoc (leBytes 4 _)]
  exact load16_middle (by simp)

end

theorem getVnodeSidList_reads (some' : 0 < numOfMeters) (fewMeters : numOfMeters < 2 ^ 31)
    (fewVnodes : (before ++ list :: after).length < 2 ^ 31) :
    tscGetVnodeSidList (blockOf numOfMeters tagLen (before ++ list :: after)) before.length =
      some (BitVec.ofNat 32
        (listPlace (12 + tagLen) (before ++ list :: after).length before)).toInt := by
  set lists := before ++ list :: after with listsIs
  have below : before.length < lists.length := by
    rw [listsIs, length_append, List.length_cons]
    omega
  have meters := ofNat32_ne_zero some' fewMeters
  have vnodes := ofNat32_ne_zero (Nat.zero_lt_of_lt below) fewVnodes
  have legal : ¬ ((before.length : Int) < 0 ∨
      (BitVec.ofNat 32 lists.length).toInt ≤ before.length) := by
    rw [toInt_ofNat32 fewVnodes]
    omega
  have offset : load32 (blockOf numOfMeters tagLen lists)
      ((sizeofSMetricMeta : Int) + 4 * before.length) =
        some (BitVec.ofNat 32 (listPlace (12 + tagLen) lists.length before)) := by
    have table : offsetBytes (listPlaces (12 + tagLen) (10 + 8 * lists.length) lists) =
        offsetBytes (listPlaces (12 + tagLen) (10 + 8 * lists.length) before) ++
          (leBytes 4 (listPlace (12 + tagLen) lists.length before) ++
            offsetBytes (listPlaces (12 + tagLen) (10 + 8 * lists.length +
              (before.map (packedSize (12 + tagLen))).sum + packedSize (12 + tagLen) list)
                after)) := by
      conv_lhs => rw [listsIs, listPlaces_split, offsetBytes_append]
      rfl
    rw [blockOf, table, append_assoc, append_assoc, <- append_assoc]
    apply load32_middle
    rw [length_append, blockHead_length, offsetBytes_length, listPlaces_length, sizeofSMetricMeta]
    push_cast
    ring
  simp only [tscGetVnodeSidList, block_numOfMeters, block_numOfVnodes, Option.bind_eq_bind,
    Option.bind_some, vnodes, meters, or_self, if_false, if_neg legal, offset]

end Header

section Inside

variable {sidSize : Nat} {list : WireList} {block front rest : List UInt8}

section

variable (formed : WellFormed sidSize list)
include formed

section

variable (source : block = front ++ (list.packed sidSize ++ rest))

include source

theorem list_counter :
    load32 block ((front.length : Int) + 50) = some (BitVec.ofNat 32 list.entries.length) := by
  have shape : block = (front ++ list.front) ++ (leBytes 4 list.entries.length ++
      (offsetBytes (list.offsets sidSize) ++ (zeros (4 * list.entries.length) ++
        list.entries.flatten) ++ rest)) := by
    rw [source, WireList.packed, WireList.head]
    simp only [append_assoc]
  rw [shape]
  apply load32_middle
  rw [length_append, formed.front]
  push_cast
  ring

theorem getMeterSidInfo_reads {j : Nat} (inside : j < list.entries.length) :
    tscGetMeterSidInfo block front.length j = some ((front.length : Int) +
      (BitVec.ofNat 32 (entryOffset sidSize list.entries.length j)).toInt) := by
  set count := list.entries.length with countIs
  have counter := list_counter formed source
  have legal : ¬ ((j : Int) < 0 ∨ (BitVec.ofNat 32 count).toInt ≤ j) := by
    rw [toInt_ofNat32 formed.few]
    omega
  have offset : load32 block ((front.length : Int) + sizeofSVnodeSidList + 4 * j) =
      some (BitVec.ofNat 32 (entryOffset sidSize count j)) := by
    have table : offsetBytes (list.offsets sidSize) =
        offsetBytes (List.range' (54 + 8 * count) j sidSize) ++
          (leBytes 4 (entryOffset sidSize count j) ++
            offsetBytes (List.range' (54 + 8 * count + sidSize * j + sidSize) (count - j - 1)
              sidSize)) := by
      have split : List.range' (54 + 8 * count) count sidSize =
          List.range' (54 + 8 * count) j sidSize ++
            List.range' (54 + 8 * count + sidSize * j) (count - j - 1 + 1) sidSize := by
        rw [List.range'_append]
        congr 1
        omega
      rw [WireList.offsets, <- countIs, split, List.range'_succ, offsetBytes_append]
      rfl
    have shape : block = (front ++ (list.head ++
        offsetBytes (List.range' (54 + 8 * count) j sidSize))) ++
          (leBytes 4 (entryOffset sidSize count j) ++
            (offsetBytes (List.range' (54 + 8 * count + sidSize * j + sidSize) (count - j - 1)
              sidSize) ++ (zeros (4 * count) ++ (list.entries.flatten ++ rest)))) := by
      rw [source, WireList.packed, table]
      simp only [append_assoc]
      rfl
    rw [shape]
    apply load32_middle
    rw [length_append, length_append, formed.head_length, offsetBytes_length,
      List.length_range', sizeofSVnodeSidList]
    push_cast
    ring
  simp only [tscGetMeterSidInfo, counter, <- countIs, Option.bind_eq_bind, Option.bind_some,
    if_neg legal, offset]

theorem entry_split {before after : List (List UInt8)} {entry : List UInt8}
    (split : list.entries = before ++ entry :: after) :
    ∃ left right, block = left ++ (entry ++ right) ∧
      left.length = front.length + entryOffset sidSize list.entries.length before.length := by
  have whole : before.flatten.length = sidSize * before.length := by
    refine @entries_flatten_length sidSize ⟨[], before⟩ fun other member => ?_
    apply formed.entries
    rw [split]
    exact List.mem_append_left _ member
  refine ⟨front ++ (list.head ++ (offsetBytes (list.offsets sidSize) ++
    (zeros (4 * list.entries.length) ++ before.flatten))), after.flatten ++ rest, ?_, ?_⟩
  · rw [source, WireList.packed]
    conv_lhs => rw [split, List.flatten_append, List.flatten_cons, <- split]
    simp only [append_assoc]
  · simp only [length_append, formed.head_length, offsetBytes_length, WireList.offsets,
      List.length_range', List.length_replicate, whole, entryOffset]
    omega

end

end

end Inside

end Luomi.Client.MetricMetaReads
