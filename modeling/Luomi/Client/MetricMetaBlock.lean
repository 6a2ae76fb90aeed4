import Luomi.Client.MetricMeta

/-!
# The block of the metric meta

What the client makes of a well-formed reply, byte by byte: the header, the offsets of the
vnode lists, and every list with the offsets of its entries.  Nothing is assumed of the
offsets here; one that does not fit an `int32_t` is cut.
-/

namespace Luomi.Client.MetricMetaBlock
open LittleEndian ByteBuffer MetricMeta
open List (append_assoc append_nil flatMap_cons length_append length_cons length_replicate
  map_cons mem_cons_self nil_append range'_succ replicate_append_replicate sum_cons)
open Option (bind_eq_bind bind_some)

/-- A vnode list of the reply: the bytes before its counter, and its entries. -/
structure WireList where
  front : List UInt8
  entries : List (List UInt8)

structure WellFormed (sidSize : Nat) (list : WireList) : Prop where
  front : list.front.length = 50
  entries : ∀ entry ∈ list.entries, entry.length = sidSize
  few : list.entries.length < 2 ^ 31

def WireList.head (list : WireList) : List UInt8 :=
  list.front ++ leBytes 4 list.entries.length

def WireList.wire (list : WireList) : List UInt8 :=
  list.head ++ list.entries.flatten

def WireList.offsets (sidSize : Nat) (list : WireList) : List Nat :=
  List.range' (54 + 8 * list.entries.length) list.entries.length sidSize

def offsetBytes (offsets : List Nat) : List UInt8 :=
  offsets.flatMap (leBytes 4)

def WireList.packed (sidSize : Nat) (list : WireList) : List UInt8 :=
  list.head ++ (offsetBytes (list.offsets sidSize) ++
    (zeros (4 * list.entries.length) ++ list.entries.flatten))

def packedSize (sidSize : Nat) (list : WireList) : Nat :=
  54 + 8 * list.entries.length + sidSize * list.entries.length

def listPlaces (sidSize : Nat) : Nat -> List WireList -> List Nat
  | _, [] => []
  | place, list :: rest => place :: listPlaces sidSize (place + packedSize sidSize list) rest

def replyOf (numOfMeters tagLen : Nat) (lists : List WireList) : List UInt8 :=
  [TSDB_IE_TYPE_META] ++ ((leBytes 4 numOfMeters).reverse ++ ((leBytes 4 lists.length).reverse ++
    ((leBytes 2 tagLen).reverse ++ lists.flatMap WireList.wire)))

def blockHead (numOfMeters numOfVnodes tagLen : Nat) : List UInt8 :=
  leBytes 4 numOfMeters ++ (leBytes 4 numOfVnodes ++ leBytes 2 tagLen)

def blockOf (numOfMeters tagLen : Nat) (lists : List WireList) : List UInt8 :=
  blockHead numOfMeters lists.length tagLen ++
    (offsetBytes (listPlaces (12 + tagLen) (10 + 8 * lists.length) lists) ++
      (zeros (4 * lists.length) ++ (lists.flatMap (WireList.packed (12 + tagLen)) ++ zeros 1)))

section Lengths

variable {sidSize : Nat} {list : WireList}

@[simp] theorem offsetBytes_length (offsets : List Nat) :
    (offsetBytes offsets).length = 4 * offsets.length := by
  induction offsets with
  | nil => rfl
  | cons offset rest ih =>
    rw [offsetBytes] at ih ⊢
    rw [flatMap_cons, length_append, ih, leBytes_length, length_cons]
    ring

theorem offsetBytes_append (left right : List Nat) :
    offsetBytes (left ++ right) = offsetBytes left ++ offsetBytes right :=
  List.flatMap_append

theorem entries_flatten_length (whole : ∀ entry ∈ list.entries, entry.length = sidSize) :
    list.entries.flatten.length = sidSize * list.entries.length := by
  rw [List.length_flatten, List.map_congr_left whole, List.map_const', List.sum_replicate,
    smul_eq_mul, Nat.mul_comm]

section

variable (formed : WellFormed sidSize list)
include formed

theorem WellFormed.head_length : list.head.length = 54 := by
  rw [WireList.head, length_append, formed.front, leBytes_length]

theorem WellFormed.wire_length : list.wire.length = 54 + sidSize * list.entries.length := by
  rw [WireList.wire, length_append, formed.head_length, entries_flatten_length formed.entries]

theorem WellFormed.packed_length : (list.packed sidSize).length = packedSize sidSize list := by
  rw [WireList.packed, length_append, length_append, length_append,
    formed.head_length, entries_flatten_length formed.entries, offsetBytes_length,
    length_replicate, WireList.offsets, List.length_range', packedSize]
  omega

end

@[simp] theorem listPlaces_length (place : Nat) (lists : List WireList) :
    (listPlaces sidSize place lists).length = lists.length := by
  induction lists generalizing place with
  | nil => rfl
  | cons list rest ih => rw [listPlaces, length_cons, ih, length_cons]

@[simp] theorem blockHead_length (numOfMeters numOfVnodes tagLen : Nat) :
    (blockHead numOfMeters numOfVnodes tagLen).length = 10 := by
  simp [blockHead]

end Lengths

section Sids

variable {sidSize j k : Nat} {reply left right before offsets moved free : List UInt8}

theorem store32_offset {front rest : List UInt8} {place value : Int} (offset : Nat)
    (valued : value = offset) (located : place = front.length) :
    store32 (front ++ (zeros 4 ++ rest)) place (BitVec.ofInt 32 value) =
      some (front ++ (leBytes 4 offset ++ rest)) := by
  rw [store32_middle located rfl, valued, BitVec.ofInt_natCast, leBytes_ofNat32]

theorem moveSid_moves {entry : List UInt8} {pLists pStr rsp : Nat}
    (source : reply = left ++ (entry ++ right)) (rspIs : rsp = left.length)
    (whole : entry.length = sidSize)
    (listIs : pLists + 54 = before.length) (jIs : offsets.length = 4 * j)
    (pStrIs : pStr = (before ++ (offsets ++ (zeros (4 + k) ++ moved))).length) :
    moveSid reply pLists sidSize
        ⟨rsp, before ++ (offsets ++ (zeros (4 + k) ++ (moved ++ (zeros sidSize ++ free)))), pStr⟩ j =
      some ⟨(rsp + sidSize : Nat), before ++ ((offsets ++ leBytes 4 (pStr - pLists)) ++
        (zeros k ++ ((moved ++ entry) ++ free))), (pStr + sidSize : Nat)⟩ := by
  have split : zeros (4 + k) = zeros 4 ++ zeros k := by
    rw [zeros, zeros, zeros, replicate_append_replicate]
  have offsetStored : store32
      (before ++ (offsets ++ (zeros (4 + k) ++ (moved ++ (zeros sidSize ++ free)))))
      ((pLists : Int) + sizeofSVnodeSidList + 4 * j) (BitVec.ofInt 32 ((pStr : Int) - pLists)) =
        some (before ++ ((offsets ++ leBytes 4 (pStr - pLists)) ++
          (zeros k ++ (moved ++ (zeros sidSize ++ free))))) := by
    have shape (word : List UInt8) :
        before ++ (offsets ++ (word ++ (zeros k ++ (moved ++ (zeros sidSize ++ free))))) =
          (before ++ offsets) ++ (word ++ (zeros k ++ (moved ++ (zeros sidSize ++ free)))) := by
      rw [append_assoc]
    have after : pLists ≤ pStr := by
      rw [pStrIs, length_append]
      omega
    rw [split, append_assoc (zeros 4), shape, store32_offset (pStr - pLists)]
    · simp only [append_assoc]
    · omega
    · rw [length_append, <- listIs, jIs, sizeofSVnodeSidList]
      push_cast
      ring
  have entryLoaded : load reply (rsp : Int) sidSize = some entry := by
    rw [source]
    exact load_middle (by rw [rspIs]) whole.symm
  have entryStored : store (before ++ ((offsets ++ leBytes 4 (pStr - pLists)) ++
      (zeros k ++ (moved ++ (zeros sidSize ++ free))))) (pStr : Int) entry =
        some (before ++ ((offsets ++ leBytes 4 (pStr - pLists)) ++
          (zeros k ++ ((moved ++ entry) ++ free)))) := by
    have shape (word : List UInt8) : before ++ ((offsets ++ leBytes 4 (pStr - pLists)) ++
        (zeros k ++ (moved ++ (word ++ free)))) =
          (before ++ ((offsets ++ leBytes 4 (pStr - pLists)) ++ (zeros k ++ moved))) ++
            (word ++ free) := by
      simp only [append_assoc]
    rw [shape, store_middle]
    · simp only [append_assoc]
    · rw [pStrIs]
      simp only [length_append, length_replicate, leBytes_length]
      push_cast
      ring
    · rw [whole, length_replicate]
  simp only [moveSid, offsetStored, entryLoaded, entryStored, bind_eq_bind, bind_some, Nat.cast_add]

theorem moveSids_move (entries : List (List UInt8)) {pLists pStr rsp : Nat}
    (source : reply = left ++ (entries.flatten ++ right)) (rspIs : rsp = left.length)
    (whole : ∀ entry ∈ entries, entry.length = sidSize)
    (listIs : pLists + 54 = before.length) (jIs : offsets.length = 4 * j)
    (pStrIs : pStr = (before ++ (offsets ++ (zeros (4 * entries.length + k) ++ moved))).length) :
    (List.range' j entries.length).foldlM (moveSid reply pLists sidSize)
        ⟨rsp, before ++ (offsets ++ (zeros (4 * entries.length + k) ++
          (moved ++ (zeros (sidSize * entries.length) ++ free)))), pStr⟩ =
      some ⟨(rsp + sidSize * entries.length : Nat),
        before ++ ((offsets ++ offsetBytes (List.range' (pStr - pLists) entries.length sidSize)) ++
          (zeros k ++ ((moved ++ entries.flatten) ++ free))),
        (pStr + sidSize * entries.length : Nat)⟩ := by
  induction entries generalizing j left offsets moved pStr rsp with
  | nil => simp [offsetBytes]
  | cons entry rest ih =>
    have entryWhole := whole entry mem_cons_self
    have room : 4 * (rest.length + 1) + k = 4 + (4 * rest.length + k) := by ring
    have space : zeros (sidSize * (rest.length + 1)) ++ free =
        zeros sidSize ++ (zeros (sidSize * rest.length) ++ free) := by
      rw [<- append_assoc, zeros, zeros, zeros, replicate_append_replicate]
      congr 2
      ring
    rw [length_cons, room] at pStrIs
    rw [List.flatten_cons, append_assoc] at source
    have after : pLists ≤ pStr := by
      rw [pStrIs, length_append]
      omega
    rw [length_cons, range'_succ, List.foldlM_cons, room, space,
      moveSid_moves source rspIs entryWhole listIs jIs pStrIs, bind_eq_bind, bind_some]
    have nextSource : reply = (left ++ entry) ++ (rest.flatten ++ right) := by
      rw [source, append_assoc]
    have nextRsp : rsp + sidSize = (left ++ entry).length := by
      rw [rspIs, length_append, entryWhole]
    have nextOffsets : (offsets ++ leBytes 4 (pStr - pLists)).length = 4 * (j + 1) := by
      rw [length_append, jIs, leBytes_length]
      ring
    have nextStr : pStr + sidSize = (before ++ ((offsets ++ leBytes 4 (pStr - pLists)) ++
        (zeros (4 * rest.length + k) ++ (moved ++ entry)))).length := by
      rw [pStrIs]
      simp only [length_append, length_replicate, leBytes_length, entryWhole]
      omega
    have nextOffset : pStr + sidSize - pLists = pStr - pLists + sidSize := by omega
    rw [ih nextSource nextRsp (fun other member => whole other (List.mem_cons_of_mem _ member))
      nextOffsets nextStr, nextOffset, range'_succ, List.flatten_cons]
    simp only [offsetBytes, flatMap_cons, append_assoc, Option.some.injEq,
      Packing.mk.injEq, true_and]
    constructor
    · push_cast
      ring
    · push_cast
      ring

end Sids

section Lists

variable {sidSize i k : Nat} {reply left right before offsets moved free : List UInt8}

section

variable {list : WireList} (formed : WellFormed sidSize list)
  (source : reply = left ++ (list.wire ++ right))

include formed source

theorem wire_counter {rsp : Nat} (rspIs : rsp = left.length) :
    load32 reply ((rsp : Int) + 50) = some (BitVec.ofNat 32 list.entries.length) := by
  have shape : reply = (left ++ list.front) ++
      (leBytes 4 list.entries.length ++ (list.entries.flatten ++ right)) := by
    rw [source, WireList.wire, WireList.head]
    simp only [append_assoc]
  rw [shape]
  apply load32_middle
  rw [length_append, formed.front, rspIs]
  push_cast
  ring

theorem moveList_moves {pStr rsp : Nat} (rspIs : rsp = left.length) (headIs : before.length = 10)
    (iIs : offsets.length = 4 * i)
    (pStrIs : pStr = (before ++ (offsets ++ (zeros (4 + k) ++ moved))).length) :
    moveList reply sidSize ⟨rsp, before ++ (offsets ++ (zeros (4 + k) ++
          (moved ++ (zeros (packedSize sidSize list) ++ free)))), pStr⟩ i =
      some ⟨(rsp + list.wire.length : Nat), before ++ ((offsets ++ leBytes 4 pStr) ++
        (zeros k ++ ((moved ++ list.packed sidSize) ++ free))),
        (pStr + packedSize sidSize list : Nat)⟩ := by
  set count := list.entries.length with countIs
  have headLength := formed.head_length
  have split : zeros (4 + k) = zeros 4 ++ zeros k := by
    rw [zeros, zeros, zeros, replicate_append_replicate]
  have space : zeros (packedSize sidSize list) ++ free =
      zeros 54 ++ (zeros (4 * count + 4 * count) ++ (zeros (sidSize * count) ++ free)) := by
    rw [<- append_assoc, <- append_assoc]
    simp only [zeros, replicate_append_replicate, packedSize, <- countIs]
    congr 2
    omega
  have headLoaded : load reply (rsp : Int) sizeofSVnodeSidList = some list.head := by
    rw [source, WireList.wire, append_assoc]
    exact load_middle (by rw [rspIs]) headLength.symm
  have headStored (tail : List UInt8) : store
      (before ++ (offsets ++ (zeros (4 + k) ++ (moved ++ (zeros 54 ++ tail))))) (pStr : Int)
        list.head =
        some (before ++ (offsets ++ (zeros (4 + k) ++ (moved ++ (list.head ++ tail))))) := by
    have shape (word : List UInt8) :
        before ++ (offsets ++ (zeros (4 + k) ++ (moved ++ (word ++ tail)))) =
          (before ++ (offsets ++ (zeros (4 + k) ++ moved))) ++ (word ++ tail) := by
      simp only [append_assoc]
    rw [shape, shape]
    exact store_middle (by rw [pStrIs]) (by rw [headLength, length_replicate])
  have placeStored (tail : List UInt8) : store32
      (before ++ (offsets ++ (zeros (4 + k) ++ tail))) ((sizeofSMetricMeta : Int) + 4 * i)
        (BitVec.ofInt 32 (pStr : Int)) =
        some (before ++ ((offsets ++ leBytes 4 pStr) ++ (zeros k ++ tail))) := by
    have shape (word : List UInt8) : before ++ (offsets ++ (word ++ (zeros k ++ tail))) =
        (before ++ offsets) ++ (word ++ (zeros k ++ tail)) := by
      rw [append_assoc]
    rw [split, append_assoc (zeros 4), shape, store32_offset pStr rfl]
    · simp only [append_assoc]
    · rw [length_append, headIs, iIs, sizeofSMetricMeta]
      push_cast
      ring
  have counter := wire_counter formed source rspIs
  have signed : (BitVec.ofNat 32 count).toInt = count := toInt_ofNat32 formed.few
  rw [<- countIs] at counter
  have front : (before ++ ((offsets ++ leBytes 4 pStr) ++ (zeros k ++ (moved ++ list.head)))).length =
      pStr + 54 := by
    rw [pStrIs]
    simp only [length_append, length_replicate, leBytes_length, headLength]
    omega
  -- the entries follow the head and the two halves of the table of offsets
  have entriesMoved := @moveSids_move sidSize 0 (4 * count) reply (left ++ list.head) right
    (before ++ ((offsets ++ leBytes 4 pStr) ++ (zeros k ++ (moved ++ list.head)))) [] []
    free list.entries pStr (pStr + 54 + 8 * count) (rsp + 54)
    (by rw [source, WireList.wire]; simp only [append_assoc])
    (by rw [length_append, headLength, rspIs]) formed.entries front.symm rfl
    (by
      rw [length_append, front]
      simp only [nil_append, append_nil, length_replicate]
      omega)
  simp only [nil_append, <- countIs] at entriesMoved
  simp only [moveList, headLoaded, headStored, placeStored, counter, space, bind_eq_bind,
    bind_some, signed, Int.toNat_natCast, List.range_eq_range']
  have shape (tail : List UInt8) : before ++ ((offsets ++ leBytes 4 pStr) ++ (zeros k ++
      (moved ++ (list.head ++ tail)))) =
        (before ++ ((offsets ++ leBytes 4 pStr) ++ (zeros k ++ (moved ++ list.head)))) ++ tail := by
    simp only [append_assoc]
  have rspNext : (rsp : Int) + sizeofSVnodeSidList = ((rsp + 54 : Nat) : Int) := by
    rw [Nat.cast_add, sizeofSVnodeSidList]
  have pStrNext : (pStr : Int) + sizeofSVnodeSidList + sizeofPointer * count =
      ((pStr + 54 + 8 * count : Nat) : Int) := by
    rw [sizeofSVnodeSidList, sizeofPointer]
    push_cast
    ring
  have firstOffset : pStr + 54 + 8 * count - pStr = 54 + 8 * count := by omega
  rw [shape, rspNext, pStrNext, entriesMoved, firstOffset, packedSize,
    WireList.packed, WireList.offsets, <- countIs, formed.wire_length, <- countIs]
  simp only [append_assoc, Nat.add_assoc]

end

theorem moveLists_move (lists : List WireList) {pStr rsp : Nat}
    (formed : ∀ list ∈ lists, WellFormed sidSize list)
    (source : reply = left ++ (lists.flatMap WireList.wire ++ right)) (rspIs : rsp = left.length)
    (headIs : before.length = 10) (iIs : offsets.length = 4 * i)
    (pStrIs : pStr = (before ++ (offsets ++ (zeros (4 * lists.length + k) ++ moved))).length) :
    ((List.range' i lists.length).foldlM (moveList reply sidSize)
        ⟨rsp, before ++ (offsets ++ (zeros (4 * lists.length + k) ++ (moved ++
          (zeros (lists.map (packedSize sidSize)).sum ++ free)))), pStr⟩).map Packing.block =
      some (before ++ ((offsets ++ offsetBytes (listPlaces sidSize pStr lists)) ++
        (zeros k ++ ((moved ++ lists.flatMap (WireList.packed sidSize)) ++ free)))) := by
  induction lists generalizing i left offsets moved pStr rsp with
  | nil => simp [listPlaces, offsetBytes]
  | cons list rest ih =>
    have listFormed := formed list mem_cons_self
    have room : 4 * (rest.length + 1) + k = 4 + (4 * rest.length + k) := by ring
    have space : zeros (packedSize sidSize list + (rest.map (packedSize sidSize)).sum) ++ free =
        zeros (packedSize sidSize list) ++ (zeros (rest.map (packedSize sidSize)).sum ++ free) := by
      rw [<- append_assoc, zeros, zeros, zeros, replicate_append_replicate]
    rw [length_cons, room] at pStrIs
    rw [flatMap_cons, append_assoc] at source
    have nextSource : reply = (left ++ list.wire) ++ (rest.flatMap WireList.wire ++ right) := by
      rw [source, append_assoc]
    have nextRsp : rsp + list.wire.length = (left ++ list.wire).length := by
      rw [rspIs, length_append]
    have nextOffsets : (offsets ++ leBytes 4 pStr).length = 4 * (i + 1) := by
      rw [length_append, iIs, leBytes_length]
      ring
    have nextStr : pStr + packedSize sidSize list = (before ++ ((offsets ++ leBytes 4 pStr) ++
        (zeros (4 * rest.length + k) ++ (moved ++ list.packed sidSize)))).length := by
      rw [pStrIs]
      simp only [length_append, length_replicate, leBytes_length, listFormed.packed_length]
      omega
    rw [length_cons, range'_succ, List.foldlM_cons, map_cons, sum_cons, room,
      space, moveList_moves listFormed source rspIs headIs iIs pStrIs, bind_eq_bind,
      bind_some, ih (fun other member => formed other (List.mem_cons_of_mem _ member))
        nextSource nextRsp nextOffsets nextStr]
    simp only [listPlaces, offsetBytes, flatMap_cons, append_assoc]

end Lists

section Whole

variable {tagLen : Nat} {lists : List WireList}

theorem wires_length (formed : ∀ list ∈ lists, WellFormed (12 + tagLen) list) :
    (lists.flatMap WireList.wire).length =
      54 * lists.length + (12 + tagLen) * (lists.map fun list => list.entries.length).sum := by
  induction lists with
  | nil => rfl
  | cons list rest ih =>
    rw [flatMap_cons, length_append, (formed list mem_cons_self).wire_length,
      ih fun other member => formed other (List.mem_cons_of_mem _ member), length_cons,
      map_cons, sum_cons]
    ring

theorem packed_sum (sidSize : Nat) (lists : List WireList) :
    (lists.map (packedSize sidSize)).sum = 54 * lists.length +
      (8 + sidSize) * (lists.map fun list => list.entries.length).sum := by
  induction lists with
  | nil => rfl
  | cons list rest ih =>
    rw [map_cons, sum_cons, ih, length_cons, map_cons, sum_cons, packedSize]
    ring

theorem process_reply {numOfMeters : Nat} (formed : ∀ list ∈ lists, WellFormed (12 + tagLen) list)
    (total : (lists.map fun list => list.entries.length).sum = numOfMeters)
    (fewMeters : numOfMeters < 2 ^ 31) (fewVnodes : lists.length < 2 ^ 31)
    (short : tagLen < 2 ^ 16) :
    tscProcessMetricMetaRsp (replyOf numOfMeters tagLen lists) =
      some (.ok (blockOf numOfMeters tagLen lists)) := by
  set reply := replyOf numOfMeters tagLen lists with replyIs
  have ieType : load reply 0 1 = some [TSDB_IE_TYPE_META] :=
    @load_middle [] _ [TSDB_IE_TYPE_META] 0 1 rfl rfl
  have meters : (load32 reply 1).map (reverseBytes 4) = some (BitVec.ofNat 32 numOfMeters) :=
    load32_turned rfl
  have vnodes : (load32 reply 5).map (reverseBytes 4) = some (BitVec.ofNat 32 lists.length) := by
    rw [replyIs, replyOf, <- append_assoc]
    apply load32_turned
    simp
  have tags : (load16 reply 9).map (reverseBytes 2) = some (BitVec.ofNat 16 tagLen) := by
    rw [replyIs, replyOf, <- append_assoc, <- append_assoc]
    apply load16_turned
    simp
  have metersSigned : (BitVec.ofNat 32 numOfMeters).toInt = numOfMeters := toInt_ofNat32 fewMeters
  have vnodesSigned : (BitVec.ofNat 32 lists.length).toInt = lists.length :=
    toInt_ofNat32 fewVnodes
  have tagsRead : (BitVec.ofNat 16 tagLen).toNat = tagLen := by
    rw [BitVec.toNat_ofNat, Nat.mod_eq_of_lt short]
  have replyLength : reply.length = 11 + (54 * lists.length + (12 + tagLen) * numOfMeters) := by
    rw [replyIs, replyOf]
    simp only [length_append, List.length_reverse, leBytes_length, length_cons,
      List.length_nil, wires_length formed, total]
    omega
  set sum := (lists.map (packedSize (12 + tagLen))).sum with sumIs
  have sumEq : sum = 54 * lists.length + (8 + (12 + tagLen)) * numOfMeters := by
    rw [sumIs, packed_sum, total]
  have allocated : calloc (reply.length + (lists.length : Int) * sizeofPointer +
      (numOfMeters : Int) * sizeofPointer) =
        some (zeros 4 ++ (zeros 4 ++ (zeros 2 ++ (zeros (4 * lists.length + 4 * lists.length) ++
          (zeros sum ++ zeros 1))))) := by
    have size : reply.length + (lists.length : Int) * sizeofPointer +
        (numOfMeters : Int) * sizeofPointer =
          ((4 + (4 + (2 + (4 * lists.length + 4 * lists.length + (sum + 1)))) : Nat) : Int) := by
      rw [sumEq, replyLength, sizeofPointer]
      push_cast
      ring
    rw [size, calloc, if_pos (Int.natCast_nonneg _), Int.toNat_natCast]
    simp only [zeros, replicate_append_replicate]
  have headStored (tail : List UInt8) :
      ((store32 (zeros 4 ++ (zeros 4 ++ (zeros 2 ++ tail))) 0 (BitVec.ofNat 32 numOfMeters)).bind
        fun block => (store32 block 4 (BitVec.ofNat 32 lists.length)).bind
          fun block => store16 block 8 (BitVec.ofNat 16 tagLen)) =
        some (blockHead numOfMeters lists.length tagLen ++ tail) := by
    have first := @store32_middle [] (zeros 4) (zeros 4 ++ (zeros 2 ++ tail)) 0 rfl
      (BitVec.ofNat 32 numOfMeters) rfl
    rw [nil_append, nil_append, leBytes_ofNat32] at first
    rw [first, bind_some, store32_middle (by rfl) (by rfl), bind_some,
      <- append_assoc, store16_middle (by simp) (by rfl), leBytes_ofNat32, leBytes_ofNat16,
      blockHead]
    simp only [append_assoc]
  have moved := @moveLists_move (12 + tagLen) 0 (4 * lists.length) reply
    ([TSDB_IE_TYPE_META] ++ ((leBytes 4 numOfMeters).reverse ++ ((leBytes 4 lists.length).reverse ++
      (leBytes 2 tagLen).reverse))) [] (blockHead numOfMeters lists.length tagLen) [] [] (zeros 1)
    lists (10 + 8 * lists.length) 11 formed
    (by rw [replyIs, replyOf]; simp only [append_assoc, append_nil])
    (by simp) (blockHead_length ..) rfl
    (by
      simp only [nil_append, append_nil, length_append, blockHead_length, length_replicate]
      omega)
  simp only [nil_append, <- sumIs] at moved
  obtain ⟨packing, ran, blockIs⟩ := Option.map_eq_some_iff.mp moved
  obtain ⟨one, metersStored, between⟩ := Option.bind_eq_some_iff.mp
    (headStored (zeros (4 * lists.length + 4 * lists.length) ++ (zeros sum ++ zeros 1)))
  obtain ⟨two, vnodesStored, tagsStored⟩ := Option.bind_eq_some_iff.mp between
  have pStrStart : ((sizeofSMetricMeta : Nat) : Int) + (lists.length : Int) * sizeofPointer =
      ((10 + 8 * lists.length : Nat) : Int) := by
    rw [sizeofSMetricMeta, sizeofPointer]
    push_cast
    ring
  simp only [tscProcessMetricMetaRsp, ieType, meters, vnodes, tags, metersSigned, vnodesSigned,
    tagsRead, allocated, metersStored, vnodesStored, tagsStored, bind_eq_bind,
    bind_some, ne_eq, not_true_eq_false, if_false, Int.toNat_natCast, pStrStart,
    List.range_eq_range', sizeofSMeterSidExtInfo]
  have begin' : (1 : Int) + (sizeofSMetricMeta : Nat) = ((11 : Nat) : Int) := rfl
  rw [begin', ran, bind_some, blockIs, blockOf]

end Whole

end Luomi.Client.MetricMetaBlock
