import Luomi.Base.KeyedMerge
import Luomi.Util.LoserTree
import Luomi.Vnode.QueryBlocks
import Mathlib.Order.WithBot

/-!
# The order in which a query over several meters reads its blocks

`createDataBlocksInfoEx` merges the blocks that were kept for every meter into
one list, by their offsets in the file, with a loser tree over the meters that
have any.  `queryOnMultiDataFiles` walks through the list from its beginning in
an ascending query and from its end in a descending one.
-/

namespace Luomi.Vnode.QueryBlockOrder

open Luomi.Util.LoserTree
open Luomi.KeyedMerge
open Luomi.Vnode.QueryBlocks
open List (getElem?_eq_getElem getElem?_eq_none getElem_mem length_cons map_cons mem_map)

structure SMeterDataBlockInfoEx where
  compBlock : SCompBlock
  pMeterDataInfo : Nat
  groupIdx : Nat
  blockIndex : Nat

structure SBlockOrderSupporter where
  pDataBlockInfoEx : List (List SMeterDataBlockInfoEx)
  blockIndexArray : Nat -> Nat

namespace SBlockOrderSupporter

section

variable (supporter : SBlockOrderSupporter) (pos : Nat)

def blocksOf : List SMeterDataBlockInfoEx :=
  supporter.pDataBlockInfoEx[pos]?.getD []

def numOfBlocksPerMeter : Nat :=
  (supporter.blocksOf pos).length

/-- The block index of `pos` one further; behind the last block it is set so
that the comparator takes the meter as empty. -/
def next : SBlockOrderSupporter :=
  let index := supporter.blockIndexArray pos + 1
  { supporter with
    blockIndexArray := Function.update supporter.blockIndexArray pos
      (if index ≥ supporter.numOfBlocksPerMeter pos
        then supporter.numOfBlocksPerMeter pos + 1 else index) }

end

end SBlockOrderSupporter

def blockAccessOrderComparator (supporter : SBlockOrderSupporter) (left right : Nat) : Int :=
  let leftIndex := supporter.blockIndexArray left
  let rightIndex := supporter.blockIndexArray right
  if leftIndex > supporter.numOfBlocksPerMeter left then 1
  else if rightIndex > supporter.numOfBlocksPerMeter right then -1
  else
    match (supporter.blocksOf left)[leftIndex]?, (supporter.blocksOf right)[rightIndex]? with
    | some leftInfo, some rightInfo =>
      if leftInfo.compBlock.offset > rightInfo.compBlock.offset then 1 else -1
    | _, _ => 0

/-- The entries of the `j`-th meter: block `k` of the kept ones has the index
`start + k` in the file. -/
def infosOf (j : Nat) (meter : SMeterDataInfo) : List SMeterDataBlockInfoEx :=
  meter.kept.map fun numbered =>
    { compBlock := numbered.1
      pMeterDataInfo := j
      groupIdx := meter.groupIdx
      blockIndex := numbered.2 }

/-- The meters with blocks, moved together; the first meter is the `j`-th. -/
def qualified : Nat -> List SMeterDataInfo -> List (List SMeterDataBlockInfoEx)
  | _, [] => []
  | j, meter :: rest =>
    if meter.numOfBlocks = 0 then qualified (j + 1) rest
    else infosOf j meter :: qualified (j + 1) rest

/-- The loop over `numOfTotal`; the first argument is `cnt - numOfTotal`. -/
def mergeBlocks : Nat -> SBlockOrderSupporter -> SLoserTreeInfo ->
    List SMeterDataBlockInfoEx -> Option (List SMeterDataBlockInfoEx)
  | 0, _, _, infos => some infos
  | left + 1, supporter, pTree, infos =>
    match pTree.pNode 0 with
    | none => none
    | some pos =>
      match (supporter.blocksOf pos)[supporter.blockIndexArray pos]? with
      | none => none
      | some info =>
        let supporter' := supporter.next pos
        mergeBlocks left supporter'
          (tLoserTreeAdjust (blockAccessOrderComparator supporter') pTree
            (pos + supporter.pDataBlockInfoEx.length))
          (infos ++ [info])

def createDataBlocksInfoEx (meters : List SMeterDataInfo) (numOfCompBlocks : Nat) :
    Option (List SMeterDataBlockInfoEx) :=
  let sources := qualified 0 meters
  let cnt := (sources.map List.length).sum
  if cnt ≤ numOfCompBlocks ∧ sources.length ≤ meters.length then
    let supporter : SBlockOrderSupporter :=
      { pDataBlockInfoEx := sources, blockIndexArray := fun _ => 0 }
    mergeBlocks cnt supporter
      (tLoserTreeCreate sources.length (blockAccessOrderComparator supporter)) []
  else none

/-- What `queryOnMultiDataFiles` gets for one file. -/
def blocksOfFile (order : QueryOrder) (rawEKey : Int)
    (meters : List (SCompInfo × SMeterDataInfo)) : Option (List SMeterDataBlockInfoEx) :=
  match getDataBlocksForMeters order rawEKey meters with
  | none => none
  | some (kept, numOfBlocks) =>
    if numOfBlocks = 0 then some [] else createDataBlocksInfoEx kept numOfBlocks

def scanned (order : QueryOrder) (infos : List SMeterDataBlockInfoEx) :
    List SMeterDataBlockInfoEx :=
  match order with
  | .asc => infos
  | .desc => infos.reverse

def headOffset (supporter : SBlockOrderSupporter) (pos : Nat) : WithTop Int :=
  match (supporter.blocksOf pos)[supporter.blockIndexArray pos]? with
  | some info => (info.compBlock.offset : Int)
  | none => ⊤

/-- Where a block index can stand: at a block, or set behind the last one. -/
def Placed (supporter : SBlockOrderSupporter) (pos : Nat) : Prop :=
  supporter.blockIndexArray pos < supporter.numOfBlocksPerMeter pos ∨
    supporter.blockIndexArray pos = supporter.numOfBlocksPerMeter pos + 1

section

variable (supporter : SBlockOrderSupporter)
include supporter

theorem comparator_compares
    (placed : ∀ pos, pos < supporter.pDataBlockInfoEx.length -> Placed supporter pos) :
    Compares (headOffset supporter) (blockAccessOrderComparator supporter)
      supporter.pDataBlockInfoEx.length := by
  intro a b aSmall bSmall
  unfold blockAccessOrderComparator
  rcases placed a aSmall with aBlock | aEmpty
  · rw [if_neg (show ¬ supporter.blockIndexArray a > _ by omega)]
    rcases placed b bSmall with bBlock | bEmpty
    · rw [if_neg (show ¬ supporter.blockIndexArray b > _ by omega)]
      have aHead := getElem?_eq_getElem aBlock
      have bHead := getElem?_eq_getElem bBlock
      simp only [headOffset, aHead, bHead, WithTop.coe_le_coe]
      split <;> omega
    · rw [if_pos (show supporter.blockIndexArray b > _ by omega)]
      have none_ : headOffset supporter b = ⊤ := by
        simp only [headOffset, getElem?_eq_none (show _ ≤ supporter.blockIndexArray b from by
            rw [bEmpty]; exact Nat.le_succ _)]
      simp [none_]
  · rw [if_pos (show supporter.blockIndexArray a > _ by omega)]
    have none_ : headOffset supporter a = ⊤ := by
      simp only [headOffset, getElem?_eq_none (show _ ≤ supporter.blockIndexArray a from by
          rw [aEmpty]; exact Nat.le_succ _)]
    simp [none_]

@[simp] theorem next_blocks (pos : Nat) :
    (supporter.next pos).pDataBlockInfoEx = supporter.pDataBlockInfoEx := rfl

@[simp] theorem next_blocksOf (pos other : Nat) :
    (supporter.next pos).blocksOf other = supporter.blocksOf other := rfl

theorem next_other {pos other : Nat} (away : other ≠ pos) :
    (supporter.next pos).blockIndexArray other = supporter.blockIndexArray other :=
  Function.update_of_ne away ..

theorem next_self (pos : Nat) : (supporter.next pos).blockIndexArray pos =
      if supporter.blockIndexArray pos + 1 ≥ (supporter.blocksOf pos).length
        then (supporter.blocksOf pos).length + 1 else supporter.blockIndexArray pos + 1 :=
  Function.update_self ..

end

def Follows (supporter : SBlockOrderSupporter) (taken : Nat -> Nat) : Prop :=
  ∀ pos, pos < supporter.pDataBlockInfoEx.length ->
    (taken pos < supporter.numOfBlocksPerMeter pos ∧ supporter.blockIndexArray pos = taken pos) ∨
      (taken pos = supporter.numOfBlocksPerMeter pos ∧
        supporter.blockIndexArray pos = supporter.numOfBlocksPerMeter pos + 1)

variable {supporter : SBlockOrderSupporter} {taken : Nat -> Nat}

section

variable (follows : Follows supporter taken) (pos : Nat)
  (source : pos < supporter.pDataBlockInfoEx.length)

include follows source

theorem Follows.placed : Placed supporter pos := by
  rcases follows pos source with ⟨small, index⟩ | ⟨_, index⟩
  · exact Or.inl (index ▸ small)
  · exact Or.inr index

theorem Follows.head : (supporter.blocksOf pos)[supporter.blockIndexArray pos]? =
      (supporter.blocksOf pos)[taken pos]? := by
  rcases follows pos source with ⟨_, index⟩ | ⟨full, index⟩
  · rw [index]
  · rw [getElem?_eq_none (by rw [index]; exact Nat.le_succ _),
      getElem?_eq_none (by rw [full]; exact Nat.le_refl _)]

theorem Follows.next {info : SMeterDataBlockInfoEx}
    (head : (supporter.blocksOf pos)[taken pos]? = some info) :
    Follows (supporter.next pos) (Function.update taken pos (taken pos + 1)) := by
  intro other small
  by_cases same : other = pos
  · subst same
    obtain ⟨here, -⟩ := List.getElem?_eq_some_iff.mp head
    have index : supporter.blockIndexArray other = taken other := by
      rcases follows other source with ⟨_, index⟩ | ⟨full, _⟩
      · exact index
      · exact absurd full (Nat.ne_of_lt here)
    rw [next_self, Function.update_self, index]
    simp only [SBlockOrderSupporter.numOfBlocksPerMeter, next_blocksOf]
    by_cases last : taken other + 1 ≥ (supporter.blocksOf other).length
    · right
      rw [if_pos last]
      exact ⟨by omega, rfl⟩
    · left
      rw [if_neg last]
      exact ⟨by omega, rfl⟩
  · rw [next_other supporter same, Function.update_of_ne same]
    exact follows other small

end

def offsetOf (info : SMeterDataBlockInfoEx) : Int :=
  info.compBlock.offset

variable {drawn : List (Nat × SMeterDataBlockInfoEx)}

theorem winner_least {pTree : SLoserTreeInfo} (follows : Follows supporter taken)
    (merged : Merged offsetOf supporter.pDataBlockInfoEx.length supporter.blocksOf taken drawn)
    (ready : Ready (headOffset supporter) supporter.pDataBlockInfoEx.length pTree)
    (less : drawn.length <
      ∑ b ∈ Finset.range supporter.pDataBlockInfoEx.length, (supporter.blocksOf b).length) :
    ∃ pos info, pTree.pNode 0 = some pos ∧ pos < supporter.pDataBlockInfoEx.length ∧
      (supporter.blocksOf pos)[taken pos]? = some info ∧
      ∀ b other, b < supporter.pDataBlockInfoEx.length ->
        (supporter.blocksOf b)[taken b]? = some other -> offsetOf info ≤ offsetOf other := by
  obtain ⟨pos, top, source, least⟩ := ready.least
  have headOf : ∀ b other, b < supporter.pDataBlockInfoEx.length ->
      (supporter.blocksOf b)[taken b]? = some other ->
        headOffset supporter b = (offsetOf other : Int) := by
    intro b other small otherAt
    simp only [headOffset, follows.head b small, otherAt, offsetOf]
  obtain ⟨b, other, bSmall, otherAt⟩ := merged.left_over less
  cases head : (supporter.blocksOf pos)[taken pos]? with
  | none =>
    have none_ : headOffset supporter pos = ⊤ := by
      simp only [headOffset, follows.head pos source, head]
    have bound := least b bSmall
    rw [none_, headOf b other bSmall otherAt] at bound
    simp at bound
  | some info =>
    refine ⟨pos, info, top, source, head, ?_⟩
    intro c another cSmall anotherAt
    have bound := least c cSmall
    rw [headOf pos info source head, headOf c another cSmall anotherAt] at bound
    exact WithTop.coe_le_coe.mp bound

theorem mergeBlocks_merges (left : Nat) (supporter : SBlockOrderSupporter)
    (pTree : SLoserTreeInfo) (taken : Nat -> Nat) (drawn : List (Nat × SMeterDataBlockInfoEx))
    (follows : Follows supporter taken)
    (merged : Merged offsetOf supporter.pDataBlockInfoEx.length supporter.blocksOf taken drawn)
    (ready : 0 < left -> Ready (headOffset supporter) supporter.pDataBlockInfoEx.length pTree)
    (count : drawn.length + left =
      ∑ b ∈ Finset.range supporter.pDataBlockInfoEx.length, (supporter.blocksOf b).length) :
    ∃ taken' drawn', mergeBlocks left supporter pTree (drawn.map Prod.snd) =
        some (drawn'.map Prod.snd) ∧
      Merged offsetOf supporter.pDataBlockInfoEx.length supporter.blocksOf taken' drawn' ∧
      drawn'.length =
        ∑ b ∈ Finset.range supporter.pDataBlockInfoEx.length, (supporter.blocksOf b).length := by
  induction left generalizing supporter pTree taken drawn with
  | zero => exact ⟨taken, drawn, rfl, merged, count⟩
  | succ left hypothesis =>
    obtain ⟨pos, info, top, source, head, least⟩ :=
      winner_least follows merged (ready (Nat.succ_pos left)) (by omega)
    have follows' := follows.next pos source head
    have step : mergeBlocks (left + 1) supporter pTree (drawn.map Prod.snd) =
        mergeBlocks left (supporter.next pos)
          (tLoserTreeAdjust (blockAccessOrderComparator (supporter.next pos)) pTree
            (pos + supporter.pDataBlockInfoEx.length))
          ((drawn ++ [(pos, info)]).map Prod.snd) := by
      simp only [mergeBlocks, top, follows.head pos source, head]
      simp
    rw [step]
    refine hypothesis (supporter.next pos) _ _ (drawn ++ [(pos, info)]) follows'
      (merged.draw source head least) (fun _ => ?_) ?_
    · exact (ready (Nat.succ_pos left)).adjust top (fun a away => by
          simp only [headOffset, next_blocksOf, next_other supporter away])
        (comparator_compares _ follows'.placed)
    · rw [List.length_append]
      simpa [Nat.add_assoc, Nat.add_comm 1 left] using count

section

variable (j : Nat)
include j

theorem infosOf_length (meter : SMeterDataInfo) : (infosOf j meter).length = meter.numOfBlocks := by
  rw [infosOf, List.length_map, SMeterDataInfo.kept, List.length_zipIdx, meter.allocated]

theorem infosOf_meter (meter : SMeterDataInfo) :
    ∀ info ∈ infosOf j meter, info.pMeterDataInfo = j := by
  intro info member
  obtain ⟨_, _, rfl⟩ := mem_map.mp member
  rfl

section

variable (meters : List SMeterDataInfo)

theorem qualified_count :
    ((qualified j meters).map List.length).sum = (meters.map SMeterDataInfo.numOfBlocks).sum := by
  induction meters generalizing j with
  | nil => rfl
  | cons meter rest hypothesis =>
    rw [qualified]
    split
    · rename_i empty
      simp [hypothesis, empty]
    · simp [hypothesis, infosOf_length]

theorem qualified_length : (qualified j meters).length ≤ meters.length := by
  induction meters generalizing j with
  | nil => exact Nat.le_refl 0
  | cons meter rest hypothesis =>
    have := hypothesis (j + 1)
    rw [qualified]
    split
    · simp only [length_cons]
      omega
    · simp only [length_cons]
      omega

theorem mem_qualified : ∀ source ∈ qualified j meters, ∃ i meter, meters[i]? = some meter ∧
      meter.numOfBlocks ≠ 0 ∧ source = infosOf (j + i) meter := by
  induction meters generalizing j with
  | nil => simp [qualified]
  | cons meter rest hypothesis =>
    have later : ∀ source ∈ qualified (j + 1) rest, ∃ i other,
        (meter :: rest)[i]? = some other ∧ other.numOfBlocks ≠ 0 ∧
          source = infosOf (j + i) other := by
      intro source member
      obtain ⟨i, other, otherAt, nonempty, isSource⟩ := hypothesis (j + 1) source member
      exact ⟨i + 1, other, otherAt, nonempty, by rw [isSource, Nat.add_right_comm]; rfl⟩
    intro source member
    rw [qualified] at member
    split at member
    · exact later source member
    · rename_i nonempty
      rcases List.mem_cons.mp member with first | rest_
      · exact ⟨0, meter, rfl, nonempty, first⟩
      · exact later source rest_

theorem infosOf_mem_qualified (i : Nat) (meter : SMeterDataInfo) (meterAt : meters[i]? = some meter)
    (nonempty : meter.numOfBlocks ≠ 0) : infosOf (j + i) meter ∈ qualified j meters := by
  induction meters generalizing j i with
  | nil => simp at meterAt
  | cons first rest hypothesis =>
    rw [qualified]
    cases i with
    | zero =>
      obtain rfl : first = meter := by simpa using meterAt
      rw [if_neg nonempty]
      exact List.mem_cons_self
    | succ i =>
      have later := hypothesis (j + 1) i (by simpa using meterAt)
      rw [show j + 1 + i = j + (i + 1) by omega] at later
      split
      · exact later
      · exact List.mem_cons_of_mem _ later

theorem qualified_apart : (qualified j meters).Pairwise fun left right =>
      ∀ x ∈ left, ∀ y ∈ right, x.pMeterDataInfo ≠ y.pMeterDataInfo := by
  induction meters generalizing j with
  | nil => exact List.Pairwise.nil
  | cons meter rest hypothesis =>
    rw [qualified]
    split
    · exact hypothesis (j + 1)
    · refine List.pairwise_cons.mpr ⟨?_, hypothesis (j + 1)⟩
      intro source member x xMember y yMember
      obtain ⟨i, other, -, -, rfl⟩ := mem_qualified (j + 1) rest source member
      rw [infosOf_meter _ _ x xMember, infosOf_meter _ _ y yMember]
      omega

end

end

theorem sum_sources (sources : List (List SMeterDataBlockInfoEx)) :
    ∑ b ∈ Finset.range sources.length, (sources[b]?.getD []).length =
      (sources.map List.length).sum := by
  induction sources with
  | nil => rfl
  | cons source rest hypothesis =>
    rw [length_cons, Finset.sum_range_succ', map_cons, List.sum_cons, <- hypothesis]
    simp [Nat.add_comm]

theorem drawn_of_meter {meters : List SMeterDataInfo}
    (sources : supporter.pDataBlockInfoEx = qualified 0 meters)
    (merged : Merged offsetOf supporter.pDataBlockInfoEx.length supporter.blocksOf taken drawn)
    (full : drawn.length =
      ∑ b ∈ Finset.range supporter.pDataBlockInfoEx.length, (supporter.blocksOf b).length)
    (j : Nat) :
    (drawn.map Prod.snd).filter (fun info => info.pMeterDataInfo = j) =
      match meters[j]? with
      | none => []
      | some meter => infosOf j meter := by
  have inSources : ∀ draw ∈ drawn, ∃ i meter, meters[i]? = some meter ∧
      meter.numOfBlocks ≠ 0 ∧ draw.2.pMeterDataInfo = i := by
    intro draw member
    obtain ⟨small, inside⟩ := merged.source_lt draw member
    rw [SBlockOrderSupporter.blocksOf, getElem?_eq_getElem small] at inside
    have sourceMember : supporter.pDataBlockInfoEx[draw.1] ∈ qualified 0 meters := by
      rw [<- sources]
      exact getElem_mem small
    obtain ⟨i, meter, meterAt, nonempty, isSource⟩ :=
      mem_qualified 0 meters _ sourceMember
    simp only [Option.getD_some, isSource, Nat.zero_add] at inside
    exact ⟨i, meter, meterAt, nonempty, infosOf_meter i meter _ inside⟩
  have nothing : (∀ meter, meters[j]? = some meter -> meter.numOfBlocks = 0) ->
      (drawn.map Prod.snd).filter (fun info => info.pMeterDataInfo = j) = [] := by
    intro empty
    rw [List.filter_eq_nil_iff]
    intro info member
    obtain ⟨draw, drawMember, rfl⟩ := mem_map.mp member
    obtain ⟨i, meter, meterAt, nonempty, owner⟩ := inSources draw drawMember
    intro same
    obtain rfl : i = j := owner.symm.trans (of_decide_eq_true same)
    exact nonempty (empty meter meterAt)
  cases meterAt : meters[j]? with
  | none => exact nothing (by simp [meterAt])
  | some meter =>
    simp only
    by_cases empty : meter.numOfBlocks = 0
    · rw [nothing (by simp [meterAt, empty]),
        List.length_eq_zero_iff.mp ((infosOf_length j meter).trans empty)]
    · have member := infosOf_mem_qualified 0 meters j meter meterAt empty
      rw [Nat.zero_add, <- sources] at member
      obtain ⟨a, source, isSource⟩ := List.mem_iff_getElem.mp member
      have blocks : supporter.blocksOf a = infosOf j meter := by
        rw [SBlockOrderSupporter.blocksOf, getElem?_eq_getElem source, isSource]
        rfl
      obtain ⟨first, firstMember⟩ : ∃ first, first ∈ infosOf j meter :=
        List.exists_mem_of_length_pos (by rw [infosOf_length]; omega)
      have apart := List.pairwise_iff_getElem.mp (sources ▸ qualified_apart 0 meters)
      have same : ∀ draw ∈ drawn, decide (draw.2.pMeterDataInfo = j) = decide (draw.1 = a) := by
        intro draw member
        obtain ⟨small, inside⟩ := merged.source_lt draw member
        rw [SBlockOrderSupporter.blocksOf, getElem?_eq_getElem small] at inside
        rw [decide_eq_decide]
        constructor
        · intro owner
          by_contra differ
          rw [<- infosOf_meter j meter first firstMember] at owner
          rw [<- isSource] at firstMember
          rcases Nat.lt_or_gt_of_ne differ with before | after
          · exact apart draw.1 a small source before _ inside _ firstMember owner
          · exact apart a draw.1 source small after _ firstMember _ inside owner.symm
        · rintro isA
          simp only [isA, isSource, Option.getD_some] at inside
          exact infosOf_meter j meter _ inside
      rw [List.filter_map]
      calc (drawn.filter fun draw => decide (draw.2.pMeterDataInfo = j)).map Prod.snd
          = (drawn.filter fun draw => decide (draw.1 = a)).map Prod.snd := by
            rw [List.filter_congr same]
        _ = (supporter.blocksOf a).take (taken a) := merged.of_source a
        _ = infosOf j meter := by
            rw [merged.complete full a source, List.take_length, blocks]

theorem createDataBlocksInfoEx_spec (meters : List SMeterDataInfo) (numOfCompBlocks : Nat)
    (count : (meters.map SMeterDataInfo.numOfBlocks).sum = numOfCompBlocks) :
    ∃ infos, createDataBlocksInfoEx meters numOfCompBlocks = some infos ∧
      (∀ j, infos.filter (fun info => info.pMeterDataInfo = j) = match meters[j]? with
        | none => []
        | some meter => infosOf j meter) ∧
      ((∀ source ∈ qualified 0 meters, source.Pairwise fun x y => offsetOf x ≤ offsetOf y) ->
        infos.Pairwise fun x y => offsetOf x ≤ offsetOf y) := by
  unfold createDataBlocksInfoEx
  simp only
  rw [if_pos ⟨Nat.le_of_eq ((qualified_count 0 meters).trans count), qualified_length 0 meters⟩]
  generalize created : (⟨qualified 0 meters, fun _ => 0⟩ : SBlockOrderSupporter) = supporter
  have sources : supporter.pDataBlockInfoEx = qualified 0 meters := by
    rw [<- created]
  have follows : Follows supporter (fun _ => 0) := by
    intro pos small
    left
    rw [sources] at small
    obtain ⟨i, meter, -, nonempty, isSource⟩ :=
      mem_qualified 0 meters _ (getElem_mem small)
    refine ⟨?_, by rw [<- created]⟩
    rw [SBlockOrderSupporter.numOfBlocksPerMeter, SBlockOrderSupporter.blocksOf, sources,
      getElem?_eq_getElem small, isSource, Option.getD_some, infosOf_length]
    exact Nat.pos_of_ne_zero nonempty
  have total : ∑ b ∈ Finset.range supporter.pDataBlockInfoEx.length,
      (supporter.blocksOf b).length = ((qualified 0 meters).map List.length).sum := by
    rw [<- sources]
    exact sum_sources supporter.pDataBlockInfoEx
  obtain ⟨taken, drawn, success, merged, full⟩ :=
    mergeBlocks_merges ((qualified 0 meters).map List.length).sum supporter
      (tLoserTreeCreate (qualified 0 meters).length (blockAccessOrderComparator supporter))
      (fun _ => 0) [] follows .start
      (fun some_ => by
        rw [<- sources]
        apply create_ready _ (comparator_compares supporter follows.placed)
        rw [sources]
        by_contra none_
        rw [List.length_eq_zero_iff.mp (by omega : (qualified 0 meters).length = 0)] at some_
        simp at some_)
      (by rw [total]; simp)
  refine ⟨_, success, drawn_of_meter sources merged full, ?_⟩
  intro ordered
  apply merged.ordered
  intro b small
  rw [SBlockOrderSupporter.blocksOf, getElem?_eq_getElem small]
  exact ordered _ (sources ▸ getElem_mem small)

section

variable (order : QueryOrder) (rawEKey : Int) (meters : List (SCompInfo × SMeterDataInfo))

theorem getDataBlocksForMeters_spec : ∃ kept numOfBlocks,
      getDataBlocksForMeters order rawEKey meters = some (kept, numOfBlocks) ∧
        (kept.map SMeterDataInfo.numOfBlocks).sum = numOfBlocks ∧
        kept.map (fun chosen => (chosen.groupIdx, chosen.kept)) =
          meters.map fun pair => (pair.2.groupIdx, wanted order rawEKey pair.1 pair.2) := by
  induction meters with
  | nil => exact ⟨[], 0, rfl, rfl, rfl⟩
  | cons pair rest hypothesis =>
    obtain ⟨compInfo, meter⟩ := pair
    obtain ⟨kept, numOfBlocks, success, count, same⟩ := hypothesis
    obtain ⟨chosen, chosenIs, group, blocks⟩ :=
      blocksForMeter_spec order rawEKey compInfo meter
    refine ⟨chosen :: kept, chosen.numOfBlocks + numOfBlocks, ?_, ?_, ?_⟩
    · simp only [getDataBlocksForMeters, chosenIs, success]
    · simp [count]
    · rw [map_cons, map_cons, same, group, blocks]

/-- The entries the `j`-th meter of a query should have in the list. -/
def wantedInfos (j : Nat) : List SMeterDataBlockInfoEx :=
  match meters[j]? with
  | none => []
  | some (compInfo, meter) =>
    (wanted order rawEKey compInfo meter).map fun numbered =>
      { compBlock := numbered.1
        pMeterDataInfo := j
        groupIdx := meter.groupIdx
        blockIndex := numbered.2 }

end

theorem infosOf_kept {order : QueryOrder} {rawEKey : Int}
    {meters : List (SCompInfo × SMeterDataInfo)} {kept : List SMeterDataInfo}
    (same : kept.map (fun chosen => (chosen.groupIdx, chosen.kept)) =
      meters.map fun pair => (pair.2.groupIdx, wanted order rawEKey pair.1 pair.2)) (j : Nat) :
    (match kept[j]? with
      | none => []
      | some meter => infosOf j meter) = wantedInfos order rawEKey meters j := by
  have atJ := congrArg (·[j]?) same
  simp only [List.getElem?_map] at atJ
  unfold wantedInfos
  cases keptAt : kept[j]? with
  | none =>
    rw [keptAt] at atJ
    cases meterAt : meters[j]? with
    | none => rfl
    | some pair =>
      rw [meterAt] at atJ
      cases atJ
  | some chosen =>
    rw [keptAt] at atJ
    cases meterAt : meters[j]? with
    | none =>
      rw [meterAt] at atJ
      cases atJ
    | some pair =>
      rw [meterAt] at atJ
      obtain ⟨group, blocks⟩ := Prod.mk.inj (Option.some.inj atJ)
      simp only [infosOf, group, blocks]

theorem scanned_filter (order : QueryOrder) (infos : List SMeterDataBlockInfoEx) (j : Nat) :
    (scanned order infos).filter (fun info => info.pMeterDataInfo = j) =
      scanned order (infos.filter fun info => info.pMeterDataInfo = j) := by
  cases order with
  | asc => rfl
  | desc => exact List.filter_reverse ..

/-- Whatever the meters, their blocks and their ranges: the scan of a file sees
of every meter the blocks that meet the meter's range and no others, each once
and with its own meter, the earliest first in an ascending query and the latest
first in a descending one; and the list goes through the file by offsets if the
offsets of each meter do. -/
theorem blocksOfFile_exact (order : QueryOrder) (rawEKey : Int)
    (meters : List (SCompInfo × SMeterDataInfo)) :
    ∃ infos, blocksOfFile order rawEKey meters = some infos ∧
      (∀ j, (scanned order infos).filter (fun info => info.pMeterDataInfo = j) =
        scanned order (wantedInfos order rawEKey meters j)) ∧
      (∀ info ∈ infos, info.pMeterDataInfo < meters.length) ∧
      ((∀ j, (wantedInfos order rawEKey meters j).Pairwise fun x y =>
          x.compBlock.offset ≤ y.compBlock.offset) ->
        infos.Pairwise fun x y => x.compBlock.offset ≤ y.compBlock.offset) := by
  obtain ⟨kept, numOfBlocks, success, count, same⟩ :=
    getDataBlocksForMeters_spec order rawEKey meters
  have own : ∀ infos : List SMeterDataBlockInfoEx,
      (∀ j, infos.filter (fun info => info.pMeterDataInfo = j) =
        wantedInfos order rawEKey meters j) ->
      ∀ info ∈ infos, info.pMeterDataInfo < meters.length := by
    intro infos exact_ info member
    by_contra outside
    have none_ : wantedInfos order rawEKey meters info.pMeterDataInfo = [] := by
      simp only [wantedInfos, getElem?_eq_none (Nat.not_lt.mp outside)]
    have empty := (exact_ info.pMeterDataInfo).trans none_
    exact List.filter_eq_nil_iff.mp empty info member (by simp)
  unfold blocksOfFile
  rw [success]
  simp only
  by_cases nothing : numOfBlocks = 0
  · rw [if_pos nothing]
    have empty : ∀ j, ([] : List SMeterDataBlockInfoEx).filter
        (fun info => info.pMeterDataInfo = j) = wantedInfos order rawEKey meters j := by
      intro j
      rw [<- infosOf_kept same j]
      cases keptAt : kept[j]? with
      | none => rfl
      | some chosen =>
        have zero : chosen.numOfBlocks = 0 :=
          List.sum_eq_zero_iff.mp (count.trans nothing) _
            (List.mem_map_of_mem (List.mem_of_getElem? keptAt))
        exact (List.length_eq_zero_iff.mp ((infosOf_length j chosen).trans zero)).symm
    refine ⟨[], rfl, ?_, own [] empty, fun _ => List.Pairwise.nil⟩
    intro j
    rw [scanned_filter, empty j]
  · rw [if_neg nothing]
    obtain ⟨infos, created, exact_, ordered⟩ :=
      createDataBlocksInfoEx_spec kept numOfBlocks count
    have wantedExact := fun j => (exact_ j).trans (infosOf_kept same j)
    refine ⟨infos, created, ?_, own infos wantedExact, ?_⟩
    · intro j
      rw [scanned_filter, wantedExact j]
    · intro offsets
      apply ordered
      intro source member
      obtain ⟨i, meter, meterAt, -, rfl⟩ := mem_qualified 0 kept source member
      have increasing := offsets (0 + i)
      rw [<- infosOf_kept same (0 + i), Nat.zero_add, meterAt] at increasing
      rw [Nat.zero_add]
      exact increasing

end Luomi.Vnode.QueryBlockOrder
