import Mathlib.Order.Interval.Set.Basic
import Mathlib.Data.List.Basic
import Mathlib.Tactic.Common

/-!
# Which file blocks a query over several meters reads

For each meter of the query `getDataBlocksForMeters` searches the blocks of the
current head file for the ones that meet the meter's own key range, and keeps
them in the meter's `SMeterDataInfo`, whose arrays are reused from file to file.

Slots and counts are natural numbers: the search is called with at least one
block, so `lastSlot` starts at a block and stays at or behind `firstSlot`.
An access outside the block array is `none`.
-/

namespace Luomi.Vnode.QueryBlocks

open Option (some.inj)

/-- `TSQL_SO_ASC` and `TSQL_SO_DESC`. -/
inductive QueryOrder where
  | asc
  | desc
  deriving DecidableEq

structure SCompBlock where
  keyFirst : Int
  keyLast : Int
  offset : Int
  last : Bool
 deriving Inhabited

/-- A meter's part of a head file; `intact` says that its two checksums fit. -/
structure SCompInfo where
  uid : Nat
  intact : Bool
  blocks : List SCompBlock
  nonempty : ∀ block ∈ blocks, block.keyFirst ≤ block.keyLast
  increasing : blocks.Pairwise fun before after => before.keyLast < after.keyFirst

/-- What a query keeps about one of its meters: `uid` is its meter object's and
`lastKey` its query state's. -/
structure SMeterDataInfo where
  uid : Nat
  groupIdx : Nat
  lastKey : Int
  start : Nat
  numOfBlocks : Nat
  pBlock : List SCompBlock
  allocated : pBlock.length = numOfBlocks

def searchLoop (pBlock : List SCompBlock) (skey : Int) (order : QueryOrder)
    (firstSlot lastSlot : Nat) : Option Nat :=
  let numOfBlocks := lastSlot - firstSlot + 1
  let midSlot := firstSlot + numOfBlocks / 2
  if numOfBlocks = 1 then some midSlot
  else
    match pBlock[midSlot]? with
    | none => none
    | some mid =>
      if skey > mid.keyLast then
        if numOfBlocks = 2 then some midSlot
        else if order = .desc then
          match pBlock[midSlot + 1]? with
          | none => none
          | some next =>
            if skey < next.keyFirst then some midSlot
            else searchLoop pBlock skey order (midSlot + 1) lastSlot
        else searchLoop pBlock skey order (midSlot + 1) lastSlot
      else if skey < mid.keyFirst then
        if order = .asc then
          match pBlock[midSlot - 1]? with
          | none => none
          | some previous =>
            if skey > previous.keyLast then some midSlot
            else searchLoop pBlock skey order firstSlot (midSlot - 1)
        else searchLoop pBlock skey order firstSlot (midSlot - 1)
      else some midSlot
termination_by lastSlot - firstSlot

def binarySearchForBlockImpl (pBlock : List SCompBlock) (numOfBlocks : Nat) (skey : Int)
    (order : QueryOrder) : Option Nat :=
  searchLoop pBlock skey order 0 (numOfBlocks - 1)

/-- The loop that moves `*end` on, from a block that meets the range. -/
def lastIndex (pCompBlock : List SCompBlock) (numOfBlocks : Nat) (maxval : Int)
    (end_ : Nat) : Option Nat :=
  if numOfBlocks ≤ end_ then some end_
  else
    match pCompBlock[end_]? with
    | none => none
    | some block =>
      if block.keyFirst ≤ maxval ∧ block.keyLast ≥ maxval then some end_
      else if block.keyFirst > maxval then some (end_ - 1)
      else if end_ = numOfBlocks - 1 then some end_
      else lastIndex pCompBlock numOfBlocks maxval (end_ + 1)
termination_by numOfBlocks - end_

/-- `some (start, none)` is the return of `false`, when no block qualifies. -/
def getValidDataBlocksRangeIndex (pCompBlock : List SCompBlock) (numOfBlocks : Nat)
    (minval maxval : Int) : Option (Nat × Option Nat) :=
  match binarySearchForBlockImpl pCompBlock numOfBlocks minval .asc with
  | none => none
  | some start =>
    match pCompBlock[start]? with
    | none => none
    | some block =>
      if minval > block.keyLast ∨ maxval < block.keyFirst then some (start, none)
      else
        match lastIndex pCompBlock numOfBlocks maxval start with
        | none => none
        | some end_ => some (start, some end_)

/-- The copy of `size` block pointers, from `i` on to `j` on. -/
def copyBlocks (pCompBlock : List SCompBlock) :
    Nat -> Nat -> Nat -> List SCompBlock -> Option (List SCompBlock)
  | 0, _, _, pBlock => some pBlock
  | size + 1, i, j, pBlock =>
    match pCompBlock[i]? with
    | none => none
    | some block =>
      if j < pBlock.length then
        copyBlocks pCompBlock size (i + 1) (j + 1) (pBlock.set j block)
      else none

theorem copyBlocks_length {pCompBlock : List SCompBlock} (size i j : Nat)
    (pBlock copied : List SCompBlock)
    (success : copyBlocks pCompBlock size i j pBlock = some copied) :
    copied.length = pBlock.length := by
  induction size generalizing i j pBlock with
  | zero =>
    simp only [copyBlocks, Option.some.injEq] at success
    rw [success]
  | succ size hypothesis =>
    rw [copyBlocks] at success
    split at success
    · cases success
    · split at success
      · rw [hypothesis _ _ _ success, List.length_set]
      · cases success

/-- The array after `realloc`: what it keeps of the old one, then new places. -/
def resized (size : Nat) (pBlock : List SCompBlock) : List SCompBlock :=
  pBlock.take size ++ List.replicate (size - pBlock.length) default

theorem resized_length (size : Nat) (pBlock : List SCompBlock) :
    (resized size pBlock).length = size := by
  simp only [resized, List.length_append, List.length_take, List.length_replicate]
  omega

/-- The array `setValidDataBlocks` writes to: allocated anew only when the
number of blocks is another one. -/
def allocate (meter : SMeterDataInfo) (size : Nat) : SMeterDataInfo :=
  if size ≠ meter.numOfBlocks then
    { meter with
      pBlock := resized size meter.pBlock
      numOfBlocks := size
      allocated := resized_length size meter.pBlock }
  else meter

def setValidDataBlocks (meter : SMeterDataInfo) (pCompBlock : List SCompBlock)
    (end_ : Nat) : Option SMeterDataInfo :=
  let size := end_ + 1 - meter.start
  if size = 0 then none
  else
    match copied : copyBlocks pCompBlock size meter.start 0 (allocate meter size).pBlock with
    | none => none
    | some pBlock =>
      some
        { allocate meter size with
          pBlock := pBlock
          allocated := (copyBlocks_length _ _ _ _ _ copied).trans
            (allocate meter size).allocated }

def clearMeterDataBlockInfo (meter : SMeterDataInfo) : SMeterDataInfo :=
  { meter with
    pBlock := []
    numOfBlocks := 0
    start := 0
    allocated := rfl }

/-- `none` is the return of `false`: there is no key to look for. -/
def setCurrentQueryRange (order : QueryOrder) (endKey lastKey : Int) : Option (Int × Int) :=
  let range :=
    match order with
    | .asc => (lastKey, endKey)
    | .desc => (endKey, lastKey)
  if range.1 > range.2 then none else some range

/-- The body of the loop of `getDataBlocksForMeters`. -/
def blocksForMeter (order : QueryOrder) (rawEKey : Int) (compInfo : SCompInfo)
    (meter : SMeterDataInfo) : Option SMeterDataInfo :=
  if compInfo.intact = false then some (clearMeterDataBlockInfo meter)
  else if compInfo.blocks.length = 0 ∨ compInfo.uid ≠ meter.uid then
    some (clearMeterDataBlockInfo meter)
  else
    match setCurrentQueryRange order rawEKey meter.lastKey with
    | none => some (clearMeterDataBlockInfo meter)
    | some (minval, maxval) =>
      match getValidDataBlocksRangeIndex compInfo.blocks compInfo.blocks.length
          minval maxval with
      | none => none
      | some (start, none) => some (clearMeterDataBlockInfo { meter with start := start })
      | some (start, some end_) =>
        setValidDataBlocks { meter with start := start } compInfo.blocks end_

def getDataBlocksForMeters (order : QueryOrder) (rawEKey : Int) :
    List (SCompInfo × SMeterDataInfo) -> Option (List SMeterDataInfo × Nat)
  | [] => some ([], 0)
  | (compInfo, meter) :: rest =>
    match blocksForMeter order rawEKey compInfo meter with
    | none => none
    | some chosen =>
      match getDataBlocksForMeters order rawEKey rest with
      | none => none
      | some (meters, numOfBlocks) =>
        some (chosen :: meters, chosen.numOfBlocks + numOfBlocks)

/-- Where the search has to end: nothing before `slot` reaches `skey`, and the
block at `slot` does if any does. -/
def FirstReaching (blocks : List SCompBlock) (skey : Int) (slot : Nat) : Prop :=
  slot < blocks.length ∧
    (∀ i block, i < slot -> blocks[i]? = some block -> block.keyLast < skey) ∧
    (slot + 1 = blocks.length ∨ ∀ block, blocks[slot]? = some block -> skey ≤ block.keyLast)

section

variable (compInfo : SCompInfo)
include compInfo

theorem SCompInfo.before {i j : Nat} {a b : SCompBlock}
    (earlier : i < j) (atI : compInfo.blocks[i]? = some a)
    (atJ : compInfo.blocks[j]? = some b) : a.keyLast < b.keyFirst := by
  obtain ⟨iSmall, iIs⟩ := List.getElem?_eq_some_iff.mp atI
  obtain ⟨jSmall, jIs⟩ := List.getElem?_eq_some_iff.mp atJ
  have ordered := List.pairwise_iff_getElem.mp compInfo.increasing i j iSmall jSmall earlier
  rwa [iIs, jIs] at ordered

theorem SCompInfo.first_le_last {i : Nat} {a : SCompBlock}
    (atI : compInfo.blocks[i]? = some a) : a.keyFirst ≤ a.keyLast :=
  compInfo.nonempty a (List.mem_of_getElem? atI)

theorem searchLoop_asc (skey : Int) (firstSlot lastSlot : Nat)
    (ordered : firstSlot ≤ lastSlot) (inside : lastSlot < compInfo.blocks.length)
    (before : ∀ i block, i < firstSlot -> compInfo.blocks[i]? = some block -> block.keyLast < skey)
    (behind : lastSlot + 1 = compInfo.blocks.length ∨
      ∀ block, compInfo.blocks[lastSlot]? = some block -> skey ≤ block.keyLast) :
    ∃ slot, searchLoop compInfo.blocks skey .asc firstSlot lastSlot = some slot ∧
      FirstReaching compInfo.blocks skey slot := by
  induction measure : lastSlot - firstSlot using Nat.strongRecOn
    generalizing firstSlot lastSlot with
  | ind _ hypothesis =>
    subst measure
    -- Everything up to a block that ends before `skey` ends before it.
    have upTo : ∀ slot mid, compInfo.blocks[slot]? = some mid -> mid.keyLast < skey ->
        ∀ i block, i < slot + 1 -> compInfo.blocks[i]? = some block -> block.keyLast < skey := by
      intro slot mid midAt ends i block small blockAt
      by_cases same : i = slot
      · rw [same, midAt] at blockAt
        exact some.inj blockAt ▸ ends
      · have := compInfo.before (by omega) blockAt midAt
        have := compInfo.first_le_last midAt
        omega
    rw [searchLoop]
    by_cases single : lastSlot - firstSlot + 1 = 1
    · refine ⟨firstSlot, by simp [single], by omega, before, ?_⟩
      rw [show firstSlot = lastSlot by omega]
      exact behind
    · generalize midIs : firstSlot + (lastSlot - firstSlot + 1) / 2 = midSlot
      obtain ⟨mid, midAt⟩ : ∃ mid, compInfo.blocks[midSlot]? = some mid :=
        ⟨_, List.getElem?_eq_getElem (by omega)⟩
      obtain ⟨previous, previousAt⟩ : ∃ previous, compInfo.blocks[midSlot - 1]? = some previous :=
        ⟨_, List.getElem?_eq_getElem (by omega)⟩
      simp only [single, if_false, midAt, reduceCtorEq, if_true]
      by_cases later : skey > mid.keyLast
      · simp only [later, if_true]
        by_cases pair : lastSlot - firstSlot + 1 = 2
        · simp only [pair, if_true]
          refine ⟨midSlot, rfl, by omega, ?_, ?_⟩
          · intro i block small
            exact upTo midSlot mid midAt later i block (by omega)
          · rw [show midSlot = lastSlot by omega] at midAt ⊢
            exact behind
        · simp only [pair, if_false]
          exact hypothesis _ (by omega) (midSlot + 1) lastSlot (by omega) inside
            (upTo midSlot mid midAt later) behind rfl
      · simp only [later, if_false]
        by_cases earlier : skey < mid.keyFirst
        · simp only [earlier, if_true, previousAt]
          by_cases gap : skey > previous.keyLast
          · simp only [gap, if_true]
            refine ⟨midSlot, rfl, by omega, ?_, Or.inr ?_⟩
            · intro i block small
              exact upTo (midSlot - 1) previous previousAt gap i block (by omega)
            · intro block blockAt
              rw [midAt] at blockAt
              have := compInfo.first_le_last midAt
              rw [<- some.inj blockAt]
              omega
          · simp only [gap, if_false]
            refine hypothesis _ (by omega) firstSlot (midSlot - 1) (by omega) (by omega)
              before (Or.inr ?_) rfl
            intro block blockAt
            rw [previousAt] at blockAt
            rw [<- some.inj blockAt]
            omega
        · simp only [earlier, if_false]
          refine ⟨midSlot, rfl, by omega, ?_, Or.inr ?_⟩
          · intro i block small blockAt
            have := compInfo.before small blockAt midAt
            omega
          · intro block blockAt
            rw [midAt] at blockAt
            rw [<- some.inj blockAt]
            omega

theorem lastIndex_spec (maxval : Int) (start end_ : Nat)
    (ordered : start ≤ end_) (inside : end_ < compInfo.blocks.length)
    (reached : ∀ i block, start ≤ i -> i < end_ -> compInfo.blocks[i]? = some block ->
      block.keyFirst ≤ maxval)
    (startsInside : ∀ block, compInfo.blocks[start]? = some block -> block.keyFirst ≤ maxval) :
    ∃ stop, lastIndex compInfo.blocks compInfo.blocks.length maxval end_ = some stop ∧
      start ≤ stop ∧ stop < compInfo.blocks.length ∧
      ∀ i block, start ≤ i -> compInfo.blocks[i]? = some block ->
        (block.keyFirst ≤ maxval ↔ i ≤ stop) := by
  induction measure : compInfo.blocks.length - end_ using Nat.strongRecOn generalizing end_ with
  | ind _ hypothesis =>
    subst measure
    obtain ⟨block, blockAt⟩ : ∃ block, compInfo.blocks[end_]? = some block :=
      ⟨_, List.getElem?_eq_getElem inside⟩
    have increasing := compInfo.first_le_last blockAt
    rw [lastIndex, if_neg (by omega), blockAt]
    simp only
    by_cases holds : block.keyFirst ≤ maxval ∧ block.keyLast ≥ maxval
    · rw [if_pos holds]
      refine ⟨end_, rfl, ordered, inside, ?_⟩
      intro i other low otherAt
      constructor
      · intro small
        by_contra later
        have := compInfo.before (by omega) blockAt otherAt
        omega
      · intro small
        by_cases same : i = end_
        · rw [same, blockAt] at otherAt
          exact some.inj otherAt ▸ holds.1
        · exact reached i other low (by omega) otherAt
    · rw [if_neg holds]
      by_cases beyond : block.keyFirst > maxval
      · rw [if_pos beyond]
        have moved : start ≠ end_ := by
          rintro rfl
          have := startsInside block blockAt
          omega
        refine ⟨end_ - 1, rfl, by omega, by omega, ?_⟩
        intro i other low otherAt
        constructor
        · intro small
          by_contra later
          by_cases same : i = end_
          · rw [same, blockAt] at otherAt
            rw [<- some.inj otherAt] at small
            omega
          · have := compInfo.before (show end_ < i by omega) blockAt otherAt
            omega
        · intro small
          exact reached i other low (by omega) otherAt
      · rw [if_neg beyond]
        have reachedNow : ∀ i other, start ≤ i -> i < end_ + 1 ->
            compInfo.blocks[i]? = some other -> other.keyFirst ≤ maxval := by
          intro i other low small otherAt
          by_cases same : i = end_
          · rw [same, blockAt] at otherAt
            rw [<- some.inj otherAt]
            omega
          · exact reached i other low (by omega) otherAt
        by_cases atLast : end_ = compInfo.blocks.length - 1
        · rw [if_pos atLast]
          refine ⟨end_, rfl, ordered, inside, ?_⟩
          intro i other low otherAt
          obtain ⟨small, -⟩ := List.getElem?_eq_some_iff.mp otherAt
          exact ⟨fun _ => by omega, fun _ => reachedNow i other low (by omega) otherAt⟩
        · rw [if_neg atLast]
          exact hypothesis _ (by omega) (end_ + 1) (by omega) (by omega) reachedNow rfl

end

def InRange (order : QueryOrder) (rawEKey lastKey key : Int) : Prop :=
  match order with
  | .asc => lastKey ≤ key ∧ key ≤ rawEKey
  | .desc => rawEKey ≤ key ∧ key ≤ lastKey

def Meets (order : QueryOrder) (rawEKey lastKey : Int) (block : SCompBlock) : Prop :=
  ∃ key, block.keyFirst ≤ key ∧ key ≤ block.keyLast ∧ InRange order rawEKey lastKey key

theorem meets_iff (minval maxval : Int) (block : SCompBlock) :
    (∃ key, block.keyFirst ≤ key ∧ key ≤ block.keyLast ∧ minval ≤ key ∧ key ≤ maxval) ↔
      block.keyFirst ≤ block.keyLast ∧ minval ≤ maxval ∧
        block.keyFirst ≤ maxval ∧ minval ≤ block.keyLast := by
  constructor
  · rintro ⟨key, afterFirst, beforeLast, afterMin, beforeMax⟩
    omega
  · rintro ⟨blockOrdered, rangeOrdered, first, last⟩
    exact ⟨max block.keyFirst minval, by omega, by omega, by omega, by omega⟩

instance (order : QueryOrder) (rawEKey lastKey : Int) :
    DecidablePred (Meets order rawEKey lastKey) := fun block =>
  match order with
  | .asc => decidable_of_iff _ (meets_iff lastKey rawEKey block).symm
  | .desc => decidable_of_iff _ (meets_iff rawEKey lastKey block).symm

def readable (compInfo : SCompInfo) (meter : SMeterDataInfo) : List SCompBlock :=
  if compInfo.intact ∧ compInfo.uid = meter.uid then compInfo.blocks else []

def wanted (order : QueryOrder) (rawEKey : Int) (compInfo : SCompInfo)
    (meter : SMeterDataInfo) : List (SCompBlock × Nat) :=
  (readable compInfo meter).zipIdx.filter fun numbered =>
    Meets order rawEKey meter.lastKey numbered.1

def SMeterDataInfo.kept (meter : SMeterDataInfo) : List (SCompBlock × Nat) :=
  meter.pBlock.zipIdx meter.start

theorem filter_slice {α : Type*} (p : α -> Bool) (items : List α) (base start stop : Nat)
    (exact_ : ∀ i item, items[i]? = some item -> (p item = true ↔ start ≤ i ∧ i < stop)) :
    (items.zipIdx base).filter (fun numbered => p numbered.1) =
      ((items.drop start).take (stop - start)).zipIdx (base + start) := by
  induction items generalizing base start stop with
  | nil => simp
  | cons item rest hypothesis =>
    have here := exact_ 0 item rfl
    cases start with
    | zero =>
      cases stop with
      | zero =>
        have out : p item = false := by
          simpa using here
        have tail := hypothesis (base + 1) 0 0 fun i other otherAt => by
          rw [exact_ (i + 1) other (by simpa using otherAt)]
          omega
        simpa [out] using tail
      | succ stop =>
        have in_ : p item = true := here.mpr (by omega)
        have tail := hypothesis (base + 1) 0 stop fun i other otherAt => by
          rw [exact_ (i + 1) other (by simpa using otherAt)]
          omega
        simpa [in_] using tail
    | succ start =>
      have out : p item = false := by
        simpa using here
      have tail := hypothesis (base + 1) start (stop - 1) fun i other otherAt => by
        rw [exact_ (i + 1) other (by simpa using otherAt)]
        omega
      simp only [List.zipIdx_cons, List.filter_cons, out, Bool.false_eq_true, if_false,
        List.drop_succ_cons]
      rw [tail, show stop - 1 - start = stop - (start + 1) by omega,
        show base + 1 + start = base + (start + 1) by omega]

theorem copyBlocks_copies (pCompBlock : List SCompBlock) (size i j : Nat)
    (pBlock : List SCompBlock) (source : i + size ≤ pCompBlock.length)
    (target : j + size = pBlock.length) : copyBlocks pCompBlock size i j pBlock =
      some (pBlock.take j ++ (pCompBlock.drop i).take size) := by
  induction size generalizing i j pBlock with
  | zero =>
    rw [copyBlocks, List.take_of_length_le (by omega)]
    simp
  | succ size hypothesis =>
    have blockAt : pCompBlock[i]? = some (pCompBlock.get ⟨i, by omega⟩) :=
      List.getElem?_eq_getElem (by omega)
    rw [copyBlocks, blockAt]
    simp only [show j < pBlock.length by omega, if_true]
    rw [hypothesis (i + 1) (j + 1) _ (by omega) (by rw [List.length_set]; omega)]
    rw [List.drop_eq_getElem_cons (show i < pCompBlock.length by omega),
      List.take_succ_cons, List.take_succ_eq_append_getElem (by rw [List.length_set]; omega)]
    simp [List.take_set_of_le]

section

variable (meter : SMeterDataInfo)
include meter

theorem allocate_length (size : Nat) : (allocate meter size).pBlock.length = size := by
  unfold allocate
  split
  · exact resized_length size meter.pBlock
  · rename_i same
    rw [meter.allocated]
    omega

@[simp] theorem allocate_start (size : Nat) : (allocate meter size).start = meter.start := by
  unfold allocate
  split <;> rfl

@[simp] theorem allocate_groupIdx (size : Nat) :
    (allocate meter size).groupIdx = meter.groupIdx := by
  unfold allocate
  split <;> rfl

theorem setValidDataBlocks_spec (pCompBlock : List SCompBlock)
    (end_ : Nat) (ordered : meter.start ≤ end_) (inside : end_ < pCompBlock.length) :
    ∃ chosen, setValidDataBlocks meter pCompBlock end_ = some chosen ∧
      chosen.groupIdx = meter.groupIdx ∧ chosen.start = meter.start ∧
      chosen.pBlock = (pCompBlock.drop meter.start).take (end_ + 1 - meter.start) := by
  have copies := copyBlocks_copies pCompBlock (end_ + 1 - meter.start) meter.start 0
    (allocate meter (end_ + 1 - meter.start)).pBlock (by omega)
    (by rw [allocate_length]; omega)
  simp only [List.take_zero, List.nil_append] at copies
  unfold setValidDataBlocks
  rw [if_neg (by omega)]
  split
  · rename_i failed
    rw [copies] at failed
    cases failed
  · rename_i pBlock copied
    rw [copies] at copied
    exact ⟨_, rfl, allocate_groupIdx .., allocate_start .., (some.inj copied).symm⟩

end

theorem wanted_nil {order : QueryOrder} {rawEKey : Int} {compInfo : SCompInfo}
    {meter : SMeterDataInfo}
    (none_ : ∀ block ∈ readable compInfo meter, ¬ Meets order rawEKey meter.lastKey block) :
    wanted order rawEKey compInfo meter = [] := by
  rw [wanted, List.filter_eq_nil_iff]
  rintro ⟨block, i⟩ numbered
  simpa using none_ block (List.fst_mem_of_mem_zipIdx numbered)

theorem setCurrentQueryRange_spec (order : QueryOrder) (rawEKey lastKey : Int) :
    (setCurrentQueryRange order rawEKey lastKey = none ∧
        ∀ block, ¬ Meets order rawEKey lastKey block) ∨
      ∃ minval maxval, setCurrentQueryRange order rawEKey lastKey = some (minval, maxval) ∧
        minval ≤ maxval ∧ ∀ block : SCompBlock, block.keyFirst ≤ block.keyLast ->
          (Meets order rawEKey lastKey block ↔
            block.keyFirst ≤ maxval ∧ minval ≤ block.keyLast) := by
  have general : ∀ minval maxval : Int,
      ((if minval > maxval then none else some (minval, maxval)) = none ∧
        ∀ block : SCompBlock, ¬ ∃ key, block.keyFirst ≤ key ∧ key ≤ block.keyLast ∧
          minval ≤ key ∧ key ≤ maxval) ∨
      ∃ low high, (if minval > maxval then none else some (minval, maxval)) = some (low, high) ∧
        low ≤ high ∧ ∀ block : SCompBlock, block.keyFirst ≤ block.keyLast ->
          ((∃ key, block.keyFirst ≤ key ∧ key ≤ block.keyLast ∧ minval ≤ key ∧ key ≤ maxval) ↔
            block.keyFirst ≤ high ∧ low ≤ block.keyLast) := by
    intro minval maxval
    by_cases empty : minval > maxval
    · left
      refine ⟨if_pos empty, ?_⟩
      rintro block ⟨key, -, -, low, high⟩
      omega
    · right
      refine ⟨minval, maxval, if_neg empty, by omega, ?_⟩
      intro block increasing
      rw [meets_iff]
      omega
  cases order with
  | asc => exact general lastKey rawEKey
  | desc => exact general rawEKey lastKey

theorem blocksForMeter_spec (order : QueryOrder) (rawEKey : Int) (compInfo : SCompInfo)
    (meter : SMeterDataInfo) : ∃ chosen, blocksForMeter order rawEKey compInfo meter = some chosen ∧
      chosen.groupIdx = meter.groupIdx ∧ chosen.kept = wanted order rawEKey compInfo meter := by
  have cleared : ∀ start, (clearMeterDataBlockInfo { meter with start := start }).kept = [] :=
    fun _ => rfl
  unfold blocksForMeter
  by_cases intact : compInfo.intact = false
  · rw [if_pos intact]
    refine ⟨_, rfl, rfl, ?_⟩
    rw [wanted_nil (by simp [readable, intact])]
    exact cleared meter.start
  · rw [if_neg intact]
    by_cases foreign : compInfo.blocks.length = 0 ∨ compInfo.uid ≠ meter.uid
    · rw [if_pos foreign]
      refine ⟨_, rfl, rfl, ?_⟩
      have nothing : readable compInfo meter = [] := by
        unfold readable
        split
        · rename_i fits
          exact List.length_eq_zero_iff.mp (foreign.resolve_right fun differ => differ fits.2)
        · rfl
      rw [wanted_nil (by simp [nothing])]
      exact cleared meter.start
    · rw [if_neg foreign]
      have own : readable compInfo meter = compInfo.blocks := by
        simp only [Bool.not_eq_false] at intact
        simp only [not_or, not_not] at foreign
        exact if_pos ⟨intact, foreign.2⟩
      rcases setCurrentQueryRange_spec order rawEKey meter.lastKey with
        ⟨noRange, noBlock⟩ | ⟨minval, maxval, range, rangeOrdered, meets⟩
      · rw [noRange]
        refine ⟨_, rfl, rfl, ?_⟩
        rw [wanted_nil fun block _ => noBlock block]
        exact cleared meter.start
      · rw [range]
        simp only
        obtain ⟨start, found, startInside, before, reaches⟩ :=
          searchLoop_asc compInfo minval 0 (compInfo.blocks.length - 1) (by omega) (by omega)
            (by omega) (by omega)
        obtain ⟨first, firstAt⟩ : ∃ first, compInfo.blocks[start]? = some first :=
          ⟨_, List.getElem?_eq_getElem startInside⟩
        have firstIncreasing := compInfo.first_le_last firstAt
        have meetsAt : ∀ i block, compInfo.blocks[i]? = some block ->
            (Meets order rawEKey meter.lastKey block ↔
              block.keyFirst ≤ maxval ∧ minval ≤ block.keyLast) :=
          fun i block blockAt => meets block (compInfo.first_le_last blockAt)
        rw [getValidDataBlocksRangeIndex, binarySearchForBlockImpl, found]
        simp only [firstAt]
        by_cases missed : minval > first.keyLast ∨ maxval < first.keyFirst
        · rw [if_pos missed]
          refine ⟨_, rfl, rfl, ?_⟩
          rw [wanted_nil]
          · exact cleared start
          · intro block member
            rw [own] at member
            obtain ⟨i, blockAt⟩ := List.mem_iff_getElem?.mp member
            rw [meetsAt i block blockAt]
            rintro ⟨firstBound, lastBound⟩
            rcases Nat.lt_trichotomy i start with earlier | same | later
            · have := before i block earlier blockAt
              omega
            · subst same
              rw [firstAt] at blockAt
              cases blockAt
              omega
            · obtain ⟨small, -⟩ := List.getElem?_eq_some_iff.mp blockAt
              have := reaches.resolve_left (by omega) first firstAt
              have := compInfo.before later firstAt blockAt
              omega
        · rw [if_neg missed]
          obtain ⟨stop, stopFound, startStop, stopInside, upTo⟩ :=
            lastIndex_spec compInfo maxval start start (Nat.le_refl start) startInside
              (by omega) (by
                intro block blockAt
                rw [firstAt] at blockAt
                cases blockAt
                omega)
          rw [stopFound]
          simp only
          obtain ⟨chosen, set_, group, begin_, copied⟩ :=
            setValidDataBlocks_spec { meter with start := start } compInfo.blocks stop
              startStop stopInside
          refine ⟨chosen, set_, group, ?_⟩
          rw [SMeterDataInfo.kept, copied, begin_, wanted, own]
          have slice := filter_slice (fun block => decide (Meets order rawEKey meter.lastKey block))
            compInfo.blocks 0 start (stop + 1) (by
              intro i block blockAt
              rw [decide_eq_true_iff, meetsAt i block blockAt]
              by_cases earlier : i < start
              · have := before i block earlier blockAt
                omega
              · have := upTo i block (by omega) blockAt
                rw [this]
                by_cases same : i = start
                · subst same
                  rw [firstAt] at blockAt
                  cases blockAt
                  omega
                · have := compInfo.before (show start < i by omega) firstAt blockAt
                  have := compInfo.first_le_last blockAt
                  omega)
          rw [Nat.zero_add] at slice
          exact slice.symm

end Luomi.Vnode.QueryBlocks
