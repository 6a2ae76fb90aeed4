import Luomi.Vnode.QueryApply
import Mathlib.Data.List.TakeWhile

/-!
# How far a scan has got

The rows a query has handled and the rows that are left of its range make up the
range, round after round of the loop.
-/

namespace Luomi.Vnode.ScanProgress

open QueryBlocks QueryCursor QueryMoves
  Luomi.Vnode.QuerySteps Luomi.Vnode.QueryScan Luomi.Vnode.QueryBlockSteps Luomi.Vnode.QueryApply

def remaining (order : QueryOrder) (block : List Int) (pos : Int) (later : List (List Int)) :
    List Int :=
  rowsFrom order block pos ++ later.flatMap (inOrder order)

def upToEnd (order : QueryOrder) (ekey : Int) (rows : List Int) : List Int :=
  rows.filter fun k => decide (UpTo order k ekey)

def StandsAt (meter : SMeterObj) (order : QueryOrder) (cursor : SPositionInfo)
    (block : List Int) (later : List (List Int)) : Prop :=
  ∃ front back, Here meter cursor front block back ∧ 0 ≤ cursor.pos ∧
    cursor.pos < block.length ∧ blocksAfter order front back = later

theorem flatMap_inOrder (front : List (List Int)) :
    front.reverse.flatMap (inOrder .desc) = front.flatten.reverse := by
  rw [List.reverse_flatten, List.flatMap_def, List.map_reverse]
  rfl

theorem flatMap_inOrder_asc (back : List (List Int)) :
    back.flatMap (inOrder .asc) = back.flatten := by
  rw [List.flatMap_def]
  congr 1
  exact List.map_id back

def scanRows (meter : SMeterData) (order : QueryOrder) : List Int :=
  inOrder order meter.blocks.flatten

theorem scanRows_ordered (meter : SMeterObj) (order : QueryOrder) :
    (scanRows meter.toSMeterData order).Pairwise (Before order) := by
  cases order with
  | asc => exact meter.increasing
  | desc => exact List.pairwise_reverse.mpr meter.increasing

variable {block : List Int} {cursor : SPositionInfo} {later : List (List Int)} {meter : SMeterObj}
  {order : QueryOrder} {steps : Nat}

section

variable (stands : StandsAt meter order cursor block later)
include stands

theorem scanRows_split : ∃ passed, scanRows meter.toSMeterData order =
      passed ++ remaining order block cursor.pos later := by
  obtain ⟨front, back, here, inside, small, rfl⟩ := stands
  have splits := here.split
  cases order with
  | asc =>
    refine ⟨front.flatten ++ block.take cursor.pos.toNat, ?_⟩
    change meter.blocks.flatten = front.flatten ++ block.take cursor.pos.toNat ++
      (block.drop cursor.pos.toNat ++ back.flatMap (inOrder .asc))
    rw [flatMap_inOrder_asc, List.append_assoc, <- List.append_assoc (block.take _),
      List.take_append_drop, splits, List.flatten_append, List.flatten_cons]
  | desc =>
    refine ⟨(block.drop (cursor.pos + 1).toNat ++ back.flatten).reverse, ?_⟩
    change meter.blocks.flatten.reverse =
      (block.drop (cursor.pos + 1).toNat ++ back.flatten).reverse ++
        ((block.take (cursor.pos + 1).toNat).reverse ++ front.reverse.flatMap (inOrder .desc))
    rw [flatMap_inOrder, <- List.reverse_append, <- List.reverse_append, List.append_assoc,
      <- List.append_assoc (block.take _), List.take_append_drop, splits, List.flatten_append,
      List.flatten_cons]

theorem remaining_ordered : (remaining order block cursor.pos later).Pairwise (Before order) := by
  obtain ⟨passed, splits⟩ := scanRows_split stands
  have ordered := scanRows_ordered meter order
  rw [splits] at ordered
  exact (List.pairwise_append.mp ordered).2.1

theorem StandsAt.increasing : block.Pairwise (· < ·) := by
  obtain ⟨front, back, here, -⟩ := stands
  exact block_increasing here.split

theorem StandsAt.found : getGenericDataBlock meter.toSMeterData cursor = some block := by
  obtain ⟨front, back, here, -⟩ := stands
  exact getGenericDataBlock_here here

end

theorem mem_later {k : Int} : k ∈ later.flatMap (inOrder order) ↔ k ∈ later.flatten := by
  cases order with
  | asc => rw [flatMap_inOrder_asc]
  | desc => simp [List.mem_flatMap, List.mem_flatten, inOrder]

variable {a b : Int}

theorem upTo_trans {c : Int} (first : UpTo order a b)
    (second : UpTo order b c) : UpTo order a c := by
  cases order with
  | asc => exact le_trans first second
  | desc => exact le_trans second first

theorem upTo_of_before (before : Before order a b) : UpTo order a b := by
  cases order with
  | asc => exact le_of_lt before
  | desc => exact le_of_lt before

theorem behind_step (before : Before order a b) : UpTo order (a + step order) b := by
  cases order with
  | asc => exact before
  | desc =>
    simp only [Before, UpTo, step] at before ⊢
    omega

theorem not_upTo : ¬ UpTo order a b ↔ Before order b a := by
  cases order <;> simp [UpTo, Before]

theorem before_of_upTo {c : Int} (first : Before order a b)
    (second : UpTo order b c) : Before order a c := by
  cases order with
  | asc => exact lt_of_lt_of_le first second
  | desc => exact lt_of_le_of_lt second first

variable {rows : List Int} {ekey : Int}

theorem upToEnd_nil (beyond : ∀ k ∈ rows, Before order ekey k) : upToEnd order ekey rows = [] := by
  refine List.filter_eq_nil_iff.mpr fun k member => ?_
  rw [decide_eq_true_eq]
  exact not_upTo.mpr (beyond k member)

theorem upToEnd_append (order : QueryOrder) (ekey : Int) (a b : List Int) :
    upToEnd order ekey (a ++ b) = upToEnd order ekey a ++ upToEnd order ekey b :=
  List.filter_append ..

theorem upToEnd_all (within : ∀ k ∈ rows, UpTo order k ekey) : upToEnd order ekey rows = rows :=
  List.filter_eq_self.mpr fun k member => decide_eq_true (within k member)

theorem upToEnd_takeWhile {order : QueryOrder} {ekey : Int} {rows : List Int}
    (ordered : rows.Pairwise (Before order)) :
    upToEnd order ekey rows = rows.takeWhile fun k => decide (UpTo order k ekey) := by
  induction rows with
  | nil => rfl
  | cons row rest ih =>
    rw [List.pairwise_cons] at ordered
    by_cases inRange : UpTo order row ekey
    · rw [List.takeWhile_cons, if_pos (decide_eq_true inRange), <- ih ordered.2, upToEnd,
        List.filter_cons_of_pos (by simpa using inRange)]
      rfl
    · rw [List.takeWhile_cons, if_neg (by simpa using inRange)]
      refine upToEnd_nil fun k member => ?_
      rcases List.mem_cons.mp member with rfl | isLater
      · exact not_upTo.mp inRange
      · exact before_of_upTo (not_upTo.mp inRange) (upTo_of_before (ordered.1 k isLater))

theorem rowsFrom_firstPos (order : QueryOrder) (block : List Int) :
    rowsFrom order block (firstPos order block) = inOrder order block := by
  cases order with
  | asc => rfl
  | desc =>
    change (block.take ((block.length : Int) - 1 + 1).toNat).reverse = block.reverse
    rw [Int.sub_add_cancel, Int.toNat_natCast, List.take_length]

theorem remaining_firstPos (order : QueryOrder) (block : List Int) (later : List (List Int)) :
    remaining order block (firstPos order block) later =
      (block :: later).flatMap (inOrder order) := by
  rw [remaining, rowsFrom_firstPos, List.flatMap_cons]

theorem firstPos_small (order : QueryOrder) (some_ : block ≠ []) :
    firstPos order block < block.length := by
  have positive := List.length_pos_iff.mpr some_
  cases order with
  | asc =>
    simp only [firstPos]
    omega
  | desc =>
    simp only [firstPos, numOfPoints]
    omega

variable {next : List Int}

theorem blocksAfter_adjacent {front back front' back' : List (List Int)} (adjacent : Adjacent order front block back front' next back') :
    blocksAfter order front back = next :: blocksAfter order front' back' := by
  cases adjacent with
  | asc => rfl
  | desc => simp [blocksAfter]

def Onward (order : QueryOrder) (cursor cursor' : SPositionInfo) : Prop :=
  match order with
  | .asc => cursor.fileId < 0 -> cursor'.fileId < 0
  | .desc => cursor'.fileId < 0 -> cursor.fileId < 0

theorem adjacent_onward {cursor' : SPositionInfo} {front back front' back' : List (List Int)}
    (adjacent : Adjacent order front block back front' next back')
    (here : Here meter cursor front block back) (there : Here meter cursor' front' next back') :
    Onward order cursor cursor' := by
  have side := blocksIn_length_le here
  have nextSide := blocksIn_length_le there
  cases adjacent with
  | asc =>
    rw [List.length_append] at nextSide
    exact fun cached => nextSide.mpr (le_trans (side.mp cached) (Nat.le_add_right _ _))
  | desc =>
    rw [List.length_append] at side
    exact fun cached => side.mpr (le_trans (nextSide.mp cached) (Nat.le_add_right _ _))

theorem move_spec {meter : SMeterObj} {functions : Functions} {loadData : Bool} {query : SQuery}
    {block : List Int} {later : List (List Int)}
    (stands : StandsAt meter query.order query.cursor block later)
    (reached : UpTo query.order query.skey query.lastKey)
    (started : query.order = .desc -> query.cursor.fileId < 0 ->
      later.length = (blocksIn meter.pHeaderFiles).length -> later ≠ [] ->
        query.startPos.fileId < 0) (inQuery : loadData = true -> InQuery query)
    (behind : ∀ k ∈ later.flatten, UpTo query.order query.lastKey k) :
    ∃ query' blockLoadStatus, moveToNextBlock meter.toSMeterData functions loadData query =
        some (query', blockLoadStatus) ∧ Moved query query' ∧ Savable query'.cursor ∧
      ((later = [] ∧ query'.status = setNoData query.status) ∨
        ∃ next later', later = next :: later' ∧ NextStatus query query' next ∧
          ((loadData = true ∨ EvenMove meter.toSMeterData query) ->
            query'.cursor.pos = firstPos query.order next ∧
              StandsAt meter query.order query'.cursor next later') ∧
          (loadData = true -> Ready functions query' next blockLoadStatus) ∧
          (query'.cursor.fileId < 0 -> query'.loaded = true ∧ query'.keysLoaded = true) ∧
          Onward query.order query.cursor query'.cursor) := by
  obtain ⟨front, back, here, inside, -, isLater⟩ := stands
  rw [<- isLater] at behind
  have fromFiles : query.order = .desc -> query.cursor.fileId < 0 ->
      front = blocksIn meter.pHeaderFiles -> front ≠ [] -> query.startPos.fileId < 0 := by
    intro desc cached isFiles some_
    rw [desc] at isLater
    subst isLater
    refine started desc cached ?_ (List.reverse_ne_nil_iff.mpr some_)
    rw [isFiles]
    exact List.length_reverse
  obtain ⟨query', blockLoadStatus, runs, moved, savable, ends⟩ :=
    @moveToNextBlock_spec meter functions loadData query front back block here inside
      (fun asc => by rw [asc] at reached; exact reached) fromFiles inQuery behind
  refine ⟨query', blockLoadStatus, runs, moved, savable, ?_⟩
  rcases ends with ⟨none_, status⟩ | ⟨next, atNext, atStart, ready, cachedLoaded⟩
  · exact Or.inl ⟨isLater ▸ none_, status⟩
  · obtain ⟨front', back', adjacent, there⟩ := atNext.there
    have someNext : next ≠ [] := block_ne_nil there.split
    refine Or.inr ⟨next, blocksAfter query.order front' back', ?_, atNext.status, ?_, ready,
      cachedLoaded, adjacent_onward adjacent here there⟩
    · rw [<- isLater, blocksAfter_adjacent adjacent]
    · intro even
      have isFirst := atStart even
      refine ⟨isFirst, front', back', there, ?_, ?_, rfl⟩
      · rw [isFirst]
        exact firstPos_nonneg _ someNext
      · rw [isFirst]
        exact firstPos_small _ someNext

section

variable (query : SQuery) (block : List Int) (later : List (List Int)) (steps : Nat)

def restOf : List Int :=
  (rowsFrom query.order block query.cursor.pos).drop steps ++ later.flatMap (inOrder query.order)

theorem remaining_split : remaining query.order block query.cursor.pos later =
      (rowsFrom query.order block query.cursor.pos).take steps ++
        restOf query block later steps := by
  rw [restOf, <- List.append_assoc, List.take_append_drop]
  rfl

end

theorem take_inRange {query : SQuery} (inRange : steps ≤ rowsInRange query block) {k : Int}
    (member : k ∈ (rowsFrom query.order block query.cursor.pos).take steps) :
    UpTo query.order k query.ekey := by
  have isPrefix : (rowsFrom query.order block query.cursor.pos).take steps <+:
      (rowsFrom query.order block query.cursor.pos).takeWhile
        fun k => decide (UpTo query.order k query.ekey) :=
    List.prefix_of_prefix_length_le (List.take_prefix _ _) (List.takeWhile_prefix _)
      (by rw [List.length_take]; exact le_trans (min_le_left _ _) inRange)
  have holds := List.mem_takeWhile_imp (isPrefix.subset member)
  rwa [decide_eq_true_eq] at holds

theorem upToEnd_split {query : SQuery} {block : List Int} {later : List (List Int)} {steps : Nat}
    (inRange : steps ≤ rowsInRange query block) :
    upToEnd query.order query.ekey (remaining query.order block query.cursor.pos later) =
      (rowsFrom query.order block query.cursor.pos).take steps ++
        upToEnd query.order query.ekey (restOf query block later steps) := by
  rw [remaining_split query block later steps, upToEnd_append,
    upToEnd_all fun k member => take_inRange inRange member]

theorem handled_before_rest {query : SQuery}
    (stands : StandsAt meter query.order query.cursor block later)
    (earlier : a ∈ (rowsFrom query.order block query.cursor.pos).take steps)
    (isRest : b ∈ restOf query block later steps) : Before query.order a b := by
  have ordered := remaining_ordered stands
  rw [remaining_split query block later steps] at ordered
  exact (List.pairwise_append.mp ordered).2.2 a earlier b isRest

theorem getElem_mem_take {row : Int} (positive : 0 < steps)
    (at_ : rows[steps - 1]? = some row) : row ∈ rows.take steps := by
  obtain ⟨inside, isRow⟩ := List.getElem?_eq_some_iff.mp at_
  exact List.mem_take_iff_getElem.mpr ⟨steps - 1, by omega, isRow⟩

theorem rest_behind {query query' : SQuery}
    (stands : StandsAt meter query.order query.cursor block later)
    (behind : ∀ k ∈ remaining query.order block query.cursor.pos later,
      UpTo query.order query.lastKey k) (handled : Handled query block query' steps) :
    ∀ k ∈ restOf query block later steps, UpTo query.order query'.lastKey k := by
  intro k isRest
  rcases handled.lastKey with same | last
  · rw [same]
    refine behind k ?_
    rw [remaining_split query block later steps]
    exact List.mem_append_right _ isRest
  · have before := handled_before_rest stands (getElem_mem_take handled.some_ last) isRest
    have key := behind_step before
    rwa [Int.sub_add_cancel] at key

theorem lastKey_reached {query query' : SQuery}
    (behind : ∀ k ∈ remaining query.order block query.cursor.pos later,
      UpTo query.order query.lastKey k) (reached : UpTo query.order query.skey query.lastKey)
    (handled : Handled query block query' steps) : UpTo query.order query.skey query'.lastKey := by
  rcases handled.lastKey with same | last
  · rwa [same]
  · have isRow := getElem_mem_take handled.some_ last
    have row := behind _ (by
      rw [remaining_split query block later steps]
      exact List.mem_append_left _ isRow)
    have further := upTo_trans reached row
    rcases order_cases query.order with order | order
    · simp only [order, UpTo, step] at further ⊢
      omega
    · simp only [order, UpTo, step] at further ⊢
      omega

section

variable {query : SQuery} {block : List Int} {later : List (List Int)} {steps : Nat}
  (inside : 0 ≤ query.cursor.pos) (small : query.cursor.pos < block.length)

include inside small

theorem restOf_inside (next : 0 ≤ query.cursor.pos + steps * step query.order) :
    restOf query block later steps =
      remaining query.order block (query.cursor.pos + steps * step query.order) later := by
  rw [restOf, remaining]
  congr 1
  rcases order_cases query.order with order | order
  · simp only [order, step, rowsFrom, List.drop_drop] at next ⊢
    congr 1
    omega
  · simp only [order, step, rowsFrom] at next ⊢
    rw [List.drop_reverse, List.take_take, List.length_take]
    congr 2
    omega

theorem restOf_outside
    (outside : (block.length : Int) ≤ query.cursor.pos + steps * step query.order ∨ query.cursor.pos
      + steps * step query.order < 0)
    :
    restOf query block later steps = later.flatMap (inOrder query.order) := by
  have length := @rowsFrom_length query.order block _ inside small
  rw [restOf, List.drop_eq_nil_of_le, List.nil_append]
  rcases order_cases query.order with order | order
  all_goals
    simp only [order, step] at outside length ⊢
    omega

end

structure Passed (meter : SMeterObj) (query : SQuery) (block : List Int)
    (later : List (List Int)) : Prop where
  stands : StandsAt meter query.order query.cursor block later
  reached : UpTo query.order query.skey query.lastKey
  started : query.order = .desc -> query.cursor.fileId < 0 -> query.startPos.fileId < 0
  behind : ∀ k ∈ later.flatten, UpTo query.order query.lastKey k

theorem savePointPosition_savable (savable : Savable cursor) :
    savePointPosition cursor.fileId cursor.slot cursor.pos = some cursor :=
  if_pos savable

theorem saveNextPosition_spec {meter : SMeterObj} {functions : Functions} {query : SQuery}
    {block : List Int} {later : List (List Int)} (passed : Passed meter query block later)
    (accessPos : Int) :
    ∃ query', saveNextPosition meter.toSMeterData functions query block accessPos = some query' ∧
      ((query' = query ∧ ¬ (query.isIntervalQuery = true ∨
          (query.status.resbufFull = true ∧ query.checkBufferInLoop = true))) ∨
        (0 ≤ accessPos + step query.order ∧ accessPos + step query.order < block.length ∧
          query' = { query with
            nextPos := ⟨query.cursor.fileId, query.cursor.slot, accessPos + step query.order⟩ }) ∨
        (((block.length : Int) ≤ accessPos + step query.order ∨ accessPos + step query.order < 0) ∧
          ∃ moved, Moved query moved ∧ query' = { moved with nextPos := moved.cursor } ∧
          ((later = [] ∧ moved.status = setNoData query.status) ∨
            ∃ next later', later = next :: later' ∧ (moved.status = query.status ∨
                (moved.status = setCompleted query.status ∧ Beyond query next)) ∧
              (EvenMove meter.toSMeterData query -> moved.cursor.pos = firstPos query.order next ∧
                  StandsAt meter query.order moved.cursor next later')))) := by
  unfold saveNextPosition
  by_cases keeps : query.isIntervalQuery = true ∨
      (query.status.resbufFull = true ∧ query.checkBufferInLoop = true)
  · rw [if_pos keeps]
    by_cases outside : numOfPoints block ≤ accessPos + step query.order ∨
        accessPos + step query.order < 0
    · simp only
      rw [if_pos outside]
      obtain ⟨moved, blockLoadStatus, runs, isMoved, savable, ends⟩ :=
        @move_spec meter functions false query block later passed.stands passed.reached
          (fun desc cached _ _ => passed.started desc cached) (fun isLoad => by cases isLoad)
          passed.behind
      rw [runs]
      simp only [savePointPosition_savable savable]
      refine ⟨_, rfl, Or.inr (Or.inr ⟨outside, moved, isMoved, rfl, ends.imp_right ?_⟩)⟩
      rintro ⟨next, later', isLater, status, there, -⟩
      exact ⟨next, later', isLater, status.cases, fun even => there (Or.inr even)⟩
    · simp only
      rw [if_neg outside, savePointPosition]
      rw [numOfPoints] at outside
      obtain ⟨front, back, here, inside, small, -⟩ := passed.stands
      obtain ⟨fileId, slot, -⟩ := savable_here here inside
      rw [if_pos ⟨fileId, slot, by omega⟩]
      exact ⟨_, rfl, Or.inr (Or.inl ⟨by omega, by omega, rfl⟩)⟩
  · rw [if_neg keeps]
    exact ⟨query, rfl, Or.inl ⟨rfl, keeps⟩⟩

end Luomi.Vnode.ScanProgress
