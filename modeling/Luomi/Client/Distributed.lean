import Luomi.Base.PartialResults
import Luomi.Client.Aggregates
import Mathlib.Data.Rat.Lemmas
import Mathlib.Algebra.BigOperators.Group.List.Basic

/-!
# Distributed aggregation

The rows of a query are cut into pieces.  The distributed form of a function runs on each piece,
the partial results of a vnode are merged along a tree, and the client folds those of the trees
into the final one.  It is compared with the plain function on all rows.
-/

namespace Luomi.Client.Distributed

open Aggregates PartialResults
open List (foldl_cons length_cons map_cons sum_eq_foldl)

/-- Rows of one column, in the order of the scan; without `hasNullValue` no value is missing. -/
structure Piece (α : Type) where
  rows : List (Int × Option α)
  hasNullValue : Bool
  nulls : hasNullValue = false -> ∀ row ∈ rows, row.2.isSome

variable {α : Type}

def Piece.block (piece : Piece α) : Block α :=
  ⟨piece.rows.length, piece.rows.map Prod.snd, piece.rows.map Prod.fst, piece.hasNullValue, true,
    none⟩

def rowsOf (trees : List (MergeTree (Piece α))) : List (Int × Option α) :=
  trees.flatMap (MergeTree.rows Piece.rows)

structure Partition (α : Type) where
  all : Piece α
  trees : List (MergeTree (Piece α))
  perm : (rowsOf trees).Perm all.rows

def values (rows : List (Int × Option α)) : List α := rows.filterMap Prod.snd

@[simp] theorem values_append (before after : List (Int × Option α)) :
    values (before ++ after) = values before ++ values after :=
  List.filterMap_append

theorem Partition.values_perm (partition : Partition α) :
    (values (rowsOf partition.trees)).Perm (values partition.all.rows) :=
  partition.perm.filterMap _

theorem values_length {rows : List (Int × Option α)} (filled : ∀ row ∈ rows, row.2.isSome) :
    (values rows).length = rows.length := by
  induction rows with
  | nil => rfl
  | cons row rows ih =>
    obtain ⟨value, found⟩ := Option.isSome_iff_exists.mp (filled row List.mem_cons_self)
    have rest := ih fun other member => filled other (List.mem_cons_of_mem _ member)
    rw [values, List.filterMap_cons_some found, length_cons, length_cons]
    exact congrArg (· + 1) rest

variable {β : Type}

theorem foldl_values (step : β -> Option α -> β) (take : β -> α -> β)
    (missing : ∀ state, step state none = state)
    (taken : ∀ state value, step state (some value) = take state value)
    (rows : List (Int × Option α)) (state : β) :
    (rows.map Prod.snd).foldl step state = (values rows).foldl take state := by
  induction rows generalizing state with
  | nil => rfl
  | cons row rows ih =>
    obtain ⟨key, cell⟩ := row
    cases cell with
    | none =>
      rw [map_cons, foldl_cons, missing]
      exact ih state
    | some value =>
      rw [map_cons, foldl_cons, taken]
      exact ih (take state value)

theorem foldl_filled (step : β -> Option α -> β) (take : β -> α -> β)
    (taken : ∀ state value, step state (some value) = take state value)
    {rows : List (Int × Option α)} (filled : ∀ row ∈ rows, row.2.isSome) (state : β) :
    (rows.map Prod.snd).foldl step state = (values rows).foldl take state := by
  induction rows generalizing state with
  | nil => rfl
  | cons row rows ih =>
    obtain ⟨key, cell⟩ := row
    obtain ⟨value, rfl⟩ := Option.isSome_iff_exists.mp (filled _ List.mem_cons_self)
    rw [map_cons, foldl_cons, taken]
    exact ih (fun other member => filled other (List.mem_cons_of_mem _ member)) (take state value)

theorem foldl_count (values : List α) (count : Int) :
    values.foldl (fun count _ => count + 1) count = count + values.length := by
  induction values generalizing count with
  | nil => simp
  | cons value values ih =>
    rw [foldl_cons, ih, length_cons]
    omega

theorem notNullElems_rows (rows : List (Int × Option α)) :
    notNullElems (rows.map Prod.snd) = (values rows).length := by
  rw [notNullElems, foldl_values _ (fun (count : Int) (_ : α) => count + 1) (fun _ => rfl)
    (fun _ _ => rfl), foldl_count, zero_add]

theorem Piece.size_eq (piece : Piece α) (filled : piece.hasNullValue = false) :
    (piece.block.size : Int) = (values piece.rows).length := by
  rw [values_length (piece.nulls filled)]
  rfl

theorem countFunction_piece (piece : Piece α) (ctx : SQLFunctionCtx Int) :
    countFunction piece.block ctx = ⟨ctx.aOutputBuf + (values piece.rows).length,
        ctx.counts.setVal (values piece.rows).length 1⟩ := by
  cases hasNull : piece.hasNullValue with
  | true => simp [countFunction, Piece.block, hasNull, notNullElems_rows]
  | false =>
    have size := piece.size_eq hasNull
    simp only [Piece.block] at size
    simp [countFunction, Piece.block, hasNull, size]

theorem sumBlock_piece {type : DataType} (number : type.isNumber) (piece : Piece ℚ) (sum : ℚ) :
    sumBlock type piece.block sum =
      ((values piece.rows).foldl (· + ·) sum, ((values piece.rows).length : Int)) := by
  cases hasNull : piece.hasNullValue with
  | true =>
    have added : listAddN sum (piece.rows.map Prod.snd) = (values piece.rows).foldl (· + ·) sum :=
      foldl_values _ _ (fun _ => rfl) (fun _ _ => rfl) _ _
    simp [sumBlock, Piece.block, hasNull, number, notNullElems_rows, added]
  | false =>
    have added : listAdd sum (piece.rows.map Prod.snd) = (values piece.rows).foldl (· + ·) sum :=
      foldl_filled _ _ (fun _ _ => rfl) (piece.nulls hasNull) _
    have size := piece.size_eq hasNull
    simp only [Piece.block] at size
    simp [sumBlock, Piece.block, hasNull, number, size, added]

theorem minMaxFunction_piece {type : DataType} (number : type.isNumber) (isMin : Bool)
    (piece : Piece ℚ) (output : ℚ) : minMaxFunction type isMin piece.block output =
      ((values piece.rows).foldl (loopCheck isMin) output, ((values piece.rows).length : Int)) := by
  cases hasNull : piece.hasNullValue with
  | true =>
    simp only [minMaxFunction, Piece.block, hasNull, number, notNullElems_rows, if_true]
    exact congrArg (·, _) (foldl_values _ _ (fun _ => rfl) (fun _ _ => rfl) _ _)
  | false =>
    have kept : (piece.rows.map Prod.snd).foldl (fun v cell => loopCheck isMin v (cell.getD 0))
        output = (values piece.rows).foldl (loopCheck isMin) output :=
      foldl_filled _ _ (fun _ _ => rfl) (piece.nulls hasNull) _
    have size := piece.size_eq hasNull
    simp only [Piece.block] at size
    simp [minMaxFunction, Piece.block, hasNull, number, size, kept]

theorem spreadFunction_piece {type : DataType} (spreads : type.spreads) (piece : Piece ℚ)
    (ctx : SQLFunctionCtx Spread) : spreadFunction type piece.block ctx =
      ⟨(values piece.rows).foldl Spread.add ctx.aOutputBuf,
        ctx.counts.setVal (values piece.rows).length 1⟩ := by
  cases hasNull : piece.hasNullValue with
  | true =>
    simp only [spreadFunction, Piece.block, hasNull, spreads, notNullElems_rows, not_true,
      if_true, if_false]
    exact congrArg (SQLFunctionCtx.mk · _) (foldl_values _ _ (fun _ => rfl) (fun _ _ => rfl) _ _)
  | false =>
    have kept : (piece.rows.map Prod.snd).foldl (fun spread cell => spread.add (cell.getD 0))
        ctx.aOutputBuf = (values piece.rows).foldl Spread.add ctx.aOutputBuf :=
      foldl_filled _ _ (fun _ _ => rfl) (piece.nulls hasNull) _
    have size := piece.size_eq hasNull
    simp only [Piece.block] at size
    simp [spreadFunction, Piece.block, hasNull, spreads, size, kept]

/-- Elements are counted where, and only where, there are values. -/
structure Iterated (counts : Counts) (values : List α) : Prop where
  nonneg : 0 ≤ counts.numOfIteratedElems
  zero : counts.numOfIteratedElems = 0 ↔ values = []

theorem Iterated.start : Iterated initVal ([] : List α) := ⟨le_refl _, by simp [initVal]⟩

theorem setVal_length (values : List α) :
    (initVal.setVal values.length 1).numOfIteratedElems = values.length := by
  cases values with
  | nil => rfl
  | cons value values =>
    have some : ¬ ((value :: values).length : Int) ≤ 0 := by
      rw [length_cons]
      omega
    rw [Counts.setVal, if_neg some, initVal, zero_add]

theorem Iterated.ofLength (values : List α) : Iterated (initVal.setVal values.length 1) values where
  nonneg := by
    rw [setVal_length]
    omega
  zero := by
    rw [setVal_length, Int.natCast_eq_zero]
    exact List.length_eq_zero_iff

theorem Iterated.more {counts : Counts} {before : List α} (iterated : Iterated counts before)
    {counts' : Counts} {after : List α}
    (more : counts.numOfIteratedElems < counts'.numOfIteratedElems) (some : after ≠ []) :
    Iterated counts' (before ++ after) where
  nonneg := iterated.nonneg.trans more.le
  zero := by
    have nonneg := iterated.nonneg
    constructor
    · intro none
      omega
    · intro none
      exact absurd (List.append_eq_nil_iff.mp none).2 some

theorem setVal_more (counts : Counts) :
    counts.numOfIteratedElems < (counts.setVal 1 1).numOfIteratedElems := by
  rw [Counts.setVal, if_neg (by omega)]
  exact lt_add_one _

variable {counts : Counts}

@[simp] theorem setVal_none (counts : Counts) : counts.setVal 0 1 = counts := rfl

theorem functionFinalize_eq {values : List α} (iterated : Iterated counts values) (value : β) :
    functionFinalize counts value = if values.isEmpty then none else some value := by
  by_cases none : values = []
  · rw [functionFinalize, if_pos (iterated.zero.mpr none), none]
    rfl
  · rw [functionFinalize, if_neg fun zero => none (iterated.zero.mp zero),
      if_neg fun empty => none (List.isEmpty_iff.mp empty)]

theorem isEmpty_perm {before after : List α} (perm : before.Perm after) :
    before.isEmpty = after.isEmpty := by
  have length := perm.length_eq
  cases before with
  | nil =>
    rw [List.length_eq_zero_iff.mp length.symm]
  | cons value before =>
    cases after with
    | nil => cases length
    | cons => rfl

def countDist : Aggregation (Piece α) (SQLFunctionCtx Int) (SQLFunctionCtx Int) where
  piece piece := countFunction piece.block ⟨0, initVal⟩
  setup := ⟨0, initVal⟩
  merge output input := countDistMerge input.aOutputBuf output
  start := ⟨0, initVal⟩
  second final input := countDistMerge input.aOutputBuf final

def countOf (piece : Piece α) : Int := (countFunction piece.block ⟨0, initVal⟩).aOutputBuf

def Counted (ctx : SQLFunctionCtx Int) (rows : List (Int × Option α)) : Prop :=
  ctx.aOutputBuf = (values rows).length

theorem countDist_keeps : Keeps (countDist (α := α)) Piece.rows Counted where
  piece piece := by
    dsimp only [Counted, countDist]
    rw [countFunction_piece]
    exact zero_add _
  setup := rfl
  merge output input before after output' input' := by
    dsimp only [Counted, countDist, countDistMerge] at output' input' ⊢
    rw [output', input', values_append, List.length_append]
    exact (Nat.cast_add _ _).symm

theorem countDist_eq (partition : Partition α) :
    (countDist.finalOf partition.trees).aOutputBuf = countOf partition.all := by
  have final : Counted _ (rowsOf partition.trees) :=
    Folds.finalOf ⟨rfl, countDist_keeps.merge⟩ countDist_keeps partition.trees
  rw [countOf, countFunction_piece]
  dsimp only [Counted] at final ⊢
  rw [final, partition.values_perm.length_eq]
  exact (zero_add _).symm

section Sums

variable {type : DataType}

def sumDist (type : DataType) :
    Aggregation (Piece ℚ) (SQLFunctionCtx SSumRuntime) (SQLFunctionCtx ℚ) where
  piece piece := sumDistInternFunction type piece.block ⟨⟨0, false⟩, initVal⟩
  setup := ⟨⟨0, false⟩, initVal⟩
  merge output input := sumDistMerge type input.aOutputBuf output
  start := ⟨0, initVal⟩
  second final input := sumDistSecondMerge type input.aOutputBuf final

def sumOf (type : DataType) (piece : Piece ℚ) : Option ℚ :=
  let ctx := sumFunction type piece.block ⟨⟨0, false⟩, initVal⟩
  functionFinalize ctx.counts ctx.aOutputBuf.output

structure Summed (ctx : SQLFunctionCtx SSumRuntime) (rows : List (Int × Option ℚ)) : Prop where
  output : ctx.aOutputBuf.output = (values rows).foldl (· + ·) 0
  valFlag : ctx.aOutputBuf.valFlag = !(values rows).isEmpty

structure SummedUp (ctx : SQLFunctionCtx ℚ) (rows : List (Int × Option ℚ)) : Prop where
  output : ctx.aOutputBuf = (values rows).foldl (· + ·) 0
  iterated : Iterated ctx.counts (values rows)

theorem sum_append (before after : List ℚ) :
    (before ++ after).foldl (· + ·) 0 = before.foldl (· + ·) 0 + after.foldl (· + ·) 0 := by
  simp only [<- sum_eq_foldl, List.sum_append]

theorem sumFunction_piece (number : type.isNumber) (piece : Piece ℚ) :
    sumFunction type piece.block ⟨⟨0, false⟩, initVal⟩ =
      ⟨⟨(values piece.rows).foldl (· + ·) 0, false⟩, initVal.setVal (values piece.rows).length 1⟩ := by
  rw [sumFunction, sumBlock_piece number]

theorem doSumMergeImpl_eq (number : type.isNumber) (input : SSumRuntime) (output : ℚ) :
    doSumMergeImpl type input output =
      if input.valFlag then (output + input.output, 1) else (output, 0) := by
  cases set : input.valFlag <;> simp [doSumMergeImpl, set, number]

variable {rows : List (Int × Option α)}

theorem values_none {flag : Bool}
    (valFlag : flag = !(values rows).isEmpty) (unset : flag = false) : values rows = [] := by
  rw [unset] at valFlag
  simpa using valFlag.symm

theorem values_some {flag : Bool}
    (valFlag : flag = !(values rows).isEmpty) (set : flag = true) : values rows ≠ [] := by
  rw [set] at valFlag
  simpa using valFlag.symm

theorem flag_append (before : List (Int × Option α))
    (some : values rows ≠ []) : true = !(values (before ++ rows)).isEmpty := by
  simp [some]

theorem sumDist_keeps (number : type.isNumber) : Keeps (sumDist type) Piece.rows Summed where
  piece piece := by
    dsimp only [sumDist, sumDistInternFunction]
    rw [sumFunction_piece number]
    dsimp only
    by_cases none : values piece.rows = []
    · rw [none]
      exact ⟨by rw [none]; rfl, by rw [none]; rfl⟩
    · have counted : 0 < (initVal.setVal (values piece.rows).length 1).numOfIteratedElems := by
        rw [setVal_length]
        exact Int.natCast_pos.mpr (List.length_pos_iff.mpr none)
      rw [if_pos counted]
      exact ⟨rfl, by simp [none]⟩
  setup := ⟨rfl, rfl⟩
  merge output input before after output' input' := by
    dsimp only [sumDist, sumDistMerge]
    rw [doSumMergeImpl_eq number]
    cases set : input.aOutputBuf.valFlag with
    | false =>
      have none := values_none input'.valFlag set
      exact ⟨by simpa [none] using output'.output, by simpa [none] using output'.valFlag⟩
    | true =>
      have some := values_some input'.valFlag set
      refine ⟨?_, flag_append before some⟩
      rw [values_append, sum_append, <- output'.output, <- input'.output]
      rfl

theorem sumDist_folds (number : type.isNumber) : Folds (sumDist type) Summed SummedUp where
  start := ⟨rfl, Iterated.start⟩
  second final input before after final' input' := by
    dsimp only [sumDist, sumDistSecondMerge]
    rw [doSumMergeImpl_eq number]
    cases set : input.aOutputBuf.valFlag with
    | false =>
      have none := values_none input'.valFlag set
      exact ⟨by simpa [none] using final'.output, by simpa [none] using final'.iterated⟩
    | true =>
      have some := values_some input'.valFlag set
      have more := setVal_more final.counts
      refine ⟨?_, ?_⟩
      · rw [values_append, sum_append, <- final'.output, <- input'.output]
        rfl
      · rw [values_append]
        exact final'.iterated.more (more.trans (lt_add_one _)) some

theorem sumDist_eq (number : type.isNumber) (partition : Partition ℚ) :
    functionFinalize ((sumDist type).finalOf partition.trees).counts
        ((sumDist type).finalOf partition.trees).aOutputBuf = sumOf type partition.all := by
  have final : SummedUp _ (rowsOf partition.trees) :=
    (sumDist_folds number).finalOf (sumDist_keeps number) partition.trees
  have perm := partition.values_perm
  rw [functionFinalize_eq final.iterated, sumOf, sumFunction_piece number]
  dsimp only
  rw [functionFinalize_eq (Iterated.ofLength _), final.output, isEmpty_perm perm,
    <- sum_eq_foldl, <- sum_eq_foldl, perm.sum_eq]

def avgDist (type : DataType) :
    Aggregation (Piece ℚ) (SQLFunctionCtx SAvgRuntime) (SQLFunctionCtx ℚ) where
  piece piece := avgDistInternFunction type piece.block ⟨⟨0, 0, false⟩, initVal⟩
  setup := ⟨⟨0, 0, false⟩, initVal⟩
  merge output input := avgDistMerge input.aOutputBuf output
  start := ⟨0, initVal⟩
  second final input := avgDistSecondMerge input.aOutputBuf final

def avgOf (type : DataType) (piece : Piece ℚ) : Option ℚ :=
  let ctx := sumFunction type piece.block ⟨⟨0, false⟩, initVal⟩
  avgFinalizer ctx.counts ctx.aOutputBuf.output

structure Averaged (ctx : SQLFunctionCtx SAvgRuntime) (rows : List (Int × Option ℚ)) : Prop where
  sum : ctx.aOutputBuf.sum = (values rows).foldl (· + ·) 0
  num : ctx.aOutputBuf.num = (values rows).length
  valFlag : ctx.aOutputBuf.valFlag = !(values rows).isEmpty

structure AveragedUp (ctx : SQLFunctionCtx ℚ) (rows : List (Int × Option ℚ)) : Prop where
  sum : ctx.aOutputBuf = (values rows).foldl (· + ·) 0
  num : ctx.counts.numOfIteratedElems = (values rows).length

theorem avgDistInternFunction_piece (number : type.isNumber) (piece : Piece ℚ)
    (ctx : SQLFunctionCtx SAvgRuntime) :
    avgDistInternFunction type piece.block ctx =
      let sum := (values piece.rows).foldl (· + ·) ctx.aOutputBuf.sum
      let elems : Int := (values piece.rows).length
      if 0 < elems then ⟨⟨sum, ctx.aOutputBuf.num + elems, true⟩, ctx.counts.setVal elems 1⟩
      else ⟨{ ctx.aOutputBuf with sum := sum }, ctx.counts⟩ := by
  have loaded : avgDistInternFunction type piece.block ctx =
      (fun sums : ℚ × Int =>
        if 0 < sums.2 then
          ⟨⟨sums.1, ctx.aOutputBuf.num + sums.2, true⟩, ctx.counts.setVal sums.2 1⟩
        else ⟨{ ctx.aOutputBuf with sum := sums.1 }, ctx.counts⟩)
        (sumBlock type piece.block ctx.aOutputBuf.sum) := rfl
  rw [loaded, sumBlock_piece number]

theorem length_append (before after : List (Int × Option α)) :
    ((values (before ++ after)).length : Int) = (values before).length + (values after).length := by
  rw [values_append, List.length_append, Nat.cast_add]

theorem avgDist_keeps (number : type.isNumber) : Keeps (avgDist type) Piece.rows Averaged where
  piece piece := by
    dsimp only [avgDist]
    rw [avgDistInternFunction_piece number]
    dsimp only
    by_cases none : values piece.rows = []
    · rw [none]
      exact ⟨by rw [none]; rfl, by rw [none]; rfl, by rw [none]; rfl⟩
    · rw [if_pos (Int.natCast_pos.mpr (List.length_pos_iff.mpr none))]
      exact ⟨rfl, zero_add _, by simp [none]⟩
  setup := ⟨rfl, rfl, rfl⟩
  merge output input before after output' input' := by
    dsimp only [avgDist, avgDistMerge]
    cases set : input.aOutputBuf.valFlag with
    | false =>
      have none := values_none input'.valFlag set
      exact ⟨by simpa [none] using output'.sum, by simpa [none] using output'.num,
        by simpa [none] using output'.valFlag⟩
    | true =>
      have some := values_some input'.valFlag set
      refine ⟨?_, ?_, flag_append before some⟩
      · rw [values_append, sum_append, <- output'.sum, <- input'.sum]
        rfl
      · rw [length_append, <- output'.num, <- input'.num]
        rfl

theorem avgDist_folds : Folds (avgDist type) Averaged AveragedUp where
  start := ⟨rfl, rfl⟩
  second final input before after final' input' := by
    dsimp only [avgDist, avgDistSecondMerge]
    cases set : input.aOutputBuf.valFlag with
    | false =>
      have none := values_none input'.valFlag set
      exact ⟨by simpa [none] using final'.sum, by simpa [none] using final'.num⟩
    | true =>
      refine ⟨?_, ?_⟩
      · rw [values_append, sum_append, <- final'.sum, <- input'.sum]
        rfl
      · rw [length_append, <- final'.num, <- input'.num]
        rfl

theorem avgFinalizer_eq {counts' : Counts}
    (num : counts.numOfIteratedElems = counts'.numOfIteratedElems) (sum : ℚ) :
    avgFinalizer counts sum = avgFinalizer counts' sum := by
  rw [avgFinalizer, num]
  rfl

theorem avgDist_eq (number : type.isNumber) (partition : Partition ℚ) :
    avgFinalizer ((avgDist type).finalOf partition.trees).counts
        ((avgDist type).finalOf partition.trees).aOutputBuf = avgOf type partition.all := by
  have final : AveragedUp _ (rowsOf partition.trees) :=
    avgDist_folds.finalOf (avgDist_keeps number) partition.trees
  have perm := partition.values_perm
  rw [avgOf, sumFunction_piece number, final.sum]
  dsimp only
  rw [<- sum_eq_foldl, <- sum_eq_foldl, perm.sum_eq]
  apply avgFinalizer_eq
  rw [final.num, setVal_length, perm.length_eq]

end Sums

section MinMax

variable {type : DataType} {isMin : Bool}

theorem loopCheck_eq (isMin : Bool) (v d : ℚ) :
    loopCheck isMin v d = if isMin then min v d else max v d := by
  cases isMin with
  | false =>
    rw [loopCheck, Bool.xor_false]
    by_cases less : v < d
    · simp [less, less.le]
    · simp [less, le_of_not_gt less]
  | true =>
    rw [loopCheck, Bool.xor_true]
    by_cases less : v < d
    · simp [less, less.le]
    · simp [less, le_of_not_gt less]

instance (isMin : Bool) : Std.Associative (loopCheck isMin) where
  assoc x y z := by
    cases isMin with
    | false => simp only [loopCheck_eq, Bool.false_eq_true, if_false, max_assoc]
    | true => simp only [loopCheck_eq, if_true, min_assoc]

instance (isMin : Bool) : Std.Commutative (loopCheck isMin) where
  comm x y := by
    cases isMin with
    | false => simp only [loopCheck_eq, Bool.false_eq_true, if_false, max_comm]
    | true => simp only [loopCheck_eq, if_true, min_comm]

instance (isMin : Bool) : Std.IdempotentOp (loopCheck isMin) where
  idempotent x := by
    cases isMin with
    | false => simp only [loopCheck_eq, Bool.false_eq_true, if_false, max_self]
    | true => simp only [loopCheck_eq, if_true, min_self]

section

variable (type : DataType) (isMin : Bool)

def minMaxDist : Aggregation (Piece ℚ) (SQLFunctionCtx SMinMaxRuntime) (SQLFunctionCtx ℚ) where
  piece piece :=
    minMaxDistInternFunction type isMin piece.block ⟨⟨minMaxSetup isMin type, false⟩, initVal⟩
  setup := ⟨⟨minMaxSetup isMin type, false⟩, initVal⟩
  merge output input := minMaxDistMerge type isMin input.aOutputBuf output
  start := ⟨minMaxSetup isMin type, initVal⟩
  second final input := minMaxDistSecondMerge type isMin input.aOutputBuf final

def minMaxOf (piece : Piece ℚ) : Option ℚ :=
  let ctx := minMaxPlain type isMin piece.block ⟨⟨minMaxSetup isMin type, false⟩, initVal⟩
  functionFinalize ctx.counts ctx.aOutputBuf.value

def bound (values : List ℚ) : ℚ :=
  values.foldl (loopCheck isMin) (minMaxSetup isMin type)

end

structure Bounded (type : DataType) (isMin : Bool) (ctx : SQLFunctionCtx SMinMaxRuntime)
    (rows : List (Int × Option ℚ)) : Prop where
  value : ctx.aOutputBuf.value = bound type isMin (values rows)
  valFlag : ctx.aOutputBuf.valFlag = !(values rows).isEmpty

structure BoundedUp (type : DataType) (isMin : Bool) (ctx : SQLFunctionCtx ℚ)
    (rows : List (Int × Option ℚ)) : Prop where
  value : ctx.aOutputBuf = bound type isMin (values rows)
  iterated : Iterated ctx.counts (values rows)

theorem bound_append (before after : List (Int × Option ℚ)) :
    bound type isMin (values (before ++ after)) =
      loopCheck isMin (bound type isMin (values before)) (bound type isMin (values after)) := by
  rw [values_append]
  exact (foldl_merge _ _ _ _).symm

section

variable (number : type.isNumber)
include number

theorem minmaxDistMergeImpl_eq (input : SMinMaxRuntime) (output : ℚ) :
    minmaxDistMergeImpl type isMin input output =
      if input.valFlag then (loopCheck isMin output input.value, 1) else (output, 0) := by
  cases set : input.valFlag <;> simp [minmaxDistMergeImpl, set, number]

theorem minMaxDist_keeps : Keeps (minMaxDist type isMin) Piece.rows (Bounded type isMin) where
  piece piece := by
    dsimp only [minMaxDist, minMaxDistInternFunction]
    rw [minMaxFunction_piece number]
    refine ⟨rfl, ?_⟩
    by_cases none : values piece.rows = []
    · simp [none]
    · simp [none, List.length_pos_iff]
  setup := ⟨rfl, rfl⟩
  merge output input before after output' input' := by
    dsimp only [minMaxDist, minMaxDistMerge]
    rw [minmaxDistMergeImpl_eq number]
    cases set : input.aOutputBuf.valFlag with
    | false =>
      have none := values_none input'.valFlag set
      exact ⟨by simpa [none] using output'.value, by simpa [none] using output'.valFlag⟩
    | true =>
      have some := values_some input'.valFlag set
      refine ⟨?_, flag_append before some⟩
      rw [bound_append, <- output'.value, <- input'.value]
      rfl

theorem minMaxDist_folds :
    Folds (minMaxDist type isMin) (Bounded type isMin) (BoundedUp type isMin) where
  start := ⟨rfl, Iterated.start⟩
  second final input before after final' input' := by
    dsimp only [minMaxDist, minMaxDistSecondMerge]
    rw [minmaxDistMergeImpl_eq number]
    cases set : input.aOutputBuf.valFlag with
    | false =>
      have none := values_none input'.valFlag set
      exact ⟨by simpa [none] using final'.value, by simpa [none] using final'.iterated⟩
    | true =>
      have some := values_some input'.valFlag set
      have more := setVal_more final.counts
      refine ⟨?_, ?_⟩
      · rw [bound_append, <- final'.value, <- input'.value]
        rfl
      · rw [values_append]
        exact final'.iterated.more (more.trans (lt_add_one _)) some

theorem minMaxDist_eq (partition : Partition ℚ) :
    functionFinalize ((minMaxDist type isMin).finalOf partition.trees).counts
        ((minMaxDist type isMin).finalOf partition.trees).aOutputBuf =
      minMaxOf type isMin partition.all := by
  have final : BoundedUp type isMin _ (rowsOf partition.trees) :=
    (minMaxDist_folds number).finalOf (minMaxDist_keeps number) partition.trees
  have perm := partition.values_perm
  have same : bound type isMin (values (rowsOf partition.trees)) =
      bound type isMin (values partition.all.rows) := foldl_perm _ _ perm
  rw [functionFinalize_eq final.iterated, final.value, same, isEmpty_perm perm, minMaxOf,
    minMaxPlain, minMaxFunction_piece number]
  exact (functionFinalize_eq (Iterated.ofLength _) _).symm

end

end MinMax

section SpreadOf

variable {type : DataType}

def spreadDist (type : DataType) :
    Aggregation (Piece ℚ) (SQLFunctionCtx SSpreadRuntime) (SQLFunctionCtx Spread) where
  piece piece := spreadDistInternFunction type piece.block ⟨spreadDistSetup, initVal⟩
  setup := ⟨spreadDistSetup, initVal⟩
  merge output input := spreadDistMerge input.aOutputBuf output
  start := ⟨spreadSetup, initVal⟩
  second final input := spreadDistSecondMerge input.aOutputBuf final

def spreadOf (type : DataType) (piece : Piece ℚ) : Option ℚ :=
  let ctx := spreadFunction type piece.block ⟨spreadSetup, initVal⟩
  spreadFunctionFinalize ctx.counts ctx.aOutputBuf

def ends (values : List ℚ) : Spread := values.foldl Spread.add spreadSetup

def joinSpread (spread other : Spread) : Spread :=
  ⟨loopCheck true spread.least other.least, loopCheck false spread.most other.most⟩

theorem lesser (kept other : ℚ) :
    (if other < kept then other else kept) = loopCheck true kept other := by
  rw [loopCheck_eq, if_pos rfl]
  by_cases less : other < kept
  · rw [if_pos less, min_eq_right less.le]
  · rw [if_neg less, min_eq_left (le_of_not_gt less)]

theorem greater (kept other : ℚ) :
    (if kept < other then other else kept) = loopCheck false kept other := by
  rw [loopCheck, Bool.xor_false]
  by_cases less : kept < other
  · simp [less]
  · simp [less]

theorem add_eq (spread : Spread) (value : ℚ) : spread.add value =
      ⟨loopCheck true spread.least value, loopCheck false spread.most value⟩ := by
  rw [<- lesser, <- greater, Spread.add]
  by_cases less : value < spread.least
  all_goals
    by_cases more : spread.most < value
    · simp [less, more]
    · simp [less, more]

theorem foldl_add (values : List ℚ) (spread : Spread) : values.foldl Spread.add spread =
      ⟨values.foldl (loopCheck true) spread.least, values.foldl (loopCheck false) spread.most⟩ := by
  induction values generalizing spread with
  | nil => rfl
  | cons value values ih =>
    rw [foldl_cons, ih, add_eq]
    rfl

theorem ends_append (before after : List (Int × Option ℚ)) :
    ends (values (before ++ after)) = joinSpread (ends (values before)) (ends (values after)) := by
  rw [ends, ends, ends, foldl_add, foldl_add, foldl_add, joinSpread, values_append,
    <- foldl_merge, <- foldl_merge]

theorem ends_perm {before after : List ℚ} (perm : before.Perm after) :
    ends before = ends after := by
  rw [ends, ends, foldl_add, foldl_add, foldl_perm (loopCheck true) _ perm,
    foldl_perm (loopCheck false) _ perm]

structure Spreads (ctx : SQLFunctionCtx SSpreadRuntime) (rows : List (Int × Option ℚ)) :
    Prop where
  spread : (⟨ctx.aOutputBuf.start, ctx.aOutputBuf.endVal⟩ : Spread) = ends (values rows)
  valid : ctx.aOutputBuf.valid = !(values rows).isEmpty

structure SpreadsUp (ctx : SQLFunctionCtx Spread) (rows : List (Int × Option ℚ)) : Prop where
  spread : ctx.aOutputBuf = ends (values rows)
  iterated : Iterated ctx.counts (values rows)

theorem spreadDist_keeps (spreads : type.spreads) : Keeps (spreadDist type) Piece.rows Spreads where
  piece piece := by
    dsimp only [spreadDist, spreadDistInternFunction]
    rw [spreadFunction_piece spreads]
    dsimp only
    rw [setVal_length]
    by_cases none : values piece.rows = []
    · rw [none]
      exact ⟨by rw [none]; rfl, by rw [none]; rfl⟩
    · rw [if_pos (by simpa using none)]
      exact ⟨rfl, by simp [none]⟩
  setup := ⟨rfl, rfl⟩
  merge output input before after output' input' := by
    dsimp only [spreadDist, spreadDistMerge]
    cases set : input.aOutputBuf.valid with
    | false =>
      have none := values_none input'.valid set
      exact ⟨by simpa [none] using output'.spread, by simpa [none] using output'.valid⟩
    | true =>
      have some := values_some input'.valid set
      rw [if_neg (by simp)]
      refine ⟨?_, flag_append before some⟩
      rw [ends_append, <- output'.spread, <- input'.spread]
      dsimp only [joinSpread]
      rw [lesser, greater]

theorem spreadDist_folds : Folds (spreadDist type) Spreads SpreadsUp where
  start := ⟨rfl, Iterated.start⟩
  second final input before after final' input' := by
    dsimp only [spreadDist, spreadDistSecondMerge]
    cases set : input.aOutputBuf.valid with
    | false =>
      have none := values_none input'.valid set
      exact ⟨by simpa [none] using final'.spread, by simpa [none] using final'.iterated⟩
    | true =>
      have some := values_some input'.valid set
      rw [if_neg (by simp)]
      refine ⟨?_, ?_⟩
      · rw [ends_append, <- final'.spread, <- input'.spread]
        dsimp only [joinSpread]
        rw [lesser, greater]
      · rw [values_append]
        exact final'.iterated.more (lt_add_one _) some

theorem spreadFunctionFinalize_eq {values : List α}
    (iterated : Iterated counts values) (spread : Spread) :
    spreadFunctionFinalize counts spread =
      if values.isEmpty then none else some (spread.most - spread.least) := by
  rw [<- functionFinalize_eq iterated, spreadFunctionFinalize, functionFinalize]
  have nonneg := iterated.nonneg
  by_cases zero : counts.numOfIteratedElems = 0
  · rw [if_pos zero, if_pos (by omega)]
  · rw [if_neg zero, if_neg (by omega)]

theorem spreadDist_eq (spreads : type.spreads) (partition : Partition ℚ) :
    spreadFunctionFinalize ((spreadDist type).finalOf partition.trees).counts
        ((spreadDist type).finalOf partition.trees).aOutputBuf = spreadOf type partition.all := by
  have final : SpreadsUp _ (rowsOf partition.trees) :=
    spreadDist_folds.finalOf (spreadDist_keeps spreads) partition.trees
  have perm := partition.values_perm
  rw [spreadFunctionFinalize_eq final.iterated, final.spread, ends_perm perm, isEmpty_perm perm,
    spreadOf, spreadFunction_piece spreads]
  exact (spreadFunctionFinalize_eq (Iterated.ofLength _) _).symm

end SpreadOf

end Luomi.Client.Distributed
