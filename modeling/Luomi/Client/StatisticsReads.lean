import Luomi.Client.Distributed
import Luomi.Client.Statistics
import Mathlib.Tactic.NormNum
import Mathlib.Tactic.Ring

/-!
# Statistics in place of rows

The statistics of a column are folds of its values, so a function that takes them comes to where
its rows would have brought it.  Two readers miss that: `min` and `max` take the zero of a column
that the block does not have for a value, and `spread` of the timestamps has no statistics at all.
-/

namespace Luomi.Client.StatisticsReads

open Aggregates Distributed Statistics PartialResults
open List (foldl_cons length_cons mem_map)

def kept (cells : List (Option ℚ)) : List ℚ := cells.filterMap id

def timeless (cells : List (Option ℚ)) : List (Int × Option ℚ) := cells.map (Prod.mk 0)

section

variable (cells : List (Option ℚ))
include cells

theorem values_timeless : values (timeless cells) = kept cells := by
  rw [values, timeless, List.filterMap_map]
  rfl

theorem cells_timeless : (timeless cells).map Prod.snd = cells := by
  rw [timeless, List.map_map]
  exact List.map_id cells

theorem kept_length_le : (kept cells).length ≤ cells.length :=
  List.length_filterMap_le _ _

theorem foldl_step (statics : Statics) : cells.foldl Statics.step statics =
      ⟨(kept cells).foldl (· + ·) statics.sum, (kept cells).foldl (loopCheck true) statics.min,
        (kept cells).foldl (loopCheck false) statics.max,
        statics.numOfNull + (cells.length - (kept cells).length)⟩ := by
  induction cells generalizing statics with
  | nil => simp [kept]
  | cons cell cells ih =>
    cases cell with
    | none =>
      have same : kept (none :: cells) = kept cells := rfl
      rw [foldl_cons, ih, same, length_cons]
      simp only [Statics.step, Statics.mk.injEq, true_and]
      push_cast
      ring
    | some data =>
      have more : kept (some data :: cells) = data :: kept cells := rfl
      rw [foldl_cons, ih, more, length_cons, length_cons]
      simp only [Statics.step, lesser, greater, foldl_cons, Statics.mk.injEq, true_and]
      push_cast
      ring

theorem foldl_isNone (numOfNull : Int) :
    cells.foldl (fun numOfNull cell => if cell.isNone then numOfNull + 1 else numOfNull) numOfNull =
      numOfNull + (cells.length - (kept cells).length) := by
  induction cells generalizing numOfNull with
  | nil => simp [kept]
  | cons cell cells ih =>
    cases cell with
    | none =>
      have same : kept (none :: cells) = kept cells := rfl
      rw [foldl_cons, ih, same, length_cons]
      simp only [Option.isNone_none, if_true]
      push_cast
      ring
    | some data =>
      have more : kept (some data :: cells) = data :: kept cells := rfl
      rw [foldl_cons, ih, more, length_cons, length_cons]
      simp only [Option.isNone_some, Bool.false_eq_true, if_false]
      push_cast
      ring

end

def sentinels (type : DataType) : ℚ × ℚ :=
  if type.isFloating then (-dblMax, dblMax) else (int64Min, int64Max)

theorem numOfNullPoints_eq (type : DataType) (cells : List (Option ℚ)) :
    (getStatistics type cells).numOfNullPoints = cells.length - (kept cells).length := by
  have counted : ∀ least most : ℚ, (getStatics least most cells).numOfNull =
      cells.length - (kept cells).length := by
    intro least most
    rw [getStatics, foldl_step]
    exact zero_add _
  have texts := foldl_isNone cells 0
  rw [zero_add] at texts
  cases type <;> first | exact counted _ _ | exact texts

variable {type : DataType}
  {value : ℚ}

theorem read_word (whole : type.isFloating = false -> ∃ number : Int, value = number) :
    (if type.isFloating then Word.dKey value else integerWord value).read type = value := by
  cases floating : type.isFloating with
  | true => simp [Word.read, floating]
  | false =>
    obtain ⟨number, rfl⟩ := whole floating
    simp [Word.read, floating, integerWord]

theorem whole_foldl {op : ℚ -> ℚ -> ℚ} (closed : ∀ a b : Int, ∃ c : Int, op a b = c)
    {values : List ℚ} (wholes : ∀ value ∈ values, ∃ number : Int, value = number) {start : ℚ}
    (whole : ∃ number : Int, start = number) : ∃ number : Int, values.foldl op start = number := by
  induction values generalizing start with
  | nil => exact whole
  | cons value values ih =>
    obtain ⟨a, rfl⟩ := whole
    obtain ⟨b, rfl⟩ := wholes _ List.mem_cons_self
    rw [foldl_cons]
    exact ih (fun other member => wholes other (List.mem_cons_of_mem _ member)) (closed a b)

theorem loopCheck_whole (isMin : Bool) (a b : Int) : ∃ c : Int, loopCheck isMin a b = c := by
  rw [loopCheck]
  split
  · exact ⟨b, rfl⟩
  · exact ⟨a, rfl⟩

theorem sentinels_whole (type : DataType) (floating : type.isFloating = false) :
    (∃ number : Int, (sentinels type).1 = number) ∧ ∃ number : Int, (sentinels type).2 = number := by
  rw [sentinels, if_neg (by simp [floating])]
  exact ⟨⟨-2 ^ 63, by norm_num [int64Min]⟩, ⟨2 ^ 63 - 1, by norm_num [int64Max]⟩⟩

def isText (type : DataType) : Bool := type = .binary || type = .nchar

theorem notText_of_spreads (spreads : type.spreads) : isText type = false := by
  cases type <;> first | rfl | cases spreads

structure Summary (type : DataType) (cells : List (Option ℚ)) (field : SField) : Prop where
  sum : field.sum.read type = (kept cells).foldl (· + ·) 0
  min : field.min.read type = (kept cells).foldl (loopCheck true) (sentinels type).2
  max : field.max.read type = (kept cells).foldl (loopCheck false) (sentinels type).1

theorem getStatistics_summary (number : isText type = false) {cells : List (Option ℚ)}
    (fits : ∀ value, some value ∈ cells -> Fits type value) :
    Summary type cells (getStatistics type cells) := by
  have field_eq : getStatistics type cells =
      (getStatics (sentinels type).1 (sentinels type).2 cells).field
        fun value => if type.isFloating then .dKey value else integerWord value := by
    cases type <;> first | rfl | cases number
  have wholes : type.isFloating = false -> ∀ value ∈ kept cells, ∃ number : Int, value = number :=
    fun floating value member =>
      (fits value (by simpa [kept] using member)).whole floating
  rw [field_eq, getStatics, foldl_step]
  refine ⟨read_word fun floating => ?_, read_word fun floating => ?_, read_word fun floating => ?_⟩
  · exact whole_foldl (fun a b => ⟨a + b, (Int.cast_add a b).symm⟩) (wholes floating)
      ⟨0, Int.cast_zero.symm⟩
  · exact whole_foldl (loopCheck_whole true) (wholes floating) (sentinels_whole type floating).2
  · exact whole_foldl (loopCheck_whole false) (wholes floating) (sentinels_whole type floating).1

theorem kept_replicate (size : Nat) : kept (List.replicate size none) = [] := by
  rw [kept, List.filterMap_replicate]
  rfl

variable {block : FileBlock} {colId : Int}

theorem getFieldInfo_mem {column : Column} (found : getFieldInfo block colId = some column) :
    column ∈ block.columns ∧ column.colId = colId :=
  ⟨List.mem_of_find?_eq_some found, by simpa using List.find?_some found⟩

theorem cellsOf_length (block : FileBlock) (colId : Int) :
    (cellsOf block colId).length = block.size := by
  rw [cellsOf]
  cases found : getFieldInfo block colId with
  | none => exact List.length_replicate
  | some column => exact block.lengths column (getFieldInfo_mem found).1

theorem notNull_eq (block : FileBlock) (expr : SelectExpr) :
    (block.size : Int) - (preAggVals block.size (fieldOf block expr)).numOfNullPoints =
      (kept (cellsOf block expr.colId)).length := by
  have length := cellsOf_length block expr.colId
  rw [fieldOf, cellsOf] at *
  cases found : getFieldInfo block expr.colId with
  | none =>
    rw [Option.map_none, kept_replicate]
    exact Int.sub_self _
  | some column =>
    rw [found] at length
    rw [Option.map_some, preAggVals, numOfNullPoints_eq, <- length]
    dsimp only
    omega

theorem filled_of_length {cells : List (Option ℚ)} (length : (kept cells).length = cells.length) :
    ∀ cell ∈ cells, cell.isSome := by
  induction cells with
  | nil => simp
  | cons cell cells ih =>
    cases cell with
    | none =>
      have bound := kept_length_le cells
      have same : kept (none :: cells) = kept cells := rfl
      rw [same, length_cons] at length
      omega
    | some data =>
      have more : kept (some data :: cells) = data :: kept cells := rfl
      rw [more, length_cons, length_cons] at length
      intro cell member
      rcases List.mem_cons.mp member with rfl | member
      · rfl
      · exact ih (Nat.succ_injective length) cell member

theorem hasNullVal_filled {expr : SelectExpr} (none : hasNullVal (fieldOf block expr) = false) :
    ∀ cell ∈ cellsOf block expr.colId, cell.isSome := by
  have points := notNull_eq block expr
  have length := cellsOf_length block expr.colId
  apply filled_of_length
  cases field : fieldOf block expr with
  | none =>
    rw [field] at none
    cases none
  | some pField =>
    rw [field] at none points
    have zero : pField.numOfNullPoints = 0 := by simpa [hasNullVal] using none
    dsimp only [preAggVals] at points
    rw [zero] at points
    omega

def pieceOf (scan : Scan) (expr : SelectExpr) : Piece ℚ where
  rows := timeless (cellsOf scan.block expr.colId)
  hasNullValue := hasNullVal (fieldOf scan.block expr)
  nulls none row member := by
    obtain ⟨cell, inside, rfl⟩ := mem_map.mp member
    exact hasNullVal_filled none cell inside

theorem loadedOf_eq (scan : Scan) (expr : SelectExpr) : loadedOf scan expr =
      { (pieceOf scan expr).block with
        ptsList := [], preAggVals := some (preAggVals scan.block.size (fieldOf scan.block expr)) } := by
  have length : (timeless (cellsOf scan.block expr.colId)).length = scan.block.size := by
    rw [timeless, List.length_map, cellsOf_length]
  rw [loadedOf, Piece.block, pieceOf, cells_timeless, length]

theorem xFunction_loaded (type : DataType) (block : Block ℚ) (loaded : block.loaded = true)
    (ptsList : List Int) (preAggVals : Option SQLPreAggVal) (aggregate : Aggregate)
    (ctx : SQLFunctionCtx aggregate.Buffer) :
    aggregate.xFunction type { block with ptsList := ptsList, preAggVals := preAggVals } ctx =
      aggregate.xFunction type block ctx := by
  obtain ⟨size, cells, pts, hasNull, _, vals⟩ := block
  cases loaded
  cases aggregate <;> rfl

variable {scan : Scan} {expr : SelectExpr}

def valuesOf (scan : Scan) (expr : SelectExpr) : List ℚ := kept (cellsOf scan.block expr.colId)

theorem values_pieceOf : values (pieceOf scan expr).rows = valuesOf scan expr :=
  values_timeless _

theorem rows_eq (ctx : SQLFunctionCtx expr.function.Buffer) :
    expr.function.xFunction expr.type (loadedOf scan expr) ctx =
      expr.function.xFunction expr.type (pieceOf scan expr).block ctx := by
  rw [loadedOf_eq]
  exact xFunction_loaded _ _ rfl _ _ _ _

theorem or_foldl (exprs : List SelectExpr) (req : Nat) :
    exprs.foldl (fun req expr => req ||| expr.function.dataReqFunc expr.colId) req = 0 ↔
      req = 0 ∧ ∀ expr ∈ exprs, expr.function.dataReqFunc expr.colId = 0 := by
  induction exprs generalizing req with
  | nil => simp
  | cons expr exprs ih =>
    rw [foldl_cons, ih, Nat.or_eq_zero_iff, List.forall_mem_cons, and_assoc]

variable {exprs : List SelectExpr}

theorem request_zero (zero : request exprs = blkDataNoNeeded)
    (member : expr ∈ exprs) : expr.function.dataReqFunc expr.colId = 0 :=
  ((or_foldl exprs 0).mp zero).2 expr member

theorem request_filed (member : expr ∈ exprs)
    (asked : expr.function.dataReqFunc expr.colId = blkDataFiledsNeeded) :
    request exprs ≠ blkDataNoNeeded := by
  intro zero
  rw [request_zero zero member] at asked
  cases asked

theorem primary_of_unasked {aggregate : Aggregate}
    (unasked : aggregate.dataReqFunc colId = 0) : colId = primaryKeyTimestampColIndex := by
  have counted : countLoadDataInfo colId = 0 -> colId = primaryKeyTimestampColIndex := by
    intro zero
    by_contra other
    rw [countLoadDataInfo, if_neg other] at zero
    cases zero
  cases aggregate with
  | count | spread => exact counted unasked
  | sum | avg | min | max => cases unasked

theorem primary_values (primary : expr.colId = primaryKeyTimestampColIndex) :
    ((valuesOf scan expr).length : Int) = scan.block.size := by
  obtain ⟨column, found, filled⟩ := scan.block.timestamps
  have cells : cellsOf scan.block expr.colId = column.cells := by
    rw [cellsOf, getFieldInfo, primary, found]
  have length := cellsOf_length scan.block expr.colId
  rw [valuesOf, cells, <- length, cells]
  have all : (values (timeless column.cells)).length = (timeless column.cells).length :=
    values_length fun row member => by
      obtain ⟨cell, inside, rfl⟩ := mem_map.mp member
      exact filled cell inside
  rw [values_timeless, timeless, List.length_map] at all
  exact congrArg Nat.cast all

theorem count_eq (member : expr ∈ scan.exprs) (ctx : SQLFunctionCtx Int) :
    countFunction (statisticsOf scan expr) ctx = countFunction (pieceOf scan expr).block ctx := by
  rw [countFunction_piece, values_pieceOf, statisticsOf]
  by_cases unasked : request scan.exprs = blkDataNoNeeded
  · rw [if_pos unasked, primary_values (primary_of_unasked (request_zero unasked member))]
    rfl
  · have points := notNull_eq scan.block expr
    rw [if_neg unasked, valuesOf, <- points]
    rfl

theorem foldl_add_from (values : List ℚ) (start : ℚ) :
    values.foldl (· + ·) start = start + values.foldl (· + ·) 0 := by
  induction values generalizing start with
  | nil => exact (add_zero start).symm
  | cons value values ih =>
    rw [foldl_cons, foldl_cons, ih, ih (0 + value), zero_add, add_assoc]

/-- A column that the block has is summed up; one that it does not have has no values. -/
inductive Told (scan : Scan) (expr : SelectExpr) : Prop where
  | missing (none : getFieldInfo scan.block expr.colId = none) (empty : valuesOf scan expr = [])
  | summed (column : Column) (found : getFieldInfo scan.block expr.colId = some column)
      (summary : Summary expr.type column.cells (getStatistics expr.type column.cells))
      (type : column.type = expr.type) (values : valuesOf scan expr = kept column.cells)

theorem told (member : expr ∈ scan.exprs) (spreads : expr.type.spreads) : Told scan expr := by
  cases found : getFieldInfo scan.block expr.colId with
  | none =>
    refine .missing found ?_
    rw [valuesOf, cellsOf, found]
    exact kept_replicate _
  | some column =>
    obtain ⟨inside, colId⟩ := getFieldInfo_mem found
    have type := scan.typed expr member column inside colId
    refine .summed column found (getStatistics_summary (notText_of_spreads spreads) ?_) type ?_
    · rw [<- type]
      exact column.fits
    · rw [valuesOf, cellsOf, found]

theorem spreads_of_number (number : type.isNumber) : type.spreads := by
  rw [DataType.spreads, number]
  rfl

theorem sum_eq (member : expr ∈ scan.exprs) (number : expr.type.isNumber)
    (asked : request scan.exprs ≠ blkDataNoNeeded) (ctx : SQLFunctionCtx SSumRuntime) :
    sumFunction expr.type (statisticsOf scan expr) ctx =
      sumFunction expr.type (pieceOf scan expr).block ctx := by
  have points := notNull_eq scan.block expr
  have statistics : sumBlock expr.type (statisticsOf scan expr) ctx.aOutputBuf.output =
      (if 0 < ((valuesOf scan expr).length : Int) ∧ expr.type.isNumber then
          ctx.aOutputBuf.output +
            (preAggVals scan.block.size (fieldOf scan.block expr)).sum.read expr.type
        else ctx.aOutputBuf.output, ((valuesOf scan expr).length : Int)) := by
    rw [statisticsOf, if_neg asked, valuesOf, <- points]
    rfl
  rw [sumFunction, sumFunction, statistics, sumBlock_piece number, values_pieceOf]
  have same : (if 0 < ((valuesOf scan expr).length : Int) ∧ expr.type.isNumber then
      ctx.aOutputBuf.output +
        (preAggVals scan.block.size (fieldOf scan.block expr)).sum.read expr.type
      else ctx.aOutputBuf.output) = (valuesOf scan expr).foldl (· + ·) ctx.aOutputBuf.output := by
    cases told member (spreads_of_number number) with
    | missing none empty => simp [empty]
    | summed column found summary type values =>
      by_cases empty : valuesOf scan expr = []
      · simp [empty]
      · rw [if_pos ⟨Int.natCast_pos.mpr (List.length_pos_iff.mpr empty), number⟩, fieldOf, found,
          Option.map_some, type, preAggVals, foldl_add_from, values, <- summary.sum]
  rw [same]

theorem fltMax_le_dblMax : fltMax ≤ dblMax :=
  calc fltMax ≤ (2 : ℚ) ^ 128 := by norm_num [fltMax]
    _ ≤ 2 ^ 1023 := pow_le_pow_right₀ one_le_two (by omega)
    _ = 1 * 2 ^ 1023 := (one_mul _).symm
    _ ≤ (2 - 1 / 2 ^ 52) * 2 ^ 1023 :=
      mul_le_mul_of_nonneg_right (by norm_num) (pow_nonneg zero_le_two _)

theorem range_sentinels (spreads : type.spreads) :
    (sentinels type).1 ≤ (range type).1 ∧ (range type).2 ≤ (sentinels type).2 := by
  cases type with
  | bool | binary | nchar => cases spreads
  | tinyint | smallint | int | bigint | timestamp =>
    norm_num [sentinels, range, DataType.isFloating, int64Min, int64Max]
  | float => exact ⟨neg_le_neg fltMax_le_dblMax, fltMax_le_dblMax⟩
  | double => exact ⟨le_refl _, le_refl _⟩

theorem loopCheck_sentinel (spreads : type.spreads) (fits : Fits type value) :
    loopCheck true value (sentinels type).2 = value ∧
      loopCheck false value (sentinels type).1 = value := by
  have wide := range_sentinels spreads
  rw [loopCheck_eq, loopCheck_eq, if_pos rfl, if_neg Bool.false_ne_true]
  exact ⟨min_eq_left (fits.most.trans wide.2), max_eq_left (wide.1.trans fits.least)⟩

variable {isMin : Bool}

theorem foldl_sentinel {sentinel : ℚ}
    (unchanged : loopCheck isMin value sentinel = value) (values : List ℚ) :
    loopCheck isMin value (values.foldl (loopCheck isMin) sentinel) =
      values.foldl (loopCheck isMin) value := by
  have moved : values.foldl (loopCheck isMin) (loopCheck isMin value sentinel) =
      loopCheck isMin value (values.foldl (loopCheck isMin) sentinel) := List.foldl_assoc
  rw [<- moved, unchanged]

/-- What `min` and `max` take for a value, where the block does not have the column. -/
def TakesZero (scan : Scan) (expr : SelectExpr) (isMin : Bool) (value : ℚ) : Prop :=
  getFieldInfo scan.block expr.colId = none ∧ if isMin then 0 < value else value < 0

theorem loopCheck_zero (isMin : Bool) (value : ℚ) :
    loopCheck isMin value 0 = value ↔ ¬ if isMin then 0 < value else value < 0 := by
  rw [loopCheck_eq]
  cases isMin with
  | false => simp
  | true => simp

theorem read_zero (type : DataType) : (Word.i64Key 0).read type = 0 := by
  rw [Word.read]
  split
  · rfl
  · exact Int.cast_zero

theorem minMax_iff (member : expr ∈ scan.exprs) (number : expr.type.isNumber)
    (asked : request scan.exprs ≠ blkDataNoNeeded) (isMin : Bool)
    (ctx : SQLFunctionCtx SMinMaxRuntime) (fits : Fits expr.type ctx.aOutputBuf.value) :
    minMaxPlain expr.type isMin (statisticsOf scan expr) ctx =
        minMaxPlain expr.type isMin (pieceOf scan expr).block ctx ↔
      ¬ TakesZero scan expr isMin ctx.aOutputBuf.value := by
  have points := notNull_eq scan.block expr
  have spreads := spreads_of_number number
  have statistics : minMaxFunction expr.type isMin (statisticsOf scan expr) ctx.aOutputBuf.value =
      (loopCheck isMin ctx.aOutputBuf.value
        ((if isMin then (preAggVals scan.block.size (fieldOf scan.block expr)).min
          else (preAggVals scan.block.size (fieldOf scan.block expr)).max).read expr.type),
        ((valuesOf scan expr).length : Int)) := by
    rw [statisticsOf, if_neg asked, valuesOf, <- points, minMaxFunction]
    dsimp only
    rw [if_pos number]
  rw [minMaxPlain, minMaxPlain, statistics, minMaxFunction_piece number, values_pieceOf, TakesZero]
  cases told member spreads with
  | missing none empty =>
    have vals : preAggVals scan.block.size (fieldOf scan.block expr) =
        ⟨scan.block.size, .i64Key 0, .i64Key 0, .i64Key 0⟩ := by
      rw [fieldOf, none]
      rfl
    rw [empty, vals, ite_self, read_zero, List.foldl_nil]
    simp only [SQLFunctionCtx.mk.injEq, SMinMaxRuntime.mk.injEq, and_true, none, true_and]
    exact loopCheck_zero isMin ctx.aOutputBuf.value
  | summed column found summary type values =>
    have unchanged := loopCheck_sentinel spreads fits
    refine iff_of_true ?_ fun zero => ?_
    · rw [fieldOf, found, Option.map_some, type, preAggVals, values]
      cases isMin with
      | false =>
        rw [if_neg Bool.false_ne_true, summary.max, foldl_sentinel unchanged.2]
      | true =>
        rw [if_pos rfl, summary.min, foldl_sentinel unchanged.1]
    · cases found.symm.trans zero.1

/-- Nothing is asked for, and a timestamp is outside of what was there. -/
def Unread (scan : Scan) (expr : SelectExpr) (spread : Spread) : Prop :=
  request scan.exprs = blkDataNoNeeded ∧
    ∃ value ∈ valuesOf scan expr, value < spread.least ∨ spread.most < value

theorem foldl_add_fixed (values : List ℚ) (spread : Spread) :
    values.foldl Spread.add spread = spread ↔
      ¬ ∃ value ∈ values, value < spread.least ∨ spread.most < value := by
  have least := foldl_fixed (loopCheck true) spread.least values
  have most := foldl_fixed (loopCheck false) spread.most values
  simp only [loopCheck_eq, if_true, Bool.false_eq_true, if_false, min_eq_left_iff,
    max_eq_left_iff] at least most
  rw [foldl_add]
  have parts : (⟨values.foldl (loopCheck true) spread.least,
      values.foldl (loopCheck false) spread.most⟩ : Spread) = spread ↔
      values.foldl (loopCheck true) spread.least = spread.least ∧
        values.foldl (loopCheck false) spread.most = spread.most :=
    Spread.mk.injEq _ _ _ _ ▸ Iff.rfl
  rw [parts, least, most]
  push Not
  exact ⟨fun both value member => ⟨both.1 value member, both.2 value member⟩,
    fun both => ⟨fun value member => (both value member).1,
      fun value member => (both value member).2⟩⟩

theorem foldl_value {kept sentinel : ℚ} (values : List ℚ)
    (unchanged : loopCheck isMin value sentinel = value) :
    loopCheck isMin kept ((value :: values).foldl (loopCheck isMin) sentinel) =
      (value :: values).foldl (loopCheck isMin) kept := by
  have moved : values.foldl (loopCheck isMin) (loopCheck isMin kept value) =
      loopCheck isMin kept (values.foldl (loopCheck isMin) value) := List.foldl_assoc
  have swap : loopCheck isMin sentinel value = loopCheck isMin value sentinel :=
    Std.Commutative.comm _ _
  rw [foldl_cons, foldl_cons, swap, unchanged, moved]

theorem spread_iff (member : expr ∈ scan.exprs) (spreads : expr.type.spreads)
    (ctx : SQLFunctionCtx Spread) : spreadFunction expr.type (statisticsOf scan expr) ctx =
        spreadFunction expr.type (pieceOf scan expr).block ctx ↔
      ¬ Unread scan expr ctx.aOutputBuf := by
  rw [spreadFunction_piece spreads, values_pieceOf, Unread]
  by_cases unasked : request scan.exprs = blkDataNoNeeded
  · have primary := primary_of_unasked (request_zero unasked member)
    have bare : spreadFunction expr.type (statisticsOf scan expr) ctx =
        ⟨ctx.aOutputBuf, ctx.counts.setVal (valuesOf scan expr).length 1⟩ := by
      rw [statisticsOf, if_pos unasked, primary_values primary]
      rfl
    rw [bare]
    simp only [SQLFunctionCtx.mk.injEq, and_true, unasked, true_and]
    exact eq_comm.trans (foldl_add_fixed _ _)
  · refine iff_of_true ?_ fun unread => unasked unread.1
    have points := notNull_eq scan.block expr
    rw [statisticsOf, if_neg unasked, spreadFunction, valuesOf, <- points]
    dsimp only
    rw [if_pos (by simp), points]
    by_cases empty : kept (cellsOf scan.block expr.colId) = []
    · simp [empty]
    · have asked : ¬ (((kept (cellsOf scan.block expr.colId)).length : Int) = 0 ∨
          ¬ expr.type.spreads = true) := by
        simp [empty, spreads]
      rw [if_neg asked, foldl_add]
      cases told member spreads with
      | missing none nothing => exact absurd nothing empty
      | summed column found summary type values =>
        rw [valuesOf] at values
        rw [fieldOf, found, Option.map_some, type, preAggVals, values]
        rw [values] at empty
        dsimp only
        rw [summary.min, summary.max, lesser, greater]
        obtain ⟨first, rest, kept_eq⟩ := List.exists_cons_of_ne_nil empty
        have inside : some first ∈ column.cells := by
          have member : first ∈ kept column.cells := by rw [kept_eq]; exact List.mem_cons_self
          simpa [kept] using member
        have unchanged := loopCheck_sentinel spreads (type ▸ column.fits first inside)
        rw [kept_eq, foldl_value rest unchanged.1, foldl_value rest unchanged.2]

/-- What a function reads in the statistics that its rows do not say. -/
def Misread (scan : Scan) (expr : SelectExpr) :
    (aggregate : Aggregate) -> aggregate.Buffer -> Prop
  | .count, _ | .sum, _ | .avg, _ => False
  | .min, buffer => TakesZero scan expr true buffer.value
  | .max, buffer => TakesZero scan expr false buffer.value
  | .spread, buffer => Unread scan expr buffer

def olderBlock : Scan where
  block :=
    { size := 1
      columns := [⟨0, .timestamp, [some 3], fun value member => by
        have three : value = 3 := by simpa using member
        subst three
        exact ⟨by norm_num [range, int64Min], by norm_num [range, int64Max], fun _ => ⟨3, rfl⟩⟩⟩]
      lengths := by simp
      timestamps := ⟨_, rfl, by simp⟩ }
  exprs := [⟨.min, 1, .int, rfl⟩]
  typed := by simp

end Luomi.Client.StatisticsReads
