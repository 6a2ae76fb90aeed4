import Mathlib.Data.Rat.Defs
import Mathlib.Algebra.Order.Ring.Rat

/-!
# The functions of a query (`tscFunctionImpl.c`)

`count`, `sum`, `avg`, `min`, `max`, `first`, `last` and `spread`: the plain form of each, the
form that runs on a part of the rows and leaves a partial result, and the two merges of partial
results.  A number is exact, of whatever type it is, and a missing value is `none`.

The buffers of a context are typed by what the function keeps in them.  A block has its cells and
their timestamps, or, where it is not loaded, the statistics of its column.
-/

namespace Luomi.Client.Aggregates

/-- `TSDB_DATA_TYPE_BOOL` and the types behind it. -/
inductive DataType where
  | bool | tinyint | smallint | int | bigint | float | double | binary | timestamp | nchar
  deriving DecidableEq

/-- The types from `TSDB_DATA_TYPE_TINYINT` to `TSDB_DATA_TYPE_BIGINT`. -/
def DataType.isInteger : DataType -> Bool
  | .tinyint | .smallint | .int | .bigint => true
  | _ => false

def DataType.isFloating : DataType -> Bool
  | .float | .double => true
  | _ => false

def DataType.isNumber (type : DataType) : Bool := type.isInteger || type.isFloating

inductive Order where
  | asc | desc
  deriving DecidableEq

/-- A word of 64 bits that holds an integer or a `double`. -/
inductive Word where
  | i64Key (value : Int)
  | dKey (value : ℚ)

/-- A word is read as an integer or a `double`, as the type of the column says; the zero word is
zero either way, and no other word is read as what it is not. -/
def Word.read (type : DataType) : Word -> ℚ
  | .i64Key value => if type.isFloating then 0 else value
  | .dKey value => if type.isFloating then value else 0

structure SQLPreAggVal where
  numOfNullPoints : Int
  sum : Word
  min : Word
  max : Word

structure Block (α : Type) where
  size : Nat
  cells : List (Option α)
  ptsList : List Int
  hasNullValue : Bool
  loaded : Bool
  preAggVals : Option SQLPreAggVal

/-- `numOfIteratedElems` and `numOfOutputElems`. -/
structure Counts where
  numOfIteratedElems : Int
  numOfOutputElems : Int
  deriving DecidableEq

def initVal : Counts := ⟨0, 0⟩

def Counts.setVal (counts : Counts) (numOfElem numOfRes : Int) : Counts :=
  if numOfElem ≤ 0 then counts else ⟨counts.numOfIteratedElems + numOfElem, numOfRes⟩

structure SQLFunctionCtx (Buffer : Type) where
  aOutputBuf : Buffer
  counts : Counts
  deriving DecidableEq

/-- `function_finalize`: without an element the result is `NULL`. -/
def functionFinalize {α : Type} (counts : Counts) (value : α) : Option α :=
  if counts.numOfIteratedElems = 0 then none else some value

def notNullElems {α : Type} (cells : List (Option α)) : Int :=
  cells.foldl (fun elems cell => if cell.isNone then elems else elems + 1) 0

def countFunction {α : Type} (block : Block α) (ctx : SQLFunctionCtx Int) : SQLFunctionCtx Int :=
  let numOfElem : Int :=
    if ¬ block.loaded then
      match block.preAggVals with
      | some preAggVals => block.size - preAggVals.numOfNullPoints
      | none => block.size
    else if block.hasNullValue then notNullElems block.cells
    else block.size
  ⟨ctx.aOutputBuf + numOfElem, ctx.counts.setVal numOfElem 1⟩

/-- `count_dist_merge`; it is the second merge, too. -/
def countDistMerge (input : Int) (ctx : SQLFunctionCtx Int) : SQLFunctionCtx Int :=
  ⟨ctx.aOutputBuf + input, ctx.counts.setVal 1 1⟩

structure SSumRuntime where
  output : ℚ
  valFlag : Bool

/-- `LIST_ADD`; there is no missing value. -/
def listAdd (sum : ℚ) (cells : List (Option ℚ)) : ℚ :=
  cells.foldl (fun sum cell => sum + cell.getD 0) sum

def listAddN (sum : ℚ) (cells : List (Option ℚ)) : ℚ :=
  cells.foldl (fun sum cell => match cell with | none => sum | some value => sum + value) sum

section

variable (type : DataType)

def sumBlock (block : Block ℚ) (sum : ℚ) : ℚ × Int :=
  match block.loaded, block.preAggVals with
  | false, some preAggVals =>
    let elems := block.size - preAggVals.numOfNullPoints
    (if 0 < elems ∧ type.isNumber then sum + preAggVals.sum.read type else sum, elems)
  | _, _ =>
    if block.hasNullValue then
      if type.isNumber then (listAddN sum block.cells, notNullElems block.cells) else (sum, 0)
    else (if type.isNumber then listAdd sum block.cells else sum, block.size)

def sumFunction (block : Block ℚ) (ctx : SQLFunctionCtx SSumRuntime) : SQLFunctionCtx SSumRuntime :=
  let (output, elems) := sumBlock type block ctx.aOutputBuf.output
  ⟨{ ctx.aOutputBuf with output := output }, ctx.counts.setVal elems 1⟩

def sumDistInternFunction (block : Block ℚ) (ctx : SQLFunctionCtx SSumRuntime) :
    SQLFunctionCtx SSumRuntime :=
  let ctx := sumFunction type block ctx
  if 0 < ctx.counts.numOfIteratedElems then
    { ctx with aOutputBuf := { ctx.aOutputBuf with valFlag := true } }
  else ctx

def doSumMergeImpl (input : SSumRuntime) (output : ℚ) : ℚ × Int :=
  if ¬ input.valFlag then (output, 0)
  else (if type.isNumber then output + input.output else output, 1)

def sumDistMerge (input : SSumRuntime) (ctx : SQLFunctionCtx SSumRuntime) :
    SQLFunctionCtx SSumRuntime :=
  let (output, elems) := doSumMergeImpl type input ctx.aOutputBuf.output
  let counts := ctx.counts.setVal elems 1
  if 0 < elems then
    ⟨⟨output, true⟩, { counts with numOfIteratedElems := counts.numOfIteratedElems + elems }⟩
  else ⟨{ ctx.aOutputBuf with output := output }, counts⟩

def sumDistSecondMerge (input : SSumRuntime) (ctx : SQLFunctionCtx ℚ) : SQLFunctionCtx ℚ :=
  let (output, elems) := doSumMergeImpl type input ctx.aOutputBuf
  let counts := ctx.counts.setVal elems 1
  if 0 < elems then
    ⟨output, { counts with numOfIteratedElems := counts.numOfIteratedElems + elems }⟩
  else ⟨output, counts⟩

end

structure SAvgRuntime where
  sum : ℚ
  num : Int
  valFlag : Bool

def avgFinalizer (counts : Counts) (sum : ℚ) : Option ℚ :=
  if counts.numOfIteratedElems = 0 then none else some (sum / counts.numOfIteratedElems)

/-- `avg_dist_intern_function`; a column that is not a number is left out. -/
def avgDistInternFunction (type : DataType) (block : Block ℚ) (ctx : SQLFunctionCtx SAvgRuntime) :
    SQLFunctionCtx SAvgRuntime :=
  let (sum, elems) :=
    match block.loaded, block.preAggVals with
    | false, some preAggVals =>
      (if type.isNumber then ctx.aOutputBuf.sum + preAggVals.sum.read type else ctx.aOutputBuf.sum,
        if type.isNumber then block.size - preAggVals.numOfNullPoints else 0)
    | _, _ => sumBlock type block ctx.aOutputBuf.sum
  if 0 < elems then
    ⟨⟨sum, ctx.aOutputBuf.num + elems, true⟩, ctx.counts.setVal elems 1⟩
  else ⟨{ ctx.aOutputBuf with sum := sum }, ctx.counts⟩

def avgDistMerge (input : SAvgRuntime) (ctx : SQLFunctionCtx SAvgRuntime) :
    SQLFunctionCtx SAvgRuntime :=
  let dest : SAvgRuntime :=
    if ¬ input.valFlag then ctx.aOutputBuf
    else ⟨ctx.aOutputBuf.sum + input.sum, ctx.aOutputBuf.num + input.num, true⟩
  ⟨dest, { ctx.counts with numOfIteratedElems := dest.num }⟩

def avgDistSecondMerge (input : SAvgRuntime) (ctx : SQLFunctionCtx ℚ) : SQLFunctionCtx ℚ :=
  if ¬ input.valFlag then ctx
  else ⟨ctx.aOutputBuf + input.sum,
    { ctx.counts with numOfIteratedElems := ctx.counts.numOfIteratedElems + input.num }⟩

structure SMinMaxRuntime where
  value : ℚ
  valFlag : Bool
  deriving DecidableEq

def fltMax : ℚ := (2 - 1 / 2 ^ 23) * 2 ^ 127

def dblMax : ℚ := (2 - 1 / 2 ^ 52) * 2 ^ 1023

def fltMin : ℚ := 1 / 2 ^ 126

def dblMin : ℚ := 1 / 2 ^ 1022

/-- `min_function_setup` and `max_function_setup`; the least `float` of `max` is `-FLT_MIN`. -/
def minMaxSetup (isMin : Bool) : DataType -> ℚ
  | .int => if isMin then 2 ^ 31 - 1 else -2 ^ 31
  | .float => if isMin then fltMax else -fltMin
  | .double => if isMin then dblMax else -dblMin
  | .bigint => if isMin then 2 ^ 63 - 1 else -2 ^ 63
  | .smallint => if isMin then 2 ^ 15 - 1 else -2 ^ 15
  | .tinyint => if isMin then 2 ^ 7 - 1 else -2 ^ 7
  | _ => 0

/-- `(((v) < (d)) ^ (sign)) ? (d) : (v)`. -/
def loopCheck (isMin : Bool) (v d : ℚ) : ℚ := if xor (v < d) isMin then d else v

section

variable (type : DataType) (isMin : Bool)

/-- `minMax_function`: the value and the number of elements after a block. -/
def minMaxFunction (block : Block ℚ) (output : ℚ) : ℚ × Int :=
  match block.loaded, block.preAggVals with
  | false, some preAggVals =>
    let tval := if isMin then preAggVals.min else preAggVals.max
    (if type.isNumber then loopCheck isMin output (tval.read type) else output,
      block.size - preAggVals.numOfNullPoints)
  | _, _ =>
    if block.hasNullValue then
      if type.isNumber then
        (block.cells.foldl (fun v cell => match cell with
          | none => v | some d => loopCheck isMin v d) output, notNullElems block.cells)
      else (output, 0)
    else
      (if type.isNumber then
        block.cells.foldl (fun v cell => loopCheck isMin v (cell.getD 0)) output
      else output, block.size)

/-- `min_function` and `max_function`. -/
def minMaxPlain (block : Block ℚ) (ctx : SQLFunctionCtx SMinMaxRuntime) :
    SQLFunctionCtx SMinMaxRuntime :=
  let (value, elems) := minMaxFunction type isMin block ctx.aOutputBuf.value
  ⟨{ ctx.aOutputBuf with value := value }, ctx.counts.setVal elems 1⟩

/-- `min_dist_intern_function` and `max_dist_intern_function`. -/
def minMaxDistInternFunction (block : Block ℚ) (ctx : SQLFunctionCtx SMinMaxRuntime) :
    SQLFunctionCtx SMinMaxRuntime :=
  let (value, elems) := minMaxFunction type isMin block ctx.aOutputBuf.value
  ⟨⟨value, ctx.aOutputBuf.valFlag || 0 < elems⟩, ctx.counts.setVal elems 1⟩

/-- `minmax_dist_merge_impl`, for one partial result. -/
def minmaxDistMergeImpl (input : SMinMaxRuntime) (output : ℚ) : ℚ × Int :=
  if ¬ input.valFlag then (output, 0)
  else (if type.isNumber then loopCheck isMin output input.value else output, 1)

/-- `min_dist_merge` and `max_dist_merge`. -/
def minMaxDistMerge (input : SMinMaxRuntime) (ctx : SQLFunctionCtx SMinMaxRuntime) :
    SQLFunctionCtx SMinMaxRuntime :=
  let (value, elems) := minmaxDistMergeImpl type isMin input ctx.aOutputBuf.value
  let counts := ctx.counts.setVal elems 1
  if 0 < elems then
    ⟨⟨value, true⟩, { counts with numOfIteratedElems := counts.numOfIteratedElems + elems }⟩
  else ⟨{ ctx.aOutputBuf with value := value }, counts⟩

/-- `min_dist_second_merge` and `max_dist_second_merge`. -/
def minMaxDistSecondMerge (input : SMinMaxRuntime) (ctx : SQLFunctionCtx ℚ) : SQLFunctionCtx ℚ :=
  let (value, elems) := minmaxDistMergeImpl type isMin input ctx.aOutputBuf
  let counts := ctx.counts.setVal elems 1
  if 0 < elems then
    ⟨value, { counts with numOfIteratedElems := counts.numOfIteratedElems + elems }⟩
  else ⟨value, counts⟩

end

structure SFirstLastRuntime (α : Type) where
  key : Int
  valFlag : Bool
  value : Option α

def firstNotNull {α : Type} : List (Option α) -> Option (Nat × α)
  | [] => none
  | some value :: _ => some (0, value)
  | none :: cells => (firstNotNull cells).map fun (i, value) => (i + 1, value)

def lastNotNull {α : Type} (cells : List (Option α)) : Option (Nat × α) :=
  (firstNotNull cells.reverse).map fun (i, value) => (cells.length - 1 - i, value)

section FirstLast

variable {α : Type}

section

variable (order : Order) (block : Block α) (ctx : SQLFunctionCtx (Option α))

/-- `first_function`; what it returns is whether the scan goes on. -/
def firstFunction : Bool × SQLFunctionCtx (Option α) :=
  if ¬ block.loaded ∨ order = .desc then (true, ctx)
  else if block.hasNullValue then
    match firstNotNull block.cells with
    | none => (true, ctx)
    | some (_, value) => (false, ⟨some value, ctx.counts.setVal 1 1⟩)
  else (block.size ≤ 0, ⟨(block.cells.head?).join, ctx.counts.setVal block.size 1⟩)

def lastFunction : Bool × SQLFunctionCtx (Option α) :=
  if ¬ block.loaded ∨ order = .asc then (true, ctx)
  else if block.hasNullValue then
    match lastNotNull block.cells with
    | none => (true, ctx)
    | some (_, value) => (false, ⟨some value, ctx.counts.setVal 1 1⟩)
  else (block.size ≤ 0, ⟨(block.cells.getLast?).join, ctx.counts.setVal block.size 1⟩)

end

/-- `first_data_assign_impl` and `last_data_assign_impl`: a key is compared with the one that is
there. -/
def dataAssignImpl (before : Int -> Int -> Bool) (ptsList : List Int) (value : Option α)
    (index : Nat) (out : SFirstLastRuntime α) : SFirstLastRuntime α :=
  let timestamp := ptsList.getD index 0
  if ¬ out.valFlag ∨ before timestamp out.key then ⟨timestamp, true, value⟩ else out

/-- The timestamp of `first` is before, the one of `last` is behind. -/
def isEarlier (timestamp key : Int) : Bool := timestamp < key

def isLater (timestamp key : Int) : Bool := key < timestamp

section

variable (order : Order) (block : Block α) (ctx : SQLFunctionCtx (SFirstLastRuntime α))

def firstDistFunction : SQLFunctionCtx (SFirstLastRuntime α) :=
  if block.size = 0 then ctx
  else if ¬ block.loaded ∨ order = .desc then ctx
  else if block.hasNullValue then
    match firstNotNull block.cells with
    | none => ctx
    | some (i, value) =>
      ⟨dataAssignImpl isEarlier block.ptsList (some value) i ctx.aOutputBuf, ctx.counts.setVal 1 1⟩
  else
    ⟨dataAssignImpl isEarlier block.ptsList (block.cells.head?).join 0 ctx.aOutputBuf,
      ctx.counts.setVal block.size 1⟩

def lastDistFunction : SQLFunctionCtx (SFirstLastRuntime α) :=
  if block.size = 0 then ctx
  else if ¬ block.loaded ∨ order = .asc then ctx
  else if block.hasNullValue then
    match lastNotNull block.cells with
    | none => ctx
    | some (i, value) =>
      ⟨dataAssignImpl isLater block.ptsList (some value) i ctx.aOutputBuf, ctx.counts.setVal 1 1⟩
  else
    ⟨dataAssignImpl isLater block.ptsList (block.cells.getLast?).join (block.size - 1)
      ctx.aOutputBuf, ctx.counts.setVal block.size 1⟩

end

/-- `first_dist_merge` and `last_dist_merge`. -/
def firstLastDistMerge (before : Int -> Int -> Bool) (input : SFirstLastRuntime α)
    (ctx : SQLFunctionCtx (SFirstLastRuntime α)) : SQLFunctionCtx (SFirstLastRuntime α) :=
  if ¬ input.valFlag then ctx
  else
    ⟨if ¬ ctx.aOutputBuf.valFlag ∨ before input.key ctx.aOutputBuf.key then input
      else ctx.aOutputBuf,
      { ctx.counts with numOfIteratedElems := ctx.counts.numOfIteratedElems + 1 }⟩

/-- The value, and the key in `intermediateBuf[0]`. -/
structure SSecondRuntime (α : Type) where
  i64Key : Int
  value : Option α

/-- `first_dist_second_merge` and `last_dist_second_merge`: a key of 0 stands for none. -/
def firstLastDistSecondMerge (before : Int -> Int -> Bool) (input : SFirstLastRuntime α)
    (ctx : SQLFunctionCtx (SSecondRuntime α)) : SQLFunctionCtx (SSecondRuntime α) :=
  if ¬ input.valFlag then ctx
  else
    ⟨if ctx.aOutputBuf.i64Key = 0 ∨ before input.key ctx.aOutputBuf.i64Key then
        ⟨input.key, input.value⟩
      else ctx.aOutputBuf, ctx.counts.setVal 1 1⟩

end FirstLast

/-- `SSpreadRuntime`; `endVal` is its `end`. -/
structure SSpreadRuntime where
  start : ℚ
  endVal : ℚ
  valid : Bool

/-- `intermediateBuf[0]` and `intermediateBuf[3]`. -/
structure Spread where
  least : ℚ
  most : ℚ

/-- `spread_function_setup`. -/
def spreadSetup : Spread := ⟨dblMax, -dblMax⟩

/-- A turn of `LIST_MINMAX`. -/
def Spread.add (spread : Spread) (value : ℚ) : Spread :=
  let spread := if value < spread.least then { spread with least := value } else spread
  if spread.most < value then { spread with most := value } else spread

def DataType.spreads (type : DataType) : Bool := type.isNumber || type = .timestamp

def spreadFunction (type : DataType) (block : Block ℚ) (ctx : SQLFunctionCtx Spread) :
    SQLFunctionCtx Spread :=
  let (spread, elems) : Spread × Int :=
    if ¬ block.loaded then
      match block.preAggVals with
      | none => (ctx.aOutputBuf, block.size)
      | some preAggVals =>
        let elems := block.size - preAggVals.numOfNullPoints
        if elems = 0 ∨ ¬ type.spreads then (ctx.aOutputBuf, elems)
        else
          (⟨if preAggVals.min.read type < ctx.aOutputBuf.least then preAggVals.min.read type
              else ctx.aOutputBuf.least,
            if ctx.aOutputBuf.most < preAggVals.max.read type then preAggVals.max.read type
              else ctx.aOutputBuf.most⟩, elems)
    else if block.hasNullValue then
      if type.spreads then
        (block.cells.foldl (fun spread cell => match cell with
          | none => spread | some value => spread.add value) ctx.aOutputBuf,
          notNullElems block.cells)
      else (ctx.aOutputBuf, 0)
    else
      (if type.spreads then
        block.cells.foldl (fun spread cell => spread.add (cell.getD 0)) ctx.aOutputBuf
      else ctx.aOutputBuf, block.size)
  ⟨spread, ctx.counts.setVal elems 1⟩

def spreadFunctionFinalize (counts : Counts) (spread : Spread) : Option ℚ :=
  if counts.numOfIteratedElems ≤ 0 then none else some (spread.most - spread.least)

/-- `spread_dist_function_setup`, where a partial result is left. -/
def spreadDistSetup : SSpreadRuntime := ⟨dblMax, -dblMax, false⟩

def spreadDistInternFunction (type : DataType) (block : Block ℚ)
    (ctx : SQLFunctionCtx SSpreadRuntime) : SQLFunctionCtx SSpreadRuntime :=
  let spread := spreadFunction type block
    ⟨⟨ctx.aOutputBuf.start, ctx.aOutputBuf.endVal⟩, ctx.counts⟩
  if spread.counts.numOfIteratedElems ≠ 0 then
    ⟨⟨spread.aOutputBuf.least, spread.aOutputBuf.most, true⟩, spread.counts⟩
  else ⟨ctx.aOutputBuf, spread.counts⟩

def spreadDistMerge (input : SSpreadRuntime) (ctx : SQLFunctionCtx SSpreadRuntime) :
    SQLFunctionCtx SSpreadRuntime :=
  if ¬ input.valid then ctx
  else
    ⟨⟨if input.start < ctx.aOutputBuf.start then input.start else ctx.aOutputBuf.start,
      if ctx.aOutputBuf.endVal < input.endVal then input.endVal else ctx.aOutputBuf.endVal, true⟩,
      { ctx.counts with numOfIteratedElems := ctx.counts.numOfIteratedElems + 1 }⟩

def spreadDistSecondMerge (input : SSpreadRuntime) (ctx : SQLFunctionCtx Spread) :
    SQLFunctionCtx Spread :=
  if ¬ input.valid then ctx
  else
    ⟨⟨if input.start < ctx.aOutputBuf.least then input.start else ctx.aOutputBuf.least,
      if ctx.aOutputBuf.most < input.endVal then input.endVal else ctx.aOutputBuf.most⟩,
      { ctx.counts with numOfIteratedElems := ctx.counts.numOfIteratedElems + 1 }⟩

end Luomi.Client.Aggregates
