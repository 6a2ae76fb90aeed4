import Luomi.Client.Aggregates

/-!
# The statistics of a block

The commit leaves the sum, the least and the greatest value and the number of missing ones of
every column in the block (`tscFunctionImpl.c`).  A query that has the whole block in its range
hands these to the functions in place of the rows, as far as a function asks for them
(`vnodeQueryImpl.c`).

A value of a column of integers is a whole number.  Of a text only whether it is missing is kept.
-/

namespace Luomi.Client.Statistics

open Aggregates

/-- `SField`, as far as it is handed to a function. -/
structure SField where
  numOfNullPoints : Int
  sum : Word
  min : Word
  max : Word

/-- What the loops of `getStatics_*` keep. -/
structure Statics where
  sum : ℚ
  min : ℚ
  max : ℚ
  numOfNull : Int

def Statics.step (statics : Statics) : Option ℚ -> Statics
  | none => { statics with numOfNull := statics.numOfNull + 1 }
  | some data =>
    { statics with
      sum := statics.sum + data
      min := if data < statics.min then data else statics.min
      max := if statics.max < data then data else statics.max }

def getStatics (least most : ℚ) (cells : List (Option ℚ)) : Statics :=
  cells.foldl Statics.step ⟨0, most, least, 0⟩

def int64Min : ℚ := -2 ^ 63

def int64Max : ℚ := 2 ^ 63 - 1

section

variable (cells : List (Option ℚ))

def getStaticsI8 : Statics := getStatics int64Min int64Max cells

def getStaticsI16 : Statics := getStatics int64Min int64Max cells

def getStaticsI32 : Statics := getStatics int64Min int64Max cells

def getStaticsI64 : Statics := getStatics int64Min int64Max cells

def getStaticsF : Statics := getStatics (-dblMax) dblMax cells

def getStaticsD : Statics := getStatics (-dblMax) dblMax cells

end

def Statics.field (word : ℚ -> Word) (statics : Statics) : SField :=
  ⟨statics.numOfNull, word statics.sum, word statics.min, word statics.max⟩

def integerWord (value : ℚ) : Word := .i64Key value.floor

def getStatistics (type : DataType) (cells : List (Option ℚ)) : SField :=
  match type with
  | .binary | .nchar =>
    ⟨cells.foldl (fun numOfNull cell => if cell.isNone then numOfNull + 1 else numOfNull) 0,
      .i64Key 0, .i64Key 0, .i64Key 0⟩
  | .tinyint | .bool => (getStaticsI8 cells).field integerWord
  | .smallint => (getStaticsI16 cells).field integerWord
  | .int => (getStaticsI32 cells).field integerWord
  | .bigint | .timestamp => (getStaticsI64 cells).field integerWord
  | .double => (getStaticsD cells).field .dKey
  | .float => (getStaticsF cells).field .dKey

def range : DataType -> ℚ × ℚ
  | .bool | .tinyint => (-2 ^ 7, 2 ^ 7 - 1)
  | .smallint => (-2 ^ 15, 2 ^ 15 - 1)
  | .int => (-2 ^ 31, 2 ^ 31 - 1)
  | .bigint | .timestamp => (int64Min, int64Max)
  | .float => (-fltMax, fltMax)
  | .double => (-dblMax, dblMax)
  | .binary | .nchar => (0, 0)

structure Fits (type : DataType) (value : ℚ) : Prop where
  least : (range type).1 ≤ value
  most : value ≤ (range type).2
  whole : type.isFloating = false -> ∃ number : Int, value = number

structure Column where
  colId : Int
  type : DataType
  cells : List (Option ℚ)
  fits : ∀ value, some value ∈ cells -> Fits type value

def primaryKeyTimestampColIndex : Int := 0

structure FileBlock where
  size : Nat
  columns : List Column
  lengths : ∀ column ∈ columns, column.cells.length = size
  timestamps : ∃ column,
    columns.find? (fun column => column.colId = primaryKeyTimestampColIndex) = some column ∧
      ∀ cell ∈ column.cells, cell.isSome

inductive Aggregate where
  | count | sum | avg | min | max | spread

abbrev Aggregate.Buffer : Aggregate -> Type
  | .count => Int
  | .sum | .avg => SSumRuntime
  | .min | .max => SMinMaxRuntime
  | .spread => Spread

/-- `xFunction` of `aAggs`. -/
def Aggregate.xFunction (type : DataType) (block : Block ℚ) :
    (aggregate : Aggregate) -> SQLFunctionCtx aggregate.Buffer -> SQLFunctionCtx aggregate.Buffer
  | .count => countFunction block
  | .sum | .avg => sumFunction type block
  | .min => minMaxPlain type true block
  | .max => minMaxPlain type false block
  | .spread => spreadFunction type block

/-- The types of a column that the parser lets a function have. -/
def Aggregate.admits (type : DataType) : Aggregate -> Bool
  | .count => true
  | .sum | .avg | .min | .max => type.isNumber
  | .spread => type.spreads

/-- `BLK_DATA_NO_NEEDED` and `BLK_DATA_FILEDS_NEEDED`. -/
def blkDataNoNeeded : Nat := 0

def blkDataFiledsNeeded : Nat := 1

def countLoadDataInfo (colId : Int) : Nat :=
  if colId = primaryKeyTimestampColIndex then blkDataNoNeeded else blkDataFiledsNeeded

def precalReqLoadInfo (_colId : Int) : Nat := blkDataFiledsNeeded

/-- `dataReqFunc` of `aAggs`. -/
def Aggregate.dataReqFunc : Aggregate -> Int -> Nat
  | .count | .spread => countLoadDataInfo
  | .sum | .avg | .min | .max => precalReqLoadInfo

/-- `pSelectExpr`: a function and the column it is about. -/
structure SelectExpr where
  function : Aggregate
  colId : Int
  type : DataType
  admitted : function.admits type

/-- A query and a block that is in its range as a whole; a column has one type. -/
structure Scan where
  block : FileBlock
  exprs : List SelectExpr
  typed : ∀ expr ∈ exprs, ∀ column ∈ block.columns, column.colId = expr.colId ->
    column.type = expr.type

/-- `LoadDatablockOnDemand`, for a block that is in the range as a whole. -/
def request (exprs : List SelectExpr) : Nat :=
  exprs.foldl (fun req expr => req ||| expr.function.dataReqFunc expr.colId) 0

def getFieldInfo (block : FileBlock) (colId : Int) : Option Column :=
  block.columns.find? fun column => column.colId = colId

def hasNullVal : Option SField -> Bool
  | some pField => pField.numOfNullPoints ≠ 0
  | none => true

/-- `preAggVals`; a column that the block does not have is handed over by `dummyField`. -/
def preAggVals (size : Nat) : Option SField -> SQLPreAggVal
  | some pField => ⟨pField.numOfNullPoints, pField.sum, pField.min, pField.max⟩
  | none => ⟨size, .i64Key 0, .i64Key 0, .i64Key 0⟩

def fieldOf (block : FileBlock) (expr : SelectExpr) : Option SField :=
  (getFieldInfo block expr.colId).map fun column => getStatistics column.type column.cells

/-- What `setExecParams` sets where the data of the block are not loaded. -/
def statisticsOf (scan : Scan) (expr : SelectExpr) : Block ℚ :=
  if request scan.exprs = blkDataNoNeeded then ⟨scan.block.size, [], [], false, false, none⟩
  else
    ⟨scan.block.size, [], [], hasNullVal (fieldOf scan.block expr), false,
      some (preAggVals scan.block.size (fieldOf scan.block expr))⟩

/-- The cells that are read; a column that the block does not have is filled with `NULL`. -/
def cellsOf (block : FileBlock) (colId : Int) : List (Option ℚ) :=
  match getFieldInfo block colId with
  | some column => column.cells
  | none => List.replicate block.size none

/-- What `setExecParams` sets where they are loaded. -/
def loadedOf (scan : Scan) (expr : SelectExpr) : Block ℚ :=
  ⟨scan.block.size, cellsOf scan.block expr.colId, [], hasNullVal (fieldOf scan.block expr), true,
    some (preAggVals scan.block.size (fieldOf scan.block expr))⟩

/-- The buffer of `min` and `max` is as wide as a cell of the column. -/
def Aggregate.Held (type : DataType) : (aggregate : Aggregate) -> aggregate.Buffer -> Prop
  | .min, buffer | .max, buffer => Fits type buffer.value
  | .count, _ | .sum, _ | .avg, _ | .spread, _ => True

structure Before (expr : SelectExpr) where
  ctx : SQLFunctionCtx expr.function.Buffer
  held : expr.function.Held expr.type ctx.aOutputBuf

end Luomi.Client.Statistics
