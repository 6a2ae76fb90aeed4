import Luomi.Client.Aggregates
import Mathlib.Data.List.Range
import Mathlib.Tactic.Linarith

/-!
# Arithmetic on columns (`tscSyntaxtreefunction.c`, `tscAst.c`)

An expression of a select list is computed for a block of rows, one operator after the other.
An operator reads its operands row by row and moves along its output; the result of an inner
operator stands in a buffer of its own, which the outer operator reads by row.

A number is exact.  A cell without a number is the NULL of its type.  Memory that has not been
written, and a buffer that is written outside of its bounds, make the result undefined.
-/

namespace Luomi.Client.Arithmetic

open Aggregates

/-- `TSDB_BINARY_OP_ADD` to `TSDB_BINARY_OP_REMAINDER`. -/
inductive BinaryOp where
  | add | subtract | multiply | divide | remainder
  deriving DecidableEq

/-- A cast to `int64_t`. -/
def truncate (x : ℚ) : Int := Int.tdiv x.num x.den

def BinaryOp.apply : BinaryOp -> ℚ -> ℚ -> ℚ
  | .add, left, right => left + right
  | .subtract, left, right => left - right
  | .multiply, left, right => left * right
  | .divide, left, right => left / right
  | .remainder, left, right => left - truncate (left / right) * right

abbrev Cell := Option ℚ

/-- An array of cells, of which `num` are to be read. -/
structure Operand where
  num : Nat
  cells : Nat -> Option Cell

structure Output where
  pos : Int
  written : List (Int × Cell)

def stepOf : Order -> Int
  | .asc => 1
  | .desc => -1

/-- The result at row `i`: both operands are checked at this row, and the numbers are read
from `leftAt` and `rightAt`. -/
def rowCell (optr : BinaryOp) (left right : Operand) (leftAt rightAt i : Nat) : Option Cell :=
  match left.cells i with
  | none => none
  | some none => some none
  | some (some _) =>
    match right.cells i with
    | none => none
    | some none => some none
    | some (some _) =>
      match left.cells leftAt, right.cells rightAt with
      | some (some a), some (some b) => some (some (optr.apply a b))
      | _, _ => none

/-- A NULL is written `i` cells behind the pointer, which does not move. -/
def placeRow (step : Int) (cell : Cell) (i : Nat) (out : Output) : Output :=
  match cell with
  | none => { out with written := (out.pos + i, none) :: out.written }
  | some value => ⟨out.pos + step, (out.pos, some value) :: out.written⟩

def placeRows (step : Int) (row : Nat -> Option Cell) : List Nat -> Output -> Option Output
  | [], out => some out
  | i :: rest, out =>
    match row i with
    | none => none
    | some cell => placeRows step row rest (placeRow step cell i out)

/-- The rows of a loop from `MAX(len1, len2) - 1` down, or from 0 up. -/
def indices (order : Order) (num : Nat) : List Nat :=
  match order with
  | .asc => List.range num
  | .desc => (List.range num).reverse

/-- `ARRAY_LIST_OP` and `ARRAY_LIST_OP_REM`. -/
def arrayListOp (optr : BinaryOp) (order : Order) (left right : Operand) (out : Output) :
    Option Output :=
  if left.num = right.num then
    placeRows (stepOf order) (fun i => rowCell optr left right i i i) (indices order right.num) out
  else if left.num = 1 then
    placeRows (stepOf order) (fun i => rowCell optr left right 0 i i) (indices order right.num) out
  else if right.num = 1 then
    placeRows (stepOf order) (fun i => rowCell optr left right i 0 i) (indices order left.num) out
  else some out

/-- The rows of a loop that counts up, whatever the order. -/
def indicesUp (order : Order) (num : Nat) : List Nat :=
  match order with
  | .asc => List.range num
  | .desc => (List.range num).drop (num - 1)

/-- `calc_fn_i32_i32_add`: with a single number on one side the loop counts up. -/
def calcFnI32I32Add (order : Order) (left right : Operand) (out : Output) : Option Output :=
  if left.num = right.num then
    placeRows (stepOf order) (fun i => rowCell .add left right i i i)
      (indices order right.num) out
  else if left.num = 1 then
    placeRows (stepOf order) (fun i => rowCell .add left right 0 i i)
      (indicesUp order right.num) out
  else if right.num = 1 then
    placeRows (stepOf order) (fun i => rowCell .add left right i 0 i)
      (indicesUp order left.num) out
  else some out

/-- The pairs of types whose addition and multiplication call the function of the other pair,
with the operands exchanged. -/
def exchanged : DataType -> DataType -> Bool
  | .tinyint, .int | .smallint, .tinyint | .smallint, .int => true
  | .bigint, .tinyint | .bigint, .smallint | .bigint, .int => true
  | .float, .tinyint | .float, .smallint | .float, .int | .float, .bigint => true
  | .double, .tinyint | .double, .smallint | .double, .int | .double, .bigint => true
  | .double, .float => true
  | _, _ => false

/-- `calc_fn_i8_i8_add` to `calc_fn_d_d_rem`. -/
def calcFn (optr : BinaryOp) (leftType rightType : DataType) (order : Order)
    (left right : Operand) (out : Output) : Option Output :=
  if (optr = .add ∨ optr = .multiply) ∧ exchanged leftType rightType = true then
    arrayListOp optr order right left out
  else if optr = .add ∧ leftType = .int ∧ rightType = .int then
    calcFnI32I32Add order left right out
  else
    arrayListOp optr order left right out

def tGetBiConsumerFn (leftType rightType : DataType) (optr : BinaryOp) :
    Option (Order -> Operand -> Operand -> Output -> Option Output) :=
  if leftType.isNumber && rightType.isNumber then some (calcFn optr leftType rightType) else none

structure SSchema where
  type : DataType
  colId : Int

structure TVariant where
  nType : DataType
  number : ℚ
  behind : Nat -> Cell

inductive SyntaxNode where
  | expr (pLeft : SyntaxNode) (nSQLBinaryOptr : BinaryOp) (pRight : SyntaxNode)
  | col (pSchema : SSchema)
  | value (pVal : TVariant)

/-- A buffer of `numOfRows` cells, after an operator has written to it. -/
def buffer (numOfRows : Nat) (out : Output) : Option Operand :=
  if ∀ write ∈ out.written, 0 ≤ write.1 ∧ write.1 < numOfRows then
    some ⟨numOfRows, fun i => out.written.lookup (i : Int)⟩
  else none

section Traverse

variable (getSourceDataBlock : Int -> Option (Nat -> Cell)) (order : Order) (numOfRows : Nat)

def calcOperands (optr : BinaryOp) (left right : Option (DataType × Operand)) (out : Output) :
    Option Output :=
  match left, right with
  | some (leftType, left), some (rightType, right) =>
    match tGetBiConsumerFn leftType rightType optr with
    | some fp => fp order left right out
    | none => none
  | _, _ => none

/-- What an operator reads of a child: the buffer of an inner operator holds `double`. -/
def operandOf : SyntaxNode -> Option (DataType × Operand)
  | .expr pLeft optr pRight =>
    ((calcOperands order optr (operandOf pLeft) (operandOf pRight) ⟨0, []⟩).bind
      (buffer numOfRows)).map fun operand => (.double, operand)
  | .col pSchema =>
    (getSourceDataBlock pSchema.colId).map fun cells =>
      (pSchema.type, ⟨numOfRows, fun i => some (cells i)⟩)
  | .value pVal =>
    some (pVal.nType, ⟨1, fun i => if i = 0 then some (some pVal.number) else
      some (pVal.behind i)⟩)

/-- The operator at the root writes to `pOutput`. -/
def tSQLBinaryExprCalcTraverse (pLeft : SyntaxNode) (optr : BinaryOp) (pRight : SyntaxNode)
    (pOutput : Output) : Option Output :=
  calcOperands order optr (operandOf getSourceDataBlock order numOfRows pLeft)
    (operandOf getSourceDataBlock order numOfRows pRight) pOutput

end Traverse

/-- The expression, the columns it needs with their places among the data, and the data of the
columns, which begin with the first row of the block. -/
structure SArithmeticSupport where
  pLeft : SyntaxNode
  optr : BinaryOp
  pRight : SyntaxNode
  pReqColumns : List (Int × Nat)
  offset : Nat
  data : Nat -> Nat -> Cell

def arithmeticCallbackFunction (sas : SArithmeticSupport) (colId : Int) :
    Option (Nat -> Cell) :=
  match sas.pReqColumns.find? fun column => column.1 = colId with
  | some column => if 0 ≤ colId then some fun i => sas.data column.2 (sas.offset + i) else none
  | none => none

/-- Positions of the output count cells; `memory` is what has been written to it. -/
structure SQLFunctionCtx where
  size : Nat
  order : Order
  counts : Counts
  aOutputBuf : Int
  memory : List (Int × Cell)

def arithmeticFunction (sas : SArithmeticSupport) (pCtx : SQLFunctionCtx) :
    Option SQLFunctionCtx :=
  let counts := { pCtx.counts with
    numOfOutputElems := pCtx.counts.numOfOutputElems + pCtx.size }
  (tSQLBinaryExprCalcTraverse (arithmeticCallbackFunction sas) pCtx.order pCtx.size sas.pLeft
      sas.optr sas.pRight ⟨pCtx.aOutputBuf, pCtx.memory⟩).map fun out =>
    { pCtx with
      counts := counts
      memory := out.written
      aOutputBuf := pCtx.aOutputBuf + pCtx.size * stepOf pCtx.order }

def arithmeticFunctionF (sas : SArithmeticSupport) (pCtx : SQLFunctionCtx) (index : Nat) :
    Option SQLFunctionCtx :=
  let counts : Counts := ⟨pCtx.counts.numOfIteratedElems + 1, pCtx.counts.numOfOutputElems + 1⟩
  let sas := { sas with offset := index }
  (tSQLBinaryExprCalcTraverse (arithmeticCallbackFunction sas) pCtx.order 1 sas.pLeft
      sas.optr sas.pRight ⟨pCtx.aOutputBuf, pCtx.memory⟩).map fun out =>
    { pCtx with
      counts := counts
      memory := out.written
      aOutputBuf := pCtx.aOutputBuf + stepOf pCtx.order }

def rowByRow (sas : SArithmeticSupport) : List Nat -> SQLFunctionCtx -> Option SQLFunctionCtx
  | [], pCtx => some pCtx
  | index :: rest, pCtx => (arithmeticFunctionF sas pCtx index).bind (rowByRow sas rest)

def valueOf (column : Int -> Nat -> Cell) : SyntaxNode -> Nat -> Cell
  | .expr pLeft optr pRight, i =>
    match valueOf column pLeft i, valueOf column pRight i with
    | some a, some b => some (optr.apply a b)
    | _, _ => none
  | .col pSchema, i => column pSchema.colId i
  | .value pVal, _ => some pVal.number

def slotOf (order : Order) (base : Int) (num i : Nat) : Int :=
  match order with
  | .asc => base + i
  | .desc => base - (num - 1 - i)

/-- Each row has its value in its own cell, no other cell is written, and the cells are
counted. -/
structure Delivered (value : Nat -> Cell) (pCtx after : SQLFunctionCtx) : Prop where
  counted : after.counts.numOfOutputElems = pCtx.counts.numOfOutputElems + pCtx.size
  aOutputBuf : after.aOutputBuf = pCtx.aOutputBuf + pCtx.size * stepOf pCtx.order
  slots : ∃ writes, after.memory = writes ++ pCtx.memory ∧ ∀ pos,
    pos ∈ writes.map Prod.fst ↔ ∃ i < pCtx.size, pos = slotOf pCtx.order pCtx.aOutputBuf pCtx.size i
  values : ∀ i < pCtx.size, after.memory.lookup
    (slotOf pCtx.order pCtx.aOutputBuf pCtx.size i) = some (value i)

end Luomi.Client.Arithmetic
