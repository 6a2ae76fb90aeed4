import Luomi.Client.Aggregates

/-!
# `top` and `bottom` (`tscFunctionImpl.c`)

The best rows so far stand in a list that is sorted with the worst of them first.  A row is put in
by shifting the rows behind it, and where the list is full the worst one falls out.  The list is a
partial result, too: it is merged by putting its rows into another list, and there a value is read
from the word it was kept in, by the type of the column.

A value is exact, and the type that is kept with it is left out: it is the one of the column.
-/

namespace Luomi.Client.TopBottom

open Aggregates

structure TValuePair where
  v : ℚ
  timestamp : Int

inductive Kind where
  | top | bottom

def Kind.lt : Kind -> ℚ -> ℚ -> Bool
  | .top, a, b => a < b
  | .bottom, a, b => b < a

/-- The loop from the end of the list; it is given the list backwards, and what was shifted. -/
def shiftUp (lt : ℚ -> ℚ -> Bool) (pair : TValuePair) :
    List TValuePair -> List TValuePair -> List TValuePair
  | [], behind => pair :: behind
  | last :: front, behind =>
    if lt pair.v last.v then shiftUp lt pair front (last :: behind)
    else (last :: front).reverse ++ pair :: behind

/-- The loop from the start of a full list; it is given the list behind the row that falls out. -/
def shiftDown (lt : ℚ -> ℚ -> Bool) (pair : TValuePair) : List TValuePair -> List TValuePair
  | [] => [pair]
  | next :: list => if lt next.v pair.v then next :: shiftDown lt pair list else pair :: next :: list

def replaceFirst (lt : ℚ -> ℚ -> Bool) (pair : TValuePair) : List TValuePair -> List TValuePair
  | [] => []
  | first :: list => if lt first.v pair.v then shiftDown lt pair list else first :: list

/-- `top_add_elem_impl`; a value that is not less than the last one is put behind it. -/
def topAddElemImpl (mx : Nat) (list : List TValuePair) (pair : TValuePair) : List TValuePair :=
  if list.length < mx then
    match list.getLast? with
    | none => list ++ [pair]
    | some last =>
      if last.v ≤ pair.v then list ++ [pair] else shiftUp Kind.top.lt pair list.reverse []
  else replaceFirst Kind.top.lt pair list

def bottomAddElemImpl (mx : Nat) (list : List TValuePair) (pair : TValuePair) : List TValuePair :=
  if list.length < mx then
    match list.getLast? with
    | none => list ++ [pair]
    | some _ => shiftUp Kind.bottom.lt pair list.reverse []
  else replaceFirst Kind.bottom.lt pair list

/-- `top_function_do_add` and `bottom_function_do_add`. -/
def functionDoAdd (type : DataType) (maxLen : Nat) (list : List TValuePair) (pair : TValuePair) :
    Kind -> List TValuePair
  | .top => if type.isNumber then topAddElemImpl maxLen list pair else list
  | .bottom => if type.isNumber then bottomAddElemImpl maxLen list pair else list

section

variable (kind : Kind) (type : DataType) (maxLen : Nat) (block : Block ℚ)

/-- The rows of a block are put in; the other value is the number of elements. -/
def addBlock (list : List TValuePair) : List TValuePair × Int :=
  if block.hasNullValue then
    (block.cells.zip block.ptsList).foldl (fun (list, notNullElems) (cell, timestamp) =>
      match cell with
      | none => (list, notNullElems)
      | some value => (functionDoAdd type maxLen list ⟨value, timestamp⟩ kind, notNullElems + 1))
      (list, 0)
  else
    ((block.cells.zip block.ptsList).foldl (fun list (cell, timestamp) =>
      functionDoAdd type maxLen list ⟨cell.getD 0, timestamp⟩ kind) list, block.size)

/-- `top_function` and `bottom_function`. -/
def topBottomFunction (ctx : SQLFunctionCtx (List TValuePair)) : SQLFunctionCtx (List TValuePair) :=
  let (list, notNullElems) := addBlock kind type maxLen block ctx.aOutputBuf
  ⟨list, ctx.counts.setVal notNullElems list.length⟩

/-- `top_dist_function` and `bottom_dist_function`; the list is one result. -/
def topBottomDistFunction (ctx : SQLFunctionCtx (List TValuePair)) :
    SQLFunctionCtx (List TValuePair) :=
  let (list, notNullElems) := addBlock kind type maxLen block ctx.aOutputBuf
  ⟨list, ctx.counts.setVal notNullElems 1⟩

end

/-- The 53 bits of the mantissa of a `double`, for the odd part of its value and the power of 2
behind it. -/
def significand (numerator : Nat) : Nat :=
  if numerator.log2 ≤ 52 then numerator <<< (52 - numerator.log2)
  else numerator >>> (numerator.log2 - 52)

/-- The lower 4 bytes of a `double`. -/
def lowerHalf (value : ℚ) : Nat := significand value.num.natAbs % 2 ^ 32

/-- The `float` of 4 bytes. -/
def floatOfBits (bits : Nat) : ℚ :=
  let fraction : ℚ := (bits % 2 ^ 23 : Nat)
  let exponent := bits / 2 ^ 23 % 2 ^ 8
  let magnitude : ℚ :=
    if exponent = 0 then fraction / 2 ^ 149 else (2 ^ 23 + fraction) * 2 ^ exponent / 2 ^ 150
  if bits / 2 ^ 31 = 0 then magnitude else -magnitude

/-- The value at `&pInput->res[i].v.i64Key`, read as a cell of the column: the lower bytes of an
integer, or of the `double` that a `float` is kept as. -/
def reread (type : DataType) (v : ℚ) : ℚ :=
  match type with
  | .tinyint => Int.bmod v.floor (2 ^ 8)
  | .smallint => Int.bmod v.floor (2 ^ 16)
  | .int => Int.bmod v.floor (2 ^ 32)
  | .float => floatOfBits (lowerHalf v)
  | _ => v

section

variable (kind : Kind) (type : DataType) (maxLen : Nat)

def addList (input list : List TValuePair) : List TValuePair :=
  input.foldl (fun list pair =>
    functionDoAdd type maxLen list ⟨reread type pair.v, pair.timestamp⟩ kind) list

section

variable (input : List TValuePair) (ctx : SQLFunctionCtx (List TValuePair))

/-- `top_dist_merge` and `bottom_dist_merge`. -/
def topBottomDistMerge : SQLFunctionCtx (List TValuePair) :=
  if input.length ≤ 0 then ctx
  else
    let list := addList kind type maxLen input ctx.aOutputBuf
    ⟨list, { ctx.counts with numOfIteratedElems := list.length }⟩

/-- `top_dist_second_merge` and `bottom_dist_second_merge`; the type of the output is the one of
the column. -/
def topBottomDistSecondMerge : SQLFunctionCtx (List TValuePair) :=
  let list := addList kind type maxLen input ctx.aOutputBuf
  ⟨list, ctx.counts.setVal input.length list.length⟩

end

end

section

variable (left right : TValuePair)

def resAscComparFn : Int :=
  if left.timestamp = right.timestamp then 0 else if right.timestamp < left.timestamp then 1 else -1

def resDescComparFn : Int := -resAscComparFn left right

def resDataAscComparFn : Int :=
  if left.v = right.v then 0 else if right.v < left.v then 1 else -1

def resDataDescComparFn : Int := -resDataAscComparFn left right

end

/-- `param[1]` and `param[2]`, and whether the scan goes backwards. -/
structure OrderBy where
  column : Int
  order : Order
  step : Order

def qsort (comparator : TValuePair -> TValuePair -> Int) (tvp : List TValuePair) : List TValuePair
    :=
  tvp.mergeSort fun left right => comparator left right ≤ 0

/-- `copyTopBotRes`: the column of the values and the one of the timestamps. -/
def copyTopBotRes (step : Order) (tvp : List TValuePair) : List ℚ × List Int :=
  let output := match step with
    | .asc => tvp
    | .desc => tvp.reverse
  (output.map TValuePair.v, output.map TValuePair.timestamp)

def topBottomFunctionFinalizer (maxLen : Nat) (orderBy : OrderBy)
    (ctx : SQLFunctionCtx (List TValuePair)) : List ℚ × List Int :=
  let numOfOutputElems : Int :=
    if ctx.aOutputBuf.length < maxLen then ctx.aOutputBuf.length else ctx.counts.numOfOutputElems
  let tvp := ctx.aOutputBuf.take numOfOutputElems.toNat
  let tvp :=
    if orderBy.column = 0 then
      match orderBy.order with
      | .asc => qsort resAscComparFn tvp
      | .desc => qsort resDescComparFn tvp
    else if 0 < orderBy.column then
      match orderBy.order with
      | .asc => qsort resDataAscComparFn tvp
      | .desc => qsort resDataDescComparFn tvp
    else tvp
  copyTopBotRes orderBy.step tvp

end Luomi.Client.TopBottom
