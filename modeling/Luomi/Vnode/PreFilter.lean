import Luomi.Client.Statistics
import Luomi.Client.TopBottom

/-!
# The pre-filter of a block

Before a block of the file is loaded, its statistics are given to the filters of the query
(`vnodeFilterFunc.c`): a filter says whether a value between the least and the greatest one can
pass.  `top` and `bottom` look whether a value can still come into their list.  A block that has
nothing to give is left out (`vnodeQueryImpl.c`).

The functions on texts are given; they are not asked about a block.
-/

namespace Luomi.Vnode.PreFilter

open Client.Aggregates Client.Statistics Client.TopBottom

/-- `TSDB_RELATION_INVALID` and those behind it. -/
inductive Relation where
  | invalid | less | large | equal | lessEqual | largeEqual | notEqual | like
  deriving DecidableEq

/-- `SColumnFilter` of a column of numbers; `colIdx` is where the column stands in the meter. -/
structure SColumnFilter where
  colId : Int
  colIdx : Int
  type : DataType
  lowerRelOptr : Relation
  upperRelOptr : Relation
  lowerBnd : ℚ
  upperBnd : ℚ

def fltEpsilon : ℚ := 1 / 2 ^ 23

/-- The 8 bytes of a `double`, as an integer. -/
def doubleBits (value : ℚ) : Int :=
  let numerator := value.num.natAbs
  let exponent : Int := numerator.log2 - value.den.log2
  let magnitude : Int :=
    if numerator = 0 then 0
    else if -1022 ≤ exponent then (exponent + 1023) * 2 ^ 52 + (significand numerator - 2 ^ 52)
    else (numerator * 2 ^ 1074 / value.den : Nat)
  if value < 0 then magnitude - 2 ^ 63 else magnitude

section

variable (pFilter : SColumnFilter)

/-- `lowerBndi`: the bound of a `double` has its memory in common with this one. -/
def SColumnFilter.lowerBndi : ℚ :=
  if pFilter.type.isFloating then doubleBits pFilter.lowerBnd else pFilter.lowerBnd

section

variable (minval maxval : ℚ)

/-- `equal_i8` and those for the other integers; an assertion that fails gives nothing. -/
def equalI : Option Bool :=
  if minval = maxval then some (minval = pFilter.lowerBnd)
  else if minval < maxval then some (minval ≤ pFilter.lowerBnd ∧ pFilter.lowerBnd ≤ maxval)
  else none

def equalDs : Option Bool :=
  if minval = maxval then some (|minval - pFilter.lowerBnd| ≤ fltEpsilon)
  else if minval < maxval then some (minval ≤ pFilter.lowerBnd ∧ pFilter.lowerBnd ≤ maxval)
  else none

/-- `equal_dd`: a range is compared with `lowerBndi`. -/
def equalDd : Option Bool :=
  if minval = maxval then some (minval = pFilter.lowerBnd)
  else if minval < maxval then some (minval ≤ pFilter.lowerBndi ∧ pFilter.lowerBndi ≤ maxval)
  else none

/-- The arrays `filterFunc_*`; some of their functions are not there. -/
def filterFunc : Relation -> Option Bool
  | .less => some (minval < pFilter.upperBnd)
  | .large => some (pFilter.lowerBnd < maxval)
  | .equal =>
    match pFilter.type with
    | .float => equalDs pFilter minval maxval
    | .double => equalDd pFilter minval maxval
    | _ => equalI pFilter minval maxval
  | .lessEqual => some (minval ≤ pFilter.upperBnd)
  | .largeEqual => some (pFilter.lowerBnd ≤ maxval)
  | .notEqual => if minval = maxval then some (minval ≠ pFilter.lowerBnd) else some true
  | .invalid | .like => none

/-- The function that `vnodeCreateFilterInfo` sets; a range of its own has the arrays
`rangeFilterFunc_*`. -/
def fp : Option Bool :=
  match pFilter.lowerRelOptr, pFilter.upperRelOptr with
  | .large, .less => some (minval < pFilter.upperBnd ∧ pFilter.lowerBnd < maxval)
  | .largeEqual, .less => some (minval < pFilter.upperBnd ∧ pFilter.lowerBnd ≤ maxval)
  | .large, .lessEqual => some (minval ≤ pFilter.upperBnd ∧ pFilter.lowerBnd < maxval)
  | .largeEqual, .lessEqual => some (minval ≤ pFilter.upperBnd ∧ pFilter.lowerBnd ≤ maxval)
  | .invalid, upper => filterFunc pFilter minval maxval upper
  | lower, .invalid => filterFunc pFilter minval maxval lower
  -- the query is turned down
  | _, _ => none

end

end

/-- A function of the query; `top` and `bottom` have a list of results. -/
inductive Function where
  | topBottom (kind : Kind) (maxLen : Nat) (list : List TValuePair)
  | ts
  | other

structure Output where
  function : Function
  colId : Int
  type : DataType

/-- A query; a filter on a text says which rows of the block it lets pass. -/
structure Query where
  filters : List SColumnFilter
  texts : List (Nat -> Bool)
  outputs : List Output

structure Block extends FileBlock where
  once : columns.Pairwise fun column other => column.colId ≠ other.colId
  behind : Nat -> Int × SField

/-- `pField[index]`. -/
def Block.pField (block : Block) (index : Nat) : Int × SField :=
  match block.columns[index]? with
  | some column => (column.colId, getStatistics column.type column.cells)
  | none => block.behind index

/-- A record of 8 bytes, read as a value of the type; for a `float` the `double` is converted. -/
def readField (type : DataType) (word : Word) : ℚ :=
  match type with
  | .float | .double => word.read type
  | _ => reread type (word.read type)

/-- The loop over the filters; `some true` goes on. -/
def checkFilters (block : Block) : List SColumnFilter -> Option Bool
  | [] => some true
  | pFilter :: filters =>
    if pFilter.colIdx < 0 ∨ (block.pField pFilter.colIdx.toNat).1 ≠ pFilter.colId then
      checkFilters block filters
    else
      let pField := (block.pField pFilter.colIdx.toNat).2
      match fp pFilter (readField pFilter.type pField.min) (readField pFilter.type pField.max) with
      | some true => checkFilters block filters
      | some false => some false
      | none => none

/-- A record, as `top_bot_datablock_filter` reads it: the lower bytes of what is there. -/
def readLower (type : DataType) (word : Word) : ℚ := reread type (word.read type)

def topBotDatablockFilter (kind : Kind) (maxLen : Nat) (list : List TValuePair) (type : DataType)
    (pField : SField) : Bool :=
  if list.length < maxLen then true
  else
    match list with
    | [] => true
    | first :: _ =>
      if type.isNumber then
        match kind with
        | .top => first.v < readLower type pField.max
        | .bottom => readLower type pField.min < first.v
      else true

/-- The loop over the functions, from the one at `index` on. -/
def checkOutputs (block : Block) : Nat -> List Output -> Bool
  | _, [] => true
  | index, output :: outputs =>
    match output.function with
    | .topBottom kind maxLen list =>
      topBotDatablockFilter kind maxLen list output.type (block.pField index).2
    | .ts | .other => checkOutputs block (index + 1) outputs

def needToLoadDataBlock (query : Query) (block : Block) : Option Bool :=
  match checkFilters block query.filters with
  | some true => some (checkOutputs block 0 query.outputs)
  | some false => some false
  | none => none

def cellAt (block : Block) (colId : Int) (row : Nat) : Option ℚ :=
  ((cellsOf block.toFileBlock colId)[row]?).join

def vnodeDoFilterData (query : Query) (block : Block) (row : Nat) : Bool :=
  (query.filters.all fun pFilter =>
    match cellAt block pFilter.colId row with
    | none => false
    | some value => fp pFilter value value = some true) && query.texts.all fun passes => passes row

def passing (query : Query) (block : Block) : List Nat :=
  (List.range block.size).filter (vnodeDoFilterData query block)

def addRow (block : Block) (output : Output) (kind : Kind) (maxLen : Nat) (list : List TValuePair)
    (row : Nat) : List TValuePair :=
  match cellAt block output.colId row with
  | none => list
  | some value =>
    functionDoAdd output.type maxLen list
      ⟨value, ((cellAt block primaryKeyTimestampColIndex row).getD 0).floor⟩ kind

def Unchanged (query : Query) (block : Block) (output : Output) : Prop :=
  match output.function with
  | .topBottom kind maxLen list =>
    (passing query block).foldl (addRow block output kind maxLen) list = list
  | .ts => True
  | .other => passing query block = []

def SafelySkipped (query : Query) (block : Block) : Prop :=
  needToLoadDataBlock query block = some false -> ∀ output ∈ query.outputs,
    Unchanged query block output

end Luomi.Vnode.PreFilter
