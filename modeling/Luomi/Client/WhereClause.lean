import Mathlib.Data.Rat.Floor
import Mathlib.Data.String.Basic
import Mathlib.Tactic.Common

/-!
# The translation of a WHERE clause

`buildQueryCond` tears a WHERE expression into three parts: a time range, at
most one lower and one upper bound for each data column, and a text with the
conditions on tags, or else a list of table names.  The walk
(`getQueryCondExprImpl`) visits the comparisons from left to right and writes to
all three as it goes.

Column names are resolved: an operand is `tbname`, a column by its index in the
schema (column 0 is the timestamp, the tags come last) or an unknown name.  The
text is a list of tokens; a comparison with its parentheses is one token.  An
operation that returns an error code, or fails an assertion, is `none`.
-/

namespace Luomi.Client.WhereClause

/-- `TK_LE` and the other comparison operators. -/
inductive Optr where
  | le
  | lt
  | ge
  | gt
  | eq
  | ne
  | like
  | in_
  deriving DecidableEq

/-- `TK_AND` and `TK_OR`. -/
inductive Connective where
  | and
  | or
  deriving DecidableEq

inductive ColumnName where
  | tbname
  | column (colIdx : Nat)
  | unknown
  deriving DecidableEq

/-- A constant; a `timestamp` is a time in microseconds, such as `now`. -/
inductive Variant where
  | integer (i64Key : Int)
  | float (dKey : ℚ)
  | bool (value : Bool)
  | string (pz : String)
  | timestamp (us : Int)

inductive Value where
  | null
  | number (value : ℚ)
  | text (value : String)

/-- `arithmetic` is an expression over the columns of a row. -/
inductive Operand where
  | id (colInfo : ColumnName)
  | value (val : Variant)
  | set (names : List String)
  | arithmetic (result : (Nat -> Value) -> Value)

inductive SQLExpr where
  | connect (optr : Connective) (left right : SQLExpr)
  | compare (optr : Optr) (left right : Operand)

inductive DataType where
  | bool
  | integer
  | real
  | timestamp
  | binary
  | nchar
  deriving DecidableEq

structure SMeterMeta where
  numOfColumns : Nat
  numOfTags : Nat
  type : Nat -> DataType
  milli : Bool
  isMetric : Bool

/-- The conversions of constants that other modules of the client make, and the
pattern matching of the server. -/
structure Conversions where
  parseTime : String -> Option Int
  toInteger : String -> Option Int
  toReal : String -> Option ℚ
  toBool : String -> Option Bool
  toBinary : Variant -> String
  nineDecimals : ℚ -> ℚ
  matches_ : String -> String -> Bool

def INT64_MAX : Int := 2 ^ 63 - 1

def wrap64 (value : Int) : Int := Int.bmod value (2 ^ 64)

/-- `TSDB_RELATION_LESS` and so on. -/
inductive Relation where
  | invalid
  | less
  | large
  | equal
  | lessEqual
  | largeEqual
  | notEqual
  | like
  deriving DecidableEq

structure SColumnBase where
  filterOn : Bool := false
  lowerRelOptr : Relation := .invalid
  upperRelOptr : Relation := .invalid
  lowerBndd : Value := .number 0
  upperBndd : Value := .number 0

def truncate (value : ℚ) : Int :=
  if 0 ≤ value then ⌊value⌋ else ⌈value⌉

def ofBool (value : Bool) : ℚ := if value then 1 else 0

/-- `tVariantDump` to the type a filter's bound is stored in. -/
def dump (conv : Conversions) (type : DataType) (right : Operand) : Option Value :=
  match right with
  | .value val =>
    match type, val with
    | .integer, .integer i | .timestamp, .integer i => some (.number i)
    | .integer, .float q | .timestamp, .float q =>
      if q < -2 ^ 63 ∨ 2 ^ 63 < q then none else some (.number (truncate q))
    | .integer, .bool b | .timestamp, .bool b => some (.number (ofBool b))
    | .integer, .string s | .timestamp, .string s =>
      (conv.toInteger s).map fun i => .number i
    | .integer, .timestamp us | .timestamp, .timestamp us => some (.number us)
    | .real, .integer i => some (.number i)
    | .real, .float q => some (.number q)
    | .real, .bool b => some (.number (ofBool b))
    | .real, .string s => (conv.toReal s).map .number
    | .real, .timestamp us => some (.number us)
    | .bool, .integer i => some (.number (ofBool (i ≠ 0)))
    | .bool, .float q => some (.number (ofBool (q ≠ 0)))
    | .bool, .bool b => some (.number (ofBool b))
    | .bool, .string s => (conv.toBool s).map fun b => .number (ofBool b)
    | .bool, .timestamp us => some (.number (ofBool (us ≠ 0)))
    | .binary, .string s | .nchar, .string s => some (.text s)
    | .binary, val | .nchar, val => some (.text (conv.toBinary val))
  | _ => none

def setColumnFilterInfo (conv : Conversions) (type : DataType) (optr : Optr) (right : Operand)
    (filter : SColumnBase) : SColumnBase :=
  let bound := dump conv type right
  match optr with
  | .le => { filter with
      filterOn := true, upperBndd := bound.getD filter.upperBndd, upperRelOptr := .lessEqual }
  | .lt => { filter with
      filterOn := true, upperBndd := bound.getD filter.upperBndd, upperRelOptr := .less }
  | .gt => { filter with
      filterOn := true, lowerBndd := bound.getD filter.lowerBndd, lowerRelOptr := .large }
  | .ge => { filter with
      filterOn := true, lowerBndd := bound.getD filter.lowerBndd, lowerRelOptr := .largeEqual }
  | .eq => { filter with
      filterOn := true, lowerBndd := bound.getD filter.lowerBndd, lowerRelOptr := .equal }
  | .ne => { filter with
      filterOn := true, lowerBndd := bound.getD filter.lowerBndd, lowerRelOptr := .notEqual }
  | .like => { filter with
      filterOn := true, lowerBndd := bound.getD filter.lowerBndd, lowerRelOptr := .like }
  | .in_ => { filter with
      filterOn := true, lowerBndd := bound.getD filter.lowerBndd }

/-- A comparison is written with its parentheses; `written` is the constant as
its text is read again, `none` if the text is no constant. -/
inductive Token where
  | left
  | right
  | connective (optr : Connective)
  | compare (colInfo : ColumnName) (optr : Optr) (written : Option Variant)
  | table (name : String)

/-- `TSQL_STABLE_QTYPE_COND` and `TSQL_STABLE_QTYPE_SET`. -/
inductive TagCondType where
  | cond
  | set
  deriving DecidableEq

structure SSqlCmd where
  colList : Nat -> SColumnBase := fun _ => {}
  tagCondType : Option TagCondType := none
  queryStr : List Token := []

structure TimeRange where
  stime : Int := 0
  etime : Int := INT64_MAX
  isSet : Bool := false

def SMeterMeta.unit (pMeterMeta : SMeterMeta) : Int :=
  if pMeterMeta.milli then 1000 else 1

/-- The conversion of an integer to microseconds, which is left out when it is
too large. -/
def toMicro (pMeterMeta : SMeterMeta) (value : Int) : Int :=
  if pMeterMeta.milli ∧ value ≤ INT64_MAX / 1000 then wrap64 (value * 1000) else value

/-- The time a constant stands for in `getTimeRange`. -/
def timeOf (conv : Conversions) (pMeterMeta : SMeterMeta) (right : Operand) : Option Int :=
  match right with
  | .value (.integer i) => some (toMicro pMeterMeta i)
  | .value (.float q) =>
    let scaled := q * pMeterMeta.unit
    some (if scaled < -2 ^ 63 ∨ 2 ^ 63 < scaled then 0 else truncate scaled)
  | .value (.string s) =>
    if '-' ∈ s.toList then conv.parseTime s
    else some (toMicro pMeterMeta ((conv.toInteger s).getD 0))
  | .value (.timestamp us) => some us
  | _ => none

def getTimeRange (conv : Conversions) (pMeterMeta : SMeterMeta) (optr : Optr) (right : Operand)
    (range : TimeRange) : Option TimeRange :=
  match timeOf conv pMeterMeta right with
  | none => none
  | some val =>
    let delta := pMeterMeta.unit
    match optr with
    | .le => some { range with etime := val }
    | .lt => some { range with etime := wrap64 (val - delta) }
    | .gt => some { range with stime := wrap64 (val + delta) }
    | .ge => some { range with stime := val }
    | .eq => some { range with stime := val, etime := val }
    | _ => some range

/-- `tVariantToString`, and what its text is read as. -/
def written (conv : Conversions) (right : Operand) : Option Variant :=
  match right with
  | .value (.integer i) => some (.integer i)
  | .value (.float q) => some (.float (conv.nineDecimals q))
  | .value (.bool b) => some (.integer (if b then 1 else 0))
  | .value (.string s) => if '\'' ∈ s.toList then none else some (.string s)
  | _ => none

def TSDB_METER_NAME_LEN : Nat := 64

def TSDB_PATTERN_STRING_MAX_LEN : Nat := 20

def createTableNameList (names : List String) (queryStr : List Token) : Option (List Token) :=
  if names = [] then none
  else if ∀ name ∈ names, 0 < name.length ∧ name.length ≤ TSDB_METER_NAME_LEN then
    some (queryStr ++ names.map .table)
  else none

/-- The length of a constant's text, as `LIKE` checks it. -/
def nLen (right : Operand) : Nat :=
  match right with
  | .value (.string s) => s.length
  | _ => 0

/-- `LIKE` is not allowed on numeric tags. -/
def isNumericTag (pMeterMeta : SMeterMeta) (colInfo : ColumnName) : Bool :=
  match colInfo with
  | .column colIdx => pMeterMeta.type colIdx ≠ .binary ∧ pMeterMeta.type colIdx ≠ .nchar
  | _ => false

section

variable (conv : Conversions) (pMeterMeta : SMeterMeta) (optr : Optr)

def buildTagQueryCondString (colInfo : ColumnName) (right : Operand) (pCmd : SSqlCmd) :
    Option SSqlCmd :=
  match optr, right with
  | .in_, .set names =>
    if pCmd.tagCondType = some .cond then none
    else if colInfo ≠ .tbname then none
    else
      match createTableNameList names pCmd.queryStr with
      | none => none
      | some queryStr => some { pCmd with tagCondType := some .set, queryStr := queryStr }
  | .in_, _ => none
  | _, _ =>
    if pCmd.tagCondType = some .set then none
    else if optr = .like ∧ nLen right > TSDB_PATTERN_STRING_MAX_LEN then none
    else if optr = .like ∧ isNumericTag pMeterMeta colInfo = true then none
    else
      some { pCmd with
        tagCondType := some .cond
        queryStr := pCmd.queryStr ++ [.compare colInfo optr (written conv right)] }

def getColumnFilterInfo (colIdx : Nat) (right : Operand) (pCmd : SSqlCmd) : Option SSqlCmd :=
  let type := pMeterMeta.type colIdx
  if type = .nchar ∨ optr = .in_ then none
  else if type = .binary ∧ optr ≠ .eq ∧ optr ≠ .ne ∧ optr ≠ .like then none
  else if type ≠ .binary ∧ optr = .like then none
  else
    some { pCmd with
      colList := Function.update pCmd.colList colIdx
        (setColumnFilterInfo conv type optr right (pCmd.colList colIdx)) }

/-- The range of a comparison that is not about time stays as it was. -/
def handleExprInQueryCond (left right : Operand) (pCmd : SSqlCmd) : Option (SSqlCmd × TimeRange) :=
  match left with
  | .id (.column colIdx) =>
    if colIdx ≥ pMeterMeta.numOfColumns + pMeterMeta.numOfTags then none
    else if colIdx = 0 then
      (getTimeRange conv pMeterMeta optr right { isSet := true }).map fun range => (pCmd, range)
    else if colIdx ≥ pMeterMeta.numOfColumns then
      if pMeterMeta.isMetric then
        (buildTagQueryCondString conv pMeterMeta optr (.column colIdx) right pCmd).map
          fun pCmd => (pCmd, {})
      else none
    else
      (getColumnFilterInfo conv pMeterMeta optr colIdx right pCmd).map fun pCmd => (pCmd, {})
  | .id .tbname =>
    if pMeterMeta.isMetric then
      (buildTagQueryCondString conv pMeterMeta optr .tbname right pCmd).map
        fun pCmd => (pCmd, {})
    else none
  | _ => none

end

def exchanged (optr : Optr) : Optr :=
  match optr with
  | .le => .ge
  | .lt => .gt
  | .gt => .lt
  | .ge => .le
  | optr => optr

/-- The checks of `isValidExpr` and the exchange that puts the column first. -/
def oriented (optr : Optr) (left right : Operand) : Option (Optr × Operand × Operand) :=
  match left, right with
  | .id _, .id _ => none
  | .value _, .value _ => none
  | .value (.timestamp us), .id colInfo => some (optr, .value (.timestamp us), .id colInfo)
  | .value val, .id colInfo => some (exchanged optr, .id colInfo, .value val)
  | left, right => some (optr, left, right)

def insertLeftParentheses (queryStr : List Token) (p : Nat) : List Token :=
  queryStr.take p ++ .left :: queryStr.drop p

def removeLeftParentheses (queryStr : List Token) (p : Nat) : List Token :=
  queryStr.take p ++ queryStr.drop (p + 1)

def getQueryCondExprImpl (conv : Conversions) (pMeterMeta : SMeterMeta) :
    SQLExpr -> SSqlCmd -> Option (SSqlCmd × TimeRange)
  | .compare optr left right, pCmd =>
    match oriented optr left right with
    | none => none
    | some (optr, left, right) => handleExprInQueryCond conv pMeterMeta optr left right pCmd
  | .connect optr left right, pCmd =>
    let p := pCmd.queryStr.length
    match getQueryCondExprImpl conv pMeterMeta left pCmd with
    | none => none
    | some (pCmd1, range1) =>
      let range : TimeRange := if range1.isSet then range1 else {}
      let queryStr :=
        if pCmd1.queryStr.length = p then pCmd1.queryStr
        else if pCmd1.tagCondType = some .set then pCmd1.queryStr
        else insertLeftParentheses pCmd1.queryStr p ++ [.connective optr]
      let p2 := queryStr.length
      match getQueryCondExprImpl conv pMeterMeta right { pCmd1 with queryStr := queryStr } with
      | none => none
      | some (pCmd2, range2) =>
        if range2.isSet ∧ optr = .or then none
        else
          let range :=
            if range2.isSet then
              { stime := max range2.stime range.stime
                etime := min range2.etime range.etime
                isSet := true }
            else range
          let queryStr :=
            if pCmd2.queryStr.length = p then pCmd2.queryStr
            else if p2 = pCmd2.queryStr.length ∧ p ≠ p2 ∧
                pCmd2.tagCondType = some .cond then
              removeLeftParentheses pCmd2.queryStr.dropLast p
            else if p2 ≠ pCmd2.queryStr.length ∧ p = p2 then pCmd2.queryStr
            else if pCmd2.tagCondType = some .cond then pCmd2.queryStr ++ [.right]
            else pCmd2.queryStr
          some ({ pCmd2 with queryStr := queryStr }, range)

/-- A lower and an upper bound may stand together only as the ends of a range. -/
def validateColumn (filter : SColumnBase) : Bool :=
  if filter.filterOn then
    if (filter.lowerRelOptr = .largeEqual ∨ filter.lowerRelOptr = .large) ∧
        (filter.upperRelOptr = .lessEqual ∨ filter.upperRelOptr = .less) then true
    else filter.lowerRelOptr = .invalid ∨ filter.upperRelOptr = .invalid
  else true

def validateFilterExpr (pMeterMeta : SMeterMeta) (pCmd : SSqlCmd) : Bool :=
  decide (∀ colIdx, colIdx < pMeterMeta.numOfColumns -> validateColumn (pCmd.colList colIdx) = true)

inductive TagCond where
  | absent
  | text (pData : List Token)
  | tables (names : List String)

structure QueryCond where
  stime : Int
  etime : Int
  colList : Nat -> SColumnBase
  tagCond : TagCond

def tableNames (queryStr : List Token) : List String :=
  queryStr.filterMap fun token =>
    match token with
    | .table name => some name
    | _ => none

def buildQueryCond (conv : Conversions) (pMeterMeta : SMeterMeta) (pExpr : SQLExpr) :
    Option QueryCond :=
  match getQueryCondExprImpl conv pMeterMeta pExpr {} with
  | none => none
  | some (pCmd, range) =>
    if validateFilterExpr pMeterMeta pCmd then
      some {
        stime := range.stime
        etime := range.etime
        colList := pCmd.colList
        tagCond :=
          if pCmd.queryStr = [] then .absent
          else if pCmd.tagCondType = some .set then .tables (tableNames pCmd.queryStr)
          else .text pCmd.queryStr }
    else none

end Luomi.Client.WhereClause
