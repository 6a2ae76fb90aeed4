import Luomi.Client.QueryMessage

/-!
# The query message in the vnode

`vnodeConvertQueryMeterMsg` turns the words of the header, checks them and walks through
the sections behind it.  Where it leaves a pointer into the message, the model has the
bytes pointed to; `behind` is the place behind the last byte it looks at.
-/

namespace Luomi.Vnode.QueryConvert
open ByteBuffer Client.QueryMessage

def TSDB_CODE_INVALID_QUERY_MSG : Int := 106

inductive Filter where
  | text (pz : List UInt8)
  | bounds (lowerBndi upperBndi : BitVec 64)

structure ColumnInfo where
  colId : BitVec 16
  type : BitVec 16
  bytes : BitVec 16
  filterOn : BitVec 16
  lowerRelOptr : BitVec 16
  upperRelOptr : BitVec 16
  filterOnBinary : BitVec 16
  filter : Filter

inductive ArgElem where
  | text (pz : List UInt8)
  | number (argType : BitVec 16) (i64 : BitVec 64)

structure SqlFuncExpr where
  functionId : BitVec 16
  colId : BitVec 16
  colIdx : BitVec 16
  isTag : Bool
  arg : List ArgElem

structure QueryInfo where
  vnode : BitVec 16
  uid : BitVec 64
  skey : BitVec 64
  ekey : BitVec 64
  order : BitVec 16
  orderColId : BitVec 16
  intervalTimeUnit : UInt8
  nAggTimeInterval : BitVec 64
  tagLength : BitVec 16
  limit : BitVec 64
  offset : BitVec 64
  metricQuery : BitVec 16
  interpoType : BitVec 16
  colList : List ColumnInfo
  exprs : List SqlFuncExpr
  colNameList : List UInt8
  sids : List SMeterSidExtInfo
  tagSchema : List (List UInt8)
  groupbyTagIds : List (BitVec 16)
  orderByIdx : BitVec 16
  orderType : BitVec 16
  defaultVal : List (BitVec 64)
  behind : Int

section

variable (body : List UInt8)

def word16 (place : Int) : Except Stop (BitVec 16) :=
  orCrash (loadNet 16 2 body place)

def word64 (place : Int) : Except Stop (BitVec 64) :=
  orCrash (loadNet 64 8 body place)

/-- `strcpy` into a fresh array of `len + 1` bytes. -/
def copyText (strBuf : Int) (len : Int) : Except Stop (List UInt8) := do
  require (0 ≤ strBuf) .crashed
  let rest := body.drop strBuf.toNat
  require (0 ∈ rest) .crashed
  require ((cString rest).length ≤ len) .crashed
  pure (cString rest)

/-- One entry of `colList`; the state is its index and the place of the next text. -/
def readColumn (s : Nat × Int) : Except Stop (ColumnInfo × (Nat × Int)) := do
  let entry : Int := (sizeofSColumnFilterMsg * s.1 : Nat)
  let colId <- word16 body entry
  let type <- word16 body (entry + 2)
  let bytes <- word16 body (entry + 4)
  require (TSDB_DATA_TYPE_BOOL.toNat ≤ type.toInt ∧ type.toInt ≤ TSDB_DATA_TYPE_NCHAR.toNat) .crashed
  let filterOn <- word16 body (entry + 6)
  let filterOnBinary <- word16 body (entry + 12)
  let lowerRelOptr <- word16 body (entry + 8)
  let upperRelOptr <- word16 body (entry + 10)
  if filterOn ≠ 0 ∧ filterOnBinary ≠ 0 then
    let len <- word64 body (entry + 22)
    let pz <- copyText body s.2 len.toInt
    pure (⟨colId, type, bytes, filterOn, lowerRelOptr, upperRelOptr, filterOnBinary, .text pz⟩,
      (s.1 + 1, s.2 + len.toInt + 1))
  else
    let lowerBndi <- word64 body (entry + 14)
    let upperBndi <- word64 body (entry + 22)
    pure (⟨colId, type, bytes, filterOn, lowerRelOptr, upperRelOptr, filterOnBinary,
      .bounds lowerBndi upperBndi⟩, (s.1 + 1, s.2))

/-- One entry of `arg`; the state is its index and the place behind the texts so far. -/
def readArg (pExprMsg : Int) (s : Nat × Int) : Except Stop (ArgElem × (Nat × Int)) := do
  let entry := pExprMsg + (11 + 12 * s.1 : Nat)
  let argType <- word16 body entry
  let argBytes <- word16 body (entry + 2)
  if argType = TSDB_DATA_TYPE_BINARY then
    let pz <- orCrash (load body s.2 argBytes.toInt.toNat)
    pure (.text pz, (s.1 + 1, s.2 + argBytes.toInt + 1))
  else
    let i64 <- word64 body (entry + 4)
    pure (.number argType i64, (s.1 + 1, s.2))

end

def vnodeValidateExprColumnInfo (colList : List ColumnInfo) (e : SqlFuncExpr) : Bool :=
  colList.any (·.colId = e.colId)

def exprAllowed (colList : List ColumnInfo) (e : SqlFuncExpr) : Bool :=
  if e.functionId = TSDB_FUNC_ARITHM then true
  else if e.functionId = TSDB_FUNC_TAG ∨ e.functionId = TSDB_FUNC_TAGPRJ then e.isTag
  else vnodeValidateExprColumnInfo colList e

section

variable (body : List UInt8)

def readExpr (colList : List ColumnInfo) (pMsg : Int) : Except Stop (SqlFuncExpr × Int) := do
  let colIdx <- word16 body (pMsg + 6)
  let colId <- word16 body (pMsg + 4)
  let functionId <- word16 body pMsg
  let numOfParams <- word16 body (pMsg + 2)
  let isTag <- orCrash (load body (pMsg + 10) 1)
  let (arg, s) <- readMany (readArg body pMsg) numOfParams.toInt.toNat
    (0, pMsg + sizeofSSqlFuncExprMsg)
  let e : SqlFuncExpr := ⟨functionId, colId, colIdx, isTag ≠ [0], arg⟩
  require (exprAllowed colList e) (.returned TSDB_CODE_INVALID_QUERY_MSG)
  pure (e, s.2)

def readMeter (tagLength : Nat) (pMsg : Int) : Except Stop (SMeterSidExtInfo × Int) := do
  let sid <- orCrash (loadNet 32 4 body pMsg)
  let tags <- orCrash (load body (pMsg + sizeofSMeterSidExtInfo) tagLength)
  pure (⟨sid, tags⟩, pMsg + sizeofSMeterSidExtInfo + tagLength)

def readTagSchema (pMsg : Int) : Except Stop (List UInt8 × Int) := do
  let schema <- orCrash (load body pMsg sizeofSSchema)
  pure (schema, pMsg + sizeofSSchema)

def readGroup (pMsg : Int) : Except Stop (BitVec 16 × Int) := do
  let tagIndex <- orCrash (load16 body pMsg)
  pure (tagIndex, pMsg + 2)

def readDefault (pMsg : Int) : Except Stop (BitVec 64 × Int) := do
  let value <- word64 body pMsg
  pure (value, pMsg + 8)

end

/-- The header with its words turned, as far as the check needs them. -/
def turned (msg : SQueryMeterMsg) : SQueryMeterMsg :=
  { msg with
    vnode := htons msg.vnode
    numOfSids := htonl msg.numOfSids
    skey := htobe64 msg.skey
    ekey := htobe64 msg.ekey
    num := htonl msg.num
    order := htons msg.order
    orderColId := htons msg.orderColId
    metricQuery := htons msg.metricQuery
    nAggTimeInterval := htobe64 msg.nAggTimeInterval
    numOfTagsCols := htons msg.numOfTagsCols
    numOfCols := htons msg.numOfCols
    numOfOutputCols := htons msg.numOfOutputCols
    numOfGroupbyCols := htons msg.numOfGroupbyCols
    tagLength := htons msg.tagLength
    limit := htobe64 msg.limit
    offset := htobe64 msg.offset }

def validateQueryMeterMsg (q : SQueryMeterMsg) : Bool :=
  0 ≤ q.nAggTimeInterval.toInt ∧
  (0 ≤ q.numOfTagsCols.toInt ∧ q.numOfTagsCols.toInt ≤ TSDB_MAX_TAGS) ∧
  (0 < q.numOfCols.toInt ∧ q.numOfCols.toInt ≤ TSDB_MAX_COLUMNS) ∧
  0 < q.numOfSids.toInt ∧
  0 ≤ q.numOfGroupbyCols.toInt ∧
  (q.numOfOutputCols.toInt ≤ TSDB_MAX_COLUMNS ∧ 0 < q.numOfOutputCols.toInt) ∧
  0 ≤ q.tagLength.toInt

def readNames (body : List UInt8) (exprs : List SqlFuncExpr) (colNameLen : Int) (pMsg : Int) :
    Except Stop (List UInt8 × Int) :=
  if exprs.any (·.functionId = TSDB_FUNC_ARITHM) then do
    require (0 < colNameLen) .crashed
    let colNameList <- orCrash (load body pMsg colNameLen.toNat)
    pure (colNameList, pMsg + colNameLen)
  else pure ([], pMsg)

def readDefaults (body : List UInt8) (interpoType : BitVec 16) (numOfOutputCols : Nat)
    (pMsg : Int) : Except Stop (List (BitVec 64) × Int) :=
  if interpoType ≠ TSDB_INTERPO_NONE then readMany (readDefault body) numOfOutputCols pMsg
  else pure ([], pMsg)

def vnodeConvertQueryMeterMsg (msg : SQueryMeterMsg) : Except Stop QueryInfo := do
  let q := turned msg
  require (validateQueryMeterMsg q) (.returned TSDB_CODE_INVALID_QUERY_MSG)
  let numOfCols := q.numOfCols.toInt.toNat
  let numOfOutputCols := q.numOfOutputCols.toInt.toNat
  let (colList, s) <- readMany (readColumn q.body) numOfCols
    (0, (sizeofSColumnFilterMsg * numOfCols : Nat))
  let (exprs, pMsg) <- readMany (readExpr q.body colList) numOfOutputCols s.2
  let (colNameList, pMsg) <- readNames q.body exprs (htonl q.colNameLen).toInt pMsg
  let (sids, pMsg) <- readMany (readMeter q.body q.tagLength.toInt.toNat) q.numOfSids.toInt.toNat pMsg
  let grouped := 0 < q.numOfGroupbyCols.toInt ∨ 0 < q.numOfTagsCols.toInt
  let (tagSchema, pMsg) <- readMany (readTagSchema q.body) q.numOfTagsCols.toInt.toNat pMsg
  let (groupbyTagIds, pMsg) <- readMany (readGroup q.body) q.numOfGroupbyCols.toInt.toNat pMsg
  let interpoType := htons q.interpoType
  let (defaultVal, pMsg) <- readDefaults q.body interpoType numOfOutputCols pMsg
  pure {
    vnode := q.vnode
    uid := q.uid
    skey := q.skey
    ekey := q.ekey
    order := q.order
    orderColId := q.orderColId
    intervalTimeUnit := q.intervalTimeUnit
    nAggTimeInterval := q.nAggTimeInterval
    tagLength := q.tagLength
    limit := q.limit
    offset := q.offset
    metricQuery := q.metricQuery
    interpoType := interpoType
    colList := colList
    exprs := exprs
    colNameList := colNameList
    sids := sids
    tagSchema := tagSchema
    groupbyTagIds := groupbyTagIds
    orderByIdx := if grouped then htons q.orderByIdx else q.orderByIdx
    orderType := if grouped then htons q.orderType else q.orderType
    defaultVal := defaultVal
    behind := pMsg }

structure SourceColumn where
  type : BitVec 16
  bytes : BitVec 16
  colId : BitVec 16
  name : List UInt8

def toSchema (colNameList : List UInt8) : List ColumnInfo -> Option (List SourceColumn)
  | [] => some []
  | col :: rest => do
      let name := colNameList.takeWhile (· ≠ comma)
      -- a name that reaches the end of the list has no comma behind it
      if name.length < colNameList.length ∧ name.length ≤ TSDB_COL_NAME_LEN then do
        let others <- toSchema (colNameList.drop (name.length + 1)) rest
        some (⟨col.type, col.bytes, col.colId, name⟩ :: others)
      else none

end Luomi.Vnode.QueryConvert
