import Luomi.Base.ByteBuffer

/-!
# The query message of the client

`tscBuildQueryMsg` lays out the message a vnode is asked with: a header, one filter entry
for each column read, the texts of the filters, the expressions with their texts, the
column names for arithmetic, the meters with their tags, the tag schemas, the group-by
columns and the fill values.  The payload has the size of `tscEstimateQueryMsgSize` and
is cleared; what the program leaves out stays zero.
-/

namespace Luomi.Client.QueryMessage
open Luomi.LittleEndian Luomi.ByteBuffer

def TSDB_DATA_TYPE_BOOL : UInt8 := 1
def TSDB_DATA_TYPE_BINARY : BitVec 16 := 8
def TSDB_DATA_TYPE_NCHAR : UInt8 := 10
def TSDB_FUNC_TAG : BitVec 16 := 18
def TSDB_FUNC_TAGPRJ : BitVec 16 := 20
def TSDB_FUNC_ARITHM : BitVec 16 := 21
def TSDB_INTERPO_NONE : BitVec 16 := 0
def TSQL_SO_ASC : BitVec 16 := 1
def TSDB_MAX_TAGS : Nat := 6
def TSDB_MAX_COLUMNS : Nat := 256
def TSDB_MAX_BYTES_PER_ROW : Nat := TSDB_MAX_COLUMNS * 16
def TSDB_COL_NAME_LEN : Nat := 64
def TSDB_METER_NAME_LEN : Nat := 64

def tsRpcHeadSize : Nat := 72
def sizeofSTaosDigest : Nat := 20
def sizeofSQueryMeterMsg : Nat := 250
def sizeofSColumnFilterMsg : Nat := 30
def sizeofSSqlFuncExprMsg : Nat := 47
def sizeofSMeterSidExtInfo : Nat := 12
def sizeofSSchema : Nat := 69

def comma : UInt8 := 0x2C

def cString (bytes : List UInt8) : List UInt8 := bytes.takeWhile (· ≠ 0)

/-- `name` is the array of the name; an identifier has no comma. -/
structure SSchema where
  type : UInt8
  name : List UInt8
  colId : BitVec 16
  bytes : BitVec 16
  whole : name.length = TSDB_COL_NAME_LEN
  ended : 0 ∈ name
  plain : comma ∉ cString name

def SSchema.raw (s : SSchema) : List UInt8 :=
  s.type :: (s.name ++ (leBytes 2 s.colId.toNat ++ leBytes 2 s.bytes.toNat))

/-- The bounds and the text of `len` bytes at `pz` share their memory; the flags say which
of them is meant. -/
structure SColumnBase where
  colIndex : Nat
  filterOn : BitVec 16
  lowerRelOptr : BitVec 16
  upperRelOptr : BitVec 16
  filterOnBinary : BitVec 16
  lowerBndi : BitVec 64
  upperBndi : BitVec 64
  pz : List UInt8
  ended : 0 ∉ pz

def SColumnBase.onText (col : SColumnBase) : Prop := col.filterOn ≠ 0 ∧ col.filterOnBinary ≠ 0

instance (col : SColumnBase) : Decidable col.onText :=
  inferInstanceAs (Decidable (_ ∧ _))

/-- A parameter is a text of `nLen` bytes at `pz` or a number. -/
structure tVariant where
  nType : BitVec 16
  nLen : Nat
  i64Key : BitVec 64
  pz : List UInt8
  counted : nType = TSDB_DATA_TYPE_BINARY -> nLen = pz.length

structure SSqlExpr where
  sqlFuncId : BitVec 16
  colId : BitVec 16
  colIdx : BitVec 16
  isTag : Bool
  param : List tVariant
  few : param.length ≤ 3

structure SMeterSidExtInfo where
  sid : BitVec 32
  tags : List UInt8

/-- The meter meta and the peer asked for a meter of its own. -/
structure SMeterMeta where
  vnode : BitVec 16
  uid : BitVec 64
  sid : BitVec 32
  schema : List SSchema
  tagSchema : List SSchema

/-- The list of the vnode asked, with the peer chosen, for the meters of a super table. -/
structure SMetricMeta where
  vnode : BitVec 16
  tagLen : BitVec 16
  sids : List SMeterSidExtInfo
  tagged : ∀ info ∈ sids, info.tags.length = tagLen.toNat

/-- `pMetricMeta` is there exactly for a query on a super table. -/
structure SSqlCmd where
  pMeterMeta : SMeterMeta
  pMetricMeta : Option SMetricMeta
  order : BitVec 16
  orderColId : BitVec 16
  metricQuery : BitVec 16
  intervalTimeUnit : UInt8
  stime : BitVec 64
  etime : BitVec 64
  nAggTimeInterval : BitVec 64
  limit : BitVec 64
  offset : BitVec 64
  interpoType : BitVec 16
  -- counts the columns of a statement that alters a table; a query sets `colList`
  numOfCols : Nat
  colList : List SColumnBase
  exprs : List SSqlExpr
  tagColumnIndex : List Int
  groupby : List (BitVec 16)
  orderIdx : BitVec 16
  orderType : BitVec 16
  defaultVal : Nat -> BitVec 64
  short : numOfCols < 2 ^ 15
  fewTags : tagColumnIndex.length ≤ TSDB_MAX_TAGS + 1
  fewGroups : groupby.length ≤ TSDB_MAX_TAGS

def blankSchema : SSchema :=
  ⟨0, zeros TSDB_COL_NAME_LEN, 0, 0, by rfl, by decide, by decide⟩

/-- The schema of the pseudo column `tbname`. -/
def tbSchema : SSchema :=
  ⟨8, zeros TSDB_COL_NAME_LEN, -1, BitVec.ofNat 16 TSDB_METER_NAME_LEN, by rfl, by decide, by decide⟩

namespace SSqlCmd

def columnSchema (cmd : SSqlCmd) (col : SColumnBase) : SSchema :=
  cmd.pMeterMeta.schema.getD col.colIndex blankSchema

def tagSchema (cmd : SSqlCmd) (index : Int) : SSchema :=
  if index = -1 then tbSchema else cmd.pMeterMeta.tagSchema.getD index.toNat blankSchema

def hasArithmeticFunction (cmd : SSqlCmd) : Bool :=
  cmd.exprs.any (·.sqlFuncId = TSDB_FUNC_ARITHM)

end SSqlCmd

def tscValidateColumnId (cmd : SSqlCmd) (colId : BitVec 16) : Bool :=
  (colId = -1 ∧ cmd.pMetricMeta.isSome) ||
    (cmd.pMeterMeta.schema ++ cmd.pMeterMeta.tagSchema).any (·.colId = colId)

/-- The header as it stands in memory; `body` is what follows from `colList` on. -/
structure SQueryMeterMsg where
  vnode : BitVec 16
  numOfSids : BitVec 32
  uid : BitVec 64
  skey : BitVec 64
  ekey : BitVec 64
  num : BitVec 32
  order : BitVec 16
  orderColId : BitVec 16
  numOfCols : BitVec 16
  intervalTimeUnit : UInt8
  nAggTimeInterval : BitVec 64
  numOfTagsCols : BitVec 16
  tagLength : BitVec 16
  numOfGroupbyCols : BitVec 16
  orderByIdx : BitVec 16
  orderType : BitVec 16
  limit : BitVec 64
  offset : BitVec 64
  metricQuery : BitVec 16
  numOfOutputCols : BitVec 16
  interpoType : BitVec 16
  colNameLen : BitVec 32
  body : List UInt8

def htons (word : BitVec 16) : BitVec 16 := reverseBytes 2 word
def htonl (word : BitVec 32) : BitVec 32 := reverseBytes 4 word
def htobe64 (word : BitVec 64) : BitVec 64 := reverseBytes 8 word

def minMsgSize : Nat := tsRpcHeadSize + sizeofSTaosDigest

section

variable (cmd : SSqlCmd)

/-- The sum as the sizes say it, before it is stored in an `int32_t`. -/
def estimate : Nat :=
  let MIN_QUERY_MSG_PKT_SIZE := TSDB_MAX_BYTES_PER_ROW * 5
  let srcColListSize := cmd.numOfCols * sizeofSColumnFilterMsg
  let exprSize := sizeofSSqlFuncExprMsg * cmd.exprs.length
  match cmd.pMetricMeta with
  | none => MIN_QUERY_MSG_PKT_SIZE + minMsgSize + sizeofSQueryMeterMsg + srcColListSize + exprSize
  | some metric =>
    let meterInfoSize := (metric.tagLen.toNat + sizeofSMeterSidExtInfo) * metric.sids.length
    let outputColumnSize := cmd.exprs.length * sizeofSSqlFuncExprMsg
    meterInfoSize + outputColumnSize + srcColListSize + exprSize + MIN_QUERY_MSG_PKT_SIZE

def tscEstimateQueryMsgSize : Int := (BitVec.ofNat 32 (estimate cmd)).toInt

/-- The vnode, `uid` and the meters, with the checks of the list. -/
def askedMeters : Except Stop (BitVec 16 × BitVec 64 × List SMeterSidExtInfo) :=
  match cmd.pMetricMeta with
  | none => .ok (cmd.pMeterMeta.vnode, cmd.pMeterMeta.uid, [⟨cmd.pMeterMeta.sid, []⟩])
  | some metric => do
      require (metric.sids ≠ []) (.returned (-1))
      pure (metric.vnode, 0, metric.sids)

def tagLength : BitVec 16 :=
  match cmd.pMetricMeta with
  | none => 0
  | some metric => metric.tagLen

def writeHeader : Except Stop SQueryMeterMsg := do
  let (vnode, uid, meters) <- askedMeters cmd
  let ascending := cmd.order = TSQL_SO_ASC
  require (cmd.colList ≠ []) (.returned (-1))
  require (0 ≤ cmd.nAggTimeInterval.toInt) (.returned (-1))
  -- an assertion of a query on a meter
  require (cmd.pMetricMeta = none -> cmd.groupby = []) .crashed
  pure {
    vnode := htons vnode
    numOfSids := htonl (BitVec.ofNat 32 meters.length)
    uid := uid
    skey := htobe64 (if ascending then cmd.stime else cmd.etime)
    ekey := htobe64 (if ascending then cmd.etime else cmd.stime)
    num := htonl 0
    order := htons cmd.order
    orderColId := htons cmd.orderColId
    numOfCols := htons (BitVec.ofNat 16 cmd.colList.length)
    intervalTimeUnit := cmd.intervalTimeUnit
    nAggTimeInterval := htobe64 cmd.nAggTimeInterval
    numOfTagsCols := htons (BitVec.ofNat 16 cmd.tagColumnIndex.length)
    tagLength := htons (tagLength cmd)
    numOfGroupbyCols := htons (BitVec.ofNat 16 cmd.groupby.length)
    orderByIdx := 0
    orderType := 0
    limit := htobe64 cmd.limit
    offset := htobe64 cmd.offset
    metricQuery := htons cmd.metricQuery
    numOfOutputCols := htons (BitVec.ofNat 16 cmd.exprs.length)
    interpoType := htons cmd.interpoType
    colNameLen := 0
    body := [] }

/-- The entry of one column; `pz` is not written and stays zero. -/
def columnFields (col : SColumnBase) : List (List UInt8) :=
  let pColSchema := cmd.columnSchema col
  [netBytes 2 pColSchema.colId, netBytes 2 (BitVec.ofNat 16 pColSchema.type.toNat),
    netBytes 2 pColSchema.bytes, netBytes 2 col.filterOn, netBytes 2 col.lowerRelOptr,
    netBytes 2 col.upperRelOptr, netBytes 2 col.filterOnBinary,
    if col.onText then zeros 8 else netBytes 8 col.lowerBndi,
    netBytes 8 (if col.onText then BitVec.ofNat 64 col.pz.length else col.upperBndi)]

def columnBytes (col : SColumnBase) : List UInt8 := (columnFields cmd col).flatten

end

def filterBytes (col : SColumnBase) : List UInt8 := if col.onText then col.pz ++ [0] else []

/-- The entry goes into the list at the front, its text to `pBinaryBuf`. -/
def writeColumn (cmd : SSqlCmd) (c : Cursor) (i : Nat) (col : SColumnBase) :
    Except Stop Cursor := do
  let pColSchema := cmd.columnSchema col
  require (¬(cmd.pMeterMeta.schema.length ≤ col.colIndex ∨
    pColSchema.type < TSDB_DATA_TYPE_BOOL ∨ TSDB_DATA_TYPE_NCHAR < pColSchema.type)) (.returned 0)
  let body <- orCrash (store c.body (sizeofSColumnFilterMsg * i : Nat) (columnBytes cmd col))
  orCrash (Cursor.put ⟨body, c.place⟩ (filterBytes col))

def writeColumns (cmd : SSqlCmd) (c : Cursor) (i : Nat) : List SColumnBase -> Except Stop Cursor
  | [] => .ok c
  | col :: rest => do
      let c <- writeColumn cmd c i col
      writeColumns cmd c (i + 1) rest

/-- One entry of `arg`; the place of a text is not sent. -/
def argFields (p : tVariant) : List (List UInt8) :=
  [netBytes 2 p.nType, netBytes 2 (BitVec.ofNat 16 p.nLen),
    if p.nType = TSDB_DATA_TYPE_BINARY then zeros 8 else netBytes 8 p.i64Key]

def argBytes (p : tVariant) : List UInt8 := (argFields p).flatten

/-- What stands before `arg`. -/
def exprFields (e : SSqlExpr) : List (List UInt8) :=
  [netBytes 2 e.sqlFuncId, netBytes 2 (BitVec.ofNat 16 e.param.length), netBytes 2 e.colId,
    netBytes 2 e.colIdx, zeros 2, [if e.isTag then 1 else 0]]

def exprBytes (e : SSqlExpr) : List UInt8 :=
  (exprFields e).flatten ++ (e.param.flatMap argBytes ++ zeros (12 * (3 - e.param.length)))

/-- The text of a parameter; one char more makes it null-terminated. -/
def writeText (c : Cursor) (p : tVariant) : Except Stop Cursor :=
  if p.nType = TSDB_DATA_TYPE_BINARY then do
    let c <- orCrash (c.put p.pz)
    pure (c.skip 1)
  else pure c

def writeExpr (cmd : SSqlCmd) (c : Cursor) (e : SSqlExpr) : Except Stop Cursor := do
  require (tscValidateColumnId cmd e.colId) (.returned (-1))
  let c <- orCrash (c.put (exprBytes e))
  e.param.foldlM writeText c

def columnName (cmd : SSqlCmd) (col : SColumnBase) : List UInt8 := cString
    (cmd.columnSchema col).name

def writeName (cmd : SSqlCmd) (c : Cursor) (col : SColumnBase) : Except Stop Cursor :=
  orCrash (c.put (columnName cmd col ++ [comma]))

/-- The `sid` and the tags; `pObj` between them is not written. -/
def writeMeter (c : Cursor) (info : SMeterSidExtInfo) : Except Stop Cursor := do
  let c <- orCrash (c.put (netBytes 4 info.sid))
  orCrash ((c.skip 8).put info.tags)

def writeTagSchema (cmd : SSqlCmd) (c : Cursor) (index : Int) : Except Stop Cursor :=
  orCrash (c.put (cmd.tagSchema index).raw)

def writeGroup (c : Cursor) (tagIndex : BitVec 16) : Except Stop Cursor :=
  orCrash (c.put (leBytes 2 tagIndex.toNat))

section

variable (cmd : SSqlCmd)

def writeDefault (c : Cursor) (i : Nat) : Except Stop Cursor :=
  orCrash (c.put (netBytes 8 (cmd.defaultVal i)))

def writeNames (c : Cursor) : Except Stop Cursor :=
  if cmd.hasArithmeticFunction then cmd.colList.foldlM (writeName cmd) c else .ok c

def writeTagSchemas (c : Cursor) : Except Stop Cursor :=
  if cmd.pMetricMeta.isSome then cmd.tagColumnIndex.foldlM (writeTagSchema cmd) c else .ok c

def writeDefaults (c : Cursor) : Except Stop Cursor :=
  if cmd.interpoType ≠ TSDB_INTERPO_NONE then
    (List.range cmd.exprs.length).foldlM (writeDefault cmd) c
  else .ok c

def writeBody (meters : List SMeterSidExtInfo) (c : Cursor) : Except Stop Cursor := do
  let c <- writeColumns cmd c 0 cmd.colList
  let c <- cmd.exprs.foldlM (writeExpr cmd) c
  let c <- writeNames cmd c
  let c <- meters.foldlM writeMeter c
  let c <- writeTagSchemas cmd c
  require (cmd.groupby ≠ [] -> cmd.pMeterMeta.tagSchema ≠ []) .crashed
  let c <- cmd.groupby.foldlM writeGroup c
  writeDefaults cmd c

def colNameLen : Nat :=
  if cmd.hasArithmeticFunction then
    (cmd.colList.map fun col => (columnName cmd col).length + 1).sum
  else 0

def tscBuildQueryMsg : Except Stop SQueryMeterMsg := do
  let size := tscEstimateQueryMsgSize cmd
  require (0 < size) .crashed
  let header <- writeHeader cmd
  require (tsRpcHeadSize + sizeofSQueryMeterMsg ≤ size) .crashed
  let (_, _, meters) <- askedMeters cmd
  let room := size.toNat - (tsRpcHeadSize + sizeofSQueryMeterMsg)
  let c <- writeBody cmd meters ⟨zeros room, sizeofSColumnFilterMsg * cmd.colList.length⟩
  require (sizeofSQueryMeterMsg + c.place + minMsgSize ≤ size) .crashed
  pure { header with
    colNameLen := htonl (BitVec.ofNat 32 (colNameLen cmd))
    orderByIdx := if cmd.groupby = [] then 0 else htons cmd.orderIdx
    orderType := if cmd.groupby = [] then 0 else htons cmd.orderType
    body := c.body.take c.place }

end

end Luomi.Client.QueryMessage
