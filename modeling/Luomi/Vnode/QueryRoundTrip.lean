import Luomi.Vnode.QueryDecode

/-!
# The round trip of query messages

The size of the payload leaves a fixed reserve for the sections it does not count, so a
message comes through exactly when the uncounted sections fit into the reserve and the
vnode accepts what the client sends: at most `TSDB_MAX_TAGS` tags, lengths that fit into
an `int16_t`, and columns that are in the list.
-/

namespace Luomi.Vnode.QueryRoundTrip
open LittleEndian ByteBuffer Client.QueryMessage Client.QueryEncode QueryConvert QueryDecode
open List (any_map append_assoc append_nil length_append map_cons sum_cons)

def askedVnode (cmd : SSqlCmd) : BitVec 16 :=
  match cmd.pMetricMeta with
  | none => cmd.pMeterMeta.vnode
  | some metric => metric.vnode

structure SameQuery (cmd : SSqlCmd) (q : QueryInfo) : Prop where
  vnode : q.vnode = askedVnode cmd
  uid : cmd.pMetricMeta = none -> q.uid = cmd.pMeterMeta.uid
  skey : q.skey = if cmd.order = TSQL_SO_ASC then cmd.stime else cmd.etime
  ekey : q.ekey = if cmd.order = TSQL_SO_ASC then cmd.etime else cmd.stime
  order : q.order = cmd.order
  orderColId : q.orderColId = cmd.orderColId
  intervalTimeUnit : q.intervalTimeUnit = cmd.intervalTimeUnit
  nAggTimeInterval : q.nAggTimeInterval = cmd.nAggTimeInterval
  tagLength : q.tagLength = tagLength cmd
  limit : q.limit = cmd.limit
  offset : q.offset = cmd.offset
  metricQuery : q.metricQuery = cmd.metricQuery
  interpoType : q.interpoType = cmd.interpoType
  colList : q.colList = cmd.colList.map (columnInfo cmd)
  exprs : q.exprs = cmd.exprs.map exprInfo
  source : cmd.hasArithmeticFunction ->
    toSchema q.colNameList q.colList = some (cmd.colList.map (sourceColumn cmd))
  sids : q.sids = meters cmd
  tagSchema : q.tagSchema = cmd.tagColumnIndex.map fun index => (cmd.tagSchema index).raw
  groupbyTagIds : q.groupbyTagIds = cmd.groupby
  groupOrder : cmd.groupby ≠ [] -> q.orderByIdx = cmd.orderIdx ∧ q.orderType = cmd.orderType
  defaultVal : q.defaultVal = if cmd.interpoType ≠ TSDB_INTERPO_NONE then
    (List.range cmd.exprs.length).map cmd.defaultVal else []

section

variable (cmd : SSqlCmd)

/-- The message is built inside its payload, and the vnode reads exactly its bytes. -/
def RoundTrip : Prop :=
  ∃ msg q, tscBuildQueryMsg cmd = .ok msg ∧ vnodeConvertQueryMeterMsg msg = .ok q ∧
    SameQuery cmd q ∧ q.behind = msg.body.length

def textRoom : Nat :=
  (cmd.colList.map fun col => if col.onText then col.pz.length + 1 else 0).sum

def paramRoom : Nat :=
  (cmd.exprs.map fun e => (e.param.map fun p =>
    if p.nType = TSDB_DATA_TYPE_BINARY then p.pz.length + 1 else 0).sum).sum

def fillRoom : Nat :=
  if cmd.interpoType ≠ TSDB_INTERPO_NONE then 8 * cmd.exprs.length else 0

/-- The sections that the payload has no room of their own for fit into the reserve of
`TSDB_MAX_BYTES_PER_ROW * 5` bytes, and the size is an `int32_t`. -/
def Room : Prop :=
  let uncounted := 30 * cmd.colList.length + textRoom cmd + paramRoom cmd + colNameLen cmd +
    fillRoom cmd
  let reserve := 20480 + 30 * cmd.numOfCols
  match cmd.pMetricMeta with
  | none => 12 + uncounted ≤ reserve
  | some metric =>
    -- the header is not counted, the expressions are counted twice
    342 + uncounted + 69 * cmd.tagColumnIndex.length + 2 * cmd.groupby.length ≤
      reserve + 47 * cmd.exprs.length ∧
    (metric.tagLen.toNat + 12) * metric.sids.length + 94 * cmd.exprs.length + reserve < 2 ^ 31

/-- The vnode finds what the expression is applied to. -/
def Allowed (e : SSqlExpr) : Prop :=
  if e.sqlFuncId = TSDB_FUNC_ARITHM then True
  else if e.sqlFuncId = TSDB_FUNC_TAG ∨ e.sqlFuncId = TSDB_FUNC_TAGPRJ then e.isTag = true
  else ∃ col ∈ cmd.colList, (cmd.columnSchema col).colId = e.colId

end

instance (cmd : SSqlCmd) (e : SSqlExpr) : Decidable (Allowed cmd e) :=
  inferInstanceAs (Decidable (if e.sqlFuncId = TSDB_FUNC_ARITHM then True
    else if e.sqlFuncId = TSDB_FUNC_TAG ∨ e.sqlFuncId = TSDB_FUNC_TAGPRJ then e.isTag = true
    else ∃ col ∈ cmd.colList, (cmd.columnSchema col).colId = e.colId))

structure Carried (cmd : SSqlCmd) : Prop where
  room : Room cmd
  columns : cmd.colList.length ≤ TSDB_MAX_COLUMNS
  outputs : 0 < cmd.exprs.length ∧ cmd.exprs.length ≤ TSDB_MAX_COLUMNS
  tags : cmd.tagColumnIndex.length ≤ TSDB_MAX_TAGS
  tagLen : (tagLength cmd).toNat < 2 ^ 15
  params : ∀ e ∈ cmd.exprs, ∀ p ∈ e.param,
    p.nType = TSDB_DATA_TYPE_BINARY -> p.pz.length < 2 ^ 15
  allowed : ∀ e ∈ cmd.exprs, Allowed cmd e

section Sizes

variable {cmd : SSqlCmd}

theorem filterTexts_length (cmd : SSqlCmd) : (filterTexts cmd).length = textRoom cmd := by
  rw [filterTexts, textRoom, List.length_flatMap]
  congr 1
  refine List.map_congr_left fun col _ => ?_
  unfold filterBytes
  split <;> simp

theorem expressions_length (cmd : SSqlCmd) :
    (expressions cmd).length = 47 * cmd.exprs.length + paramRoom cmd := by
  rw [expressions, paramRoom]
  induction cmd.exprs with
  | nil => rfl
  | cons e rest ih =>
    have texts : (e.param.flatMap textBytes).length = (e.param.map fun p =>
        if p.nType = TSDB_DATA_TYPE_BINARY then p.pz.length + 1 else 0).sum := by
      rw [List.length_flatMap]
      congr 1
      refine List.map_congr_left fun p _ => ?_
      unfold textBytes
      split <;> simp
    rw [List.flatMap_cons, length_append, ih, exprRecord, length_append, texts,
      exprBytes_length, map_cons, sum_cons, List.length_cons, sizeofSSqlFuncExprMsg]
    omega

theorem names_length (cmd : SSqlCmd) : (names cmd).length = colNameLen cmd := by
  unfold names colNameLen
  split
  · rw [List.length_flatMap]
    congr 1
    refine List.map_congr_left fun col _ => ?_
    rw [nameRecord, length_append, List.length_singleton]
  · rfl

theorem meters_tagged {info : SMeterSidExtInfo} (member : info ∈ meters cmd) :
    info.tags.length = (tagLength cmd).toNat := by
  cases metric : cmd.pMetricMeta with
  | none =>
    simp only [meters, tagLength, metric, List.mem_singleton] at member ⊢
    rw [member]
    rfl
  | some list =>
    simp only [meters, tagLength, metric] at member ⊢
    exact list.tagged info member

theorem meterTags_length (cmd : SSqlCmd) :
    (meterTags cmd).length = ((tagLength cmd).toNat + 12) * (meters cmd).length := by
  refine flatMap_length fun info member => ?_
  have tagged := meters_tagged member
  simp only [meterRecord, length_append, netBytes_length, List.length_replicate, tagged]
  omega

theorem defaults_length (cmd : SSqlCmd) : (defaults cmd).length = fillRoom cmd := by
  unfold defaults fillRoom
  split
  · rw [flatMap_length fun _ _ => netBytes_length .., List.length_range]
  · rfl

theorem tagSchemas_eq (sendable : Sendable cmd) :
    tagSchemas cmd = cmd.tagColumnIndex.flatMap fun index => (cmd.tagSchema index).raw := by
  unfold tagSchemas
  split
  · rfl
  next other =>
    have none : cmd.tagColumnIndex = [] := by
      by_contra some
      exact other (sendable.tagsOfMetric some)
    rw [none]
    rfl

theorem tagSchemas_length (sendable : Sendable cmd) :
    (tagSchemas cmd).length = 69 * cmd.tagColumnIndex.length := by
  rw [tagSchemas_eq sendable]
  exact flatMap_length fun index _ => raw_length (cmd.tagSchema index)

theorem sections_length (sendable : Sendable cmd) :
    (sections cmd).length = textRoom cmd + (47 * cmd.exprs.length + paramRoom cmd) + colNameLen cmd +
      ((tagLength cmd).toNat + 12) * (meters cmd).length + 69 * cmd.tagColumnIndex.length +
      2 * cmd.groupby.length + fillRoom cmd := by
  simp only [sections, length_append, filterTexts_length, expressions_length, names_length,
    meterTags_length, tagSchemas_length sendable, defaults_length,
    show (groups cmd).length = 2 * cmd.groupby.length from flatMap_length fun _ _ => leBytes_length ..]
  omega

/-- A size that is too large for an `int32_t` is stored as a much smaller one. -/
theorem toInt_ofNat32_le (value : Nat) : (value < 2 ^ 31 ∧ (BitVec.ofNat 32 value).toInt = value) ∨
      (2 ^ 31 ≤ value ∧ (BitVec.ofNat 32 value).toInt ≤ value - 2 ^ 32) := by
  by_cases small : value < 2 ^ 31
  · exact Or.inl ⟨small, toInt_ofNat32 small⟩
  · refine Or.inr ⟨by omega, ?_⟩
    rw [BitVec.toInt_eq_toNat_cond, BitVec.toNat_ofNat]
    split <;> omega

theorem room_iff (sendable : Sendable cmd) (outputs : cmd.exprs.length ≤ TSDB_MAX_COLUMNS) :
    (sizeofSQueryMeterMsg + (sizeofSColumnFilterMsg * cmd.colList.length + (sections cmd).length :
      Nat) +
      minMsgSize : Int) ≤ tscEstimateQueryMsgSize cmd ↔ Room cmd := by
  have total := sections_length sendable
  have short := cmd.short
  have few : cmd.exprs.length ≤ 256 := outputs
  unfold tscEstimateQueryMsgSize
  have stored := toInt_ofNat32_le (estimate cmd)
  unfold Room
  cases metric : cmd.pMetricMeta with
  | none =>
    have ungrouped : cmd.groupby = [] := by
      by_contra some
      have isMetric := (sendable.groupsTagged some).1
      rw [metric] at isMetric
      cases isMetric
    have untagged : cmd.tagColumnIndex = [] := by
      by_contra some
      have isMetric := sendable.tagsOfMetric some
      rw [metric] at isMetric
      cases isMetric
    have size : estimate cmd = 20480 + 92 + 250 + cmd.numOfCols * 30 + 47 * cmd.exprs.length := by
      simp only [estimate, metric]
      rfl
    have one : (meters cmd).length = 1 := by simp only [meters, metric]; rfl
    have noTags : (tagLength cmd).toNat = 0 := by simp only [tagLength, metric]; rfl
    rw [ungrouped, untagged, one, noTags] at total
    simp only [List.length_nil] at total
    simp only [sizeofSQueryMeterMsg, sizeofSColumnFilterMsg, minMsgSize, tsRpcHeadSize,
      sizeofSTaosDigest]
    rcases stored with ⟨fits, same⟩ | ⟨large, less⟩ <;> omega
  | some list =>
    have size : estimate cmd = (list.tagLen.toNat + 12) * list.sids.length +
        cmd.exprs.length * 47 + cmd.numOfCols * 30 + 47 * cmd.exprs.length + 20480 := by
      simp only [estimate, metric]
      rfl
    have all : meters cmd = list.sids := by simp only [meters, metric]
    have tags : tagLength cmd = list.tagLen := by simp only [tagLength, metric]
    rw [all, tags] at total
    simp only [sizeofSQueryMeterMsg, sizeofSColumnFilterMsg, minMsgSize, tsRpcHeadSize,
      sizeofSTaosDigest]
    generalize (list.tagLen.toNat + 12) * list.sids.length = product at *
    rcases stored with ⟨fits, same⟩ | ⟨large, less⟩ <;> omega

end Sizes

section Building

variable {cmd : SSqlCmd}

def builtMessage (cmd : SSqlCmd) : SQueryMeterMsg where
  vnode := htons (askedVnode cmd)
  numOfSids := htonl (BitVec.ofNat 32 (meters cmd).length)
  uid := if cmd.pMetricMeta.isSome then 0 else cmd.pMeterMeta.uid
  skey := htobe64 (if cmd.order = TSQL_SO_ASC then cmd.stime else cmd.etime)
  ekey := htobe64 (if cmd.order = TSQL_SO_ASC then cmd.etime else cmd.stime)
  num := htonl 0
  order := htons cmd.order
  orderColId := htons cmd.orderColId
  numOfCols := htons (BitVec.ofNat 16 cmd.colList.length)
  intervalTimeUnit := cmd.intervalTimeUnit
  nAggTimeInterval := htobe64 cmd.nAggTimeInterval
  numOfTagsCols := htons (BitVec.ofNat 16 cmd.tagColumnIndex.length)
  tagLength := htons (tagLength cmd)
  numOfGroupbyCols := htons (BitVec.ofNat 16 cmd.groupby.length)
  orderByIdx := if cmd.groupby = [] then 0 else htons cmd.orderIdx
  orderType := if cmd.groupby = [] then 0 else htons cmd.orderType
  limit := htobe64 cmd.limit
  offset := htobe64 cmd.offset
  metricQuery := htons cmd.metricQuery
  numOfOutputCols := htons (BitVec.ofNat 16 cmd.exprs.length)
  interpoType := htons cmd.interpoType
  colNameLen := htonl (BitVec.ofNat 32 (colNameLen cmd))
  body := columns cmd ++ sections cmd

theorem askedMeters_eq (sendable : Sendable cmd) : askedMeters cmd = .ok (askedVnode cmd,
      if cmd.pMetricMeta.isSome then 0 else cmd.pMeterMeta.uid, meters cmd) := by
  have someMeter := sendable.someMeter
  cases metric : cmd.pMetricMeta with
  | none => simp [askedMeters, askedVnode, meters, metric]
  | some list =>
    simp only [meters, metric] at someMeter
    simp only [askedMeters, askedVnode, meters, metric, require_met someMeter, ok_bind]
    rfl

theorem build_inv (sendable : Sendable cmd) {msg : SQueryMeterMsg}
    (built : tscBuildQueryMsg cmd = .ok msg) :
    ∃ c, writeBody cmd (meters cmd)
        ⟨zeros ((tscEstimateQueryMsgSize cmd).toNat - (tsRpcHeadSize + sizeofSQueryMeterMsg)),
          sizeofSColumnFilterMsg * cmd.colList.length⟩ = .ok c ∧
      sizeofSQueryMeterMsg + c.place + minMsgSize ≤ tscEstimateQueryMsgSize cmd ∧
      msg = { builtMessage cmd with body := c.body.take c.place } := by
  obtain ⟨_, _, built⟩ := bind_ok.mp built
  obtain ⟨header, wrote, built⟩ := bind_ok.mp built
  obtain ⟨_, _, built⟩ := bind_ok.mp built
  obtain ⟨asked, found, built⟩ := bind_ok.mp built
  rw [askedMeters_eq sendable] at found
  cases Except.ok.inj found
  obtain ⟨c, body, built⟩ := bind_ok.mp built
  obtain ⟨_, guarded, built⟩ := bind_ok.mp built
  refine ⟨c, body, require_ok.mp guarded, ?_⟩
  rw [writeHeader, askedMeters_eq sendable, ok_bind] at wrote
  obtain ⟨_, _, wrote⟩ := bind_ok.mp wrote
  obtain ⟨_, _, wrote⟩ := bind_ok.mp wrote
  obtain ⟨_, _, wrote⟩ := bind_ok.mp wrote
  cases Except.ok.inj wrote
  cases Except.ok.inj built
  rfl

theorem build_eq (sendable : Sendable cmd)
    (fits : (sizeofSQueryMeterMsg + (sizeofSColumnFilterMsg * cmd.colList.length +
      (sections cmd).length : Nat) + minMsgSize : Int) ≤ tscEstimateQueryMsgSize cmd) :
    tscBuildQueryMsg cmd = .ok (builtMessage cmd) := by
  have ungrouped : cmd.pMetricMeta = none -> cmd.groupby = [] := by
    intro none
    by_contra some
    have isMetric := (sendable.groupsTagged some).1
    rw [none] at isMetric
    cases isMetric
  have sizes : sizeofSQueryMeterMsg = 250 ∧ minMsgSize = 92 ∧ tsRpcHeadSize = 72 ∧
      sizeofSColumnFilterMsg = 30 := ⟨rfl, rfl, rfl, rfl⟩
  obtain ⟨headerSize, least, rpcHead, entry⟩ := sizes
  rw [headerSize, least, entry] at fits
  generalize sized : tscEstimateQueryMsgSize cmd = size at *
  have start : (⟨zeros (size.toNat - (tsRpcHeadSize + sizeofSQueryMeterMsg)),
      sizeofSColumnFilterMsg * cmd.colList.length⟩ : Cursor) =
      filled (zeros (sizeofSColumnFilterMsg * cmd.colList.length))
        (size.toNat - (tsRpcHeadSize + sizeofSQueryMeterMsg) -
          sizeofSColumnFilterMsg * cmd.colList.length) := by
    rw [filled, <- zeros_split (by rw [headerSize, rpcHead, entry]; omega), List.length_replicate]
  have written := @writeBody_filled cmd (size.toNat - (tsRpcHeadSize + sizeofSQueryMeterMsg) -
    sizeofSColumnFilterMsg * cmd.colList.length) sendable
    (by rw [headerSize, rpcHead, entry]; omega)
  have place (left : Nat) : sizeofSQueryMeterMsg +
      ((filled (columns cmd ++ sections cmd) left).place : Int) + minMsgSize ≤ size := by
    rw [headerSize, least, filled, length_append, columns_length, entry]
    exact fits
  simp only [tscBuildQueryMsg, sized]
  rw [require_met (by omega), ok_bind, writeHeader, askedMeters_eq sendable, ok_bind]
  simp only [require_met sendable.someColumn, require_met sendable.interval, require_met ungrouped,
    ok_bind]
  have whole (left : Nat) : (filled (columns cmd ++ sections cmd) left).body.take
      (filled (columns cmd ++ sections cmd) left).place = columns cmd ++ sections cmd :=
    List.take_left' rfl
  rw [pure_bind, require_met (by rw [headerSize, rpcHead]; omega), ok_bind, start, written, ok_bind,
    require_met (place _), ok_bind, whole]
  rfl

end Building

section Converting

variable {cmd : SSqlCmd} {left right body : List UInt8}

theorem htons_htons (word : BitVec 16) : htons (htons word) = word :=
  reverseBytes_reverseBytes (by decide) word

theorem htonl_htonl (word : BitVec 32) : htonl (htonl word) = word :=
  reverseBytes_reverseBytes (by decide) word

theorem htobe64_htobe64 (word : BitVec 64) : htobe64 (htobe64 word) = word :=
  reverseBytes_reverseBytes (by decide) word

theorem toSchema_reads (cols : List SColumnBase) :
    toSchema (cols.flatMap (nameRecord cmd)) (cols.map (columnInfo cmd)) =
      some (cols.map (sourceColumn cmd)) := by
  induction cols with
  | nil => rfl
  | cons col rest ih =>
    have upTo : (nameRecord cmd col ++ rest.flatMap (nameRecord cmd)).takeWhile (· ≠ comma) =
        columnName cmd col := by
      have all : ∀ byte ∈ columnName cmd col, decide (byte ≠ comma) = true := by
        intro byte member
        rw [decide_eq_true_iff]
        rintro rfl
        exact (cmd.columnSchema col).plain member
      rw [nameRecord, append_assoc, List.takeWhile_append_of_pos all, List.singleton_append,
        List.takeWhile_cons_of_neg (by simp), append_nil]
    have short : (columnName cmd col).length ≤ TSDB_COL_NAME_LEN := by
      rw [<- (cmd.columnSchema col).whole]
      exact (List.takeWhile_sublist _).length_le
    have behind : (nameRecord cmd col ++ rest.flatMap (nameRecord cmd)).drop
        ((columnName cmd col).length + 1) = rest.flatMap (nameRecord cmd) :=
      List.drop_left' (by rw [nameRecord, length_append, List.length_singleton])
    have inside : (columnName cmd col).length <
        (nameRecord cmd col ++ rest.flatMap (nameRecord cmd)).length ∧
        (columnName cmd col).length ≤ TSDB_COL_NAME_LEN := by
      refine ⟨?_, short⟩
      rw [length_append, nameRecord, length_append, List.length_singleton]
      omega
    rw [List.flatMap_cons, map_cons, toSchema]
    simp only [upTo]
    rw [if_pos inside, behind, ih, Option.bind_eq_bind, Option.bind_some]
    rfl

theorem readNames_reads (sendable : Sendable cmd) (short : colNameLen cmd < 2 ^ 31)
    (stands : body = left ++ (names cmd ++ right)) :
    readNames body (cmd.exprs.map exprInfo) (BitVec.ofNat 32 (colNameLen cmd)).toInt left.length =
      .ok (names cmd, ((left ++ names cmd).length : Int)) := by
  have arithmetic : (cmd.exprs.map exprInfo).any (·.functionId = TSDB_FUNC_ARITHM) =
      cmd.hasArithmeticFunction := by
    rw [any_map]
    rfl
  have counted := names_length cmd
  unfold readNames
  rw [arithmetic, toInt_ofNat32 short]
  split
  next has =>
    obtain ⟨col, rest, first⟩ := List.exists_cons_of_ne_nil sendable.someColumn
    have positive : (0 : Int) < colNameLen cmd := by
      rw [colNameLen, if_pos has, first, map_cons, sum_cons]
      omega
    have loaded : load body (left.length : Int) (colNameLen cmd) = some (names cmd) := by
      rw [stands]
      exact load_middle rfl counted.symm
    rw [require_met positive, ok_bind, Int.toNat_natCast, orCrash_ok.mpr loaded, ok_bind,
      length_append, counted]
    push_cast
    rfl
  next other =>
    have none : names cmd = [] := if_neg other
    rw [none, append_nil]
    rfl

theorem readDefaults_read (stands : body = left ++ (defaults cmd ++ right)) :
    readDefaults body cmd.interpoType cmd.exprs.length left.length =
      .ok (if cmd.interpoType ≠ TSDB_INTERPO_NONE then
        (List.range cmd.exprs.length).map cmd.defaultVal else [],
        ((left ++ defaults cmd).length : Int)) := by
  unfold readDefaults
  unfold defaults at stands ⊢
  split
  next filling =>
    rw [if_pos filling] at stands
    have read : readMany (readDefault body) (List.range cmd.exprs.length).length left.length =
        .ok ((List.range cmd.exprs.length).map cmd.defaultVal, ((left ++
          (List.range cmd.exprs.length).flatMap fun i => netBytes 8 (cmd.defaultVal i)).length :
            Int)) :=
      readMany_records (fun _ _ _ _ => readDefault_reads) stands
    rw [List.length_range] at read
    exact read
  next other =>
    rw [append_nil]
    rfl

theorem exprAllowed_iff (cmd : SSqlCmd) (e : SSqlExpr) :
    exprAllowed (cmd.colList.map (columnInfo cmd)) (exprInfo e) ↔ Allowed cmd e := by
  have function : (exprInfo e).functionId = e.sqlFuncId := rfl
  unfold exprAllowed Allowed
  by_cases arithmetic : e.sqlFuncId = TSDB_FUNC_ARITHM
  · rw [if_pos (function.trans arithmetic), if_pos arithmetic]
    exact iff_of_true rfl trivial
  · rw [if_neg (fun same => arithmetic (function.symm.trans same)), if_neg arithmetic]
    by_cases tag : e.sqlFuncId = TSDB_FUNC_TAG ∨ e.sqlFuncId = TSDB_FUNC_TAGPRJ
    · rw [if_pos (by rw [function]; exact tag), if_pos tag]
      rfl
    · rw [if_neg (by rw [function]; exact tag), if_neg tag]
      rw [vnodeValidateExprColumnInfo, any_map, List.any_eq_true]
      constructor
      · rintro ⟨col, member, same⟩
        exact ⟨col, member, of_decide_eq_true same⟩
      · rintro ⟨col, member, same⟩
        exact ⟨col, member, decide_eq_true same⟩

end Converting

section RoundTrips

variable {cmd : SSqlCmd}

def convertedQuery (cmd : SSqlCmd) : QueryInfo where
  vnode := askedVnode cmd
  uid := if cmd.pMetricMeta.isSome then 0 else cmd.pMeterMeta.uid
  skey := if cmd.order = TSQL_SO_ASC then cmd.stime else cmd.etime
  ekey := if cmd.order = TSQL_SO_ASC then cmd.etime else cmd.stime
  order := cmd.order
  orderColId := cmd.orderColId
  intervalTimeUnit := cmd.intervalTimeUnit
  nAggTimeInterval := cmd.nAggTimeInterval
  tagLength := tagLength cmd
  limit := cmd.limit
  offset := cmd.offset
  metricQuery := cmd.metricQuery
  interpoType := cmd.interpoType
  colList := cmd.colList.map (columnInfo cmd)
  exprs := cmd.exprs.map exprInfo
  colNameList := names cmd
  sids := meters cmd
  tagSchema := cmd.tagColumnIndex.map fun index => (cmd.tagSchema index).raw
  groupbyTagIds := cmd.groupby
  orderByIdx := if cmd.groupby = [] then 0 else cmd.orderIdx
  orderType := if cmd.groupby = [] then 0 else cmd.orderType
  defaultVal := if cmd.interpoType ≠ TSDB_INTERPO_NONE then
    (List.range cmd.exprs.length).map cmd.defaultVal else []
  behind := ((columns cmd ++ sections cmd).length : Int)

theorem convertedQuery_same (cmd : SSqlCmd) : SameQuery cmd (convertedQuery cmd) where
  vnode := rfl
  uid none := by simp only [convertedQuery, none]; rfl
  skey := rfl
  ekey := rfl
  order := rfl
  orderColId := rfl
  intervalTimeUnit := rfl
  nAggTimeInterval := rfl
  tagLength := rfl
  limit := rfl
  offset := rfl
  metricQuery := rfl
  interpoType := rfl
  colList := rfl
  exprs := rfl
  source arithmetic := by
    have list : names cmd = cmd.colList.flatMap (nameRecord cmd) := if_pos arithmetic
    simp only [convertedQuery, list]
    exact toSchema_reads cmd.colList
  sids := rfl
  tagSchema := rfl
  groupbyTagIds := rfl
  groupOrder some := ⟨if_neg some, if_neg some⟩
  defaultVal := rfl

theorem htons_unless (condition : Prop) [Decidable condition] (word : BitVec 16) :
    htons (if condition then 0 else htons word) = if condition then 0 else word := by
  split
  · rfl
  · exact htons_htons word

theorem turned_built (cmd : SSqlCmd) : turned (builtMessage cmd) = { builtMessage cmd with
      vnode := askedVnode cmd
      numOfSids := BitVec.ofNat 32 (meters cmd).length
      skey := if cmd.order = TSQL_SO_ASC then cmd.stime else cmd.etime
      ekey := if cmd.order = TSQL_SO_ASC then cmd.etime else cmd.stime
      num := 0
      order := cmd.order
      orderColId := cmd.orderColId
      metricQuery := cmd.metricQuery
      nAggTimeInterval := cmd.nAggTimeInterval
      numOfTagsCols := BitVec.ofNat 16 cmd.tagColumnIndex.length
      numOfCols := BitVec.ofNat 16 cmd.colList.length
      numOfOutputCols := BitVec.ofNat 16 cmd.exprs.length
      numOfGroupbyCols := BitVec.ofNat 16 cmd.groupby.length
      tagLength := tagLength cmd
      limit := cmd.limit
      offset := cmd.offset } := by
  simp only [turned, builtMessage, htons_htons, htonl_htonl, htobe64_htobe64]

theorem validate_turned (sendable : Sendable cmd) (carried : Carried cmd)
    (fewMeters : (meters cmd).length < 2 ^ 31) :
    validateQueryMeterMsg (turned (builtMessage cmd)) := by
  have tags : cmd.tagColumnIndex.length ≤ 6 := carried.tags
  have cols : cmd.colList.length ≤ 256 := carried.columns
  have outputs : 0 < cmd.exprs.length ∧ cmd.exprs.length ≤ 256 := carried.outputs
  have groups : cmd.groupby.length ≤ 6 := cmd.fewGroups
  have someColumn := List.length_pos_iff.mpr sendable.someColumn
  have someMeter := List.length_pos_iff.mpr sendable.someMeter
  have tagLen := carried.tagLen
  have signed : 0 ≤ (tagLength cmd).toInt := by
    rw [BitVec.toInt_eq_toNat_of_lt (by omega)]
    omega
  rw [turned_built]
  simp only [validateQueryMeterMsg, TSDB_MAX_TAGS, TSDB_MAX_COLUMNS]
  rw [toInt_ofNat16 (by omega), toInt_ofNat16 (by omega), toInt_ofNat16 (by omega),
    toInt_ofNat16 (by omega), toInt_ofNat32 fewMeters]
  refine decide_eq_true ⟨sendable.interval, by omega, by omega, by omega, by omega, by omega, signed⟩

theorem order_turned (list : List (BitVec 16)) (count : Nat) (word : BitVec 16) :
    (if (0 : Int) < list.length ∨ (0 : Int) < count then if list = [] then 0 else word
      else if list = [] then 0 else htons word) = if list = [] then 0 else word := by
  cases list with
  | nil => simp
  | cons first rest =>
    have some : (0 : Int) < (first :: rest).length := by
      rw [List.length_cons]
      omega
    rw [if_pos (Or.inl some)]

theorem convert_built (sendable : Sendable cmd) (carried : Carried cmd)
    (small : (sections cmd).length < 2 ^ 31) :
    vnodeConvertQueryMeterMsg (builtMessage cmd) = .ok (convertedQuery cmd) := by
  have parts : (sections cmd).length = _ := sections_length sendable
  have fewMeters : (meters cmd).length < 2 ^ 31 := by
    have : (meters cmd).length ≤ ((tagLength cmd).toNat + 12) * (meters cmd).length :=
      Nat.le_mul_of_pos_left _ (by omega)
    omega
  have tags : cmd.tagColumnIndex.length ≤ 6 := carried.tags
  have cols : cmd.colList.length ≤ 256 := carried.columns
  have outputs : 0 < cmd.exprs.length ∧ cmd.exprs.length ≤ 256 := carried.outputs
  have groupsFew : cmd.groupby.length ≤ 6 := cmd.fewGroups
  have tagged : (tagLength cmd).toInt = (tagLength cmd).toNat :=
    BitVec.toInt_eq_toNat_of_lt (by have := carried.tagLen; omega)
  -- each section stands behind the ones before it
  have places : columns cmd ++ (filterTexts cmd ++ (expressions cmd ++ (names cmd ++
      (meterTags cmd ++ (tagSchemas cmd ++ (groups cmd ++ defaults cmd)))))) =
      columns cmd ++ sections cmd := rfl
  generalize stands : columns cmd ++ sections cmd = body at places
  have readCols : readMany (readColumn body) cmd.colList.length
      (0, ((sizeofSColumnFilterMsg * cmd.colList.length : Nat) : Int)) =
      .ok (cmd.colList.map (columnInfo cmd),
        (0 + cmd.colList.length, ((columns cmd ++ filterTexts cmd).length : Int))) := by
    rw [<- columns_length]
    exact @readColumns_read cmd body (columns cmd) _ cmd.colList [] _ 0
      (fun col member => (sendable.columnKnown col member).2)
      (by have := filterTexts_length cmd; rw [filterTexts] at this; omega) rfl stands.symm stands.symm
  have readExprs : readMany (readExpr body (cmd.colList.map (columnInfo cmd))) cmd.exprs.length
      ((columns cmd ++ filterTexts cmd).length : Int) =
      .ok (cmd.exprs.map exprInfo, ((columns cmd ++ filterTexts cmd ++ expressions cmd).length :
        Int)) :=
    readMany_records (fun e member _ _ => readExpr_reads (carried.params e member)
      ((exprAllowed_iff cmd e).mpr (carried.allowed e member)))
      (by rw [<- places, expressions, append_assoc])
  have readNames : readNames body (cmd.exprs.map exprInfo) (BitVec.ofNat 32 (colNameLen cmd)).toInt
      ((columns cmd ++ filterTexts cmd ++ expressions cmd).length : Int) =
      .ok (names cmd,
        ((columns cmd ++ filterTexts cmd ++ expressions cmd ++ names cmd).length : Int)) :=
    readNames_reads sendable (by omega) (by rw [<- places]; simp only [append_assoc]; rfl)
  have readMeters : readMany (readMeter body (tagLength cmd).toNat) (meters cmd).length
      ((columns cmd ++ filterTexts cmd ++ expressions cmd ++ names cmd).length : Int) =
      .ok ((meters cmd).map id, ((columns cmd ++ filterTexts cmd ++ expressions cmd ++ names cmd ++
        meterTags cmd).length : Int)) :=
    readMany_records
      (fun info member _ _ stands => by rw [<- meters_tagged member]; exact readMeter_reads stands)
      (by rw [<- places, meterTags]; simp only [append_assoc]; rfl)
  have readSchemas : readMany (readTagSchema body) cmd.tagColumnIndex.length
      ((columns cmd ++ filterTexts cmd ++ expressions cmd ++ names cmd ++ meterTags cmd).length : Int) =
      .ok (cmd.tagColumnIndex.map fun index => (cmd.tagSchema index).raw,
        ((columns cmd ++ filterTexts cmd ++ expressions cmd ++ names cmd ++ meterTags cmd ++
          tagSchemas cmd).length : Int)) := by
    rw [tagSchemas_eq sendable]
    exact readMany_records (fun _ _ _ _ => readTagSchema_reads)
      (by rw [<- places, tagSchemas_eq sendable]; simp only [append_assoc]; rfl)
  have readGroups : readMany (readGroup body) cmd.groupby.length
      ((columns cmd ++ filterTexts cmd ++ expressions cmd ++ names cmd ++ meterTags cmd ++
        tagSchemas cmd).length : Int) =
      .ok (cmd.groupby.map id, ((columns cmd ++ filterTexts cmd ++ expressions cmd ++ names cmd ++
        meterTags cmd ++ tagSchemas cmd ++ groups cmd).length : Int)) :=
    readMany_records (fun _ _ _ _ => readGroup_reads)
      (by rw [<- places, groups]; simp only [append_assoc]; rfl)
  have readFills : readDefaults body cmd.interpoType cmd.exprs.length
      ((columns cmd ++ filterTexts cmd ++ expressions cmd ++ names cmd ++ meterTags cmd ++
        tagSchemas cmd ++ groups cmd).length : Int) =
      .ok (if cmd.interpoType ≠ TSDB_INTERPO_NONE then
        (List.range cmd.exprs.length).map cmd.defaultVal else [], ((columns cmd ++ filterTexts cmd ++
        expressions cmd ++ names cmd ++ meterTags cmd ++ tagSchemas cmd ++ groups cmd ++
        defaults cmd).length : Int)) :=
    @readDefaults_read cmd _ [] body (by rw [<- places, append_nil]; simp only [append_assoc])
  rw [vnodeConvertQueryMeterMsg, require_met (validate_turned sendable carried fewMeters), ok_bind,
    turned_built]
  simp only [builtMessage, stands, htons_unless, htons_htons, htonl_htonl,
    toInt_ofNat16 (by omega : cmd.colList.length < 2 ^ 15),
    toInt_ofNat16 (by omega : cmd.exprs.length < 2 ^ 15),
    toInt_ofNat16 (by omega : cmd.tagColumnIndex.length < 2 ^ 15),
    toInt_ofNat16 (by omega : cmd.groupby.length < 2 ^ 15),
    toInt_ofNat32 fewMeters, tagged, Int.toNat_natCast, readCols, readExprs, readNames, readMeters,
    readSchemas, readGroups, readFills, ok_bind, List.map_id]
  rw [order_turned, order_turned, convertedQuery, stands, <- places]
  simp only [append_assoc]
  rfl

theorem readArg_short {body : List UInt8} {pExprMsg : Int} {s s' : Nat × Int} {arg : ArgElem}
    (read : readArg body pExprMsg s = .ok (arg, s')) :
    ∀ pz, arg = .text pz -> pz.length < 2 ^ 15 := by
  obtain ⟨argType, _, read⟩ := bind_ok.mp read
  obtain ⟨argBytes, _, read⟩ := bind_ok.mp read
  intro pz isText
  split at read
  · obtain ⟨text, loaded, result⟩ := bind_ok.mp read
    cases Except.ok.inj result
    cases isText
    have counted := (load_inside (orCrash_ok.mp loaded)).2.2
    have bound := BitVec.toInt_lt (x := argBytes)
    omega
  · obtain ⟨value, _, result⟩ := bind_ok.mp read
    cases Except.ok.inj result
    cases isText

theorem readExpr_checked {body : List UInt8} {colList : List ColumnInfo} {pMsg pMsg' : Int}
    {e : SqlFuncExpr} (read : readExpr body colList pMsg = .ok (e, pMsg')) :
    exprAllowed colList e ∧ ∀ pz, ArgElem.text pz ∈ e.arg -> pz.length < 2 ^ 15 := by
  obtain ⟨colIdx, _, read⟩ := bind_ok.mp read
  obtain ⟨colId, _, read⟩ := bind_ok.mp read
  obtain ⟨functionId, _, read⟩ := bind_ok.mp read
  obtain ⟨numOfParams, _, read⟩ := bind_ok.mp read
  obtain ⟨isTag, _, read⟩ := bind_ok.mp read
  obtain ⟨⟨arg, s⟩, args, read⟩ := bind_ok.mp read
  obtain ⟨_, checked, result⟩ := bind_ok.mp read
  cases Except.ok.inj result
  refine ⟨require_ok.mp checked, fun pz member => ?_⟩
  exact readMany_all (fun _ _ _ => readArg_short) args _ member pz rfl

theorem convert_inv {msg : SQueryMeterMsg} {q : QueryInfo}
    (converted : vnodeConvertQueryMeterMsg msg = .ok q) : validateQueryMeterMsg (turned msg) ∧
      q.colList.length = (turned msg).numOfCols.toInt.toNat ∧
      q.exprs.length = (turned msg).numOfOutputCols.toInt.toNat ∧
      ∀ e ∈ q.exprs, exprAllowed q.colList e ∧
        ∀ pz, ArgElem.text pz ∈ e.arg -> pz.length < 2 ^ 15 := by
  obtain ⟨_, validated, rest⟩ := bind_ok.mp converted
  obtain ⟨⟨colList, s⟩, cols, rest⟩ := bind_ok.mp rest
  obtain ⟨⟨exprs, _⟩, read, rest⟩ := bind_ok.mp rest
  obtain ⟨⟨_, _⟩, _, rest⟩ := bind_ok.mp rest
  obtain ⟨⟨_, _⟩, _, rest⟩ := bind_ok.mp rest
  obtain ⟨⟨_, _⟩, _, rest⟩ := bind_ok.mp rest
  obtain ⟨⟨_, _⟩, _, rest⟩ := bind_ok.mp rest
  obtain ⟨⟨_, _⟩, _, result⟩ := bind_ok.mp rest
  cases Except.ok.inj result
  exact ⟨require_ok.mp validated, readMany_length cols, readMany_length read,
    readMany_all (fun _ _ _ => readExpr_checked) read⟩

theorem roundTrip_carried (sendable : Sendable cmd) (round : RoundTrip cmd) : Carried cmd := by
  obtain ⟨msg, q, built, converted, same, _⟩ := round
  obtain ⟨c, written, guarded, rfl⟩ := build_inv sendable built
  obtain ⟨validated, cols, outs, checked⟩ := convert_inv converted
  have valid : validateQueryMeterMsg (turned (builtMessage cmd)) := validated
  have colCount : q.colList.length = (turned (builtMessage cmd)).numOfCols.toInt.toNat := cols
  have outCount : q.exprs.length = (turned (builtMessage cmd)).numOfOutputCols.toInt.toNat := outs
  rw [turned_built] at valid colCount outCount
  obtain ⟨_, ⟨_, tags⟩, ⟨_, fewCols⟩, _, _, ⟨fewOuts, someOut⟩, tagLen⟩ := of_decide_eq_true valid
  rw [same.colList, List.length_map] at colCount
  rw [same.exprs, List.length_map] at outCount
  rw [toInt_ofNat16 (by have := cmd.fewTags; simp only [TSDB_MAX_TAGS] at this; omega)] at tags
  simp only at fewCols fewOuts someOut colCount outCount tagLen
  have outputs : cmd.exprs.length ≤ TSDB_MAX_COLUMNS := by omega
  have place := writeBody_counts written
  simp only at place
  refine ⟨(room_iff sendable outputs).mp ?_, by omega, ⟨by omega, outputs⟩, by exact_mod_cast tags, ?_, ?_, ?_⟩
  · rw [<- place]
    exact guarded
  · rw [BitVec.toInt_eq_toNat_cond] at tagLen
    split at tagLen <;> omega
  · intro e member p param binary
    have expected : exprInfo e ∈ q.exprs := by
      rw [same.exprs]
      exact List.mem_map_of_mem member
    have text : ArgElem.text p.pz ∈ (exprInfo e).arg := by
      have is : argElem p = .text p.pz := if_pos binary
      exact is ▸ List.mem_map_of_mem param
    exact (checked _ expected).2 _ text
  · intro e member
    have expected : exprInfo e ∈ q.exprs := by
      rw [same.exprs]
      exact List.mem_map_of_mem member
    have allowed := (checked _ expected).1
    rw [same.colList] at allowed
    exact (exprAllowed_iff cmd e).mp allowed

theorem carried_roundTrip (sendable : Sendable cmd) (carried : Carried cmd) : RoundTrip cmd := by
  have guarded := (room_iff sendable carried.outputs.2).mpr carried.room
  have bounded : tscEstimateQueryMsgSize cmd < 2 ^ 31 := by
    have := BitVec.toInt_lt (x := BitVec.ofNat 32 (estimate cmd))
    exact this
  have small : (sections cmd).length < 2 ^ 31 := by
    simp only [sizeofSQueryMeterMsg, sizeofSColumnFilterMsg, minMsgSize, tsRpcHeadSize,
      sizeofSTaosDigest] at guarded
    omega
  exact ⟨builtMessage cmd, convertedQuery cmd, build_eq sendable guarded,
    convert_built sendable carried small, convertedQuery_same cmd, rfl⟩

/-- A command object comes through exactly under the condition. -/
theorem queryRoundTrip_iff (sendable : Sendable cmd) : RoundTrip cmd ↔ Carried cmd :=
  ⟨roundTrip_carried sendable, carried_roundTrip sendable⟩

end RoundTrips

def TSDB_FUNC_PRJ : BitVec 16 := 19

def schemaOf (type letter : UInt8) (colId bytes : BitVec 16) (named : letter ≠ comma) : SSchema
    where
  type := type
  name := letter :: zeros 63
  colId := colId
  bytes := bytes
  whole := rfl
  ended := List.mem_cons_of_mem _ (List.mem_replicate.mpr ⟨by decide, rfl⟩)
  plain := by
    have behind : (zeros 63).takeWhile (· ≠ 0) = [] := rfl
    rw [cString, List.takeWhile_cons, behind]
    split
    · exact fun member => named (List.mem_singleton.mp member).symm
    · exact List.not_mem_nil

/-- The columns `t` and `v`, and six integer tags. -/
def metersMeta : SMeterMeta where
  vnode := 3
  uid := 77
  sid := 5
  schema := [schemaOf 9 0x74 0 8 (by decide), schemaOf 4 0x76 1 4 (by decide)]
  tagSchema := (List.range 6).map fun i => schemaOf 4 0x67 (BitVec.ofNat 16 (i + 2)) 4 (by decide)

def projection (colId : BitVec 16) (isTag : Bool) : SSqlExpr where
  sqlFuncId := if isTag then TSDB_FUNC_TAGPRJ else TSDB_FUNC_PRJ
  colId := colId
  colIdx := colId
  isTag := isTag
  param := []
  few := by decide

/-- `select t, v from ..` with the tags that are asked for. -/
def projectionOf (pMetricMeta : Option SMetricMeta) (tagColumnIndex : List Int)
    (exprs : List SSqlExpr) (fewTags : tagColumnIndex.length ≤ TSDB_MAX_TAGS + 1) : SSqlCmd where
  pMeterMeta := metersMeta
  pMetricMeta := pMetricMeta
  order := TSQL_SO_ASC
  orderColId := 0
  metricQuery := 0
  intervalTimeUnit := 0
  stime := 0
  etime := 1000
  nAggTimeInterval := 0
  limit := -1
  offset := 0
  interpoType := TSDB_INTERPO_NONE
  numOfCols := 0
  colList := [⟨0, 0, 0, 0, 0, 0, 0, [], by decide⟩, ⟨1, 1, 5, 0, 0, 100, 0, [], by decide⟩]
  exprs := exprs
  tagColumnIndex := tagColumnIndex
  groupby := []
  orderIdx := 0
  orderType := 0
  defaultVal := fun _ => 0
  short := by decide
  fewTags := fewTags
  fewGroups := by decide

def selectColumns : SSqlCmd :=
  projectionOf none [] [projection 0 false, projection 1 false] (by decide)

theorem selectColumns_sendable : Sendable selectColumns where
  someColumn := by decide
  interval := by decide
  columnKnown := by decide
  exprKnown := by decide
  someMeter := by decide
  groupsTagged := by decide
  tagsOfMetric := by decide

theorem selectColumns_arrives : Sendable selectColumns ∧ RoundTrip selectColumns := by
  refine ⟨selectColumns_sendable, (queryRoundTrip_iff selectColumns_sendable).mpr ?_⟩
  exact {
    room := show 12 + (30 * 2 + 0 + 0 + 0 + 0) ≤ 20480 + 30 * 0 by decide
    columns := by decide
    outputs := by decide
    tags := by decide
    tagLen := by decide
    params := by decide
    allowed := by decide }

/-- Every tag and `tbname`, of the meters of a super table with `TSDB_MAX_TAGS` tags. -/
def selectAllTags : SSqlCmd :=
  projectionOf (some ⟨3, 88, [⟨5, zeros 88⟩], by decide⟩) [-1, 0, 1, 2, 3, 4, 5]
    ([projection 0 false, projection 1 false, projection (-1) true] ++
      (List.range 6).map fun i => projection (BitVec.ofNat 16 (i + 2)) true) (by decide)

theorem selectAllTags_sendable : Sendable selectAllTags where
  someColumn := by decide
  interval := by decide
  columnKnown := by decide
  exprKnown := by decide
  someMeter := by decide
  groupsTagged := by decide
  tagsOfMetric := by decide

/-- The client counts `tbname` as one more tag, the vnode does not. -/
theorem selectAllTags_refused : Sendable selectAllTags ∧ ¬RoundTrip selectAllTags := by
  refine ⟨selectAllTags_sendable, fun round => ?_⟩
  have tags := (roundTrip_carried selectAllTags_sendable round).tags
  exact absurd tags (by decide)

end Luomi.Vnode.QueryRoundTrip
