import Luomi.Client.QueryEncode
import Luomi.Vnode.QueryConvert

/-!
# Reading the sections of a query message

Where the bytes of a record stand in the message, the vnode reads the record and comes to
the place behind it.  The columns are read from two places at once: the entries at the
front and the texts behind them.
-/

namespace Luomi.Vnode.QueryDecode
open LittleEndian ByteBuffer Client.QueryMessage Client.QueryEncode QueryConvert
open List (append_assoc append_nil flatMap_cons length_append map_cons)

def columnInfo (cmd : SSqlCmd) (col : SColumnBase) : ColumnInfo where
  colId := (cmd.columnSchema col).colId
  type := BitVec.ofNat 16 (cmd.columnSchema col).type.toNat
  bytes := (cmd.columnSchema col).bytes
  filterOn := col.filterOn
  lowerRelOptr := col.lowerRelOptr
  upperRelOptr := col.upperRelOptr
  filterOnBinary := col.filterOnBinary
  filter := if col.onText then .text col.pz else .bounds col.lowerBndi col.upperBndi

def argElem (p : tVariant) : ArgElem :=
  if p.nType = TSDB_DATA_TYPE_BINARY then .text p.pz else .number p.nType p.i64Key

def exprInfo (e : SSqlExpr) : SqlFuncExpr where
  functionId := e.sqlFuncId
  colId := e.colId
  colIdx := e.colIdx
  isTag := e.isTag
  arg := e.param.map argElem

def sourceColumn (cmd : SSqlCmd) (col : SColumnBase) : SourceColumn where
  type := BitVec.ofNat 16 (cmd.columnSchema col).type.toNat
  bytes := (cmd.columnSchema col).bytes
  colId := (cmd.columnSchema col).colId
  name := columnName cmd col

theorem toInt_ofNat16 {value : Nat} (small : value < 2 ^ 15) :
    (BitVec.ofNat 16 value).toInt = value := by
  rw [BitVec.toInt_eq_toNat_cond, BitVec.toNat_ofNat, Nat.mod_eq_of_lt (by omega),
    if_pos (by omega)]

theorem toInt_ofNat64 {value : Nat} (small : value < 2 ^ 63) :
    (BitVec.ofNat 64 value).toInt = value := by
  rw [BitVec.toInt_eq_toNat_cond, BitVec.toNat_ofNat, Nat.mod_eq_of_lt (by omega),
    if_pos (by omega)]

section Reading

variable {cmd : SSqlCmd} {body left right : List UInt8} {place : Int} {fields : List (List UInt8)}

theorem word16_at {word : BitVec 16} (k : Nat) (stands : body = left ++ (fields.flatten ++ right))
    (found : fields[k]? = some (netBytes 2 word))
    (located : place = left.length + (fields.take k).flatten.length) :
    word16 body place = .ok word :=
  orCrash_ok.mpr (loadNet_at k (by decide) stands found located)

theorem word64_at {word : BitVec 64} (k : Nat) (stands : body = left ++ (fields.flatten ++ right))
    (found : fields[k]? = some (netBytes 8 word))
    (located : place = left.length + (fields.take k).flatten.length) :
    word64 body place = .ok word :=
  orCrash_ok.mpr (loadNet_at k (by decide) stands found located)

theorem copyText_reads {pz : List UInt8} (unmarked : 0 ∉ pz)
    (stands : body = left ++ ((pz ++ [0]) ++ right)) :
    copyText body left.length pz.length = .ok pz := by
  have rest : body.drop left.length = pz ++ (0 :: right) := by
    rw [stands, List.drop_left' rfl, append_assoc]
    rfl
  have marked : 0 ∈ pz ++ (0 :: right) := by simp
  have upTo : cString (pz ++ (0 :: right)) = pz := by
    have all : ∀ byte ∈ pz, decide (byte ≠ 0) = true := by
      intro byte member
      rw [decide_eq_true_iff]
      rintro rfl
      exact unmarked member
    rw [cString, List.takeWhile_append_of_pos all, List.takeWhile_cons_of_neg (by simp), append_nil]
  rw [copyText, require_met (Int.natCast_nonneg _), ok_bind, Int.toNat_natCast]
  simp only [rest, upTo]
  rw [require_met marked, ok_bind, require_met (le_refl _), ok_bind]
  rfl

theorem readColumn_reads {front after : List UInt8} {i : Nat} {col : SColumnBase}
    (low : TSDB_DATA_TYPE_BOOL ≤ (cmd.columnSchema col).type)
    (high : (cmd.columnSchema col).type ≤ TSDB_DATA_TYPE_NCHAR)
    (short : (filterBytes col).length < 2 ^ 31)
    (counted : front.length = sizeofSColumnFilterMsg * i)
    (entry : body = front ++ (columnBytes cmd col ++ after))
    (text : body = left ++ (filterBytes col ++ right)) : readColumn body (i, (left.length : Int)) =
      .ok (columnInfo cmd col, (i + 1, ((left ++ filterBytes col).length : Int))) := by
  have colId : word16 body (sizeofSColumnFilterMsg * i : Nat) = .ok (cmd.columnSchema col).colId :=
    word16_at 0 entry rfl (by simp [counted])
  have type : word16 body ((sizeofSColumnFilterMsg * i : Nat) + 2) =
      .ok (BitVec.ofNat 16 (cmd.columnSchema col).type.toNat) :=
    word16_at 1 entry rfl (by simp [columnFields, counted])
  have bytes : word16 body ((sizeofSColumnFilterMsg * i : Nat) + 4) =
      .ok (cmd.columnSchema col).bytes :=
    word16_at 2 entry rfl (by simp [columnFields, counted])
  have filterOn : word16 body ((sizeofSColumnFilterMsg * i : Nat) + 6) = .ok col.filterOn :=
    word16_at 3 entry rfl (by simp [columnFields, counted])
  have lowerRelOptr : word16 body ((sizeofSColumnFilterMsg * i : Nat) + 8) = .ok col.lowerRelOptr :=
    word16_at 4 entry rfl (by simp [columnFields, counted])
  have upperRelOptr : word16 body ((sizeofSColumnFilterMsg * i : Nat) + 10) = .ok col.upperRelOptr :=
    word16_at 5 entry rfl (by simp [columnFields, counted])
  have filterOnBinary : word16 body ((sizeofSColumnFilterMsg * i : Nat) + 12) =
      .ok col.filterOnBinary :=
    word16_at 6 entry rfl (by simp [columnFields, counted])
  have second : word64 body ((sizeofSColumnFilterMsg * i : Nat) + 22) =
      .ok (if col.onText then BitVec.ofNat 64 col.pz.length else col.upperBndi) :=
    word64_at 8 entry rfl (by unfold columnFields; split <;> simp [counted])
  have typed : TSDB_DATA_TYPE_BOOL.toNat ≤ (BitVec.ofNat 16 (cmd.columnSchema col).type.toNat).toInt ∧
      (BitVec.ofNat 16 (cmd.columnSchema col).type.toNat).toInt ≤ TSDB_DATA_TYPE_NCHAR.toNat := by
    have least := UInt8.le_iff_toNat_le.mp low
    have most := UInt8.le_iff_toNat_le.mp high
    have byte := (cmd.columnSchema col).type.toNat_lt
    rw [toInt_ofNat16 (by omega)]
    exact ⟨by exact_mod_cast least, by exact_mod_cast most⟩
  simp only [readColumn, colId, type, bytes, ok_bind, require_met typed, filterOn, filterOnBinary,
    lowerRelOptr, upperRelOptr, second]
  by_cases onText : col.onText
  · have texts : filterBytes col = col.pz ++ [0] := if_pos onText
    have flags : col.filterOn ≠ 0 ∧ col.filterOnBinary ≠ 0 := onText
    rw [texts] at text short
    rw [length_append, List.length_singleton] at short
    rw [if_pos onText, if_pos flags, texts, toInt_ofNat64 (by omega),
      copyText_reads col.ended text, ok_bind, columnInfo, if_pos onText]
    simp only [length_append, List.length_singleton]
    push_cast
    simp only [pure, Except.pure, Int.add_assoc]
  · have first : word64 body ((sizeofSColumnFilterMsg * i : Nat) + 14) = .ok col.lowerBndi := by
      refine word64_at 7 entry ?_ (by simp [columnFields, counted])
      simp [columnFields, onText]
    have texts : filterBytes col = [] := if_neg onText
    have flags : ¬(col.filterOn ≠ 0 ∧ col.filterOnBinary ≠ 0) := onText
    rw [if_neg onText, if_neg flags, first, ok_bind, texts, columnInfo, if_neg onText, append_nil]
    rfl

theorem readColumns_read {cols : List SColumnBase} {front after : List UInt8} {i : Nat}
    (known : ∀ col ∈ cols, TSDB_DATA_TYPE_BOOL ≤ (cmd.columnSchema col).type ∧
      (cmd.columnSchema col).type ≤ TSDB_DATA_TYPE_NCHAR)
    (short : (cols.flatMap filterBytes).length < 2 ^ 31)
    (counted : front.length = sizeofSColumnFilterMsg * i)
    (entries : body = front ++ (cols.flatMap (columnBytes cmd) ++ after))
    (texts : body = left ++ (cols.flatMap filterBytes ++ right)) :
    readMany (readColumn body) cols.length (i, (left.length : Int)) =
      .ok (cols.map (columnInfo cmd),
        (i + cols.length, ((left ++ cols.flatMap filterBytes).length : Int))) := by
  induction cols generalizing front left i with
  | nil =>
    rw [List.flatMap_nil, append_nil]
    rfl
  | cons col rest ih =>
    obtain ⟨low, high⟩ := known col List.mem_cons_self
    rw [flatMap_cons, length_append] at short
    have entry : body = front ++ (columnBytes cmd col ++
        (rest.flatMap (columnBytes cmd) ++ after)) := by
      rw [entries, flatMap_cons, append_assoc]
    have text : body = left ++ (filterBytes col ++ (rest.flatMap filterBytes ++ right)) := by
      rw [texts, flatMap_cons, append_assoc]
    have first := readColumn_reads low high (by omega) counted entry text
    have further : (front ++ columnBytes cmd col).length = sizeofSColumnFilterMsg * (i + 1) := by
      rw [length_append, counted, columnBytes_length, Nat.mul_succ]
    have others := ih (fun c member => known c (List.mem_cons_of_mem _ member)) (by omega) further
      (by rw [entry, append_assoc]) (by rw [text, append_assoc])
    rw [List.length_cons, readMany_cons first others, map_cons, flatMap_cons,
      append_assoc, Nat.add_assoc, Nat.add_comm 1]

theorem readArg_reads {expr : Int} {front after : List UInt8} {j : Nat} {p : tVariant}
    (short : p.nType = TSDB_DATA_TYPE_BINARY -> p.pz.length < 2 ^ 15)
    (located : expr + (11 + 12 * j : Nat) = front.length)
    (entry : body = front ++ (argBytes p ++ after)) (text : body = left ++ (textBytes p ++ right)) :
    readArg body expr (j, (left.length : Int)) =
      .ok (argElem p, (j + 1, ((left ++ textBytes p).length : Int))) := by
  have argType : word16 body (expr + (11 + 12 * j : Nat)) = .ok p.nType :=
    word16_at 0 entry rfl (by rw [located]; simp)
  have bytes : word16 body (expr + (11 + 12 * j : Nat) + 2) = .ok (BitVec.ofNat 16 p.nLen) :=
    word16_at 1 entry rfl (by rw [located]; simp [argFields])
  simp only [readArg, argType, bytes, ok_bind]
  by_cases binary : p.nType = TSDB_DATA_TYPE_BINARY
  · have texts : textBytes p = p.pz ++ [0] := if_pos binary
    have loaded : load body (left.length : Int) p.pz.length = some p.pz := by
      rw [text, texts, append_assoc]
      exact load_middle rfl rfl
    rw [if_pos binary, p.counted binary, toInt_ofNat16 (short binary), Int.toNat_natCast, loaded,
      argElem, if_pos binary, texts]
    simp only [length_append, List.length_singleton]
    push_cast
    simp only [orCrash, ok_bind, pure, Except.pure, Int.add_assoc]
  · have value : word64 body (expr + (11 + 12 * j : Nat) + 4) = .ok p.i64Key := by
      refine word64_at 2 entry ?_ (by rw [located]; simp [argFields])
      simp [argFields, binary]
    have texts : textBytes p = [] := if_neg binary
    rw [if_neg binary, value, ok_bind, argElem, if_neg binary, texts, append_nil]
    rfl

theorem readArgs_read {params : List tVariant} {expr : Int} {front after : List UInt8} {j : Nat}
    (short : ∀ p ∈ params, p.nType = TSDB_DATA_TYPE_BINARY -> p.pz.length < 2 ^ 15)
    (located : expr + (11 + 12 * j : Nat) = front.length)
    (entries : body = front ++ (params.flatMap argBytes ++ after))
    (texts : body = left ++ (params.flatMap textBytes ++ right)) :
    readMany (readArg body expr) params.length (j, (left.length : Int)) = .ok (params.map argElem,
        (j + params.length, ((left ++ params.flatMap textBytes).length : Int))) := by
  induction params generalizing front left j with
  | nil =>
    rw [List.flatMap_nil, append_nil]
    rfl
  | cons p rest ih =>
    have entry : body = front ++ (argBytes p ++ (rest.flatMap argBytes ++ after)) := by
      rw [entries, flatMap_cons, append_assoc]
    have text : body = left ++ (textBytes p ++ (rest.flatMap textBytes ++ right)) := by
      rw [texts, flatMap_cons, append_assoc]
    have first := readArg_reads (short p List.mem_cons_self) located entry text
    have further : expr + (11 + 12 * (j + 1) : Nat) = ((front ++ argBytes p).length : Int) := by
      rw [length_append, argBytes_length]
      push_cast at located ⊢
      omega
    have others := ih (fun q member => short q (List.mem_cons_of_mem _ member)) further
      (by rw [entry, append_assoc]) (by rw [text, append_assoc])
    rw [List.length_cons, readMany_cons first others, map_cons, flatMap_cons,
      append_assoc, Nat.add_assoc, Nat.add_comm 1]

theorem readExpr_reads {colList : List ColumnInfo} {e : SSqlExpr}
    (short : ∀ p ∈ e.param, p.nType = TSDB_DATA_TYPE_BINARY -> p.pz.length < 2 ^ 15)
    (allowed : exprAllowed colList (exprInfo e)) (stands : body = left ++ (exprRecord e ++ right)) :
    readExpr body colList left.length =
      .ok (exprInfo e, ((left ++ exprRecord e).length : Int)) := by
  have head : body = left ++ ((exprFields e).flatten ++ (e.param.flatMap argBytes ++
      (zeros (12 * (3 - e.param.length)) ++ (e.param.flatMap textBytes ++ right)))) := by
    rw [stands, exprRecord, exprBytes]
    simp only [append_assoc]
  have texts : body = (left ++ exprBytes e) ++ (e.param.flatMap textBytes ++ right) := by
    rw [stands, exprRecord]
    simp only [append_assoc]
  have args : body = (left ++ (exprFields e).flatten) ++ (e.param.flatMap argBytes ++
      (zeros (12 * (3 - e.param.length)) ++ (e.param.flatMap textBytes ++ right))) := by
    rw [head, append_assoc]
  have few := e.few
  have colIdx : word16 body ((left.length : Int) + 6) = .ok e.colIdx :=
    word16_at 3 head rfl (by simp [exprFields])
  have colId : word16 body ((left.length : Int) + 4) = .ok e.colId :=
    word16_at 2 head rfl (by simp [exprFields])
  have functionId : word16 body (left.length : Int) = .ok e.sqlFuncId :=
    word16_at 0 head rfl (by simp)
  have numOfParams : word16 body ((left.length : Int) + 2) = .ok (BitVec.ofNat 16 e.param.length) :=
    word16_at 1 head rfl (by simp [exprFields])
  have isTag : load body ((left.length : Int) + 10) 1 = some [if e.isTag then 1 else 0] :=
    load_at 5 head rfl (by simp [exprFields]) rfl
  have flag : decide ([if e.isTag then (1 : UInt8) else 0] ≠ [0]) = e.isTag := by
    cases e.isTag <;> rfl
  have read := @readArgs_read body (left ++ exprBytes e) _ e.param (left.length : Int) _ _ 0 short
    (by simp [exprFields]) args texts
  have behind : ((left ++ exprBytes e).length : Int) = left.length + sizeofSSqlFuncExprMsg := by
    rw [length_append, exprBytes_length]
    push_cast
    rfl
  rw [behind] at read
  simp only [readExpr, colIdx, colId, functionId, numOfParams, isTag, orCrash, ok_bind,
    toInt_ofNat16 (by omega : e.param.length < 2 ^ 15), Int.toNat_natCast, read, flag]
  have whole : (⟨e.sqlFuncId, e.colId, e.colIdx, e.isTag, e.param.map argElem⟩ : SqlFuncExpr) =
      exprInfo e := rfl
  rw [whole, require_met allowed, ok_bind, exprRecord, <- append_assoc]
  rfl

theorem readMeter_reads {info : SMeterSidExtInfo}
    (stands : body = left ++ (meterRecord info ++ right)) :
    readMeter body info.tags.length left.length =
      .ok (info, ((left ++ meterRecord info).length : Int)) := by
  have fields : body = left ++ ([netBytes 4 info.sid, zeros 8, info.tags].flatten ++ right) := by
    rw [stands, meterRecord]
    simp
  have sid : loadNet 32 4 body (left.length : Int) = some info.sid :=
    loadNet_at 0 (by decide) fields rfl (by simp)
  have tags : load body ((left.length : Int) + sizeofSMeterSidExtInfo) info.tags.length =
      some info.tags :=
    load_at 2 fields rfl (by simp [sizeofSMeterSidExtInfo]) rfl
  have behind : ((left ++ meterRecord info).length : Int) =
      left.length + sizeofSMeterSidExtInfo + info.tags.length := by
    simp only [meterRecord, length_append, netBytes_length, List.length_replicate,
      sizeofSMeterSidExtInfo]
    push_cast
    omega
  simp only [readMeter, sid, tags, orCrash, ok_bind, behind]
  rfl

theorem readTagSchema_reads {s : SSchema} (stands : body = left ++ (s.raw ++ right)) :
    readTagSchema body left.length = .ok (s.raw, ((left ++ s.raw).length : Int)) := by
  have loaded : load body (left.length : Int) sizeofSSchema = some s.raw := by
    rw [stands]
    exact load_middle rfl (raw_length s).symm
  simp only [readTagSchema, loaded, orCrash, ok_bind]
  rw [length_append, raw_length]
  push_cast
  rfl

theorem readGroup_reads {tagIndex : BitVec 16}
    (stands : body = left ++ (leBytes 2 tagIndex.toNat ++ right)) : readGroup body left.length =
      .ok (tagIndex, ((left ++ leBytes 2 tagIndex.toNat).length : Int)) := by
  have loaded : load16 body (left.length : Int) = some tagIndex := by
    rw [stands, load16_middle rfl, BitVec.ofNat_toNat, BitVec.setWidth_eq]
  simp only [readGroup, loaded, orCrash, ok_bind]
  rw [length_append, leBytes_length]
  push_cast
  rfl

theorem readDefault_reads {value : BitVec 64} (stands : body = left ++ (netBytes 8 value ++ right))
    : readDefault body left.length = .ok (value, ((left ++ netBytes 8 value).length : Int)) := by
  have fields : body = left ++ ([netBytes 8 value].flatten ++ right) := by
    rw [stands]
    simp
  have loaded : word64 body (left.length : Int) = .ok value := word64_at 0 fields rfl (by simp)
  simp only [readDefault, loaded, ok_bind]
  rw [length_append, netBytes_length]
  push_cast
  rfl

end Reading

end Luomi.Vnode.QueryDecode
