import Luomi.Client.QueryMessage

/-!
# The bytes of the query message

Each section of the message is the concatenation of its records.  On a payload with room
for all of them the program writes exactly these bytes; wherever it comes to its end it
has counted exactly their number.
-/

namespace Luomi.Client.QueryEncode
open LittleEndian ByteBuffer QueryMessage
open List (append_assoc flatMap_cons length_append length_cons length_replicate)

def textBytes (p : tVariant) : List UInt8 :=
  if p.nType = TSDB_DATA_TYPE_BINARY then p.pz ++ [0] else []

def exprRecord (e : SSqlExpr) : List UInt8 := exprBytes e ++ e.param.flatMap textBytes

def nameRecord (cmd : SSqlCmd) (col : SColumnBase) : List UInt8 := columnName cmd col ++ [comma]

def meterRecord (info : SMeterSidExtInfo) : List UInt8 :=
  netBytes 4 info.sid ++ (zeros 8 ++ info.tags)

section

variable (cmd : SSqlCmd)

def columns : List UInt8 := cmd.colList.flatMap (columnBytes cmd)

def filterTexts : List UInt8 := cmd.colList.flatMap filterBytes

def expressions : List UInt8 := cmd.exprs.flatMap exprRecord

def names : List UInt8 :=
  if cmd.hasArithmeticFunction then cmd.colList.flatMap (nameRecord cmd) else []

def meters : List SMeterSidExtInfo :=
  match cmd.pMetricMeta with
  | none => [⟨cmd.pMeterMeta.sid, []⟩]
  | some metric => metric.sids

def meterTags : List UInt8 := (meters cmd).flatMap meterRecord

def tagSchemas : List UInt8 :=
  if cmd.pMetricMeta.isSome then cmd.tagColumnIndex.flatMap fun index => (cmd.tagSchema index).raw
  else []

def groups : List UInt8 :=
  cmd.groupby.flatMap fun tagIndex => leBytes 2 tagIndex.toNat

def defaults : List UInt8 :=
  if cmd.interpoType ≠ TSDB_INTERPO_NONE then
    (List.range cmd.exprs.length).flatMap fun i => netBytes 8 (cmd.defaultVal i)
  else []

def sections : List UInt8 :=
  filterTexts cmd ++ (expressions cmd ++ (names cmd ++ (meterTags cmd ++ (tagSchemas cmd ++
    (groups cmd ++ defaults cmd)))))

end

section Lengths

@[simp] theorem columnBytes_length (cmd : SSqlCmd) (col : SColumnBase) :
    (columnBytes cmd col).length = sizeofSColumnFilterMsg := by
  unfold columnBytes columnFields
  split <;> simp [sizeofSColumnFilterMsg]

@[simp] theorem argBytes_length (p : tVariant) : (argBytes p).length = 12 := by
  unfold argBytes argFields
  split <;> simp

theorem flatMap_length {α : Type} {f : α -> List UInt8} {size : Nat} {list : List α}
    (each : ∀ a ∈ list, (f a).length = size) : (list.flatMap f).length = size * list.length := by
  induction list with
  | nil => rfl
  | cons a rest ih =>
    rw [flatMap_cons, length_append, each a List.mem_cons_self,
      ih fun b member => each b (List.mem_cons_of_mem _ member), length_cons,
      Nat.mul_succ, Nat.add_comm]

@[simp] theorem exprBytes_length (e : SSqlExpr) : (exprBytes e).length = sizeofSSqlFuncExprMsg := by
  have args := flatMap_length fun p (_ : p ∈ e.param) => argBytes_length p
  have few := e.few
  have head : (exprFields e).flatten.length = 11 := by simp [exprFields]
  simp only [exprBytes, length_append, head, length_replicate, args, sizeofSSqlFuncExprMsg]
  omega

@[simp] theorem raw_length (s : SSchema) : s.raw.length = sizeofSSchema := by
  have whole := s.whole
  simp only [SSchema.raw, length_cons, length_append, whole, leBytes_length]
  rfl

theorem columns_length (cmd : SSqlCmd) :
    (columns cmd).length = sizeofSColumnFilterMsg * cmd.colList.length :=
  flatMap_length fun col _ => columnBytes_length cmd col

end Lengths

section Writing

variable {cmd : SSqlCmd} {done : List UInt8} {room : Nat}

/-- The client's own checks, and what the parser grants for its assertions. -/
structure Sendable (cmd : SSqlCmd) : Prop where
  someColumn : cmd.colList ≠ []
  interval : 0 ≤ cmd.nAggTimeInterval.toInt
  columnKnown : ∀ col ∈ cmd.colList, col.colIndex < cmd.pMeterMeta.schema.length ∧
    TSDB_DATA_TYPE_BOOL ≤ (cmd.columnSchema col).type ∧
    (cmd.columnSchema col).type ≤ TSDB_DATA_TYPE_NCHAR
  exprKnown : ∀ e ∈ cmd.exprs, tscValidateColumnId cmd e.colId
  someMeter : meters cmd ≠ []
  groupsTagged : cmd.groupby ≠ [] -> cmd.pMetricMeta.isSome ∧ cmd.pMeterMeta.tagSchema ≠ []
  tagsOfMetric : cmd.tagColumnIndex ≠ [] -> cmd.pMetricMeta.isSome

theorem put_ok {bytes : List UInt8} (fits : bytes.length ≤ room) :
    orCrash ((filled done room).put bytes) = .ok (filled (done ++ bytes) (room - bytes.length)) :=
  orCrash_ok.mpr (put_filled fits)

theorem writeColumn_filled {front texts : List UInt8} {i more : Nat} {col : SColumnBase}
    (sendable : Sendable cmd) (member : col ∈ cmd.colList)
    (counted : front.length = sizeofSColumnFilterMsg * i) (fits : (filterBytes col).length ≤ room) :
    writeColumn cmd
        (filled (front ++ (zeros (sizeofSColumnFilterMsg * (more + 1)) ++ texts)) room) i col =
      .ok (filled ((front ++ columnBytes cmd col) ++
        (zeros (sizeofSColumnFilterMsg * more) ++ (texts ++ filterBytes col)))
        (room - (filterBytes col).length)) := by
  obtain ⟨inside, low, high⟩ := sendable.columnKnown col member
  have known : ¬(cmd.pMeterMeta.schema.length ≤ col.colIndex ∨
      (cmd.columnSchema col).type < TSDB_DATA_TYPE_BOOL ∨
      TSDB_DATA_TYPE_NCHAR < (cmd.columnSchema col).type) := by
    rintro (outside | below | above)
    · omega
    · exact absurd low (UInt8.not_le.mpr below)
    · exact absurd high (UInt8.not_le.mpr above)
  have cut : zeros (sizeofSColumnFilterMsg * (more + 1)) =
      zeros sizeofSColumnFilterMsg ++ zeros (sizeofSColumnFilterMsg * more) := by
    rw [zeros, zeros, zeros, List.replicate_append_replicate, Nat.mul_succ, Nat.add_comm]
  have stored : store (front ++ (zeros (sizeofSColumnFilterMsg * (more + 1)) ++ texts) ++ zeros room)
      (sizeofSColumnFilterMsg * i : Nat) (columnBytes cmd col) =
      some (front ++ (columnBytes cmd col ++
        (zeros (sizeofSColumnFilterMsg * more) ++ texts ++ zeros room))) := by
    rw [cut]
    simp only [append_assoc]
    exact store_middle (by rw [counted]) (by rw [columnBytes_length, length_replicate])
  have behind : (⟨front ++ (columnBytes cmd col ++
      (zeros (sizeofSColumnFilterMsg * more) ++ texts ++ zeros room)),
      (front ++ (zeros (sizeofSColumnFilterMsg * (more + 1)) ++ texts)).length⟩ : Cursor) =
      filled ((front ++ columnBytes cmd col) ++
        (zeros (sizeofSColumnFilterMsg * more) ++ texts)) room := by
    simp only [filled, append_assoc, length_append, length_replicate,
      columnBytes_length, Cursor.mk.injEq, true_and]
    rw [Nat.mul_succ]
    omega
  simp only [writeColumn, require_met known, ok_bind]
  rw [show (filled (front ++ (zeros (sizeofSColumnFilterMsg * (more + 1)) ++ texts)) room).body =
    front ++ (zeros (sizeofSColumnFilterMsg * (more + 1)) ++ texts) ++ zeros room from rfl, stored]
  simp only [orCrash, ok_bind]
  rw [show (filled (front ++ (zeros (sizeofSColumnFilterMsg * (more + 1)) ++ texts)) room).place =
    (front ++ (zeros (sizeofSColumnFilterMsg * (more + 1)) ++ texts)).length from rfl, behind,
    put_filled fits]
  simp only [append_assoc]

theorem writeColumns_filled {cols : List SColumnBase} {front texts : List UInt8} {i : Nat}
    (sendable : Sendable cmd) (members : ∀ col ∈ cols, col ∈ cmd.colList)
    (counted : front.length = sizeofSColumnFilterMsg * i)
    (fits : (cols.flatMap filterBytes).length ≤ room) : writeColumns cmd
        (filled (front ++ (zeros (sizeofSColumnFilterMsg * cols.length) ++ texts)) room) i cols =
      .ok (filled (front ++ (cols.flatMap (columnBytes cmd) ++ (texts ++ cols.flatMap filterBytes)))
        (room - (cols.flatMap filterBytes).length)) := by
  induction cols generalizing front texts i room with
  | nil =>
    simp [writeColumns, zeros]
  | cons col rest ih =>
    rw [flatMap_cons, length_append] at fits
    have first := @writeColumn_filled cmd room front texts i rest.length col sendable
      (members col List.mem_cons_self) counted (by omega)
    have further : (front ++ columnBytes cmd col).length = sizeofSColumnFilterMsg * (i + 1) := by
      rw [length_append, counted, columnBytes_length, Nat.mul_succ]
    have others := @ih (room - (filterBytes col).length) (front ++ columnBytes cmd col)
      (texts ++ filterBytes col) (i + 1) (fun c member => members c (List.mem_cons_of_mem _ member))
      further (by omega)
    rw [writeColumns, length_cons, first, ok_bind, others]
    simp only [flatMap_cons, append_assoc, length_append, Nat.sub_sub]

theorem writeText_filled (p : tVariant) (fits : (textBytes p).length ≤ room) :
    writeText (filled done room) p =
      .ok (filled (done ++ textBytes p) (room - (textBytes p).length)) := by
  unfold textBytes at fits ⊢
  unfold writeText
  split
  next text =>
    rw [if_pos text, length_append, List.length_singleton] at fits
    rw [put_ok (by omega), ok_bind, skip_filled (by omega)]
    simp only [length_append, List.length_singleton, append_assoc, Nat.sub_sub]
    rfl
  next other =>
    simp only [List.append_nil, List.length_nil, Nat.sub_zero]
    rfl

theorem writeExpr_filled {e : SSqlExpr} (known : tscValidateColumnId cmd e.colId)
    (fits : (exprRecord e).length ≤ room) : writeExpr cmd (filled done room) e =
      .ok (filled (done ++ exprRecord e) (room - (exprRecord e).length)) := by
  unfold exprRecord at fits ⊢
  rw [length_append] at fits
  have texts : e.param.foldlM writeText (filled (done ++ exprBytes e) (room - (exprBytes e).length)) =
      .ok (filled (done ++ exprBytes e ++ e.param.flatMap textBytes)
        (room - (exprBytes e).length - (e.param.flatMap textBytes).length)) :=
    foldlM_filled (fun p _ _ _ => writeText_filled p) (by omega)
  rw [writeExpr, require_met known, ok_bind, put_ok (by omega), ok_bind, texts, append_assoc,
    length_append, Nat.sub_sub]

theorem writeMeter_filled (info : SMeterSidExtInfo) (fits : (meterRecord info).length ≤ room) :
    writeMeter (filled done room) info =
      .ok (filled (done ++ meterRecord info) (room - (meterRecord info).length)) := by
  unfold meterRecord at fits ⊢
  simp only [length_append, netBytes_length, length_replicate] at fits
  rw [writeMeter, put_ok (by rw [netBytes_length]; omega), ok_bind, netBytes_length,
    skip_filled (by omega), put_ok (by omega)]
  simp only [append_assoc, length_append, netBytes_length, length_replicate,
    Nat.sub_sub, Nat.add_assoc]

theorem expressions_filled (sendable : Sendable cmd) (fits : (expressions cmd).length ≤ room) :
    cmd.exprs.foldlM (writeExpr cmd) (filled done room) =
      .ok (filled (done ++ expressions cmd) (room - (expressions cmd).length)) :=
  foldlM_filled (fun e member _ _ => writeExpr_filled (sendable.exprKnown e member)) fits

theorem names_filled (fits : (names cmd).length ≤ room) : writeNames cmd (filled done room) =
      .ok (filled (done ++ names cmd) (room - (names cmd).length)) := by
  unfold names at fits ⊢
  unfold writeNames
  split
  next arithmetic =>
    rw [if_pos arithmetic] at fits
    exact foldlM_filled (fun _ _ _ _ => put_ok) fits
  next => simp

theorem meterTags_filled (fits : (meterTags cmd).length ≤ room) :
    (meters cmd).foldlM writeMeter (filled done room) =
      .ok (filled (done ++ meterTags cmd) (room - (meterTags cmd).length)) :=
  foldlM_filled (fun info _ _ _ => writeMeter_filled info) fits

theorem tagSchemas_filled (fits : (tagSchemas cmd).length ≤ room) :
    writeTagSchemas cmd (filled done room) =
      .ok (filled (done ++ tagSchemas cmd) (room - (tagSchemas cmd).length)) := by
  unfold tagSchemas at fits ⊢
  unfold writeTagSchemas
  split
  next metric =>
    rw [if_pos metric] at fits
    exact foldlM_filled (fun _ _ _ _ => put_ok) fits
  next => simp

theorem groups_filled (fits : (groups cmd).length ≤ room) :
    cmd.groupby.foldlM writeGroup (filled done room) =
      .ok (filled (done ++ groups cmd) (room - (groups cmd).length)) :=
  foldlM_filled (fun _ _ _ _ => put_ok) fits

theorem defaults_filled (fits : (defaults cmd).length ≤ room) :
    writeDefaults cmd (filled done room) =
      .ok (filled (done ++ defaults cmd) (room - (defaults cmd).length)) := by
  unfold defaults at fits ⊢
  unfold writeDefaults
  split
  next filling =>
    rw [if_pos filling] at fits
    exact foldlM_filled (fun _ _ _ _ => put_ok) fits
  next => simp

theorem writeBody_filled (sendable : Sendable cmd) (fits : (sections cmd).length ≤ room) :
    writeBody cmd (meters cmd) (filled (zeros (sizeofSColumnFilterMsg * cmd.colList.length)) room) =
      .ok (filled (columns cmd ++ sections cmd) (room - (sections cmd).length)) := by
  simp only [sections, length_append] at fits
  have cols := @writeColumns_filled cmd room cmd.colList [] [] 0 sendable (fun _ member => member) rfl
    (by unfold filterTexts at fits; omega)
  simp only [List.append_nil, List.nil_append] at cols
  have grouped : cmd.groupby ≠ [] -> cmd.pMeterMeta.tagSchema ≠ [] :=
    fun some => (sendable.groupsTagged some).2
  rw [writeBody, cols, ok_bind]
  change (cmd.exprs.foldlM (writeExpr cmd)
    (filled (columns cmd ++ filterTexts cmd) (room - (filterTexts cmd).length)) >>= _) = _
  rw [expressions_filled sendable (by omega), ok_bind, names_filled (by omega), ok_bind,
    meterTags_filled (by omega), ok_bind, tagSchemas_filled (by omega), ok_bind,
    require_met grouped, ok_bind, groups_filled (by omega), ok_bind, defaults_filled (by omega)]
  simp only [sections, append_assoc, length_append, Nat.sub_sub, Nat.add_assoc]

end Writing

section Counting

variable {cmd : SSqlCmd} {c c' : Cursor}

theorem put_counts {bytes : List UInt8} (ran : orCrash (c.put bytes) = .ok c') :
    c'.place = c.place + bytes.length :=
  put_place (orCrash_ok.mp ran)

theorem writeColumn_counts {i : Nat} {col : SColumnBase} (ran : writeColumn cmd c i col = .ok c') :
    c'.place = c.place + (filterBytes col).length := by
  obtain ⟨_, _, afterCheck⟩ := bind_ok.mp ran
  obtain ⟨body, _, written⟩ := bind_ok.mp afterCheck
  rw [put_counts written]

theorem writeColumns_counts {cols : List SColumnBase} {i : Nat}
    (ran : writeColumns cmd c i cols = .ok c') :
    c'.place = c.place + (cols.flatMap filterBytes).length := by
  induction cols generalizing c i with
  | nil =>
    cases Except.ok.inj ran
    rfl
  | cons col rest ih =>
    obtain ⟨between, first, others⟩ := bind_ok.mp ran
    rw [ih others, writeColumn_counts first, flatMap_cons, length_append, Nat.add_assoc]

theorem writeText_counts {p : tVariant} (ran : writeText c p = .ok c') :
    c'.place = c.place + (textBytes p).length := by
  unfold writeText at ran
  unfold textBytes
  split at ran
  next text =>
    obtain ⟨between, written, result⟩ := bind_ok.mp ran
    cases Except.ok.inj result
    rw [if_pos text, length_append, List.length_singleton, Cursor.skip, put_counts written,
      Nat.add_assoc]
  next other =>
    cases Except.ok.inj ran
    rw [if_neg other]
    rfl

theorem writeExpr_counts {e : SSqlExpr} (ran : writeExpr cmd c e = .ok c') :
    c'.place = c.place + (exprRecord e).length := by
  obtain ⟨_, _, afterCheck⟩ := bind_ok.mp ran
  obtain ⟨between, written, texts⟩ := bind_ok.mp afterCheck
  have fromTexts : c'.place = between.place + (e.param.flatMap textBytes).length :=
    foldlM_place (fun _ _ _ => writeText_counts) texts
  rw [fromTexts, put_counts written, exprRecord, length_append, Nat.add_assoc]

theorem writeMeter_counts {info : SMeterSidExtInfo} (ran : writeMeter c info = .ok c') :
    c'.place = c.place + (meterRecord info).length := by
  obtain ⟨between, first, second⟩ := bind_ok.mp ran
  rw [put_counts second, Cursor.skip, put_counts first]
  simp only [meterRecord, length_append, length_replicate, Nat.add_assoc]

theorem writeNames_counts (ran : writeNames cmd c = .ok c') :
    c'.place = c.place + (names cmd).length := by
  unfold writeNames at ran
  unfold names
  split at ran
  next arithmetic =>
    rw [if_pos arithmetic]
    exact foldlM_place (fun _ _ _ => put_counts) ran
  next other =>
    cases Except.ok.inj ran
    rw [if_neg other]
    rfl

theorem writeTagSchemas_counts (ran : writeTagSchemas cmd c = .ok c') :
    c'.place = c.place + (tagSchemas cmd).length := by
  unfold writeTagSchemas at ran
  unfold tagSchemas
  split at ran
  next metric =>
    rw [if_pos metric]
    exact foldlM_place (fun _ _ _ => put_counts) ran
  next other =>
    cases Except.ok.inj ran
    rw [if_neg other]
    rfl

theorem writeDefaults_counts (ran : writeDefaults cmd c = .ok c') :
    c'.place = c.place + (defaults cmd).length := by
  unfold writeDefaults at ran
  unfold defaults
  split at ran
  next filling =>
    rw [if_pos filling]
    exact foldlM_place (fun _ _ _ => put_counts) ran
  next other =>
    cases Except.ok.inj ran
    rw [if_neg other]
    rfl

theorem writeBody_counts (ran : writeBody cmd (meters cmd) c = .ok c') :
    c'.place = c.place + (sections cmd).length := by
  obtain ⟨c1, cols, ran⟩ := bind_ok.mp ran
  obtain ⟨c2, exprs, ran⟩ := bind_ok.mp ran
  obtain ⟨c3, named, ran⟩ := bind_ok.mp ran
  obtain ⟨c4, tagged, ran⟩ := bind_ok.mp ran
  obtain ⟨c5, schemas, ran⟩ := bind_ok.mp ran
  obtain ⟨_, _, ran⟩ := bind_ok.mp ran
  obtain ⟨c6, grouped, ran⟩ := bind_ok.mp ran
  have fromCols : c1.place = c.place + (filterTexts cmd).length := writeColumns_counts cols
  have fromExprs : c2.place = c1.place + (expressions cmd).length :=
    foldlM_place (fun _ _ _ => writeExpr_counts) exprs
  have fromNames := writeNames_counts named
  have fromMeters : c4.place = c3.place + (meterTags cmd).length :=
    foldlM_place (fun _ _ _ => writeMeter_counts) tagged
  have fromSchemas := writeTagSchemas_counts schemas
  have fromGroups : c6.place = c5.place + (groups cmd).length :=
    foldlM_place (fun _ _ _ => put_counts) grouped
  have fromDefaults := writeDefaults_counts ran
  simp only [sections, length_append]
  omega

end Counting

end Luomi.Client.QueryEncode
