import Luomi.Client.WhereClause
import Mathlib.Data.List.Pairwise
import Mathlib.Tactic.Linarith
import Mathlib.Tactic.NormNum

/-!
# Which rows a translated WHERE clause selects

A row satisfies an expression by the values of its columns; it is selected by
what `buildQueryCond` makes of the expression if it lies in the time range, if
every filter accepts its column and if the tag condition accepts its table.
-/

namespace Luomi.Client.WhereSelection

open WhereClause

/-- A row: `ticks` is its timestamp, in the meter's precision. -/
structure Row (pMeterMeta : SMeterMeta) where
  ticks : Int
  nonnegative : 0 ≤ ticks
  inRange : ticks * pMeterMeta.unit ≤ INT64_MAX
  cell : Nat -> Value
  table : String

section Meaning

variable (conv : Conversions) (pMeterMeta : SMeterMeta)

section

variable {pMeterMeta : SMeterMeta} (row : Row pMeterMeta)

def Row.value (colIdx : Nat) : Value :=
  if colIdx = 0 then .number row.ticks else row.cell colIdx

def Row.named (colInfo : ColumnName) : Value :=
  match colInfo with
  | .tbname => .text row.table
  | .column colIdx => row.value colIdx
  | .unknown => .null

def Row.micro : Int :=
  row.ticks * pMeterMeta.unit

end

def typeOf (colInfo : ColumnName) : DataType :=
  match colInfo with
  | .tbname => .binary
  | .column colIdx => if colIdx = 0 then .timestamp else pMeterMeta.type colIdx
  | .unknown => .binary

def meaning (type : DataType) (val : Variant) : Option Value :=
  match type, val with
  | .timestamp, .string s =>
    if '-' ∈ s.toList then (conv.parseTime s).map fun us => .number (us / pMeterMeta.unit)
    else (conv.toInteger s).map fun i => .number i
  | .timestamp, .timestamp us => some (.number (us / pMeterMeta.unit))
  | .binary, .string s | .nchar, .string s => some (.text s)
  | .binary, _ | .nchar, _ => none
  | _, .integer i => some (.number i)
  | _, .float q => some (.number q)
  | _, .bool b => some (.number (ofBool b))
  | _, .string s => (conv.toReal s).map .number
  | _, .timestamp us => some (.number us)

def Compares (optr : Optr) (value : Value) (other : Option Value) : Prop :=
  match value, other with
  | .number x, some (.number y) =>
    match optr with
    | .le => x ≤ y
    | .lt => x < y
    | .ge => y ≤ x
    | .gt => y < x
    | .eq => x = y
    | .ne => x ≠ y
    | .like | .in_ => False
  | .text x, some (.text y) =>
    match optr with
    | .le => x ≤ y
    | .lt => x < y
    | .ge => y ≤ x
    | .gt => y < x
    | .eq => x = y
    | .ne => x ≠ y
    | .like => conv.matches_ y x = true
    | .in_ => False
  | _, _ => False

def SatisfiesCompare (row : Row pMeterMeta) (optr : Optr) (left right : Operand) : Prop :=
  match left, right with
  | .id colInfo, .value val =>
    Compares conv optr (row.named colInfo) (meaning conv pMeterMeta (typeOf pMeterMeta colInfo) val)
  | .value val, .id colInfo =>
    match optr, meaning conv pMeterMeta (typeOf pMeterMeta colInfo) val with
    | .like, some text => Compares conv .like text (some (row.named colInfo))
    | optr, constant => Compares conv (exchanged optr) (row.named colInfo) constant
  | .id colInfo, .set names => ∃ name ∈ names, row.named colInfo = .text name
  | .id colInfo, .arithmetic result =>
    Compares conv optr (row.named colInfo) (some (result row.value))
  | _, _ => False

def Satisfies (row : Row pMeterMeta) : SQLExpr -> Prop
  | .connect .and left right => Satisfies row left ∧ Satisfies row right
  | .connect .or left right => Satisfies row left ∨ Satisfies row right
  | .compare optr left right => SatisfiesCompare conv pMeterMeta row optr left right

inductive Formula where
  | compare (colInfo : ColumnName) (optr : Optr) (written : Option Variant)
  | connect (optr : Connective) (left right : Formula)

def Formula.Holds (row : Row pMeterMeta) : Formula -> Prop
  | .compare colInfo optr written =>
    Compares conv optr (row.named colInfo)
      (written.bind (meaning conv pMeterMeta (typeOf pMeterMeta colInfo)))
  | .connect .and left right => left.Holds row ∧ right.Holds row
  | .connect .or left right => left.Holds row ∨ right.Holds row

def readFormula : Nat -> List Token -> Option (Formula × List Token)
  | _ + 1, .compare colInfo optr written :: rest => some (.compare colInfo optr written, rest)
  | depth + 1, .left :: rest =>
    match readFormula depth rest with
    | some (left, .connective optr :: rest) =>
      match readFormula depth rest with
      | some (right, .right :: rest) => some (.connect optr left right, rest)
      | _ => none
    | _ => none
  | _, _ => none

def relationOptr (relation : Relation) : Option Optr :=
  match relation with
  | .invalid => none
  | .less => some .lt
  | .large => some .gt
  | .equal => some .eq
  | .lessEqual => some .le
  | .largeEqual => some .ge
  | .notEqual => some .ne
  | .like => some .like

def RelationHolds (relation : Relation) (bound value : Value) : Prop :=
  ∀ optr, relationOptr relation = some optr -> Compares conv optr value (some bound)

def FilterHolds (filter : SColumnBase) (value : Value) : Prop :=
  filter.filterOn = true ->
    RelationHolds conv filter.lowerRelOptr filter.lowerBndd value ∧
      RelationHolds conv filter.upperRelOptr filter.upperBndd value

def TagCondHolds (row : Row pMeterMeta) (tagCond : TagCond) : Prop :=
  match tagCond with
  | .absent => True
  | .text pData =>
    ∃ formula, readFormula pData.length pData = some (formula, []) ∧
      formula.Holds conv pMeterMeta row
  | .tables names => row.table ∈ names

structure Selects (row : Row pMeterMeta) (cond : QueryCond) : Prop where
  fromStart : cond.stime ≤ row.micro
  toEnd : row.micro ≤ cond.etime
  filters : ∀ colIdx, FilterHolds conv (cond.colList colIdx) (row.value colIdx)
  tags : TagCondHolds conv pMeterMeta row cond.tagCond

inductive Part where
  | time (optr : Optr) (right : Operand)
  | filter (colIdx : Nat) (optr : Optr) (right : Operand)
  | tag (colInfo : ColumnName) (optr : Optr) (right : Operand)
  | tables (names : List String)

def tagPart (colInfo : ColumnName) (optr : Optr) (right : Operand) : Part :=
  match colInfo, optr, right with
  | .tbname, .in_, .set names => .tables names
  | _, _, _ => .tag colInfo optr right

def partOf (optr : Optr) (left right : Operand) : Option Part :=
  match oriented optr left right with
  | some (optr, .id (.column colIdx), right) =>
    if colIdx = 0 then some (.time optr right)
    else if colIdx ≥ pMeterMeta.numOfColumns then some (tagPart (.column colIdx) optr right)
    else some (.filter colIdx optr right)
  | some (optr, .id .tbname, right) => some (tagPart .tbname optr right)
  | _ => none

def parts : SQLExpr -> List Part
  | .connect _ left right => parts left ++ parts right
  | .compare optr left right => (partOf pMeterMeta optr left right).toList

/-- What the text says of the parts that are about tags. -/
def tagFormula : SQLExpr -> Option Formula
  | .compare optr left right =>
    match partOf pMeterMeta optr left right with
    | some (.tag colInfo optr right) => some (.compare colInfo optr (written conv right))
    | _ => none
  | .connect optr left right =>
    match tagFormula left, tagFormula right with
    | some f, some g => some (.connect optr f g)
    | some f, none => some f
    | none, other => other

def Part.names : Part -> List String
  | .tables names => names
  | _ => []

def names (pExpr : SQLExpr) : List String :=
  (parts pMeterMeta pExpr).flatMap Part.names

def Formula.render : Formula -> List Token
  | .compare colInfo optr written => [.compare colInfo optr written]
  | .connect optr left right => .left :: left.render ++ .connective optr :: right.render ++ [.right]

def renderTags (formula : Option Formula) : List Token :=
  match formula with
  | none => []
  | some formula => formula.render

def applyFilter (part : Part) (colList : Nat -> SColumnBase) : Nat -> SColumnBase :=
  match part with
  | .filter colIdx optr right =>
    Function.update colList colIdx
      (setColumnFilterInfo conv (pMeterMeta.type colIdx) optr right (colList colIdx))
  | _ => colList

def TimeHolds (part : Part) (us : Int) : Prop :=
  match part with
  | .time optr right =>
    match timeOf conv pMeterMeta right, optr with
    | some val, .le => us ≤ val
    | some val, .lt => us ≤ wrap64 (val - pMeterMeta.unit)
    | some val, .gt => wrap64 (val + pMeterMeta.unit) ≤ us
    | some val, .ge => val ≤ us
    | some val, .eq => us = val
    | _, _ => True
  | _ => True

inductive Written (pExpr : SQLExpr) (before after : SSqlCmd) : Prop where
  | neither (typeBefore : before.tagCondType = none) (typeAfter : after.tagCondType = none)
      (noTags : tagFormula conv pMeterMeta pExpr = none) (noNames : names pMeterMeta pExpr = [])
      (text : after.queryStr = before.queryStr)
  | cond (typeBefore : before.tagCondType ≠ some .set)
      (typeAfter : after.tagCondType = some .cond) (noNames : names pMeterMeta pExpr = [])
      (text : after.queryStr = before.queryStr ++ renderTags (tagFormula conv pMeterMeta pExpr))
      (some_ : before.tagCondType = none -> tagFormula conv pMeterMeta pExpr ≠ none)
  | set (typeBefore : before.tagCondType ≠ some .cond)
      (typeAfter : after.tagCondType = some .set)
      (noTags : tagFormula conv pMeterMeta pExpr = none)
      (text : after.queryStr = before.queryStr ++ (names pMeterMeta pExpr).map .table)
      (some_ : before.tagCondType = none -> names pMeterMeta pExpr ≠ [])

variable {conv pMeterMeta}

theorem Formula.render_pos (formula : Formula) : 0 < formula.render.length := by
  cases formula <;> simp [Formula.render]

theorem readFormula_render (formula : Formula) (depth : Nat)
    (enough : formula.render.length ≤ depth) (rest : List Token) :
    readFormula depth (formula.render ++ rest) = some (formula, rest) := by
  induction formula generalizing depth rest with
  | compare colInfo optr written =>
    obtain ⟨depth, rfl⟩ : ∃ d, depth = d + 1 :=
      ⟨depth - 1, by simp [Formula.render] at enough; omega⟩
    rfl
  | connect optr left right leftInduction rightInduction =>
    simp only [Formula.render, List.cons_append, List.length_cons, List.length_append,
      List.length_nil] at enough
    obtain ⟨depth, rfl⟩ : ∃ d, depth = d + 1 := ⟨depth - 1, by omega⟩
    have first := leftInduction depth (by omega)
      (.connective optr :: (right.render ++ .right :: rest))
    have second := rightInduction depth (by omega) (.right :: rest)
    simp only [Formula.render, List.cons_append, List.append_assoc, List.nil_append,
      readFormula, first, second]

variable {pCmd pCmd' : SSqlCmd} {right : Operand} {range : TimeRange}
  {optr : Optr}

theorem buildTagQueryCondString_cases {colInfo : ColumnName}
    (success : buildTagQueryCondString conv pMeterMeta optr colInfo right pCmd = some pCmd') :
    (∃ names, tagPart colInfo optr right = .tables names ∧ names ≠ [] ∧
        pCmd.tagCondType ≠ some .cond ∧ pCmd' = { pCmd with
          tagCondType := some .set
          queryStr := pCmd.queryStr ++ names.map .table }) ∨
      (tagPart colInfo optr right = .tag colInfo optr right ∧ optr ≠ .in_ ∧
        pCmd.tagCondType ≠ some .set ∧ pCmd' = { pCmd with
          tagCondType := some .cond
          queryStr := pCmd.queryStr ++ [.compare colInfo optr (written conv right)] }) := by
  unfold buildTagQueryCondString at success
  split at success
  · rename_i listed
    left
    split at success
    · cases success
    · rename_i notCond
      split at success
      · cases success
      · rename_i isTbname
        obtain rfl : colInfo = .tbname := not_not.mp isTbname
        unfold createTableNameList at success
        split at success
        · cases success
        · rename_i queryStr stored
          split at stored
          · cases stored
          · rename_i some_
            split at stored
            · cases stored
              cases success
              exact ⟨listed, rfl, some_, notCond, rfl⟩
            · cases stored
  · cases success
  · rename_i notIn _
    right
    have isTag : tagPart colInfo optr right = .tag colInfo optr right := by
      unfold tagPart
      split
      · exact absurd rfl notIn
      · rfl
    split at success
    · cases success
    · rename_i notSet
      split at success
      · cases success
      · split at success
        · cases success
        · cases success
          exact ⟨isTag, notIn, notSet, rfl⟩

variable {left : Operand}

theorem compare_cases
    (success : getQueryCondExprImpl conv pMeterMeta (.compare optr left right) pCmd =
      some (pCmd', range)) : ∃ part, partOf pMeterMeta optr left right = some part ∧
      ((∃ o r, part = .time o r ∧ pCmd' = pCmd ∧
          getTimeRange conv pMeterMeta o r { isSet := true } = some range) ∨
        (∃ colIdx o r, part = .filter colIdx o r ∧ colIdx ≠ 0 ∧ colIdx < pMeterMeta.numOfColumns ∧
          getColumnFilterInfo conv pMeterMeta o colIdx r pCmd = some pCmd' ∧ range = {}) ∨
        ∃ colInfo o r, part = tagPart colInfo o r ∧
          buildTagQueryCondString conv pMeterMeta o colInfo r pCmd = some pCmd' ∧ range = {}) := by
  unfold getQueryCondExprImpl at success
  cases turned : oriented optr left right with
  | none =>
    rw [turned] at success
    cases success
  | some triple =>
    obtain ⟨o, l, r⟩ := triple
    rw [turned] at success
    simp only at success
    unfold partOf
    rw [turned]
    cases l with
    | value val => cases success
    | set names => cases success
    | arithmetic result => cases success
    | id colInfo =>
      cases colInfo with
      | unknown => cases success
      | tbname =>
        simp only [handleExprInQueryCond] at success
        split at success
        · obtain ⟨cmd, built, same⟩ := Option.map_eq_some_iff.mp success
          cases same
          exact ⟨_, rfl, Or.inr (Or.inr ⟨_, _, _, rfl, built, rfl⟩)⟩
        · cases success
      | column colIdx =>
        simp only [handleExprInQueryCond] at success
        split at success
        · cases success
        · split at success
          · rename_i isTime
            obtain ⟨found, computed, same⟩ := Option.map_eq_some_iff.mp success
            cases same
            exact ⟨_, if_pos isTime, Or.inl ⟨_, _, rfl, rfl, computed⟩⟩
          · rename_i notTime
            split at success
            · rename_i isTag
              split at success
              · obtain ⟨cmd, built, same⟩ := Option.map_eq_some_iff.mp success
                cases same
                exact ⟨_, (if_neg notTime).trans (if_pos isTag),
                  Or.inr (Or.inr ⟨_, _, _, rfl, built, rfl⟩)⟩
              · cases success
            · rename_i notTag
              obtain ⟨cmd, built, same⟩ := Option.map_eq_some_iff.mp success
              cases same
              exact ⟨_, (if_neg notTime).trans (if_neg notTag),
                Or.inr (Or.inl ⟨_, _, _, rfl, notTime, by omega, built, rfl⟩)⟩

/-- The text of a node behind `before`: `middle` is what stands there when the
right side begins, `after` what stands there when it ends. -/
def closeText (tagCondType : Option TagCondType) (before middle after : List Token) :
    List Token :=
  if after.length = before.length then after
  else if middle.length = after.length ∧ before.length ≠ middle.length ∧
      tagCondType = some .cond then removeLeftParentheses after.dropLast before.length
  else if middle.length ≠ after.length ∧ before.length = middle.length then after
  else if tagCondType = some .cond then after ++ [.right]
  else after

/-- The parts of a node: what its two walks write, and how the ranges meet. -/
theorem connect_cases {optr : Connective} {left right : SQLExpr}
    (success : getQueryCondExprImpl conv pMeterMeta (.connect optr left right) pCmd =
      some (pCmd', range)) :
    ∃ pCmd1 range1 queryStr pCmd2 range2,
      getQueryCondExprImpl conv pMeterMeta left pCmd = some (pCmd1, range1) ∧
      queryStr = (if pCmd1.queryStr.length = pCmd.queryStr.length then pCmd1.queryStr
        else if pCmd1.tagCondType = some .set then pCmd1.queryStr
        else insertLeftParentheses pCmd1.queryStr pCmd.queryStr.length ++
          [.connective optr]) ∧
      getQueryCondExprImpl conv pMeterMeta right { pCmd1 with queryStr := queryStr } =
        some (pCmd2, range2) ∧
      ¬ (range2.isSet = true ∧ optr = .or) ∧
      range = (if range2.isSet then
        { stime := max range2.stime (if range1.isSet then range1 else {}).stime
          etime := min range2.etime (if range1.isSet then range1 else {}).etime
          isSet := true }
        else if range1.isSet then range1 else {}) ∧
      pCmd' = { pCmd2 with
        queryStr := closeText pCmd2.tagCondType pCmd.queryStr queryStr pCmd2.queryStr } := by
  rw [getQueryCondExprImpl] at success
  simp only at success
  split at success
  · cases success
  · rename_i pCmd1 range1 leftSuccess
    split at success
    · cases success
    · rename_i pCmd2 range2 rightSuccess
      split at success
      · cases success
      · rename_i allowed
        cases success
        exact ⟨pCmd1, range1, _, pCmd2, range2, leftSuccess, rfl, rightSuccess, allowed, rfl, rfl⟩

variable {pExpr : SQLExpr}

theorem Written.same {before after : SSqlCmd}
    (noTags : tagFormula conv pMeterMeta pExpr = none) (noNames : names pMeterMeta pExpr = [])
    (type : after.tagCondType = before.tagCondType) (text : after.queryStr = before.queryStr) :
    Written conv pMeterMeta pExpr before after := by
  cases kind : before.tagCondType with
  | none => exact .neither kind (type.trans kind) noTags noNames text
  | some tagCondType =>
    cases tagCondType with
    | cond =>
      refine .cond (by rw [kind]; simp) (type.trans kind) noNames ?_ (by rw [kind]; simp)
      rw [text, noTags, renderTags, List.append_nil]
    | set =>
      refine .set (by rw [kind]; simp) (type.trans kind) noTags ?_ (by rw [kind]; simp)
      rw [text, noNames, List.map_nil, List.append_nil]

theorem names_compare {part : Part} (isPart : partOf pMeterMeta optr left right = some part) :
    names pMeterMeta (.compare optr left right) = part.names := by
  simp [names, parts, isPart]

theorem names_connect (optr : Connective) (left right : SQLExpr) :
    names pMeterMeta (.connect optr left right) =
      names pMeterMeta left ++ names pMeterMeta right := by
  simp [names, parts]

theorem compare_written
    (success : getQueryCondExprImpl conv pMeterMeta (.compare optr left right) pCmd =
      some (pCmd', range)) : Written conv pMeterMeta (.compare optr left right) pCmd pCmd' := by
  obtain ⟨part, isPart, kinds⟩ := compare_cases success
  have namesAre := names_compare isPart
  rcases kinds with ⟨o, r, rfl, rfl, -⟩ | ⟨colIdx, o, r, rfl, -, -, built, -⟩ |
    ⟨colInfo, o, r, rfl, built, -⟩
  · exact .same (by simp [tagFormula, isPart]) namesAre rfl rfl
  · unfold getColumnFilterInfo at built
    simp only at built
    split at built
    · cases built
    · split at built
      · cases built
      · split at built
        · cases built
        · cases built
          exact .same (by simp [tagFormula, isPart]) namesAre rfl rfl
  · rcases buildTagQueryCondString_cases built with
      ⟨list, isTables, some_, notCond, rfl⟩ | ⟨isTag, -, notSet, rfl⟩
    · rw [isTables] at isPart namesAre
      refine .set notCond rfl (by simp [tagFormula, isPart]) ?_ (fun _ => ?_)
      · rw [namesAre]
        rfl
      · rw [namesAre]
        exact some_
    · rw [isTag] at isPart namesAre
      have formula : tagFormula conv pMeterMeta (.compare optr left right) =
          some (.compare colInfo o (written conv r)) := by
        simp [tagFormula, isPart]
      refine .cond notSet rfl namesAre ?_ (fun _ => ?_)
      · rw [formula]
        rfl
      · rw [formula]
        simp

theorem insertLeft_append (before text : List Token) :
    insertLeftParentheses (before ++ text) before.length = before ++ .left :: text := by
  simp [insertLeftParentheses]

theorem removeLeft_append (before text : List Token) :
    removeLeftParentheses (before ++ .left :: text) before.length = before ++ text := by
  simp [removeLeftParentheses]

theorem closeText_set (before middle after : List Token) :
    closeText (some .set) before middle after = after := by
  unfold closeText
  simp

theorem closeText_alone (tagCondType : Option TagCondType) (before text : List Token) :
    closeText tagCondType before before (before ++ text) = before ++ text := by
  cases text with
  | nil => simp [closeText]
  | cons token rest => simp [closeText]

theorem closeText_rollback (before text : List Token) (optr : Connective) :
    closeText (some .cond) before (before ++ .left :: text ++ [.connective optr])
      (before ++ .left :: text ++ [.connective optr]) = before ++ text := by
  rw [closeText, if_neg (by simp), if_pos (by simp), List.dropLast_concat, removeLeft_append]

theorem closeText_both (before text other : List Token) (optr : Connective)
    (some_ : 0 < other.length) :
    closeText (some .cond) before (before ++ .left :: text ++ [.connective optr])
      (before ++ .left :: text ++ [.connective optr] ++ other) =
      before ++ (.left :: text ++ .connective optr :: other ++ [.right]) := by
  rw [closeText, if_neg (by simp), if_neg (by
    rintro ⟨same, -⟩
    simp at same
    simp [same] at some_), if_neg (by simp), if_pos rfl]
  simp

theorem run_written
    (success : getQueryCondExprImpl conv pMeterMeta pExpr pCmd = some (pCmd', range)) :
    Written conv pMeterMeta pExpr pCmd pCmd' := by
  induction pExpr generalizing pCmd pCmd' range with
  | compare optr left right => exact compare_written success
  | connect optr left right leftInduction rightInduction =>
    obtain ⟨pCmd1, range1, queryStr, pCmd2, range2, leftSuccess, isStr, rightSuccess, -, -,
      rfl⟩ := connect_cases success
    have namesAre : names pMeterMeta (.connect optr left right) =
        names pMeterMeta left ++ names pMeterMeta right := names_connect optr left right
    cases leftInduction leftSuccess with
    | neither typeBefore type1 noTags1 noNames1 text1 =>
      rw [if_pos (by rw [text1]), text1] at isStr
      subst isStr
      have tagsAre : tagFormula conv pMeterMeta (.connect optr left right) =
          tagFormula conv pMeterMeta right := by
        simp [tagFormula, noTags1]
      rw [noNames1, List.nil_append] at namesAre
      cases rightInduction rightSuccess with
      | neither _ type2 noTags2 noNames2 text2 =>
        exact .neither typeBefore type2 (tagsAre.trans noTags2) (namesAre.trans noNames2)
          ((if_pos (by rw [text2])).trans text2)
      | cond _ type2 noNames2 text2 some2 =>
        refine .cond (by rw [typeBefore]; simp) type2 (namesAre.trans noNames2) ?_ ?_
        · rw [tagsAre]
          exact (congrArg (closeText _ _ _) text2).trans (closeText_alone ..)
        · rw [tagsAre]
          exact fun _ => some2 type1
      | set _ type2 noTags2 text2 some2 =>
        refine .set (by rw [typeBefore]; simp) type2 (tagsAre.trans noTags2) ?_ ?_
        · rw [namesAre]
          exact (congrArg (closeText _ _ _) text2).trans (closeText_alone ..)
        · rw [namesAre]
          exact fun _ => some2 type1
    | cond typeBefore type1 noNames1 text1 some1 =>
      rw [noNames1, List.nil_append] at namesAre
      cases rightInduction rightSuccess with
      | neither typeBetween => exact absurd (type1.symm.trans typeBetween) (by simp)
      | set typeBetween => exact absurd type1 typeBetween
      | cond _ type2 noNames2 text2 some2 =>
        cases leftTags : tagFormula conv pMeterMeta left with
        | none =>
          rw [leftTags, renderTags, List.append_nil] at text1
          rw [if_pos (by rw [text1]), text1] at isStr
          subst isStr
          have tagsAre : tagFormula conv pMeterMeta (.connect optr left right) =
              tagFormula conv pMeterMeta right := by
            simp [tagFormula, leftTags]
          refine .cond typeBefore type2 (namesAre.trans noNames2) ?_ ?_
          · rw [tagsAre]
            exact (congrArg (closeText _ _ _) text2).trans (closeText_alone ..)
          · exact fun nothing => absurd leftTags (some1 nothing)
        | some f =>
          rw [leftTags, renderTags] at text1
          have positive := f.render_pos
          rw [if_neg (by rw [text1, List.length_append]; omega),
            if_neg (by rw [type1]; simp), text1, insertLeft_append] at isStr
          subst isStr
          refine .cond typeBefore type2 (namesAre.trans noNames2) ?_ ?_
          · cases rightTags : tagFormula conv pMeterMeta right with
            | none =>
              rw [rightTags, renderTags, List.append_nil] at text2
              have tagsAre : tagFormula conv pMeterMeta (.connect optr left right) = some f := by
                simp [tagFormula, leftTags, rightTags]
              rw [tagsAre, type2]
              exact (congrArg (closeText _ _ _) text2).trans (closeText_rollback ..)
            | some g =>
              rw [rightTags, renderTags] at text2
              have tagsAre : tagFormula conv pMeterMeta (.connect optr left right) =
                  some (.connect optr f g) := by
                simp [tagFormula, leftTags, rightTags]
              rw [tagsAre, type2]
              exact (congrArg (closeText _ _ _) text2).trans (closeText_both _ _ _ _ g.render_pos)
          · intro _
            cases rightTags : tagFormula conv pMeterMeta right <;>
              simp [tagFormula, leftTags, rightTags]
    | set typeBefore type1 noTags1 text1 some1 =>
      have isLeft : queryStr = pCmd1.queryStr := by
        rw [isStr, if_pos type1, ite_self]
      subst isLeft
      have tagsAre : tagFormula conv pMeterMeta (.connect optr left right) =
          tagFormula conv pMeterMeta right := by
        simp [tagFormula, noTags1]
      cases rightInduction rightSuccess with
      | neither typeBetween => exact absurd (type1.symm.trans typeBetween) (by simp)
      | cond typeBetween => exact absurd type1 typeBetween
      | set _ type2 noTags2 text2 some2 =>
        refine .set typeBefore type2 (tagsAre.trans noTags2) ?_ ?_
        · rw [namesAre, type2]
          refine (closeText_set ..).trans (text2.trans ?_)
          rw [text1, List.map_append, List.append_assoc]
        · intro nothing
          rw [namesAre]
          simp [some1 nothing]

end Meaning

end Luomi.Client.WhereSelection
