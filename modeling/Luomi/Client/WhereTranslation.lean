import Luomi.Client.WhereSelection

/-!
# When the translation of a WHERE clause is exact

The three parts of a query condition are joined by AND, and a column has room
for one bound at each end.  So the rows selected are those that satisfy the
expression if OR stands only between conditions on tags (or between lists of
tables), if no bound is given twice, and if every constant survives its
conversion.
-/

namespace Luomi.Client.WhereTranslation

open WhereClause WhereSelection
open List (mem_append mem_cons_self mem_filterMap mem_singleton)

section Conditions

variable (conv : Conversions) (pMeterMeta : SMeterMeta)

def OnlyTags (pExpr : SQLExpr) : Prop :=
  ∀ part ∈ parts pMeterMeta pExpr, ∃ colInfo optr right, part = .tag colInfo optr right

def OnlyTables : SQLExpr -> Prop
  | .compare optr left right => ∃ names, partOf pMeterMeta optr left right = some (.tables names)
  | .connect .or left right => OnlyTables left ∧ OnlyTables right
  | .connect .and _ _ => False

def Separable : SQLExpr -> Prop
  | .compare _ _ _ => True
  | .connect .or left right =>
    (OnlyTags pMeterMeta left ∧ OnlyTags pMeterMeta right) ∨
      (OnlyTables pMeterMeta left ∧ OnlyTables pMeterMeta right)
  | .connect .and left right =>
    Separable left ∧ Separable right ∧
      (names pMeterMeta left = [] ∨ names pMeterMeta right = [])

def isUpper (optr : Optr) : Bool := optr = .le ∨ optr = .lt

/-- The bound a comparison sets: the column, and whether it is the upper one. -/
def boundOf : Part -> Option (Nat × Bool)
  | .filter colIdx optr _ => some (colIdx, isUpper optr)
  | _ => none

def bounds (pExpr : SQLExpr) : List (Nat × Bool) :=
  (parts pMeterMeta pExpr).filterMap boundOf

/-- The operator makes a range of times that ends at the constant. -/
def TimeFits (optr : Optr) (us : Int) : Prop :=
  match optr with
  | .le | .ge | .eq => True
  | .lt => pMeterMeta.unit ∣ us ∧ wrap64 (us - pMeterMeta.unit) = us - pMeterMeta.unit
  | .gt => pMeterMeta.unit ∣ us ∧ wrap64 (us + pMeterMeta.unit) = us + pMeterMeta.unit
  | _ => False

/-- The constant keeps its value where the comparison is kept. -/
def ExactPart : Part -> Prop
  | .time optr right => ∃ val ticks us, right = .value val ∧
      meaning conv pMeterMeta .timestamp val = some (.number ticks) ∧
      timeOf conv pMeterMeta right = some us ∧
      (us : ℚ) = ticks * pMeterMeta.unit ∧ TimeFits pMeterMeta optr us
  | .filter colIdx _ right => ∃ val bound, right = .value val ∧
      meaning conv pMeterMeta (pMeterMeta.type colIdx) val = some bound ∧
      dump conv (pMeterMeta.type colIdx) right = some bound
  | .tag colInfo _ right => ∃ val, right = .value val ∧
      (written conv right).bind (meaning conv pMeterMeta (typeOf pMeterMeta colInfo)) =
        meaning conv pMeterMeta (typeOf pMeterMeta colInfo) val
  | .tables _ => True

/-- A constant on the left of LIKE is the text there, and not the pattern. -/
def Exact : SQLExpr -> Prop
  | .connect _ left right => Exact left ∧ Exact right
  | .compare optr left right =>
    (∀ val, left = .value val -> optr ≠ .like) ∧
      ∀ part, partOf pMeterMeta optr left right = some part -> ExactPart conv pMeterMeta part

def PartHolds (row : Row pMeterMeta) : Part -> Prop
  | .time optr right => SatisfiesCompare conv pMeterMeta row optr (.id (.column 0)) right
  | .filter colIdx optr right =>
    SatisfiesCompare conv pMeterMeta row optr (.id (.column colIdx)) right
  | .tag colInfo optr right => SatisfiesCompare conv pMeterMeta row optr (.id colInfo) right
  | .tables names => row.table ∈ names

/-- Conditions on the columns of the meter, as against those on its tags. -/
def OnColumns : Part -> Prop
  | .time _ _ | .filter _ _ _ => True
  | .tag _ _ _ | .tables _ => False

structure Torn (row : Row pMeterMeta) (pExpr : SQLExpr) : Prop where
  columns : ∀ part ∈ parts pMeterMeta pExpr, OnColumns part ->
    PartHolds conv pMeterMeta row part
  tags : ∀ formula, tagFormula conv pMeterMeta pExpr = some formula ->
    formula.Holds conv pMeterMeta row
  tables : names pMeterMeta pExpr = [] ∨ row.table ∈ names pMeterMeta pExpr

variable {conv pMeterMeta}
  {left right : Operand} {optr : Optr} {part : Part} {range : TimeRange}
  {pCmd pCmd' : SSqlCmd} {pExpr : SQLExpr} {colList : Nat -> SColumnBase}

theorem isPart_in_left (isPart : partOf pMeterMeta optr left right = some part) :
    (∃ colInfo, left = .id colInfo) ∨ ∃ val colInfo, left = .value val ∧ right = .id colInfo := by
  cases left with
  | id colInfo => exact Or.inl ⟨colInfo, rfl⟩
  | value val =>
    cases right with
    | id colInfo => exact Or.inr ⟨val, colInfo, rfl, rfl⟩
    | value other => cases isPart
    | set names => cases isPart
    | arithmetic result => cases isPart
  | set names => cases isPart
  | arithmetic result => cases isPart

variable {colInfo : ColumnName}

theorem holds_of_oriented {o : Optr} {r : Operand}
    (turned : oriented optr left right = some (o, .id colInfo, r))
    (isPart : partOf pMeterMeta optr left right = some part) (row : Row pMeterMeta) :
    PartHolds conv pMeterMeta row part ↔ SatisfiesCompare conv pMeterMeta row o (.id colInfo) r := by
  unfold partOf at isPart
  rw [turned] at isPart
  cases colInfo with
  | unknown => cases isPart
  | tbname =>
    simp only [Option.some.injEq] at isPart
    subst isPart
    unfold tagPart
    split
    · simp [PartHolds, SatisfiesCompare, Row.named]
    · rfl
  | column colIdx =>
    simp only at isPart
    split at isPart
    · rename_i isTime
      cases isPart
      subst isTime
      rfl
    · split at isPart
      · cases isPart
        rfl
      · cases isPart
        rfl

theorem compare_holds (isPart : partOf pMeterMeta optr left right = some part)
    (exact : Exact conv pMeterMeta (.compare optr left right)) (row : Row pMeterMeta) :
    SatisfiesCompare conv pMeterMeta row optr left right ↔ PartHolds conv pMeterMeta row part := by
  rcases isPart_in_left isPart with ⟨colInfo, rfl⟩ | ⟨val, colInfo, rfl, rfl⟩
  · cases right with
    | id other => cases isPart
    | value val => exact (holds_of_oriented rfl isPart row).symm
    | set names => exact (holds_of_oriented rfl isPart row).symm
    | arithmetic result => exact (holds_of_oriented rfl isPart row).symm
  · have notLike := exact.1 val rfl
    cases val with
    | timestamp us => cases isPart
    | _ =>
      refine Iff.trans ?_ (holds_of_oriented rfl isPart row).symm
      cases optr <;> first | rfl | exact absurd rfl notLike

theorem unit_pos (pMeterMeta : SMeterMeta) : 0 < pMeterMeta.unit := by
  unfold SMeterMeta.unit
  split <;> omega

section

variable (row : Row pMeterMeta) {us : Int} {ticks : ℚ} (same : (us : ℚ) = ticks * pMeterMeta.unit)

include same

theorem micro_le_iff : row.micro ≤ us ↔ (row.ticks : ℚ) ≤ ticks := by
  have positive : (0 : ℚ) < pMeterMeta.unit := Int.cast_pos.mpr (unit_pos pMeterMeta)
  rw [<- Int.cast_le (R := ℚ), same, Row.micro, Int.cast_mul]
  exact mul_le_mul_iff_left₀ positive

theorem le_micro_iff : us ≤ row.micro ↔ ticks ≤ (row.ticks : ℚ) := by
  have positive : (0 : ℚ) < pMeterMeta.unit := Int.cast_pos.mpr (unit_pos pMeterMeta)
  rw [<- Int.cast_le (R := ℚ), same, Row.micro, Int.cast_mul]
  exact mul_le_mul_iff_left₀ positive

end

theorem unit_step {unit a b : Int} (positive : 0 < unit) (divides : unit ∣ b) :
    a * unit < b ↔ a * unit ≤ b - unit := by
  obtain ⟨k, rfl⟩ := divides
  rw [show unit * k - unit = (k - 1) * unit by rw [Int.sub_mul, Int.mul_comm, Int.one_mul],
    Int.mul_comm unit k, Int.mul_lt_mul_right positive, Int.mul_le_mul_right positive]
  omega

theorem step_unit {unit a b : Int} (positive : 0 < unit) (divides : unit ∣ b) :
    b < a * unit ↔ b + unit ≤ a * unit := by
  obtain ⟨k, rfl⟩ := divides
  rw [show unit * k + unit = (k + 1) * unit by rw [Int.add_mul, Int.mul_comm, Int.one_mul],
    Int.mul_comm unit k, Int.mul_lt_mul_right positive, Int.mul_le_mul_right positive]
  omega

theorem time_exact (exact : ExactPart conv pMeterMeta (.time optr right)) (row : Row pMeterMeta) :
    TimeHolds conv pMeterMeta (.time optr right) row.micro ↔
      PartHolds conv pMeterMeta row (.time optr right) := by
  obtain ⟨val, ticks, us, rfl, isMeaning, isTime, same, fits⟩ := exact
  have positive := unit_pos pMeterMeta
  have below := micro_le_iff row same
  have above := le_micro_iff row same
  simp only [TimeHolds, isTime, PartHolds, SatisfiesCompare, typeOf, if_true, isMeaning,
    Row.named, Row.value, Compares]
  cases optr with
  | le => exact below
  | ge => exact above
  | eq =>
    exact ⟨fun equal => le_antisymm (below.mp equal.le) (above.mp equal.ge),
      fun equal => le_antisymm (below.mpr equal.le) (above.mpr equal.ge)⟩
  | lt =>
    simp only
    rw [fits.2, <- not_le (a := ticks), <- above, not_le]
    exact (unit_step positive fits.1).symm
  | gt =>
    simp only
    rw [fits.2, <- not_le (b := ticks), <- below, not_le]
    exact (step_unit positive fits.1).symm
  | ne => exact fits.elim
  | like => exact fits.elim
  | in_ => exact fits.elim

theorem getTimeRange_holds
    (computed : getTimeRange conv pMeterMeta optr right { isSet := true } = some range)
    {us : Int} (nonnegative : 0 ≤ us) (small : us ≤ INT64_MAX) :
    (range.stime ≤ us ∧ us ≤ range.etime) ↔ TimeHolds conv pMeterMeta (.time optr right) us := by
  unfold getTimeRange at computed
  cases isTime : timeOf conv pMeterMeta right with
  | none =>
    rw [isTime] at computed
    cases computed
  | some val =>
    rw [isTime] at computed
    simp only [TimeHolds, isTime]
    cases optr <;> simp only [Option.some.injEq] at computed <;> subst computed <;>
      simp only [nonnegative, small, true_and, and_true]
    exact ⟨fun both => le_antisymm both.2 both.1, fun same => ⟨same.ge, same.le⟩⟩

theorem getTimeRange_isSet
    (computed : getTimeRange conv pMeterMeta optr right { isSet := true } = some range) :
    range.isSet = true := by
  unfold getTimeRange at computed
  cases isTime : timeOf conv pMeterMeta right with
  | none =>
    rw [isTime] at computed
    cases computed
  | some val =>
    rw [isTime] at computed
    cases optr <;> simp only [Option.some.injEq] at computed <;> subst computed <;> rfl

theorem parts_compare (isPart : partOf pMeterMeta optr left right = some part) :
    parts pMeterMeta (.compare optr left right) = [part] := by
  simp [parts, isPart]

theorem not_time_tagPart (colInfo : ColumnName) (optr : Optr) (right : Operand) (us : Int) :
    TimeHolds conv pMeterMeta (tagPart colInfo optr right) us := by
  unfold tagPart
  split <;> trivial

theorem run_time (success : getQueryCondExprImpl conv pMeterMeta pExpr pCmd = some (pCmd', range)) :
    (range.isSet = false -> range = {}) ∧
      ∀ us, 0 ≤ us -> us ≤ INT64_MAX -> ((range.stime ≤ us ∧ us ≤ range.etime) ↔
        ∀ part ∈ parts pMeterMeta pExpr, TimeHolds conv pMeterMeta part us) := by
  induction pExpr generalizing pCmd pCmd' range with
  | compare optr left right =>
    obtain ⟨part, isPart, kinds⟩ := compare_cases success
    rw [parts_compare isPart]
    simp only [mem_singleton, forall_eq]
    rcases kinds with ⟨o, r, rfl, -, computed⟩ | ⟨colIdx, o, r, rfl, -, -, -, rfl⟩ |
      ⟨colInfo, o, r, rfl, -, rfl⟩
    · refine ⟨fun notSet => ?_, fun us => getTimeRange_holds computed⟩
      rw [getTimeRange_isSet computed] at notSet
      cases notSet
    · exact ⟨fun _ => rfl, fun us nonnegative small =>
        ⟨fun _ => trivial, fun _ => ⟨nonnegative, small⟩⟩⟩
    · exact ⟨fun _ => rfl, fun us nonnegative small =>
        ⟨fun _ => not_time_tagPart .., fun _ => ⟨nonnegative, small⟩⟩⟩
  | connect optr left right leftInduction rightInduction =>
    obtain ⟨pCmd1, range1, queryStr, pCmd2, range2, leftSuccess, -, rightSuccess, -, rfl, -⟩ :=
      connect_cases success
    obtain ⟨default1, holds1⟩ := leftInduction leftSuccess
    obtain ⟨default2, holds2⟩ := rightInduction rightSuccess
    have isRange1 : (if range1.isSet then range1 else {}) = range1 := by
      cases isSet : range1.isSet with
      | true => rfl
      | false => exact (default1 isSet).symm
    rw [isRange1]
    have split_ : ∀ us, (∀ part ∈ parts pMeterMeta (.connect optr left right),
        TimeHolds conv pMeterMeta part us) ↔
        (∀ part ∈ parts pMeterMeta left, TimeHolds conv pMeterMeta part us) ∧
          ∀ part ∈ parts pMeterMeta right, TimeHolds conv pMeterMeta part us := by
      intro us
      simp only [parts, mem_append, or_imp, forall_and]
    cases isSet : range2.isSet with
    | true =>
      refine ⟨fun notSet => (by cases notSet), fun us nonnegative small => ?_⟩
      rw [split_, <- holds1 us nonnegative small, <- holds2 us nonnegative small]
      simp only [if_true, max_le_iff, le_min_iff]
      exact ⟨fun h => ⟨⟨h.1.2, h.2.2⟩, h.1.1, h.2.1⟩, fun h => ⟨⟨h.2.1, h.1.1⟩, h.2.2, h.1.2⟩⟩
    | false =>
      refine ⟨default1, fun us nonnegative small => ?_⟩
      have whole : range2.stime ≤ us ∧ us ≤ range2.etime := by
        rw [default2 isSet]
        exact ⟨nonnegative, small⟩
      rw [split_, <- holds1 us nonnegative small]
      exact ⟨fun h => ⟨h, (holds2 us nonnegative small).mp whole⟩, fun h => h.1⟩

/-- Nothing stands at the end of the column that the bound is about. -/
def Unset (colList : Nat -> SColumnBase) (bound : Nat × Bool) : Prop :=
  if bound.2 then (colList bound.1).upperRelOptr = .invalid
  else (colList bound.1).lowerRelOptr = .invalid

def OffEmpty (filter : SColumnBase) : Prop :=
  filter.filterOn = false -> filter.lowerRelOptr = .invalid ∧ filter.upperRelOptr = .invalid

variable (conv pMeterMeta) in
def FilterPartHolds (value : Value) (colIdx : Nat) : Part -> Prop
  | .filter c optr right => c = colIdx ->
      Compares conv optr value (dump conv (pMeterMeta.type c) right)
  | _ => True

theorem relation_invalid (bound value : Value) : RelationHolds conv .invalid bound value := by
  intro optr isOptr
  cases isOptr

theorem filterHolds_iff {filter : SColumnBase} (off : OffEmpty filter) (value : Value) :
    FilterHolds conv filter value ↔ RelationHolds conv filter.lowerRelOptr filter.lowerBndd value ∧
        RelationHolds conv filter.upperRelOptr filter.upperBndd value := by
  cases isOn : filter.filterOn with
  | true => exact ⟨fun holds => holds isOn, fun holds _ => holds⟩
  | false =>
    refine ⟨fun _ => ?_, fun holds _ => holds⟩
    rw [(off isOn).1, (off isOn).2]
    exact ⟨relation_invalid _ _, relation_invalid _ _⟩

theorem setColumnFilterInfo_off (type : DataType) (optr : Optr) (right : Operand)
    (filter : SColumnBase) : OffEmpty (setColumnFilterInfo conv type optr right filter) := by
  intro isOff
  cases optr <;> cases isOff

theorem setColumnFilterInfo_holds {type : DataType}
    {bound : Value} (dumped : dump conv type right = some bound) (notIn : optr ≠ .in_)
    {filter : SColumnBase} (off : OffEmpty filter)
    (free : if isUpper optr then filter.upperRelOptr = .invalid
      else filter.lowerRelOptr = .invalid) (value : Value) :
    FilterHolds conv (setColumnFilterInfo conv type optr right filter) value ↔
      FilterHolds conv filter value ∧ Compares conv optr value (some bound) := by
  rw [filterHolds_iff off, filterHolds_iff (setColumnFilterInfo_off _ _ _ _)]
  cases optr with
  | in_ => exact absurd rfl notIn
  | le | lt =>
    replace free : filter.upperRelOptr = .invalid := free
    simp [setColumnFilterInfo, dumped, free, RelationHolds, relationOptr]
  | ge | gt | eq | ne | like =>
    replace free : filter.lowerRelOptr = .invalid := free
    simp [setColumnFilterInfo, dumped, free, RelationHolds, relationOptr, and_comm]

variable (conv) in
theorem setColumnFilterInfo_frame (type : DataType) (optr : Optr) (right : Operand)
    (filter : SColumnBase) (upper : Bool) (other : isUpper optr ≠ upper) :
    (if upper then (setColumnFilterInfo conv type optr right filter).upperRelOptr
      else (setColumnFilterInfo conv type optr right filter).lowerRelOptr) =
      if upper then filter.upperRelOptr else filter.lowerRelOptr := by
  cases upper <;> cases optr <;> first | rfl | exact absurd rfl other

variable (pMeterMeta) in
def Accepted : Part -> Prop
  | .filter colIdx optr _ => colIdx ≠ 0 ∧ optr ≠ .in_
  | .tables names => names ≠ []
  | _ => True

section

variable (success : getQueryCondExprImpl conv pMeterMeta pExpr pCmd = some (pCmd', range))
include success

theorem run_accepted : ∀ part ∈ parts pMeterMeta pExpr, Accepted part := by
  induction pExpr generalizing pCmd pCmd' range with
  | compare optr left right =>
    obtain ⟨part, isPart, kinds⟩ := compare_cases success
    rw [parts_compare isPart]
    simp only [mem_singleton, forall_eq]
    rcases kinds with ⟨o, r, rfl, -, -⟩ | ⟨colIdx, o, r, rfl, notTime, -, built, -⟩ |
      ⟨colInfo, o, r, rfl, built, -⟩
    · trivial
    · refine ⟨notTime, fun isIn => ?_⟩
      unfold getColumnFilterInfo at built
      simp only [isIn, or_true, if_true] at built
      cases built
    · rcases buildTagQueryCondString_cases built with ⟨list, isTables, some_, -⟩ | ⟨isTag, -⟩
      · rw [isTables]
        exact some_
      · rw [isTag]
        trivial
  | connect optr left right leftInduction rightInduction =>
    obtain ⟨pCmd1, range1, queryStr, pCmd2, range2, leftSuccess, -, rightSuccess, -⟩ :=
      connect_cases success
    intro part isPart
    rw [parts, mem_append] at isPart
    exact isPart.elim (leftInduction leftSuccess part) (rightInduction rightSuccess part)

theorem run_colList : pCmd'.colList = (parts pMeterMeta pExpr).foldl
      (fun colList part => applyFilter conv pMeterMeta part colList) pCmd.colList := by
  induction pExpr generalizing pCmd pCmd' range with
  | compare optr left right =>
    obtain ⟨part, isPart, kinds⟩ := compare_cases success
    rw [parts_compare isPart, List.foldl_cons, List.foldl_nil]
    rcases kinds with ⟨o, r, rfl, rfl, -⟩ | ⟨colIdx, o, r, rfl, -, -, built, -⟩ |
      ⟨colInfo, o, r, rfl, built, -⟩
    · rfl
    · unfold getColumnFilterInfo at built
      simp only at built
      split at built
      · cases built
      · split at built
        · cases built
        · split at built
          · cases built
          · cases built
            rfl
    · rcases buildTagQueryCondString_cases built with
        ⟨list, isTables, -, -, rfl⟩ | ⟨isTag, -, -, rfl⟩
      · rw [isTables]
        rfl
      · rw [isTag]
        rfl
  | connect optr left right leftInduction rightInduction =>
    obtain ⟨pCmd1, range1, queryStr, pCmd2, range2, leftSuccess, -, rightSuccess, -, -, rfl⟩ :=
      connect_cases success
    rw [parts, List.foldl_append, <- leftInduction leftSuccess]
    have rightLists := rightInduction rightSuccess
    exact rightLists

end

theorem applyFilter_holds (accepted : Accepted part) (exact : ExactPart conv pMeterMeta part)
    (off : ∀ c, OffEmpty (colList c)) (free : ∀ bound, boundOf part = some bound -> Unset colList bound)
    (value : Value) (colIdx : Nat) :
    FilterHolds conv (applyFilter conv pMeterMeta part colList colIdx) value ↔
      FilterHolds conv (colList colIdx) value ∧
        FilterPartHolds conv pMeterMeta value colIdx part := by
  cases part with
  | filter c optr right =>
    obtain ⟨val, bound, rfl, -, dumped⟩ := exact
    simp only [applyFilter, FilterPartHolds]
    by_cases same : c = colIdx
    · subst same
      rw [Function.update_self, dumped,
        setColumnFilterInfo_holds dumped accepted.2 (off c) (free _ rfl)]
      simp
    · rw [Function.update_of_ne (Ne.symm same)]
      simp [same]
  | time optr right => simp [applyFilter, FilterPartHolds]
  | tag colInfo optr right => simp [applyFilter, FilterPartHolds]
  | tables names => simp [applyFilter, FilterPartHolds]

theorem applyFilter_off (off : ∀ c, OffEmpty (colList c)) (c : Nat) :
    OffEmpty (applyFilter conv pMeterMeta part colList c) := by
  cases part with
  | filter colIdx optr right =>
    simp only [applyFilter, Function.update_apply]
    split
    · exact setColumnFilterInfo_off _ _ _ _
    · exact off c
  | time optr right => exact off c
  | tag colInfo optr right => exact off c
  | tables names => exact off c

theorem applyFilter_unset {bound : Nat × Bool}
    (other : boundOf part ≠ some bound) (unset : Unset colList bound) :
    Unset (applyFilter conv pMeterMeta part colList) bound := by
  cases part with
  | filter colIdx optr right =>
    obtain ⟨c, upper⟩ := bound
    by_cases same : c = colIdx
    · subst same
      have sides : isUpper optr ≠ upper := fun equal => other (by rw [boundOf, equal])
      have frame := setColumnFilterInfo_frame conv (pMeterMeta.type c) optr right
        (colList c) upper sides
      simp only [applyFilter, Unset, Function.update_self]
      cases upper with
      | true => exact frame.trans unset
      | false => exact frame.trans unset
    · simp only [applyFilter, Unset, Function.update_of_ne same]
      exact unset
  | time optr right => exact unset
  | tag colInfo optr right => exact unset
  | tables names => exact unset

theorem foldl_filters_holds {list : List Part} (accepted : ∀ part ∈ list, Accepted part)
    (exact : ∀ part ∈ list, ExactPart conv pMeterMeta part)
    (distinct : (list.filterMap boundOf).Nodup)
    (off : ∀ c, OffEmpty (colList c)) (free : ∀ bound ∈ list.filterMap boundOf, Unset colList bound)
    (value : Value) (colIdx : Nat) :
    FilterHolds conv (list.foldl
        (fun colList part => applyFilter conv pMeterMeta part colList) colList colIdx) value ↔
      FilterHolds conv (colList colIdx) value ∧
        ∀ part ∈ list, FilterPartHolds conv pMeterMeta value colIdx part := by
  induction list generalizing colList with
  | nil => simp
  | cons part rest ih =>
    have here : ∀ bound, boundOf part = some bound -> Unset colList bound := by
      intro bound isBound
      exact free bound (mem_filterMap.mpr ⟨part, mem_cons_self, isBound⟩)
    have restDistinct : (rest.filterMap boundOf).Nodup :=
      distinct.sublist ((List.sublist_cons_self part rest).filterMap boundOf)
    have restFree : ∀ bound ∈ rest.filterMap boundOf,
        Unset (applyFilter conv pMeterMeta part colList) bound := by
      intro bound member
      obtain ⟨later, isLater, laterBound⟩ := mem_filterMap.mp member
      refine applyFilter_unset (fun same => ?_)
        (free bound (mem_filterMap.mpr ⟨later, List.mem_cons_of_mem _ isLater, laterBound⟩))
      rw [List.filterMap_cons, same] at distinct
      exact (List.nodup_cons.mp distinct).1 member
    rw [List.foldl_cons, ih (fun p isIn => accepted p (List.mem_cons_of_mem _ isIn))
        (fun p isIn => exact p (List.mem_cons_of_mem _ isIn)) restDistinct
        (applyFilter_off off) restFree,
      applyFilter_holds (accepted part mem_cons_self) (exact part mem_cons_self) off here,
      List.forall_mem_cons, and_assoc]

theorem tag_holds
    (exact : ExactPart conv pMeterMeta (.tag colInfo optr right)) (row : Row pMeterMeta) :
    PartHolds conv pMeterMeta row (.tag colInfo optr right) ↔
      (Formula.compare colInfo optr (written conv right)).Holds conv pMeterMeta row := by
  obtain ⟨val, rfl, kept⟩ := exact
  rw [Formula.Holds, kept]
  rfl

theorem accepted_compare
    (success : getQueryCondExprImpl conv pMeterMeta (.compare optr left right) pCmd =
      some (pCmd', range))
    (exact : Exact conv pMeterMeta (.compare optr left right)) (row : Row pMeterMeta) :
    ∃ part, partOf pMeterMeta optr left right = some part ∧ Accepted part ∧
      ExactPart conv pMeterMeta part ∧ (Satisfies conv pMeterMeta row (.compare optr left right) ↔
        PartHolds conv pMeterMeta row part) := by
  obtain ⟨part, isPart, -⟩ := compare_cases success
  have accepted := run_accepted success part (by simp [parts_compare isPart])
  exact ⟨part, isPart, accepted, exact.2 part isPart, compare_holds isPart exact row⟩

section

variable (success : getQueryCondExprImpl conv pMeterMeta pExpr pCmd = some (pCmd', range))
include success

theorem onlyTags_satisfies
    (exact : Exact conv pMeterMeta pExpr) (onlyTags : OnlyTags pMeterMeta pExpr)
    (row : Row pMeterMeta) : ∃ formula, tagFormula conv pMeterMeta pExpr = some formula ∧
      (Satisfies conv pMeterMeta row pExpr ↔ formula.Holds conv pMeterMeta row) := by
  induction pExpr generalizing pCmd pCmd' range with
  | compare optr left right =>
    obtain ⟨part, isPart, -, exactPart, satisfies⟩ := accepted_compare success exact row
    obtain ⟨colInfo, o, r, rfl⟩ := onlyTags part (by simp [parts_compare isPart])
    exact ⟨_, by simp [tagFormula, isPart], satisfies.trans (tag_holds exactPart row)⟩
  | connect optr left right leftInduction rightInduction =>
    obtain ⟨pCmd1, range1, queryStr, pCmd2, range2, leftSuccess, -, rightSuccess, -⟩ :=
      connect_cases success
    obtain ⟨f, isF, leftHolds⟩ := leftInduction leftSuccess exact.1
      (fun part isIn => onlyTags part (List.mem_append_left _ isIn))
    obtain ⟨g, isG, rightHolds⟩ := rightInduction rightSuccess exact.2
      (fun part isIn => onlyTags part (List.mem_append_right _ isIn))
    refine ⟨.connect optr f g, by simp [tagFormula, isF, isG], ?_⟩
    cases optr with
    | and => exact and_congr leftHolds rightHolds
    | or => exact or_congr leftHolds rightHolds

theorem onlyTables_satisfies
    (exact : Exact conv pMeterMeta pExpr) (onlyTables : OnlyTables pMeterMeta pExpr)
    (row : Row pMeterMeta) : names pMeterMeta pExpr ≠ [] ∧ tagFormula conv pMeterMeta pExpr = none ∧
      (∀ part ∈ parts pMeterMeta pExpr, ¬ OnColumns part) ∧
      (Satisfies conv pMeterMeta row pExpr ↔ row.table ∈ names pMeterMeta pExpr) := by
  induction pExpr generalizing pCmd pCmd' range with
  | compare optr left right =>
    obtain ⟨part, isPart, accepted, -, satisfies⟩ := accepted_compare success exact row
    obtain ⟨list, isTables⟩ := onlyTables
    obtain rfl : part = .tables list := Option.some.inj (isPart.symm.trans isTables)
    rw [names_compare isPart, parts_compare isPart]
    exact ⟨accepted, by simp [tagFormula, isPart], by simp [OnColumns], satisfies⟩
  | connect optr left right leftInduction rightInduction =>
    cases optr with
    | and => exact onlyTables.elim
    | or =>
      obtain ⟨pCmd1, range1, queryStr, pCmd2, range2, leftSuccess, -, rightSuccess, -⟩ :=
        connect_cases success
      obtain ⟨leftSome, leftTags, leftParts, leftHolds⟩ :=
        leftInduction leftSuccess exact.1 onlyTables.1
      obtain ⟨-, rightTags, rightParts, rightHolds⟩ :=
        rightInduction rightSuccess exact.2 onlyTables.2
      rw [names_connect]
      refine ⟨by simp [leftSome], by simp [tagFormula, leftTags, rightTags], ?_, ?_⟩
      · intro part isIn
        exact (mem_append.mp isIn).elim (leftParts part) (rightParts part)
      · rw [mem_append]
        exact or_congr leftHolds rightHolds

end

theorem torn_compare {row : Row pMeterMeta}
    (isPart : partOf pMeterMeta optr left right = some part) (accepted : Accepted part)
    (exact : ExactPart conv pMeterMeta part) : PartHolds conv pMeterMeta row part ↔
      Torn conv pMeterMeta row (.compare optr left right) := by
  have namesAre := names_compare isPart
  have partsAre := parts_compare isPart
  constructor
  · intro holds
    refine ⟨fun p isIn _ => ?_, fun formula isFormula => ?_, ?_⟩
    · rw [partsAre, mem_singleton] at isIn
      exact isIn ▸ holds
    · cases part with
      | tag colInfo o r =>
        simp only [tagFormula, isPart, Option.some.injEq] at isFormula
        subst isFormula
        exact (tag_holds exact row).mp holds
      | time o r => simp [tagFormula, isPart] at isFormula
      | filter colIdx o r => simp [tagFormula, isPart] at isFormula
      | tables list => simp [tagFormula, isPart] at isFormula
    · rw [namesAre]
      cases part with
      | tables list => exact Or.inr holds
      | time o r => exact Or.inl rfl
      | filter colIdx o r => exact Or.inl rfl
      | tag colInfo o r => exact Or.inl rfl
  · intro torn
    have columns := torn.columns part (by simp [partsAre])
    cases part with
    | time o r => exact columns trivial
    | filter colIdx o r => exact columns trivial
    | tag colInfo o r =>
      exact (tag_holds exact row).mpr (torn.tags _ (by simp [tagFormula, isPart]))
    | tables list =>
      have tables := torn.tables
      rw [namesAre] at tables
      exact tables.resolve_left accepted

theorem torn_and {left right : SQLExpr} {row : Row pMeterMeta}
    (oneList : names pMeterMeta left = [] ∨ names pMeterMeta right = []) :
    Torn conv pMeterMeta row (.connect .and left right) ↔
      Torn conv pMeterMeta row left ∧ Torn conv pMeterMeta row right := by
  have namesAre : names pMeterMeta (.connect .and left right) =
      names pMeterMeta left ++ names pMeterMeta right := names_connect .and left right
  have columns : (∀ part ∈ parts pMeterMeta (.connect .and left right), OnColumns part ->
      PartHolds conv pMeterMeta row part) ↔
      (∀ part ∈ parts pMeterMeta left, OnColumns part -> PartHolds conv pMeterMeta row part) ∧
        ∀ part ∈ parts pMeterMeta right, OnColumns part -> PartHolds conv pMeterMeta row part := by
    simp only [parts, mem_append, or_imp, forall_and]
  have tags : (∀ formula, tagFormula conv pMeterMeta (.connect .and left right) = some formula ->
      formula.Holds conv pMeterMeta row) ↔
      (∀ formula, tagFormula conv pMeterMeta left = some formula ->
        formula.Holds conv pMeterMeta row) ∧
        ∀ formula, tagFormula conv pMeterMeta right = some formula ->
          formula.Holds conv pMeterMeta row := by
    cases isLeft : tagFormula conv pMeterMeta left <;>
      cases isRight : tagFormula conv pMeterMeta right <;>
      simp [tagFormula, isLeft, isRight, Formula.Holds]
  have tables : (names pMeterMeta (.connect .and left right) = [] ∨
      row.table ∈ names pMeterMeta (.connect .and left right)) ↔
      (names pMeterMeta left = [] ∨ row.table ∈ names pMeterMeta left) ∧
        (names pMeterMeta right = [] ∨ row.table ∈ names pMeterMeta right) := by
    rw [namesAre]
    rcases oneList with empty | empty <;> simp [empty]
  constructor
  · intro torn
    exact ⟨⟨(columns.mp torn.columns).1, (tags.mp torn.tags).1, (tables.mp torn.tables).1⟩,
      (columns.mp torn.columns).2, (tags.mp torn.tags).2, (tables.mp torn.tables).2⟩
  · rintro ⟨first, second⟩
    exact ⟨columns.mpr ⟨first.columns, second.columns⟩, tags.mpr ⟨first.tags, second.tags⟩,
      tables.mpr ⟨first.tables, second.tables⟩⟩

theorem satisfies_iff_torn
    (success : getQueryCondExprImpl conv pMeterMeta pExpr pCmd = some (pCmd', range))
    (exact : Exact conv pMeterMeta pExpr) (separable : Separable pMeterMeta pExpr)
    (row : Row pMeterMeta) :
    Satisfies conv pMeterMeta row pExpr ↔ Torn conv pMeterMeta row pExpr := by
  induction pExpr generalizing pCmd pCmd' range with
  | compare optr left right =>
    obtain ⟨part, isPart, accepted, exactPart, satisfies⟩ :=
      accepted_compare success exact row
    exact satisfies.trans (torn_compare isPart accepted exactPart)
  | connect optr left right leftInduction rightInduction =>
    obtain ⟨pCmd1, range1, queryStr, pCmd2, range2, leftSuccess, -, rightSuccess, -⟩ :=
      connect_cases success
    cases optr with
    | and =>
      rw [torn_and separable.2.2]
      exact and_congr (leftInduction leftSuccess exact.1 separable.1)
        (rightInduction rightSuccess exact.2 separable.2.1)
    | or =>
      rcases separable with ⟨leftTags, rightTags⟩ | ⟨leftTables, rightTables⟩
      · have both : OnlyTags pMeterMeta (.connect .or left right) := by
          intro part isIn
          exact (mem_append.mp isIn).elim (leftTags part) (rightTags part)
        obtain ⟨formula, isFormula, satisfies⟩ := onlyTags_satisfies success exact both row
        have noNames : names pMeterMeta (.connect .or left right) = [] := by
          refine List.flatMap_eq_nil_iff.mpr fun part isIn => ?_
          obtain ⟨colInfo, o, r, rfl⟩ := both part isIn
          rfl
        refine satisfies.trans ⟨fun holds => ⟨?_, ?_, Or.inl noNames⟩, fun torn =>
          torn.tags formula isFormula⟩
        · intro part isIn onColumns
          obtain ⟨colInfo, o, r, rfl⟩ := both part isIn
          exact onColumns.elim
        · intro other isOther
          exact Option.some.inj (isFormula.symm.trans isOther) ▸ holds
      · obtain ⟨some_, noTags, notColumns, satisfies⟩ :=
          onlyTables_satisfies success exact ⟨leftTables, rightTables⟩ row
        refine satisfies.trans ⟨fun isIn => ⟨?_, ?_, Or.inr isIn⟩, fun torn =>
          torn.tables.resolve_left some_⟩
        · exact fun part isPart onColumns => absurd onColumns (notColumns part isPart)
        · intro formula isFormula
          rw [noTags] at isFormula
          cases isFormula

theorem filters_hold (success : getQueryCondExprImpl conv pMeterMeta pExpr {} = some (pCmd', range))
    (exact : ∀ part ∈ parts pMeterMeta pExpr, ExactPart conv pMeterMeta part)
    (distinct : (bounds pMeterMeta pExpr).Nodup) (row : Row pMeterMeta) :
    (∀ colIdx, FilterHolds conv (pCmd'.colList colIdx) (row.value colIdx)) ↔
      ∀ part ∈ parts pMeterMeta pExpr, ∀ colIdx,
        FilterPartHolds conv pMeterMeta (row.value colIdx) colIdx part := by
  have accepted := run_accepted success
  have column : ∀ colIdx, FilterHolds conv (pCmd'.colList colIdx) (row.value colIdx) ↔
      ∀ part ∈ parts pMeterMeta pExpr,
        FilterPartHolds conv pMeterMeta (row.value colIdx) colIdx part := by
    intro colIdx
    rw [run_colList success, foldl_filters_holds accepted exact distinct]
    · exact ⟨fun holds => holds.2, fun holds => ⟨fun isOn => (by cases isOn), holds⟩⟩
    · exact fun c _ => ⟨rfl, rfl⟩
    · intro bound _
      unfold Unset
      split <;> rfl
  exact (forall_congr' column).trans
    ⟨fun holds part isIn colIdx => holds colIdx part isIn,
      fun holds colIdx part isIn => holds part isIn colIdx⟩

theorem columns_kept (accepted : Accepted part)
    (exact : ExactPart conv pMeterMeta part) (row : Row pMeterMeta) :
    (TimeHolds conv pMeterMeta part row.micro ∧
      ∀ colIdx, FilterPartHolds conv pMeterMeta (row.value colIdx) colIdx part) ↔
      (OnColumns part -> PartHolds conv pMeterMeta row part) := by
  cases part with
  | time optr right =>
    rw [time_exact exact row]
    simp [FilterPartHolds, OnColumns]
  | filter c optr right =>
    obtain ⟨val, bound, rfl, isMeaning, dumped⟩ := exact
    have notTime : c ≠ 0 := accepted.1
    simp only [TimeHolds, FilterPartHolds, OnColumns, PartHolds, SatisfiesCompare, typeOf,
      if_neg notTime, isMeaning, dumped, Row.named, true_and, forall_eq', forall_const]
  | tag colInfo optr right => simp [TimeHolds, FilterPartHolds, OnColumns]
  | tables list => simp [TimeHolds, FilterPartHolds, OnColumns]

theorem tableNames_map (list : List String) : tableNames (list.map .table) = list := by
  induction list with
  | nil => rfl
  | cons name rest ih => exact congrArg (name :: ·) ih

theorem tagCond_holds (isWritten : Written conv pMeterMeta pExpr {} pCmd') (row : Row pMeterMeta) :
    TagCondHolds conv pMeterMeta row
        (if pCmd'.queryStr = [] then .absent
          else if pCmd'.tagCondType = some .set then .tables (tableNames pCmd'.queryStr)
          else .text pCmd'.queryStr) ↔
      (∀ formula, tagFormula conv pMeterMeta pExpr = some formula ->
        formula.Holds conv pMeterMeta row) ∧
        (names pMeterMeta pExpr = [] ∨ row.table ∈ names pMeterMeta pExpr) := by
  cases isWritten with
  | neither typeBefore typeAfter noTags noNames text =>
    rw [if_pos text]
    simp [TagCondHolds, noTags, noNames]
  | cond typeBefore typeAfter noNames text some_ =>
    obtain ⟨formula, isFormula⟩ := Option.ne_none_iff_exists'.mp (some_ rfl)
    have isText : pCmd'.queryStr = formula.render := by
      rw [text, isFormula]
      rfl
    have read : readFormula formula.render.length formula.render = some (formula, []) := by
      have whole := readFormula_render formula formula.render.length le_rfl []
      rwa [List.append_nil] at whole
    rw [isText, if_neg (List.ne_nil_of_length_pos formula.render_pos), typeAfter, if_neg (by simp)]
    simp [TagCondHolds, read, isFormula, noNames]
  | set typeBefore typeAfter noTags text some_ =>
    have isText : pCmd'.queryStr = (names pMeterMeta pExpr).map .table := text
    have some' := some_ rfl
    rw [isText, if_neg (by simp [some']), if_pos typeAfter, tableNames_map]
    simp [TagCondHolds, noTags, some']

theorem exact_parts (exact : Exact conv pMeterMeta pExpr) :
    ∀ part ∈ parts pMeterMeta pExpr, ExactPart conv pMeterMeta part := by
  induction pExpr with
  | compare optr left right =>
    intro part isIn
    exact exact.2 part (Option.mem_toList.mp isIn)
  | connect optr left right leftInduction rightInduction =>
    intro part isIn
    exact (mem_append.mp isIn).elim (leftInduction exact.1 part) (rightInduction exact.2 part)

end Conditions

def oneColumn : SMeterMeta where
  numOfColumns := 2
  numOfTags := 0
  type := fun colIdx => if colIdx = 0 then .timestamp else .integer
  milli := true
  isMetric := false

def noText : Conversions where
  parseTime := fun _ => none
  toInteger := fun _ => none
  toReal := fun _ => none
  toBool := fun _ => none
  toBinary := fun _ => ""
  nineDecimals := id
  matches_ := fun _ _ => false

def columnCompare (optr : Optr) (bound : Int) : SQLExpr :=
  .compare optr (.id (.column 1)) (.value (.integer bound))

/-- `c > 5 OR c < 3` -/
def eitherBound : SQLExpr := .connect .or (columnCompare .gt 5) (columnCompare .lt 3)

/-- `c > 5 AND c < 9` -/
def bothBounds : SQLExpr := .connect .and (columnCompare .gt 5) (columnCompare .lt 9)

def rowOfSix : Row oneColumn where
  ticks := 0
  nonnegative := le_rfl
  inRange := by decide
  cell := fun _ => .number 6
  table := ""

end Luomi.Client.WhereTranslation
