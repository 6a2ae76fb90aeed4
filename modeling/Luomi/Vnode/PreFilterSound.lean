import Luomi.Client.StatisticsReads
import Luomi.Client.TopBottomRows
import Luomi.Vnode.PreFilter
import Mathlib.Data.List.Pairwise
import Mathlib.Tactic.Linarith

/-!
# What the pre-filter leaves out

A filter that turns the statistics of a column down turns every value of it down, with two slips:
an equality on a `double` column compares a range with the bits of the bound, and one on a `float`
column lets values pass that are near the bound.  `top` and `bottom` look at the record in the
place of the output, and read a `float` from the lower bytes of a `double`.
-/

namespace Luomi.Vnode.PreFilterSound

open Client.Aggregates
open List (mem_cons mem_cons_of_mem mem_cons_self mem_singleton)
open Luomi.Client.Distributed (loopCheck_eq)
open Luomi.Client.Statistics
open Luomi.Client.StatisticsReads
open Luomi.Client.TopBottom
open Luomi.Client.TopBottomRows
open Luomi.PartialResults
open Luomi.Vnode.PreFilter
open Option (some.injEq some_inj)

def isEqual (pFilter : SColumnFilter) : Prop :=
  (pFilter.lowerRelOptr = .equal ∧ pFilter.upperRelOptr = .invalid) ∨
    (pFilter.lowerRelOptr = .invalid ∧ pFilter.upperRelOptr = .equal)

/-- An equality that a range is rightly asked about. -/
def EqualFair (pFilter : SColumnFilter) : Prop :=
  pFilter.type ≠ .float ∧ (pFilter.type = .double -> pFilter.lowerBnd = 0)

variable {pFilter : SColumnFilter} {minval maxval value : ℚ}

theorem equalI_sound (least : minval ≤ value) (most : value ≤ maxval)
    (down : equalI pFilter minval maxval = some false) :
    equalI pFilter value value ≠ some true := by
  rw [equalI, if_pos rfl]
  intro pass
  have same : value = pFilter.lowerBnd := by simpa using pass
  rw [equalI] at down
  split at down
  · rename_i single
    have here : value = minval := le_antisymm (single ▸ most) least
    simp [<- here, same] at down
  · split at down
    · rw [<- same] at down
      simp [least, most] at down
    · cases down

theorem lowerBndi_zero (zero : pFilter.lowerBnd = 0) : pFilter.lowerBndi = 0 := by
  rw [SColumnFilter.lowerBndi, zero]
  split
  · have bits : doubleBits 0 = 0 := by decide +kernel
    rw [bits]
    exact Int.cast_zero
  · rfl

theorem equalDd_sound (zero : pFilter.lowerBnd = 0) (least : minval ≤ value)
    (most : value ≤ maxval) (down : equalDd pFilter minval maxval = some false) :
    equalDd pFilter value value ≠ some true := by
  have same : ∀ low high, equalDd pFilter low high = equalI pFilter low high := by
    intro low high
    rw [equalDd, equalI, lowerBndi_zero zero, zero]
  rw [same] at down ⊢
  exact equalI_sound least most down

theorem filterFunc_sound {relation : Relation} (fair : relation = .equal -> EqualFair pFilter)
    (least : minval ≤ value) (most : value ≤ maxval)
    (down : filterFunc pFilter minval maxval relation = some false) :
    filterFunc pFilter value value relation ≠ some true := by
  cases relation with
  | invalid | like => cases down
  | less =>
    simp only [filterFunc, ne_eq, some.injEq, decide_eq_true_eq, decide_eq_false_iff_not,
      not_lt] at down ⊢
    exact down.trans least
  | large =>
    simp only [filterFunc, ne_eq, some.injEq, decide_eq_true_eq, decide_eq_false_iff_not,
      not_lt] at down ⊢
    exact most.trans down
  | lessEqual =>
    simp only [filterFunc, ne_eq, some.injEq, decide_eq_true_eq, decide_eq_false_iff_not,
      not_le] at down ⊢
    exact down.trans_le least
  | largeEqual =>
    simp only [filterFunc, ne_eq, some.injEq, decide_eq_true_eq, decide_eq_false_iff_not,
      not_le] at down ⊢
    exact most.trans_lt down
  | notEqual =>
    rw [filterFunc] at down ⊢
    split at down
    · rename_i single
      have here : value = minval := le_antisymm (single ▸ most) least
      rw [if_pos rfl, here]
      rw [down]
      simp
    · cases down
  | equal =>
    obtain ⟨other, zero⟩ := fair rfl
    rw [filterFunc] at down ⊢
    cases type : pFilter.type with
    | float => exact absurd type other
    | double =>
      rw [type] at down
      exact equalDd_sound (zero type) least most down
    | bool | tinyint | smallint | int | bigint | binary | timestamp | nchar =>
      rw [type] at down
      exact equalI_sound least most down

theorem fp_sound (fair : isEqual pFilter -> EqualFair pFilter) (least : minval ≤ value)
    (most : value ≤ maxval) (down : fp pFilter minval maxval = some false) :
    fp pFilter value value ≠ some true := by
  rw [fp] at down ⊢
  split at down
  · simp only [some.injEq, decide_eq_false_iff_not, not_and, not_lt] at down
    intro pass
    simp only [some.injEq, decide_eq_true_eq] at pass
    exact absurd (down (least.trans_lt pass.1)) (not_le_of_gt (pass.2.trans_le most))
  · simp only [some.injEq, decide_eq_false_iff_not, not_and, not_le] at down
    intro pass
    simp only [some.injEq, decide_eq_true_eq] at pass
    exact absurd (down (least.trans_lt pass.1)) (not_lt_of_ge (pass.2.trans most))
  · simp only [some.injEq, decide_eq_false_iff_not, not_and, not_lt] at down
    intro pass
    simp only [some.injEq, decide_eq_true_eq] at pass
    exact absurd (down (least.trans pass.1)) (not_le_of_gt (pass.2.trans_le most))
  · simp only [some.injEq, decide_eq_false_iff_not, not_and, not_le] at down
    intro pass
    simp only [some.injEq, decide_eq_true_eq] at pass
    exact absurd (down (least.trans pass.1)) (not_lt_of_ge (pass.2.trans most))
  · exact filterFunc_sound (fun equal => fair (.inr ⟨by assumption, equal⟩)) least most down
  · exact filterFunc_sound (fun equal => fair (.inl ⟨equal, by assumption⟩)) least most down
  · cases down

variable {type : DataType}

section

variable (number : isText type = false)
include number

theorem range_least : (range type).1 ≤ (sentinels type).2 := by
  have wide : (range type).1 ≤ 0 := by
    cases type with
    | bool | tinyint | smallint | int | bigint | timestamp => norm_num [range, int64Min]
    | float => exact neg_nonpos.mpr (by norm_num [fltMax])
    | double => exact neg_nonpos.mpr (mul_nonneg (by norm_num) (pow_nonneg zero_le_two _))
    | binary | nchar => cases number
  refine wide.trans ?_
  rw [sentinels]
  split
  · exact mul_nonneg (by norm_num) (pow_nonneg zero_le_two _)
  · norm_num [int64Max]

theorem range_most : (sentinels type).1 ≤ (range type).2 := by
  have wide : 0 ≤ (range type).2 := by
    cases type with
    | bool | tinyint | smallint | int | bigint | timestamp => norm_num [range, int64Max]
    | float => norm_num [range, fltMax]
    | double => exact mul_nonneg (by norm_num) (pow_nonneg zero_le_two _)
    | binary | nchar => cases number
  refine le_trans ?_ wide
  rw [sentinels]
  split
  · exact neg_nonpos.mpr (mul_nonneg (by norm_num) (pow_nonneg zero_le_two _))
  · norm_num [int64Min]

section

variable {values : List ℚ} (fits : ∀ value ∈ values, Fits type value) (member : value ∈ values)

include fits member

theorem min_fits : Fits type (values.foldl (loopCheck true) (sentinels type).2) ∧
      values.foldl (loopCheck true) (sentinels type).2 ≤ value := by
  have below : values.foldl (loopCheck true) (sentinels type).2 ≤ value := by
    have has := foldl_has (loopCheck true) (sentinels type).2 member
    rw [loopCheck_eq, if_pos rfl] at has
    exact min_eq_left_iff.mp has
  refine ⟨⟨?_, below.trans (fits value member).most, fun floating => ?_⟩, below⟩
  · have above : ∀ (values : List ℚ) (start : ℚ), (range type).1 ≤ start ->
        (∀ value ∈ values, (range type).1 ≤ value) ->
        (range type).1 ≤ values.foldl (loopCheck true) start := by
      intro values
      induction values with
      | nil => exact fun start low _ => low
      | cons first values ih =>
        intro start low all
        refine ih _ ?_ fun other inside => all other (mem_cons_of_mem _ inside)
        rw [loopCheck_eq, if_pos rfl]
        exact le_min low (all first mem_cons_self)
    exact above values _ (range_least number) fun other inside => (fits other inside).least
  · exact whole_foldl (loopCheck_whole true) (fun other inside => (fits other inside).whole floating)
      (sentinels_whole type floating).2

theorem max_fits : Fits type (values.foldl (loopCheck false) (sentinels type).1) ∧
      value ≤ values.foldl (loopCheck false) (sentinels type).1 := by
  have above : value ≤ values.foldl (loopCheck false) (sentinels type).1 := by
    have has := foldl_has (loopCheck false) (sentinels type).1 member
    rw [loopCheck_eq, if_neg Bool.false_ne_true] at has
    exact max_eq_left_iff.mp has
  refine ⟨⟨(fits value member).least.trans above, ?_, fun floating => ?_⟩, above⟩
  · have below : ∀ (values : List ℚ) (start : ℚ), start ≤ (range type).2 ->
        (∀ value ∈ values, value ≤ (range type).2) ->
        values.foldl (loopCheck false) start ≤ (range type).2 := by
      intro values
      induction values with
      | nil => exact fun start low _ => low
      | cons first values ih =>
        intro start low all
        refine ih _ ?_ fun other inside => all other (mem_cons_of_mem _ inside)
        rw [loopCheck_eq, if_neg Bool.false_ne_true]
        exact max_le low (all first mem_cons_self)
    exact below values _ (range_most number) fun other inside => (fits other inside).most
  · exact whole_foldl (loopCheck_whole false) (fun other inside => (fits other inside).whole floating)
      (sentinels_whole type floating).1

end

end

theorem readField_eq {word : Word} (fits : Fits type (word.read type)) :
    readField type word = word.read type := by
  cases type with
  | float | double => rfl
  | bool | tinyint | smallint | int | bigint | binary | timestamp | nchar =>
    exact reread_fits fits (by decide)

variable {column : Column}

theorem readField_around (number : isText column.type = false)
    (member : some value ∈ column.cells) :
    (readField column.type (getStatistics column.type column.cells).min ≤ value ∧
      value ≤ readField column.type (getStatistics column.type column.cells).max) ∧
    Fits column.type ((getStatistics column.type column.cells).min.read column.type) ∧
      Fits column.type ((getStatistics column.type column.cells).max.read column.type) := by
  have summary := getStatistics_summary number column.fits
  have inside : value ∈ kept column.cells := by simpa [kept] using member
  have fits : ∀ value ∈ kept column.cells, Fits column.type value := fun other inside =>
    column.fits other (by simpa [kept] using inside)
  have least := min_fits number fits inside
  have most := max_fits number fits inside
  rw [<- summary.min] at least
  rw [<- summary.max] at most
  rw [readField_eq least.1, readField_eq most.1]
  exact ⟨⟨least.2, most.2⟩, least.1, most.1⟩

/-- A query and a block; a column has one type, and a filter or a list is of a column of
numbers. -/
structure Asked where
  query : Query
  block : Block
  filters : ∀ pFilter ∈ query.filters, isText pFilter.type = false ∧
    ∀ column ∈ block.columns, column.colId = pFilter.colId -> column.type = pFilter.type
  outputs : ∀ output ∈ query.outputs, ∀ kind maxLen list,
    output.function = .topBottom kind maxLen list -> output.type.isNumber ∧
      ∀ column ∈ block.columns, column.colId = output.colId -> column.type = output.type

variable {block : Block} {index : Nat} {colId : Int}

theorem find_at (found : block.columns[index]? = some column) (same : column.colId = colId) :
    getFieldInfo block.toFileBlock colId = some column := by
  have member := List.mem_of_getElem? found
  cases first : getFieldInfo block.toFileBlock colId with
  | none =>
    rw [getFieldInfo, List.find?_eq_none] at first
    exact absurd same (by simpa using first column member)
  | some other =>
    obtain ⟨inside, other_same⟩ := getFieldInfo_mem first
    by_contra different
    have apart : other ≠ column := fun equal => different (congrArg some equal)
    have symm : Std.Symm fun column other : Column => column.colId ≠ other.colId :=
      ⟨fun _ _ unequal => unequal.symm⟩
    exact block.once.forall inside member apart (other_same.trans same.symm)

theorem cellAt_mem {row : Nat} (cell : cellAt block colId row = some value) :
    ∃ column, getFieldInfo block.toFileBlock colId = some column ∧ some value ∈ column.cells := by
  have member : some value ∈ cellsOf block.toFileBlock colId :=
    List.mem_of_getElem? (Option.join_eq_some_iff.mp cell)
  rw [cellsOf] at member
  cases found : getFieldInfo block.toFileBlock colId with
  | none =>
    rw [found] at member
    exact absurd (List.eq_of_mem_replicate member) (by simp)
  | some column =>
    rw [found] at member
    exact ⟨column, rfl, member⟩

def Inside (block : Block) (pFilter : SColumnFilter) : Prop :=
  pFilter.colIdx.toNat < block.columns.length ∨
    getFieldInfo block.toFileBlock pFilter.colId = none

variable {asked : Asked}

theorem down_cell
    (member : pFilter ∈ asked.query.filters) (fair : isEqual pFilter -> EqualFair pFilter)
    (inside : Inside asked.block pFilter)
    (same : (asked.block.pField pFilter.colIdx.toNat).1 = pFilter.colId) (down : fp pFilter
      (readField pFilter.type (asked.block.pField pFilter.colIdx.toNat).2.min)
      (readField pFilter.type (asked.block.pField pFilter.colIdx.toNat).2.max) = some false)
    (row : Nat) (value : ℚ) (cell : cellAt asked.block pFilter.colId row = some value) :
    fp pFilter value value ≠ some true := by
  obtain ⟨number, typed⟩ := asked.filters pFilter member
  obtain ⟨column, found, value_mem⟩ := cellAt_mem cell
  rcases inside with short | missing
  · have place := List.getElem?_eq_getElem short
    rw [Block.pField, place] at same down
    dsimp only at same down
    have here := find_at place same
    rw [found, some_inj] at here
    rw [<- here] at same down
    have type := typed column (getFieldInfo_mem found).1 same
    rw [<- type] at down number
    have around := (readField_around number value_mem).1
    exact fp_sound fair around.1 around.2 down
  · rw [found] at missing
    cases missing

theorem checkFilters_down {filters : List SColumnFilter}
    (down : checkFilters block filters = some false) :
    ∃ pFilter ∈ filters, (block.pField pFilter.colIdx.toNat).1 = pFilter.colId ∧
      fp pFilter (readField pFilter.type (block.pField pFilter.colIdx.toNat).2.min)
        (readField pFilter.type (block.pField pFilter.colIdx.toNat).2.max) = some false := by
  induction filters with
  | nil => cases down
  | cons pFilter filters ih =>
    rw [checkFilters] at down
    split at down
    · obtain ⟨found, member, rest⟩ := ih down
      exact ⟨found, mem_cons_of_mem _ member, rest⟩
    · rename_i here
      rw [not_or, not_not] at here
      dsimp only at down
      split at down
      · obtain ⟨found, member, rest⟩ := ih down
        exact ⟨found, mem_cons_of_mem _ member, rest⟩
      · rename_i turned
        exact ⟨pFilter, mem_cons_self, here.2, turned⟩
      · cases down

/-- The filters are fair, and none is asked about memory behind the records. -/
def FiltersFair (query : Query) (block : Block) : Prop :=
  ∀ pFilter ∈ query.filters, (isEqual pFilter -> EqualFair pFilter) ∧ Inside block pFilter

theorem passing_none (fair : FiltersFair asked.query asked.block)
    (down : checkFilters asked.block asked.query.filters = some false) :
    passing asked.query asked.block = [] := by
  obtain ⟨pFilter, member, same, turned⟩ := checkFilters_down down
  rw [passing, List.filter_eq_nil_iff]
  intro row _ pass
  rw [vnodeDoFilterData, Bool.and_eq_true] at pass
  have own := List.all_eq_true.mp pass.1 pFilter member
  cases cell : cellAt asked.block pFilter.colId row with
  | none => simp [cell] at own
  | some value =>
    rw [cell] at own
    exact down_cell member (fair pFilter member).1 (fair pFilter member).2 same turned row value cell
      (by simpa using own)

/-- The first list of the outputs is asked about its own column, and the block gives nothing to
another output. -/
def OutputsFair (block : Block) : Nat -> List Output -> Prop
  | _, [] => True
  | index, output :: outputs =>
    match output.function with
    | .topBottom _ _ _ =>
      (∃ column, block.columns[index]? = some column ∧ column.colId = output.colId) ∧
        output.type ≠ .float ∧ ∀ other ∈ outputs, other.function = .ts
    | .ts => OutputsFair block (index + 1) outputs
    | .other => ∀ other ∈ outputs, ∀ kind maxLen list,
        other.function ≠ .topBottom kind maxLen list

variable {maxLen : Nat} {list : List TValuePair} {kind : Kind}

theorem functionDoAdd_worse (number : type.isNumber)
    {first : TValuePair} (full : ¬ (first :: list).length < maxLen) {pair : TValuePair} (worse : ¬ kind.lt first.v pair.v = true) :
    functionDoAdd type maxLen (first :: list) pair kind = first :: list := by
  rw [functionDoAdd_eq number, if_neg full, replaceFirst, if_neg worse]

theorem functionDoAdd_none (number : type.isNumber)
    (full : ¬ ([] : List TValuePair).length < maxLen) (kind : Kind) (pair : TValuePair) :
    functionDoAdd type maxLen [] pair kind = [] := by
  rw [functionDoAdd_eq number, if_neg full]
  rfl

theorem addRow_worse {output : Output} (member : output ∈ asked.query.outputs)
    (function : output.function = .topBottom kind maxLen list)
    (place : asked.block.columns[index]? = some column) (same : column.colId = output.colId)
    (other : output.type ≠ .float)
    (down : topBotDatablockFilter kind maxLen list output.type (asked.block.pField index).2 = false)
    (row : Nat) : addRow asked.block output kind maxLen list row = list := by
  obtain ⟨number, typed⟩ := asked.outputs output member kind maxLen list function
  rw [addRow]
  cases cell : cellAt asked.block output.colId row with
  | none => rfl
  | some value =>
    dsimp only
    obtain ⟨column', found, value_mem⟩ := cellAt_mem cell
    have here := find_at place same
    rw [found, some_inj] at here
    subst here
    have type := typed column' (List.mem_of_getElem? place) same
    have notText : isText column'.type = false := by
      rw [type]
      exact notText_of_spreads (spreads_of_number number)
    obtain ⟨around, min_fits, max_fits⟩ := readField_around notText value_mem
    rw [type] at around min_fits max_fits
    rw [readField_eq min_fits, readField_eq max_fits] at around
    rw [topBotDatablockFilter.eq_def] at down
    split at down
    · cases down
    · rename_i full
      cases list with
      | nil => exact functionDoAdd_none number full kind _
      | cons first list =>
        have record : (asked.block.pField index).2 = getStatistics output.type column'.cells := by
          rw [Block.pField, place, <- type]
        refine functionDoAdd_worse number full ?_
        cases kind with
        | top =>
          dsimp only at down
          rw [decide_eq_false_iff_not, record, readLower, reread_fits max_fits other, not_lt] at down
          simp only [Kind.lt, decide_eq_true_eq]
          exact not_lt_of_ge (around.2.trans down)
        | bottom =>
          dsimp only at down
          rw [decide_eq_false_iff_not, record, readLower, reread_fits min_fits other, not_lt] at down
          simp only [Kind.lt, decide_eq_true_eq]
          exact not_lt_of_ge (down.trans around.1)

theorem checkOutputs_down {outputs : List Output}
    (members : ∀ output ∈ outputs, output ∈ asked.query.outputs)
    (fair : OutputsFair asked.block index outputs)
    (down : checkOutputs asked.block index outputs = false) :
    ∀ output ∈ outputs, Unchanged asked.query asked.block output := by
  induction outputs generalizing index with
  | nil => simp
  | cons output outputs ih =>
    have rest := fun other member => members other (mem_cons_of_mem output member)
    rw [checkOutputs] at down
    rw [OutputsFair] at fair
    intro found member
    cases function : output.function with
    | topBottom kind maxLen list =>
      rw [function] at fair down
      obtain ⟨⟨column, place, same⟩, type, others⟩ := fair
      rcases mem_cons.mp member with rfl | member
      · have worse := addRow_worse (members found mem_cons_self) function place same type down
        have run : ∀ rows : List Nat,
            rows.foldl (addRow asked.block found kind maxLen) list = list := by
          intro rows
          induction rows with
          | nil => rfl
          | cons row rows again => rw [List.foldl_cons, worse row, again]
        rw [Unchanged, function]
        exact run _
      · rw [Unchanged, others found member]
        trivial
    | ts =>
      rw [function] at fair down
      rcases mem_cons.mp member with rfl | member
      · rw [Unchanged, function]
        trivial
      · exact ih rest fair down found member
    | other =>
      rw [function] at fair down
      have goes : ∀ (outputs : List Output) (index : Nat), (∀ other ∈ outputs, ∀ kind maxLen list,
          other.function ≠ .topBottom kind maxLen list) ->
          checkOutputs asked.block index outputs = true := by
        intro outputs
        induction outputs with
        | nil => exact fun _ _ => rfl
        | cons next outputs again =>
          intro index none
          have later := again (index + 1) fun other inside =>
            none other (mem_cons_of_mem _ inside)
          rw [checkOutputs]
          cases next_function : next.function with
          | topBottom kind maxLen list =>
            exact absurd next_function (none next mem_cons_self kind maxLen list)
          | ts | other => exact later
      rw [goes outputs (index + 1) fair] at down
      cases down

/-- The filters and the lists are asked about what they are about. -/
structure Fair (query : Query) (block : Block) : Prop where
  filters : FiltersFair query block
  outputs : OutputsFair block 0 query.outputs

theorem fits_double (least : -dblMax ≤ value) (most : value ≤ dblMax) :
    Fits .double value := ⟨least, most, fun floating => by cases floating⟩

theorem dblMax_large : (2 : ℚ) ^ 64 ≤ dblMax :=
  calc (2 : ℚ) ^ 64 ≤ 2 ^ 1023 := pow_le_pow_right₀ one_le_two (by omega)
    _ = 1 * 2 ^ 1023 := (one_mul _).symm
    _ ≤ (2 - 1 / 2 ^ 52) * 2 ^ 1023 :=
      mul_le_mul_of_nonneg_right (by norm_num) (pow_nonneg zero_le_two _)

/-- Two rows of a `double` column with the values 5 and 6. -/
def fiveSix : Block where
  size := 2
  columns := [⟨0, .timestamp, [some 1, some 2], fun value member => by
      have same : value = 1 ∨ value = 2 := by simpa using member
      rcases same with rfl | rfl
      · exact ⟨by norm_num [range, int64Min], by norm_num [range, int64Max], fun _ => ⟨1, rfl⟩⟩
      · exact ⟨by norm_num [range, int64Min], by norm_num [range, int64Max], fun _ => ⟨2, rfl⟩⟩⟩,
    ⟨1, .double, [some 5, some 6], fun value member => by
      have same : value = 5 ∨ value = 6 := by simpa using member
      have large := dblMax_large
      rcases same with rfl | rfl
      · exact fits_double (by linarith) (by linarith)
      · exact fits_double (by linarith) (by linarith)⟩]
  lengths := by simp
  timestamps := ⟨_, rfl, by simp⟩
  once := by decide
  behind := fun _ => (-1, ⟨0, .i64Key 0, .i64Key 0, .i64Key 0⟩)

/-- A query for the rows with one value of the column, for any function. -/
def equalTo (bound : ℚ) : Query where
  filters := [⟨1, 1, .double, .equal, .invalid, bound, 0⟩]
  texts := []
  outputs := [⟨.other, 1, .double⟩]

def askedEqual (bound : ℚ) : Asked where
  query := equalTo bound
  block := fiveSix
  filters := by
    intro pFilter member
    have typed : ∀ column ∈ fiveSix.columns, column.colId = 1 -> column.type = .double := by decide
    rw [mem_singleton.mp member]
    exact ⟨rfl, typed⟩
  outputs := by
    intro output member kind maxLen list function
    rw [mem_singleton.mp member] at function
    cases function

end Luomi.Vnode.PreFilterSound
