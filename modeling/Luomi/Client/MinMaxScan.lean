import Luomi.Client.StatisticsReads
import Mathlib.Algebra.Order.Field.Basic

/-!
# The least and the greatest value of a column (`tscFunctionImpl.c`)

The running value starts from a constant of the type and takes the blocks of a scan one by one:
whole, row by row or by their statistics.  The constant `max` starts from is the negated least
positive value of a floating type.
-/

namespace Luomi.Client.MinMaxScan

open Aggregates Distributed Statistics StatisticsReads PartialResults

/-- Rows of a column, and whether they are read whole, one by one or not at all. -/
inductive Feed where
  | block (piece : Piece ℚ)
  | rows (piece : Piece ℚ)
  | preAgg (cells : List (Option ℚ))

def Feed.cells : Feed -> List (Option ℚ)
  | .block piece | .rows piece => piece.rows.map Prod.snd
  | .preAgg cells => cells

section

variable (type : DataType)

/-- `min_function_f` and `max_function_f`. -/
def minMaxFunctionF (isMin hasNullValue : Bool) (ctx : SQLFunctionCtx SMinMaxRuntime)
    (cell : Option ℚ) : SQLFunctionCtx SMinMaxRuntime :=
  if hasNullValue ∧ cell.isNone then ctx
  else
    let value := if type.isNumber then loopCheck isMin ctx.aOutputBuf.value (cell.getD 0)
      else ctx.aOutputBuf.value
    ⟨{ ctx.aOutputBuf with value := value }, ctx.counts.setVal 1 1⟩

/-- The block that `preAggVals` is set for, without its rows. -/
def preAggBlock (cells : List (Option ℚ)) : Block ℚ :=
  ⟨cells.length, [], [], true, false,
    some (preAggVals cells.length (some (getStatistics type cells)))⟩

def take (isMin : Bool) (ctx : SQLFunctionCtx SMinMaxRuntime) :
    Feed -> SQLFunctionCtx SMinMaxRuntime
  | .block piece => minMaxPlain type isMin piece.block ctx
  | .rows piece =>
    (piece.rows.map Prod.snd).foldl (minMaxFunctionF type isMin piece.hasNullValue) ctx
  | .preAgg cells => minMaxPlain type isMin (preAggBlock type cells) ctx

def start (isMin : Bool) : SQLFunctionCtx SMinMaxRuntime :=
  ⟨⟨minMaxSetup isMin type, false⟩, initVal⟩

def output (isMin : Bool) (feeds : List Feed) : Option ℚ :=
  let ctx := feeds.foldl (take type isMin) (start type isMin)
  functionFinalize ctx.counts ctx.aOutputBuf.value

end

def present (feeds : List Feed) : List ℚ := kept (feeds.flatMap Feed.cells)

/-- A value of a row that no other value is less, or greater, than. -/
def IsExtreme (isMin : Bool) (value : ℚ) (values : List ℚ) : Prop :=
  value ∈ values ∧ ∀ other ∈ values, if isMin then value ≤ other else other ≤ value

section Scan

variable {type : DataType} {isMin : Bool} {ctx : SQLFunctionCtx SMinMaxRuntime}

structure Seen (type : DataType) (isMin : Bool) (ctx : SQLFunctionCtx SMinMaxRuntime)
    (values : List ℚ) : Prop where
  value : ctx.aOutputBuf.value = values.foldl (loopCheck isMin) (minMaxSetup isMin type)
  elems : ctx.counts.numOfIteratedElems = values.length

theorem loopCheck_cases (v d : ℚ) : loopCheck isMin v d = v ∨ loopCheck isMin v d = d := by
  rw [loopCheck]
  split
  · exact .inr rfl
  · exact .inl rfl

theorem loopCheck_left (v d : ℚ) :
    loopCheck isMin v d = v ↔ if isMin then v ≤ d else d ≤ v := by
  rw [loopCheck_eq]
  cases isMin with
  | false => exact max_eq_left_iff
  | true => exact min_eq_left_iff

theorem foldl_cases (values : List ℚ) (v : ℚ) :
    values.foldl (loopCheck isMin) v = v ∨ values.foldl (loopCheck isMin) v ∈ values := by
  induction values generalizing v with
  | nil => exact .inl rfl
  | cons d values ih =>
    rw [List.foldl_cons]
    rcases ih (loopCheck isMin v d) with same | member
    · rw [same]
      exact (loopCheck_cases v d).imp id fun taken => by rw [taken]; exact List.mem_cons_self
    · exact .inr (List.mem_cons_of_mem d member)

theorem one_le_dblMax : 1 ≤ dblMax :=
  calc (1 : ℚ) ≤ 2 ^ 1023 := one_le_pow₀ one_le_two
    _ = 1 * 2 ^ 1023 := (one_mul _).symm
    _ ≤ dblMax := mul_le_mul_of_nonneg_right (by norm_num) (pow_nonneg zero_le_two _)

theorem least_le (power : Nat) : 1 / 2 ^ power ≤ dblMax :=
  (div_le_one_of_le₀ (one_le_pow₀ one_le_two) (pow_nonneg zero_le_two _)).trans one_le_dblMax

theorem setup_sentinel (number : type.isNumber) : loopCheck isMin (minMaxSetup isMin type)
      (if isMin then (sentinels type).2 else (sentinels type).1) = minMaxSetup isMin type := by
  rw [loopCheck_eq]
  cases isMin with
  | true =>
    refine min_eq_left ?_
    cases type with
    | bool | binary | nchar | timestamp => cases number
    | tinyint | smallint | int | bigint =>
      norm_num [minMaxSetup, sentinels, DataType.isFloating, int64Max]
    | float => exact fltMax_le_dblMax
    | double => exact le_refl dblMax
  | false =>
    refine max_eq_left ?_
    cases type with
    | bool | binary | nchar | timestamp => cases number
    | tinyint | smallint | int | bigint =>
      norm_num [minMaxSetup, sentinels, DataType.isFloating, int64Min]
    | float => exact neg_le_neg (least_le 126)
    | double => exact neg_le_neg (least_le 1022)

section

variable {values : List ℚ}

theorem setup_absorbs (number : type.isNumber) (fits : ∀ value ∈ values, Fits type value)
    (integer : isMin = true ∨ type.isInteger) :
    ∀ value ∈ values, loopCheck isMin (minMaxSetup isMin type) value = value := by
  intro value member
  have fit := fits value member
  rw [loopCheck_eq]
  cases isMin with
  | true =>
    refine min_eq_right (fit.most.trans ?_)
    cases type with
    | bool | binary | nchar | timestamp => cases number
    | _ => exact le_refl _
  | false =>
    refine max_eq_right (le_trans ?_ fit.least)
    cases type with
    | tinyint | smallint | int | bigint => exact le_refl _
    | _ => rcases integer with ⟨⟨⟩⟩ | ⟨⟨⟩⟩

theorem Seen.more (seen : Seen type isMin ctx values) (taken : List ℚ)
    {after : SQLFunctionCtx SMinMaxRuntime}
    (value : after.aOutputBuf.value = taken.foldl (loopCheck isMin) ctx.aOutputBuf.value)
    (counts : after.counts = ctx.counts.setVal taken.length 1) :
    Seen type isMin after (values ++ taken) where
  value := by rw [value, seen.value, List.foldl_append]
  elems := by
    rw [counts, List.length_append, Counts.setVal]
    split
    · have := seen.elems
      omega
    · rw [seen.elems]
      push_cast
      rfl

section

variable (number : type.isNumber) (seen : Seen type isMin ctx values)

include number seen

theorem Seen.block (piece : Piece ℚ) : Seen type isMin (take type isMin ctx (.block piece))
      (values ++ kept (piece.rows.map Prod.snd)) := by
  have kept_eq : kept (piece.rows.map Prod.snd) = Distributed.values piece.rows := by
    rw [kept, List.filterMap_map]
    rfl
  refine seen.more _ ?_ ?_ <;> rw [take, minMaxPlain, minMaxFunction_piece number, kept_eq]

theorem Seen.rows (piece : Piece ℚ) : Seen type isMin (take type isMin ctx (.rows piece))
      (values ++ kept (piece.rows.map Prod.snd)) := by
  have filled : ∀ cell ∈ piece.rows.map Prod.snd, piece.hasNullValue = false -> cell.isSome := by
    intro cell member none
    obtain ⟨row, inside, rfl⟩ := List.mem_map.mp member
    exact piece.nulls none row inside
  rw [take]
  generalize piece.rows.map Prod.snd = cells at filled ⊢
  induction cells generalizing ctx values with
  | nil => exact (List.append_nil values).symm ▸ seen
  | cons cell cells ih =>
    have later := fun other member => filled other (List.mem_cons_of_mem cell member)
    rw [List.foldl_cons]
    cases cell with
    | none =>
      have nulls : piece.hasNullValue = true :=
        Bool.eq_true_of_not_eq_false fun none => nomatch filled _ List.mem_cons_self none
      rw [minMaxFunctionF, if_pos ⟨nulls, rfl⟩]
      exact ih seen later
    | some value =>
      rw [minMaxFunctionF, if_neg fun none => nomatch none.2]
      have one := @Seen.more type isMin ctx values seen [value]
        ⟨⟨loopCheck isMin ctx.aOutputBuf.value value, ctx.aOutputBuf.valFlag⟩,
          ctx.counts.setVal 1 1⟩ rfl rfl
      have rest := ih one later
      rw [List.append_assoc] at rest
      rw [if_pos number]
      exact rest

theorem Seen.preAgg {cells : List (Option ℚ)}
    (fits : ∀ value, some value ∈ cells -> Fits type value) :
    Seen type isMin (take type isMin ctx (.preAgg cells)) (values ++ kept cells) := by
  have summary := getStatistics_summary (notText_of_spreads (spreads_of_number number)) fits
  have points := numOfNullPoints_eq type cells
  have unchanged : loopCheck isMin ctx.aOutputBuf.value
      (if isMin then (sentinels type).2 else (sentinels type).1) = ctx.aOutputBuf.value := by
    have moved : values.foldl (loopCheck isMin) (loopCheck isMin
        (if isMin then (sentinels type).2 else (sentinels type).1) (minMaxSetup isMin type)) =
        loopCheck isMin (if isMin then (sentinels type).2 else (sentinels type).1)
          (values.foldl (loopCheck isMin) (minMaxSetup isMin type)) := List.foldl_assoc
    have swap : ∀ v d, loopCheck isMin v d = loopCheck isMin d v := Std.Commutative.comm
    rw [swap, seen.value, <- moved, swap, setup_sentinel number]
  have length := kept_length_le cells
  refine seen.more _ ?_ ?_
  · rw [take, minMaxPlain, preAggBlock, minMaxFunction]
    dsimp only [preAggVals]
    rw [if_pos number]
    cases isMin with
    | false =>
      rw [if_neg Bool.false_ne_true] at unchanged ⊢
      rw [summary.max, foldl_sentinel unchanged]
    | true =>
      rw [if_pos rfl] at unchanged ⊢
      rw [summary.min, foldl_sentinel unchanged]
  · rw [take, minMaxPlain, preAggBlock, minMaxFunction]
    dsimp only [preAggVals]
    rw [points]
    congr 1
    omega

theorem Seen.take (feed : Feed) (fits : ∀ value, some value ∈ feed.cells -> Fits type value) :
    Seen type isMin (MinMaxScan.take type isMin ctx feed) (values ++ kept feed.cells) := by
  cases feed with
  | block piece => exact seen.block number piece
  | rows piece => exact seen.rows number piece
  | preAgg cells => exact seen.preAgg number fits

end

theorem Seen.feeds (number : type.isNumber) (feeds : List Feed) (seen : Seen type isMin ctx values)
    (fits : ∀ feed ∈ feeds, ∀ value, some value ∈ feed.cells -> Fits type value) :
    Seen type isMin (feeds.foldl (MinMaxScan.take type isMin) ctx) (values ++ present feeds) := by
  induction feeds generalizing ctx values with
  | nil => exact (List.append_nil values).symm ▸ seen
  | cons feed feeds ih =>
    have rest := ih (seen.take number feed (fits feed List.mem_cons_self))
      fun other member => fits other (List.mem_cons_of_mem feed member)
    rw [List.append_assoc] at rest
    rw [List.foldl_cons, present, List.flatMap_cons, kept, List.filterMap_append]
    exact rest

end

end Scan

/-- `min` and `max` give the least and the greatest value exactly if it is `min`, the type is an
integer or some value is not below the constant that `max` starts from. -/
theorem output_extreme_iff {type : DataType} (number : type.isNumber) (isMin : Bool)
    (feeds : List Feed)
    (fits : ∀ feed ∈ feeds, ∀ value, some value ∈ feed.cells -> Fits type value)
    (some' : present feeds ≠ []) :
    (∃ value, output type isMin feeds = some value ∧ IsExtreme isMin value (present feeds)) ↔
      isMin = true ∨ type.isInteger ∨ ∃ value ∈ present feeds, minMaxSetup false type ≤ value := by
  have empty : Seen type isMin (start type isMin) [] := ⟨rfl, rfl⟩
  have seen := empty.feeds number feeds fits
  rw [List.nil_append] at seen
  have given : output type isMin feeds =
      some ((present feeds).foldl (loopCheck isMin) (minMaxSetup isMin type)) := by
    have more : 0 < (present feeds).length := List.length_pos_iff.mpr some'
    have elems := seen.elems
    rw [output, functionFinalize, if_neg (by omega), seen.value]
  have fits' : ∀ value ∈ present feeds, Fits type value := by
    intro value member
    obtain ⟨feed, inside, cell⟩ := List.mem_flatMap.mp
      (show some value ∈ feeds.flatMap Feed.cells by simpa [present, kept] using member)
    exact fits feed inside value cell
  have extreme : ∀ other ∈ present feeds, if isMin
      then (present feeds).foldl (loopCheck isMin) (minMaxSetup isMin type) ≤ other
      else other ≤ (present feeds).foldl (loopCheck isMin) (minMaxSetup isMin type) :=
    fun other member => (loopCheck_left _ _).mp (foldl_has _ _ member)
  constructor
  · rintro ⟨value, found, member, _⟩
    rw [given] at found
    obtain rfl := Option.some.inj found
    cases isMin with
    | true => exact .inl rfl
    | false =>
      exact .inr (.inr ⟨_, member, (@loopCheck_left false _ _).mp (foldl_absorbs _ _ _)⟩)
  · intro condition
    refine ⟨_, given, ?_, extreme⟩
    have taken : ∃ value ∈ present feeds,
        loopCheck isMin (minMaxSetup isMin type) value = value := by
      obtain ⟨value, member⟩ := List.exists_mem_of_ne_nil _ some'
      rcases condition with own | integer | ⟨high, inside, enough⟩
      · exact ⟨value, member, setup_absorbs number fits' (.inl own) value member⟩
      · exact ⟨value, member, setup_absorbs number fits' (.inr integer) value member⟩
      · cases isMin with
        | false =>
          refine ⟨high, inside, ?_⟩
          rw [loopCheck_eq]
          exact max_eq_right enough
        | true => exact ⟨value, member, setup_absorbs number fits' (.inl rfl) value member⟩
    rcases foldl_cases (present feeds) (minMaxSetup isMin type) with same | member
    · obtain ⟨value, member, taken⟩ := taken
      have kept := (loopCheck_left _ _).mpr (extreme value member)
      rw [same] at kept ⊢
      rw [<- kept, taken]
      exact member
    · exact member

/-- An integer with a missing value before it, read row by row. -/
theorem oneRow_extreme : ∃ value, output .int false [.rows ⟨[(0, none), (1, some 5)], true, nofun⟩]
    = some value ∧
      IsExtreme false value (present [.rows ⟨[(0, none), (1, some 5)], true, nofun⟩]) := by
  refine (output_extreme_iff rfl false _ ?_ ?_).mpr (.inr (.inl rfl))
  · intro feed member value cell
    obtain rfl := List.mem_singleton.mp member
    obtain rfl : value = 5 := by simpa [Feed.cells] using cell
    exact ⟨by norm_num [range], by norm_num [range], fun _ => ⟨5, rfl⟩⟩
  · exact List.cons_ne_nil _ _

/-- A `double` below zero in a block of its own. -/
theorem negative_not_extreme : ¬ ∀ (type : DataType) (isMin : Bool) (feeds : List Feed),
    type.isNumber -> (∀ feed ∈ feeds, ∀ value, some value ∈ feed.cells -> Fits type value) ->
    present feeds ≠ [] ->
    ∃ value, output type isMin feeds = some value ∧ IsExtreme isMin value (present feeds) := by
  intro extreme
  have fits : ∀ feed ∈ [Feed.block ⟨[(0, some (-1))], false, by simp⟩], ∀ value,
      some value ∈ feed.cells -> Fits .double value := by
    intro feed member value cell
    obtain rfl := List.mem_singleton.mp member
    obtain rfl : value = -1 := by simpa [Feed.cells] using cell
    exact ⟨neg_le_neg one_le_dblMax,
      (neg_nonpos.mpr zero_le_one).trans (zero_le_one.trans one_le_dblMax), nofun⟩
  obtain ⟨value, found, member, _⟩ := extreme .double false _ rfl fits (List.cons_ne_nil _ _)
  obtain rfl : value = -1 := List.mem_singleton.mp member
  have least : loopCheck false (-dblMin) (-1) = -1 := Option.some.inj found
  have more : -dblMin ≤ -1 := max_eq_right_iff.mp ((loopCheck_eq false _ _).symm.trans least)
  have small : dblMin < 1 :=
    (div_lt_one (pow_pos two_pos _)).mpr (one_lt_pow₀ one_lt_two (by norm_num))
  exact absurd (neg_le_neg_iff.mp more) (not_le_of_gt small)

end Luomi.Client.MinMaxScan
