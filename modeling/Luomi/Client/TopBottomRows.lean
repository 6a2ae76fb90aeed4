import Luomi.Base.BestRows
import Luomi.Client.Distributed
import Luomi.Client.Statistics
import Luomi.Client.TopBottom
import Mathlib.Tactic.NormNum

/-!
# The rows of `top` and `bottom`

The list of a function holds the best rows it was given, the worst of them first.  A merge keeps
that, as long as every value is read back as it was kept.
-/

namespace Luomi.Client.TopBottomRows

open BestRows Aggregates Distributed Statistics TopBottom PartialResults
open List (append_assoc append_nil foldl_cons mem_append_left mem_cons mem_cons_self
  pairwise_cons reverse_cons reverse_perm)

def score : Kind -> TValuePair -> ℚ
  | .top, pair => pair.v
  | .bottom, pair => -pair.v

theorem lt_iff (kind : Kind) (pair other : TValuePair) :
    kind.lt pair.v other.v ↔ score kind pair < score kind other := by
  cases kind with
  | top => simp [Kind.lt, score]
  | bottom => simp [Kind.lt, score]

def Sorted (kind : Kind) (list : List TValuePair) : Prop :=
  list.Pairwise fun pair other => score kind pair ≤ score kind other

variable {kind : Kind} {pair : TValuePair}

theorem shiftUp_perm (front behind : List TValuePair) :
    (shiftUp kind.lt pair front behind).Perm (pair :: (front ++ behind)) := by
  induction front generalizing behind with
  | nil => exact List.Perm.refl _
  | cons last front ih =>
    rw [shiftUp]
    split
    · calc (shiftUp kind.lt pair front (last :: behind)).Perm
            (pair :: (front ++ last :: behind)) := ih _
        _ |>.Perm (pair :: (last :: front ++ behind)) := (List.perm_middle.cons pair)
    · calc ((last :: front).reverse ++ pair :: behind).Perm
            ((last :: front) ++ pair :: behind) := (reverse_perm _).append_right _
        _ |>.Perm (pair :: (last :: front ++ behind)) := List.perm_middle

theorem shiftUp_sorted (front behind : List TValuePair)
    (sorted : Sorted kind (front.reverse ++ behind))
    (above : ∀ other ∈ behind, score kind pair ≤ score kind other) :
    Sorted kind (shiftUp kind.lt pair front behind) := by
  induction front generalizing behind with
  | nil => exact pairwise_cons.mpr ⟨above, sorted⟩
  | cons last front ih =>
    rw [shiftUp]
    split
    · rename_i less
      refine ih (last :: behind) ?_ ?_
      · rwa [reverse_cons, append_assoc] at sorted
      · intro other member
        rcases mem_cons.mp member with rfl | member
        · exact ((lt_iff kind pair other).mp less).le
        · exact above other member
    · rename_i less
      have last_le : score kind last ≤ score kind pair :=
        le_of_not_gt fun greater => less ((lt_iff kind pair last).mpr greater)
      obtain ⟨front_sorted, behind_sorted, between⟩ := List.pairwise_append.mp sorted
      refine List.pairwise_append.mpr ⟨front_sorted, pairwise_cons.mpr ⟨above, behind_sorted⟩, ?_⟩
      intro other member next next_member
      have other_le : score kind other ≤ score kind last := by
        rw [reverse_cons] at front_sorted member
        rcases List.mem_append.mp member with member | member
        · exact (List.pairwise_append.mp front_sorted).2.2 other member last mem_cons_self
        · rw [List.mem_singleton.mp member]
      rcases mem_cons.mp next_member with rfl | next_member
      · exact other_le.trans last_le
      · exact between other member next next_member

theorem shiftDown_perm (list : List TValuePair) :
    (shiftDown kind.lt pair list).Perm (pair :: list) := by
  induction list with
  | nil => exact List.Perm.refl _
  | cons next list ih =>
    rw [shiftDown]
    split
    · exact (ih.cons next).trans (List.Perm.swap pair next list)
    · exact List.Perm.refl _

variable {list : List TValuePair} {maxLen : Nat}

theorem shiftDown_sorted (sorted : Sorted kind list) :
    Sorted kind (shiftDown kind.lt pair list) := by
  induction list with
  | nil => exact List.pairwise_singleton _ _
  | cons next list ih =>
    obtain ⟨first, rest⟩ := pairwise_cons.mp sorted
    rw [shiftDown]
    split
    · rename_i less
      refine pairwise_cons.mpr ⟨fun other member => ?_, ih rest⟩
      rcases mem_cons.mp ((shiftDown_perm list).mem_iff.mp member) with rfl | member
      · exact ((lt_iff kind next other).mp less).le
      · exact first other member
    · rename_i less
      have pair_le : score kind pair ≤ score kind next :=
        le_of_not_gt fun greater => less ((lt_iff kind next pair).mpr greater)
      refine pairwise_cons.mpr ⟨fun other member => ?_, sorted⟩
      rcases mem_cons.mp member with rfl | member
      · exact pair_le
      · exact pair_le.trans (first other member)

/-- Both functions put a row in the same way; for `top` a comparison is made once more. -/
theorem functionDoAdd_eq {type : DataType} (number : type.isNumber) (maxLen : Nat)
    (list : List TValuePair) (pair : TValuePair) (kind : Kind) :
    functionDoAdd type maxLen list pair kind =
      if list.length < maxLen then shiftUp kind.lt pair list.reverse []
      else replaceFirst kind.lt pair list := by
  have empty : list.getLast? = none -> shiftUp kind.lt pair list.reverse [] = list ++ [pair] := by
    intro none
    rw [List.getLast?_eq_none_iff.mp none]
    rfl
  cases kind with
  | top =>
    rw [functionDoAdd, if_pos number, topAddElemImpl]
    split
    · cases last_eq : list.getLast? with
      | none => exact (empty last_eq).symm
      | some last =>
        dsimp only
        split
        · rename_i last_le
          obtain ⟨front, rfl⟩ := List.getLast?_eq_some_iff.mp last_eq
          have not_less : ¬ Kind.top.lt pair.v last.v = true := by
            simpa [Kind.lt] using last_le
          rw [List.reverse_append, List.reverse_singleton, List.singleton_append, shiftUp,
            if_neg not_less, reverse_cons, List.reverse_reverse]
        · rfl
    · rfl
  | bottom =>
    rw [functionDoAdd, if_pos number, bottomAddElemImpl]
    split
    · cases last_eq : list.getLast? with
      | none => exact (empty last_eq).symm
      | some last => rfl
    · rfl

structure Holds (kind : Kind) (maxLen : Nat) (rows list : List TValuePair) : Prop where
  best : Best (score kind) maxLen rows list
  sorted : Sorted kind list

theorem Holds.nil (kind : Kind) (maxLen : Nat) : Holds kind maxLen [] [] :=
  ⟨Best.nil, List.Pairwise.nil⟩

section

variable {type : DataType} (number : type.isNumber) (some : 0 < maxLen) {rows : List TValuePair}
  (holds : Holds kind maxLen rows list)

include number some holds

theorem Holds.add (pair : TValuePair) :
    Holds kind maxLen (rows ++ [pair]) (functionDoAdd type maxLen list pair kind) := by
  obtain ⟨best, sorted⟩ := holds
  rw [functionDoAdd_eq number]
  by_cases room : list.length < maxLen
  · rw [if_pos room]
    have added : (shiftUp kind.lt pair list.reverse []).Perm (pair :: (list.reverse ++ [])) :=
      shiftUp_perm list.reverse []
    rw [append_nil] at added
    refine ⟨best.add_room room (added.trans ((reverse_perm list).cons pair)), ?_⟩
    refine shiftUp_sorted list.reverse [] ?_ (by simp)
    rwa [List.reverse_reverse, append_nil]
  · rw [if_neg room]
    have full : list.length = maxLen := by
      have length := best.length
      omega
    cases list with
    | nil =>
      rw [<- full] at some
      exact absurd some (lt_irrefl 0)
    | cons first list =>
      obtain ⟨first_le, rest_sorted⟩ := pairwise_cons.mp sorted
      have worst : ∀ other ∈ first :: list, score kind first ≤ score kind other := by
        intro other member
        rcases mem_cons.mp member with rfl | member
        · exact le_refl _
        · exact first_le other member
      rw [replaceFirst]
      split
      · rename_i less
        exact ⟨best.add_better full (List.Perm.refl _) worst ((lt_iff kind first pair).mp less).le
          (shiftDown_perm list), shiftDown_sorted rest_sorted⟩
      · rename_i less
        refine ⟨best.add_worse full fun other member => ?_, sorted⟩
        exact (le_of_not_gt fun greater => less ((lt_iff kind first pair).mpr greater)).trans
          (worst other member)

theorem Holds.foldl (pairs : List TValuePair) : Holds kind maxLen (rows ++ pairs)
      (pairs.foldl (fun list pair => functionDoAdd type maxLen list pair kind) list) := by
  induction pairs generalizing rows list with
  | nil => rwa [append_nil]
  | cons pair pairs ih =>
    have more := ih (holds.add number some pair)
    rwa [append_assoc] at more

end

def pairsOf (rows : List (Int × Option ℚ)) : List TValuePair :=
  rows.filterMap fun row => row.2.map fun value => ⟨value, row.1⟩

theorem pairsOf_length (rows : List (Int × Option ℚ)) :
    (pairsOf rows).length = (values rows).length := by
  induction rows with
  | nil => rfl
  | cons row rows ih =>
    obtain ⟨key, cell⟩ := row
    cases cell with
    | none => exact ih
    | some value => exact congrArg (· + 1) ih

theorem addBlock_piece (kind : Kind) (type : DataType) (maxLen : Nat) (piece : Piece ℚ)
    (list : List TValuePair) :
    addBlock kind type maxLen piece.block list =
      ((pairsOf piece.rows).foldl (fun list pair => functionDoAdd type maxLen list pair kind) list,
        ((pairsOf piece.rows).length : Int)) := by
  obtain ⟨rows, hasNull, nulls⟩ := piece
  cases hasNull with
  | true =>
    have run : ∀ turn : List TValuePair × Int -> Option ℚ × Int -> List TValuePair × Int,
        (∀ list elems key, turn (list, elems) (none, key) = (list, elems)) ->
        (∀ list elems value key, turn (list, elems) (some value, key) =
          (functionDoAdd type maxLen list ⟨value, key⟩ kind, elems + 1)) ->
        ∀ (rows : List (Int × Option ℚ)) (list : List TValuePair) (elems : Int),
        ((rows.map Prod.snd).zip (rows.map Prod.fst)).foldl turn (list, elems) =
          ((pairsOf rows).foldl (fun list pair => functionDoAdd type maxLen list pair kind) list,
            elems + (pairsOf rows).length) := by
      intro turn skips adds rows
      induction rows with
      | nil => simp [pairsOf]
      | cons row rows ih =>
        intro list elems
        obtain ⟨key, cell⟩ := row
        rw [List.map_cons, List.map_cons, List.zip_cons_cons, foldl_cons]
        cases cell with
        | none =>
          rw [skips]
          exact ih list elems
        | some value =>
          rw [adds]
          have more : pairsOf ((key, some value) :: rows) = ⟨value, key⟩ :: pairsOf rows := rfl
          rw [more, foldl_cons, List.length_cons, Nat.cast_add, add_comm _ ((1 : Nat) : Int),
            <- add_assoc]
          exact ih _ _
    refine (run _ ?_ ?_ rows list 0).trans (by rw [zero_add])
    · exact fun _ _ _ => rfl
    · exact fun _ _ _ _ => rfl
  | false =>
    have filled := nulls rfl
    have length := pairsOf_length rows
    rw [values_length filled] at length
    have run : ∀ (rows : List (Int × Option ℚ)) (list : List TValuePair),
        (∀ row ∈ rows, row.2.isSome) ->
        ((rows.map Prod.snd).zip (rows.map Prod.fst)).foldl (fun list cell =>
            functionDoAdd type maxLen list ⟨cell.1.getD 0, cell.2⟩ kind) list =
          (pairsOf rows).foldl (fun list pair => functionDoAdd type maxLen list pair kind) list := by
      intro rows
      induction rows with
      | nil => intro list _; rfl
      | cons row rows ih =>
        intro list filled
        obtain ⟨key, cell⟩ := row
        obtain ⟨value, rfl⟩ := Option.isSome_iff_exists.mp (filled _ mem_cons_self)
        exact ih _ fun other member => filled other (List.mem_cons_of_mem _ member)
    have all := run rows list filled
    rw [length]
    exact congrArg (·, (rows.length : Int)) all

/-- Rows of a column, in one block; a value fits the type of the column. -/
structure Typed (type : DataType) extends Piece ℚ where
  fits : ∀ value ∈ values rows, Fits type value

variable {type : DataType}

def blockPairs (blocks : List (Typed type)) : List TValuePair :=
  blocks.flatMap fun piece => pairsOf piece.rows

/-- The number of results is the one of the rows, as soon as there are any. -/
def Counted (ctx : SQLFunctionCtx (List TValuePair)) : Prop :=
  ctx.aOutputBuf = [] ∨ ctx.counts.numOfOutputElems = ctx.aOutputBuf.length

theorem setVal_output (counts : Counts) {elems : Int} (pos : 0 < elems) (results : Int) :
    (counts.setVal elems results).numOfOutputElems = results := by
  rw [Counts.setVal, if_neg (by omega)]

def scanPlain (kind : Kind) (type : DataType) (maxLen : Nat) (blocks : List (Typed type)) :
    SQLFunctionCtx (List TValuePair) :=
  blocks.foldl (fun ctx piece => topBottomFunction kind type maxLen piece.block ctx) ⟨[], initVal⟩

theorem scanPlain_holds (number : type.isNumber) (some : 0 < maxLen) (blocks : List (Typed type)) :
    Holds kind maxLen (blockPairs blocks) (scanPlain kind type maxLen blocks).aOutputBuf ∧
      Counted (scanPlain kind type maxLen blocks) := by
  have run : ∀ (ctx : SQLFunctionCtx (List TValuePair)) (rows : List TValuePair),
      Holds kind maxLen rows ctx.aOutputBuf -> Counted ctx ->
      Holds kind maxLen (rows ++ blockPairs blocks) (blocks.foldl (fun ctx piece =>
        topBottomFunction kind type maxLen piece.block ctx) ctx).aOutputBuf ∧
      Counted (blocks.foldl (fun ctx piece =>
        topBottomFunction kind type maxLen piece.block ctx) ctx) := by
    induction blocks with
    | nil =>
      intro ctx rows holds counted
      rw [blockPairs, List.flatMap_nil, append_nil]
      exact ⟨holds, counted⟩
    | cons piece blocks ih =>
      intro ctx rows holds counted
      have step := holds.foldl number some (pairsOf piece.rows)
      rw [foldl_cons, blockPairs, List.flatMap_cons, <- append_assoc]
      refine ih _ _ ?_ ?_
      · rw [topBottomFunction, addBlock_piece]
        exact step
      · rw [topBottomFunction, addBlock_piece]
        by_cases none : pairsOf piece.rows = []
        · rw [none]
          exact counted
        · exact .inr (setVal_output _ (Int.natCast_pos.mpr (List.length_pos_iff.mpr none)) _)
  have all := run ⟨[], initVal⟩ [] (Holds.nil kind maxLen) (.inl rfl)
  rwa [List.nil_append] at all

def scanDist (kind : Kind) (type : DataType) (maxLen : Nat) (blocks : List (Typed type)) :
    SQLFunctionCtx (List TValuePair) :=
  blocks.foldl (fun ctx piece => topBottomDistFunction kind type maxLen piece.block ctx)
    ⟨[], initVal⟩

theorem scanDist_holds (number : type.isNumber) (some : 0 < maxLen) (blocks : List (Typed type)) :
    Holds kind maxLen (blockPairs blocks) (scanDist kind type maxLen blocks).aOutputBuf := by
  have run : ∀ (ctx : SQLFunctionCtx (List TValuePair)) (rows : List TValuePair),
      Holds kind maxLen rows ctx.aOutputBuf ->
      Holds kind maxLen (rows ++ blockPairs blocks) (blocks.foldl (fun ctx piece =>
        topBottomDistFunction kind type maxLen piece.block ctx) ctx).aOutputBuf := by
    induction blocks with
    | nil =>
      intro ctx rows holds
      rwa [blockPairs, List.flatMap_nil, append_nil]
    | cons piece blocks ih =>
      intro ctx rows holds
      have step := holds.foldl number some (pairsOf piece.rows)
      rw [foldl_cons, blockPairs, List.flatMap_cons, <- append_assoc]
      refine ih _ _ ?_
      rw [topBottomDistFunction, addBlock_piece]
      exact step
  have all := run ⟨[], initVal⟩ [] (Holds.nil kind maxLen)
  rwa [List.nil_append] at all

def ReadBack (type : DataType) (rows : List TValuePair) : Prop :=
  ∀ pair ∈ rows, reread type pair.v = pair.v

theorem addList_eq {input : List TValuePair} (readBack : ReadBack type input) (maxLen : Nat)
    (list : List TValuePair) :
    addList kind type maxLen input list =
      input.foldl (fun list pair => functionDoAdd type maxLen list pair kind) list := by
  rw [addList]
  induction input generalizing list with
  | nil => rfl
  | cons pair input ih =>
    rw [foldl_cons, foldl_cons, readBack pair mem_cons_self]
    exact ih (fun other member => readBack other (List.mem_cons_of_mem _ member)) _

theorem Holds.mem {rows : List TValuePair} (holds : Holds kind maxLen rows list)
    (member : pair ∈ list) : pair ∈ rows := by
  obtain ⟨rest, perm, -⟩ := holds.best.rest
  exact perm.mem_iff.mpr (mem_append_left _ member)

theorem Holds.merge (number : type.isNumber) (some : 0 < maxLen)
    {rows rows' list' : List TValuePair} (holds : Holds kind maxLen rows list)
    (holds' : Holds kind maxLen rows' list') (readBack : ReadBack type rows') :
    Holds kind maxLen (rows ++ rows') (addList kind type maxLen list' list) := by
  rw [addList_eq fun pair member => readBack pair (holds'.mem member)]
  have merged := holds.foldl number some list'
  exact ⟨holds'.best.join merged.best, merged.sorted⟩

def topBottomDist (kind : Kind) (type : DataType) (maxLen : Nat) :
    Aggregation (List (Typed type)) (SQLFunctionCtx (List TValuePair))
      (SQLFunctionCtx (List TValuePair)) where
  piece blocks := scanDist kind type maxLen blocks
  setup := ⟨[], initVal⟩
  merge output input := topBottomDistMerge kind type maxLen input.aOutputBuf output
  start := ⟨[], initVal⟩
  second final input := topBottomDistSecondMerge kind type maxLen input.aOutputBuf final

def Stands (kind : Kind) (type : DataType) (maxLen : Nat) (ctx : SQLFunctionCtx (List TValuePair))
    (rows : List TValuePair) : Prop :=
  ReadBack type rows -> Holds kind maxLen rows ctx.aOutputBuf

theorem topBottomDist_keeps (number : type.isNumber) (some : 0 < maxLen) :
    Keeps (topBottomDist kind type maxLen) blockPairs (Stands kind type maxLen) where
  piece blocks _ := scanDist_holds number some blocks
  setup _ := Holds.nil kind maxLen
  merge output input rows rows' output' input' readBack := by
    have readBack' : ReadBack type rows' := fun pair member =>
      readBack pair (List.mem_append_right _ member)
    have holds := output' fun pair member => readBack pair (mem_append_left _ member)
    have merged := holds.merge number some (input' readBack') readBack'
    dsimp only [topBottomDist, topBottomDistMerge]
    split
    · rename_i none
      have empty : input.aOutputBuf = [] := List.length_eq_zero_iff.mp (by omega)
      rw [empty] at merged
      exact merged
    · exact merged

theorem topBottomDist_folds (number : type.isNumber) (some : 0 < maxLen) :
    Folds (topBottomDist kind type maxLen) (Stands kind type maxLen) (Stands kind type maxLen) where
  start _ := Holds.nil kind maxLen
  second final input rows rows' final' input' readBack := by
    have readBack' : ReadBack type rows' := fun pair member =>
      readBack pair (List.mem_append_right _ member)
    have holds := final' fun pair member => readBack pair (mem_append_left _ member)
    exact holds.merge number some (input' readBack') readBack'

theorem topBottomDist_counted :
    Folds (topBottomDist kind type maxLen) (fun _ (_ : List TValuePair) => True)
      (fun final _ => Counted final) where
  start := .inl rfl
  second final input rows rows' counted _ := by
    dsimp only [topBottomDist, topBottomDistSecondMerge]
    by_cases none : input.aOutputBuf = []
    · rw [none]
      exact counted
    · exact .inr (setVal_output _ (Int.natCast_pos.mpr (List.length_pos_iff.mpr none)) _)

theorem bmod_whole {value : ℚ} (bits : Nat) (whole : ∃ number : Int, value = number)
    (least : -(2 : ℚ) ^ bits ≤ value) (most : value ≤ 2 ^ bits - 1) :
    ((Int.bmod value.floor (2 ^ (bits + 1)) : Int) : ℚ) = value := by
  obtain ⟨number, rfl⟩ := whole
  have lower : -(2 : Int) ^ bits ≤ number := by
    have cast : ((-(2 : Int) ^ bits : Int) : ℚ) ≤ number := by
      push_cast
      exact least
    exact Int.cast_le.mp cast
  have upper : number ≤ (2 : Int) ^ bits - 1 := by
    have cast : (number : ℚ) ≤ ((2 : Int) ^ bits - 1 : Int) := by
      push_cast
      exact most
    exact Int.cast_le.mp cast
  have half : ((2 ^ (bits + 1) : Nat) : Int) = 2 ^ bits * 2 := by
    push_cast
    exact pow_succ 2 bits
  rw [Rat.floor_intCast]
  congr 1
  apply Int.bmod_eq_of_le
  · rw [half]
    omega
  · rw [half]
    omega

theorem reread_fits {value : ℚ} (fits : Fits type value) (other : type ≠ .float) :
    reread type value = value := by
  cases type with
  | tinyint => exact bmod_whole 7 (fits.whole rfl) fits.least fits.most
  | smallint => exact bmod_whole 15 (fits.whole rfl) fits.least fits.most
  | int => exact bmod_whole 31 (fits.whole rfl) fits.least fits.most
  | float => exact absurd rfl other
  | bool | bigint | double | binary | timestamp | nchar => rfl

theorem mem_pairsOf {rows : List (Int × Option ℚ)}
    (member : pair ∈ pairsOf rows) : pair.v ∈ values rows := by
  obtain ⟨row, row_mem, found⟩ := List.mem_filterMap.mp member
  obtain ⟨value, value_eq, rfl⟩ := Option.map_eq_some_iff.mp found
  exact List.mem_filterMap.mpr ⟨row, row_mem, value_eq⟩

theorem readBack_tree (other : type ≠ .float) (trees : List (MergeTree (List (Typed type)))) :
    ReadBack type (trees.flatMap (MergeTree.rows blockPairs)) := by
  intro pair member
  obtain ⟨tree, -, inside⟩ := List.mem_flatMap.mp member
  have fits : ∀ pair ∈ tree.rows blockPairs, Fits type pair.v := by
    clear member inside
    induction tree with
    | piece blocks =>
      intro pair inside
      obtain ⟨piece, -, inside⟩ := List.mem_flatMap.mp inside
      exact piece.fits _ (mem_pairsOf inside)
    | empty => simp [MergeTree.rows]
    | merge output input output' input' =>
      intro pair inside
      rcases List.mem_append.mp inside with inside | inside
      · exact output' pair inside
      · exact input' pair inside
  exact reread_fits (fits pair inside) other

def outputRows (output : List ℚ × List Int) : List TValuePair :=
  (output.1.zip output.2).map fun row => ⟨row.1, row.2⟩

theorem copyTopBotRes_perm (step : Order) (tvp : List TValuePair) :
    (outputRows (copyTopBotRes step tvp)).Perm tvp := by
  have zipped : ∀ list : List TValuePair,
      outputRows (list.map TValuePair.v, list.map TValuePair.timestamp) = list := by
    intro list
    induction list with
    | nil => rfl
    | cons pair list ih => exact congrArg (pair :: ·) ih
  cases step with
  | asc => rw [copyTopBotRes, zipped]
  | desc =>
    rw [copyTopBotRes, zipped]
    exact reverse_perm tvp

theorem qsort_perm (comparator : TValuePair -> TValuePair -> Int) (tvp : List TValuePair) :
    (qsort comparator tvp).Perm tvp :=
  List.mergeSort_perm _ _

theorem finalizer_perm (maxLen : Nat) (orderBy : OrderBy) {ctx : SQLFunctionCtx (List TValuePair)}
    (counted : Counted ctx) :
    (outputRows (topBottomFunctionFinalizer maxLen orderBy ctx)).Perm ctx.aOutputBuf := by
  have all : ctx.aOutputBuf.take (if ctx.aOutputBuf.length < maxLen then
      (ctx.aOutputBuf.length : Int) else ctx.counts.numOfOutputElems).toNat = ctx.aOutputBuf := by
    rcases counted with none | same
    · rw [none]
      exact List.take_nil
    · rw [same, ite_self, Int.toNat_natCast, List.take_length]
  rw [topBottomFunctionFinalizer, all]
  refine (copyTopBotRes_perm _ _).trans ?_
  split
  · split
    · exact qsort_perm _ _
    · exact qsort_perm _ _
  · split
    · split
      · exact qsort_perm _ _
      · exact qsort_perm _ _
    · exact List.Perm.refl _

section

variable (kind : Kind) (maxLen : Nat) (orderBy : OrderBy) (type : DataType)

def plainOutput (blocks : List (Typed type)) : List TValuePair :=
  outputRows (topBottomFunctionFinalizer maxLen orderBy (scanPlain kind type maxLen blocks))

def distOutput (trees : List (MergeTree (List (Typed type)))) : List TValuePair :=
  outputRows (topBottomFunctionFinalizer maxLen orderBy
    ((topBottomDist kind type maxLen).finalOf trees))

end

section

variable (number : type.isNumber) (some : 0 < maxLen)

include number some

theorem plainOutput_best (orderBy : OrderBy) (blocks : List (Typed type)) :
    Best (score kind) maxLen (blockPairs blocks) (plainOutput kind maxLen orderBy type blocks) := by
  obtain ⟨holds, counted⟩ := scanPlain_holds number some blocks
  exact holds.best.perm_kept (finalizer_perm maxLen orderBy counted).symm

theorem distOutput_best (orderBy : OrderBy) (trees : List (MergeTree (List (Typed type))))
    (readBack : ReadBack type (trees.flatMap (MergeTree.rows blockPairs))) :
    Best (score kind) maxLen (trees.flatMap (MergeTree.rows blockPairs))
      (distOutput kind maxLen orderBy type trees) := by
  have keeps : Keeps (topBottomDist kind type maxLen) blockPairs (Stands kind type maxLen) :=
    topBottomDist_keeps number some
  have holds := (topBottomDist_folds number some).finalOf keeps trees readBack
  have any : Keeps (topBottomDist kind type maxLen) blockPairs fun _ _ => True :=
    ⟨fun _ => trivial, trivial, fun _ _ _ _ _ _ => trivial⟩
  have counted := topBottomDist_counted.finalOf any trees
  exact holds.best.perm_kept (finalizer_perm maxLen orderBy counted).symm

theorem add_first (pair : TValuePair) (kind : Kind) :
    functionDoAdd type maxLen [] pair kind = [pair] := by
  have room : ([] : List TValuePair).length < maxLen := some
  rw [functionDoAdd_eq number, if_pos room]
  rfl

end

/-- A row of a `float` column. -/
def floatRow : List (Typed .float) :=
  [⟨⟨[(1, some (3 / 2))], false, by decide⟩, fun value member => by
    have same : value = 3 / 2 := by simpa [values] using member
    subst same
    exact ⟨by norm_num [range, fltMax], by norm_num [range, fltMax], by simp [DataType.isFloating]⟩⟩]

theorem floatRow_output (kind : Kind) (maxLen : Nat) (some : 0 < maxLen) (orderBy : OrderBy) :
    (distOutput kind maxLen orderBy .float [.piece floatRow]).Perm [⟨0, 1⟩] := by
  have scanned : (scanDist kind .float maxLen floatRow).aOutputBuf = [⟨3 / 2, 1⟩] := by
    have block : addBlock kind .float maxLen floatRow[0].block [] = ([⟨3 / 2, 1⟩], 1) := by
      rw [addBlock_piece]
      have pairs : pairsOf floatRow[0].rows = [⟨3 / 2, 1⟩] := rfl
      rw [pairs, foldl_cons, add_first rfl some]
      rfl
    exact congrArg Prod.fst block
  have zero : reread .float (3 / 2) = 0 := by decide +kernel
  have final : ((topBottomDist kind .float maxLen).finalOf [.piece floatRow]).aOutputBuf =
      [⟨0, 1⟩] := by
    have merged : addList kind .float maxLen [⟨3 / 2, 1⟩] [] = [⟨0, 1⟩] := by
      rw [addList, foldl_cons, add_first rfl some, zero]
      rfl
    rw [<- merged, <- scanned]
    rfl
  rw [<- final]
  refine finalizer_perm maxLen orderBy (.inr ?_)
  have one : (0 : Int) < (scanDist kind .float maxLen floatRow).aOutputBuf.length := by
    rw [scanned]
    decide
  exact setVal_output _ one _

/-- The best rows are put out, except where a `float` column is merged: a value of it is read from
the lower half of a `double`. -/
theorem topBottom_best (kind : Kind) (maxLen : { maxLen : Nat // 1 ≤ maxLen ∧ maxLen ≤ 100 })
    (orderBy : OrderBy) (type : { type : DataType // type.isNumber }) :
    (∀ blocks : List (Typed type.1), Best (score kind) maxLen (blockPairs blocks)
      (plainOutput kind maxLen orderBy type blocks)) ∧
    (∀ trees : List (MergeTree (List (Typed type.1))),
      ReadBack type (trees.flatMap (MergeTree.rows blockPairs)) ->
        Best (score kind) maxLen (trees.flatMap (MergeTree.rows blockPairs))
          (distOutput kind maxLen orderBy type trees)) ∧
    ((∀ trees : List (MergeTree (List (Typed type.1))),
      Best (score kind) maxLen (trees.flatMap (MergeTree.rows blockPairs))
        (distOutput kind maxLen orderBy type trees)) ↔ type.1 ≠ .float) := by
  obtain ⟨maxLen, some, -⟩ := maxLen
  obtain ⟨type, number⟩ := type
  refine ⟨fun blocks => plainOutput_best number some orderBy blocks,
    fun trees readBack => distOutput_best number some orderBy trees readBack, ?_, ?_⟩
  · rintro all rfl
    obtain ⟨rest, perm, -⟩ := (all [.piece floatRow]).rest
    have kept := (floatRow_output kind maxLen some orderBy).mem_iff.mpr mem_cons_self
    have member := perm.mem_iff.mpr (mem_append_left rest kept)
    have rows : [MergeTree.piece floatRow].flatMap (MergeTree.rows blockPairs) = [⟨3 / 2, 1⟩] := rfl
    rw [rows, List.mem_singleton, TValuePair.mk.injEq] at member
    norm_num at member
  · intro other trees
    exact distOutput_best number some orderBy trees (readBack_tree other trees)

/-- Two rows of an `int` column. -/
def intRows : List (Typed .int) :=
  [⟨⟨[(1, some 5), (2, some 7)], false, by decide⟩, fun value member => by
    have same : value = 5 ∨ value = 7 := by simpa [values] using member
    rcases same with rfl | rfl
    · exact ⟨by norm_num [range], by norm_num [range], fun _ => ⟨5, rfl⟩⟩
    · exact ⟨by norm_num [range], by norm_num [range], fun _ => ⟨7, rfl⟩⟩⟩]

theorem intRows_best : Best (score .top) 1 [⟨5, 1⟩, ⟨7, 2⟩]
      (distOutput .top 1 ⟨0, .asc, .asc⟩ .int [.piece intRows]) :=
  (topBottom_best .top ⟨1, by decide⟩ ⟨0, .asc, .asc⟩ ⟨.int, rfl⟩).2.1 [.piece intRows]
    (readBack_tree (by decide) _)

theorem floatRow_lost : distOutput .top 1 ⟨0, .asc, .asc⟩ .float [.piece floatRow] = [⟨0, 1⟩] ∧
      blockPairs floatRow = [⟨3 / 2, 1⟩] :=
  ⟨List.perm_singleton.mp (floatRow_output .top 1 (by decide) ⟨0, .asc, .asc⟩), rfl⟩

end Luomi.Client.TopBottomRows
