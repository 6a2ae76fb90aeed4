import Luomi.Client.Distributed
import Mathlib.Data.List.Nodup

/-!
# Distributed `first` and `last`

Inside a vnode a flag says whether a partial result has a value.  The client has none: there a key
of 0 stands for no value, so a value of the timestamp 0 is given up for the next one that comes.
-/

namespace Luomi.Client.DistributedKeys

open Aggregates Distributed PartialResults
open List (append_nil length_eq_zero_iff length_map map_append map_reverse mem_append
  mem_append_left mem_append_right mem_cons_self mem_map_of_mem ne_nil_of_mem nodup_append)

structure Timed (α : Type) extends Piece α where
  sorted : rows.Pairwise fun row row' => row.1 < row'.1

variable {α : Type}

def Timed.keyed (piece : Timed α) : List (Int × Option α) := piece.rows

def keyedOf (trees : List (MergeTree (Timed α))) : List (Int × Option α) :=
  trees.flatMap (MergeTree.rows Timed.keyed)

/-- The rows of a meter, and the trees of the vnodes with the pieces they are cut into. -/
structure Timeline (α : Type) where
  all : Timed α
  trees : List (MergeTree (Timed α))
  perm : (keyedOf trees).Perm all.keyed

def present (rows : List (Int × Option α)) : List (Int × α) :=
  rows.filterMap fun row => row.2.map (Prod.mk row.1)

@[simp] theorem present_append (before after : List (Int × Option α)) :
    present (before ++ after) = present before ++ present after :=
  List.filterMap_append

variable {rows : List (Int × Option α)} {row : Int × α} {trees : List (MergeTree (Timed α))}

theorem present_sorted (sorted : rows.Pairwise fun row row' => row.1 < row'.1) :
    (present rows).Pairwise fun row row' => row.1 < row'.1 := by
  refine List.Pairwise.filterMap _ (fun row row' less value kept value' kept' => ?_) sorted
  obtain ⟨_, _, rfl⟩ := Option.map_eq_some_iff.mp kept
  obtain ⟨_, _, rfl⟩ := Option.map_eq_some_iff.mp kept'
  exact less

theorem Timeline.present_perm (timeline : Timeline α) :
    (present (keyedOf timeline.trees)).Perm (present timeline.all.keyed) :=
  timeline.perm.filterMap _

theorem Timeline.nodup (timeline : Timeline α) :
    ((present (keyedOf timeline.trees)).map Prod.fst).Nodup :=
  (timeline.present_perm.map Prod.fst).nodup_iff.mpr
    (List.pairwise_map.mpr ((present_sorted timeline.all.sorted).imp fun less => ne_of_lt less))

structure Precedes (before : Int -> Int -> Bool) : Prop where
  asymm : ∀ key other, before key other -> ¬ before other key
  negTrans : ∀ key between other, ¬ before key between -> ¬ before between other ->
    ¬ before key other
  total : ∀ key other, ¬ before key other -> ¬ before other key -> key = other

theorem isEarlier_precedes : Precedes isEarlier where
  asymm key other := by simp only [isEarlier, decide_eq_true_eq]; omega
  negTrans key between other := by simp only [isEarlier, decide_eq_true_eq]; omega
  total key other := by simp only [isEarlier, decide_eq_true_eq]; omega

theorem isLater_precedes : Precedes isLater where
  asymm key other := by simp only [isLater, decide_eq_true_eq]; omega
  negTrans key between other := by simp only [isLater, decide_eq_true_eq]; omega
  total key other := by simp only [isLater, decide_eq_true_eq]; omega

structure Extreme (before : Int -> Int -> Bool) (rows : List (Int × α)) (row : Int × α) : Prop where
  mem : row ∈ rows
  none_before : ∀ other ∈ rows, ¬ before other.1 row.1

variable {before : Int -> Int -> Bool}

theorem Extreme.perm {rows rows' : List (Int × α)}
    (extreme : Extreme before rows row) (perm : rows.Perm rows') : Extreme before rows' row :=
  ⟨perm.mem_iff.mp extreme.mem, fun other member =>
    extreme.none_before other (perm.mem_iff.mpr member)⟩

theorem Extreme.unique (precedes : Precedes before) {rows : List (Int × α)}
    (nodup : (rows.map Prod.fst).Nodup) {row' : Int × α} (extreme : Extreme before rows row)
    (extreme' : Extreme before rows row') : row = row' :=
  List.inj_on_of_nodup_map nodup extreme.mem extreme'.mem
    (precedes.total _ _ (extreme'.none_before row extreme.mem)
      (extreme.none_before row' extreme'.mem))

theorem Extreme.head {rows : List (Int × α)}
    (sorted : (row :: rows).Pairwise fun row row' => row.1 < row'.1) :
    Extreme isEarlier (row :: rows) row where
  mem := mem_cons_self
  none_before other member := by
    have less := (List.pairwise_cons.mp sorted).1
    rw [isEarlier, decide_eq_true_eq]
    rcases List.mem_cons.mp member with rfl | member
    · exact lt_irrefl _
    · exact not_lt_of_gt (less other member)

theorem Extreme.last {rows : List (Int × α)}
    (sorted : (rows ++ [row]).Pairwise fun row row' => row.1 < row'.1) :
    Extreme isLater (rows ++ [row]) row where
  mem := mem_append_right _ mem_cons_self
  none_before other member := by
    have less := (List.pairwise_append.mp sorted).2.2
    rw [isLater, decide_eq_true_eq]
    rcases mem_append.mp member with member | member
    · exact not_lt_of_gt (less other member row mem_cons_self)
    · rw [List.mem_singleton.mp member]
      exact lt_irrefl _

section

variable {rest : List (Int × α)} (sorted : rows.Pairwise fun row row' => row.1 < row'.1)

include sorted

theorem head_extreme (rows_eq : present rows = row :: rest) :
    Extreme isEarlier (present rows) row := by
  have kept := present_sorted sorted
  rw [rows_eq] at kept ⊢
  exact Extreme.head kept

theorem last_extreme (rows_eq : present rows = rest ++ [row]) :
    Extreme isLater (present rows) row := by
  have kept := present_sorted sorted
  rw [rows_eq] at kept ⊢
  exact Extreme.last kept

end

section

variable (precedes : Precedes before) {rows rows' : List (Int × α)} {row' : Int × α}
  (extreme : Extreme before rows row) (extreme' : Extreme before rows' row')

include precedes extreme extreme'

theorem Extreme.append_left (behind : ¬ before row'.1 row.1) :
    Extreme before (rows ++ rows') row where
  mem := mem_append_left _ extreme.mem
  none_before other member := by
    rcases mem_append.mp member with member | member
    · exact extreme.none_before other member
    · exact precedes.negTrans _ _ _ (extreme'.none_before other member) behind

theorem Extreme.append_right (ahead : before row'.1 row.1) :
    Extreme before (rows ++ rows') row' where
  mem := mem_append_right _ extreme'.mem
  none_before other member := by
    rcases mem_append.mp member with member | member
    · exact precedes.negTrans _ _ _ (extreme.none_before other member) (precedes.asymm _ _ ahead)
    · exact extreme'.none_before other member

end

theorem firstNotNull_none
    (found : firstNotNull (rows.map Prod.snd) = none) : present rows = [] := by
  induction rows with
  | nil => rfl
  | cons row rows ih =>
    obtain ⟨key, cell⟩ := row
    cases cell with
    | none => exact ih (Option.map_eq_none_iff.mp found)
    | some value => cases found

variable {value : α}

theorem firstNotNull_some {i : Nat} (found : firstNotNull (rows.map Prod.snd) = some (i, value)) :
    i < rows.length ∧ ∃ rest, present rows = ((rows.map Prod.fst).getD i 0, value) :: rest := by
  induction rows generalizing i with
  | nil => cases found
  | cons row rows ih =>
    obtain ⟨key, cell⟩ := row
    cases cell with
    | none =>
      obtain ⟨⟨j, value'⟩, found', same⟩ := Option.map_eq_some_iff.mp found
      cases same
      obtain ⟨inside, rest, rows_eq⟩ := ih found'
      exact ⟨Nat.succ_lt_succ inside, rest, rows_eq⟩
    | some value' =>
      cases found
      exact ⟨Nat.succ_pos _, present rows, rfl⟩

theorem present_reverse (rows : List (Int × Option α)) :
    present rows.reverse = (present rows).reverse :=
  List.filterMap_reverse

theorem lastNotNull_none (found : lastNotNull (rows.map Prod.snd) = none) : present rows = [] := by
  rw [lastNotNull, Option.map_eq_none_iff, <- map_reverse] at found
  have none := firstNotNull_none found
  rwa [present_reverse, List.reverse_eq_nil_iff] at none

theorem lastNotNull_some {i : Nat} (found : lastNotNull (rows.map Prod.snd) = some (i, value)) :
    ∃ rest, present rows = rest ++ [((rows.map Prod.fst).getD i 0, value)] := by
  obtain ⟨⟨j, value'⟩, found', same⟩ := Option.map_eq_some_iff.mp found
  cases same
  rw [<- map_reverse] at found'
  obtain ⟨inside, rest, rows_eq⟩ := firstNotNull_some found'
  rw [List.length_reverse] at inside
  have key : (rows.reverse.map Prod.fst).getD j 0 =
      (rows.map Prod.fst).getD ((rows.map Prod.snd).length - 1 - j) 0 := by
    rw [map_reverse, List.getD_eq_getElem?_getD, List.getD_eq_getElem?_getD,
      List.getElem?_reverse (by rwa [length_map]), length_map, length_map]
  refine ⟨rest.reverse, ?_⟩
  rw [present_reverse] at rows_eq
  rw [<- key, <- List.reverse_reverse (present rows), rows_eq, List.reverse_cons]

theorem head_filled (filled : ∀ row ∈ rows, row.2.isSome)
    (some : rows ≠ []) : ∃ value rest, (rows.map Prod.snd).head?.join = .some value ∧
      present rows = ((rows.map Prod.fst).getD 0 0, value) :: rest := by
  cases rows with
  | nil => exact absurd rfl some
  | cons row rows =>
    obtain ⟨key, cell⟩ := row
    obtain ⟨value, rfl⟩ := Option.isSome_iff_exists.mp (filled _ mem_cons_self)
    exact ⟨value, present rows, rfl, rfl⟩

theorem last_filled (filled : ∀ row ∈ rows, row.2.isSome)
    (some : rows ≠ []) : ∃ value rest, (rows.map Prod.snd).getLast?.join = .some value ∧
      present rows = rest ++ [((rows.map Prod.fst).getD (rows.length - 1) 0, value)] := by
  have filled' : ∀ row ∈ rows.reverse, row.2.isSome := fun row member =>
    filled row (List.mem_reverse.mp member)
  obtain ⟨value, rest, value_eq, rows_eq⟩ := head_filled filled' (by simpa using some)
  refine ⟨value, rest.reverse, ?_, ?_⟩
  · rwa [map_reverse, List.head?_reverse] at value_eq
  · have key : (rows.reverse.map Prod.fst).getD 0 0 =
        (rows.map Prod.fst).getD (rows.length - 1) 0 := by
      rw [map_reverse, List.getD_eq_getElem?_getD, List.getD_eq_getElem?_getD,
        List.getElem?_reverse (by simpa using List.length_pos_iff.mpr some), length_map]
      rfl
    rw [present_reverse] at rows_eq
    rw [<- key, <- List.reverse_reverse (present rows), rows_eq, List.reverse_cons]

def keyDist (before : Int -> Int -> Bool) (function : Block α ->
    SQLFunctionCtx (SFirstLastRuntime α) -> SQLFunctionCtx (SFirstLastRuntime α)) :
    Aggregation (Timed α) (SQLFunctionCtx (SFirstLastRuntime α))
      (SQLFunctionCtx (SSecondRuntime α)) where
  piece piece := function piece.block ⟨⟨0, false, none⟩, initVal⟩
  setup := ⟨⟨0, false, none⟩, initVal⟩
  merge output input := firstLastDistMerge before input.aOutputBuf output
  start := ⟨⟨0, none⟩, initVal⟩
  second final input := firstLastDistSecondMerge before input.aOutputBuf final

def firstDist : Aggregation (Timed α) (SQLFunctionCtx (SFirstLastRuntime α))
    (SQLFunctionCtx (SSecondRuntime α)) :=
  keyDist isEarlier (firstDistFunction .asc)

def lastDist : Aggregation (Timed α) (SQLFunctionCtx (SFirstLastRuntime α))
    (SQLFunctionCtx (SSecondRuntime α)) :=
  keyDist isLater (lastDistFunction .desc)

/-- A partial result has no value, or the one of the row no other is before. -/
inductive Holds (before : Int -> Int -> Bool) (out : SFirstLastRuntime α)
    (rows : List (Int × Option α)) : Prop where
  | unset (valFlag : out.valFlag = false) (empty : present rows = [])
  | set (value : α) (valFlag : out.valFlag = true) (value_eq : out.value = some value)
      (extreme : Extreme before (present rows) (out.key, value))

theorem firstDist_piece (piece : Timed α) :
    Holds isEarlier (firstDistFunction .asc piece.block ⟨⟨0, false, none⟩, initVal⟩).aOutputBuf
      piece.keyed := by
  by_cases empty : piece.rows = []
  · have size : piece.block.size = 0 := length_eq_zero_iff.mpr empty
    rw [firstDistFunction, if_pos size]
    refine .unset rfl ?_
    rw [Timed.keyed, empty]
    rfl
  · have size : piece.block.size ≠ 0 := fun zero => empty (length_eq_zero_iff.mp zero)
    rw [firstDistFunction, if_neg size, if_neg (by simp [Piece.block])]
    cases hasNull : piece.hasNullValue with
    | true =>
      rw [if_pos (by exact hasNull)]
      cases found : firstNotNull piece.block.cells with
      | none => exact .unset rfl (firstNotNull_none found)
      | some place =>
        obtain ⟨i, value⟩ := place
        obtain ⟨-, rest, rows_eq⟩ := firstNotNull_some found
        exact .set value rfl rfl (head_extreme piece.sorted rows_eq)
    | false =>
      obtain ⟨value, rest, value_eq, rows_eq⟩ := head_filled (piece.nulls hasNull) empty
      rw [if_neg (by simp [Piece.block, hasNull])]
      exact .set value rfl value_eq (head_extreme piece.sorted rows_eq)

theorem lastDist_piece (piece : Timed α) :
    Holds isLater (lastDistFunction .desc piece.block ⟨⟨0, false, none⟩, initVal⟩).aOutputBuf
      piece.keyed := by
  by_cases empty : piece.rows = []
  · have size : piece.block.size = 0 := length_eq_zero_iff.mpr empty
    rw [lastDistFunction, if_pos size]
    refine .unset rfl ?_
    rw [Timed.keyed, empty]
    rfl
  · have size : piece.block.size ≠ 0 := fun zero => empty (length_eq_zero_iff.mp zero)
    rw [lastDistFunction, if_neg size, if_neg (by simp [Piece.block])]
    cases hasNull : piece.hasNullValue with
    | true =>
      rw [if_pos (by exact hasNull)]
      cases found : lastNotNull piece.block.cells with
      | none => exact .unset rfl (lastNotNull_none found)
      | some place =>
        obtain ⟨i, value⟩ := place
        obtain ⟨rest, rows_eq⟩ := lastNotNull_some found
        exact .set value rfl rfl (last_extreme piece.sorted rows_eq)
    | false =>
      obtain ⟨value, rest, value_eq, rows_eq⟩ := last_filled (piece.nulls hasNull) empty
      rw [if_neg (by simp [Piece.block, hasNull])]
      exact .set value rfl value_eq (last_extreme piece.sorted rows_eq)

variable {function : Block α -> SQLFunctionCtx (SFirstLastRuntime α) ->
  SQLFunctionCtx (SFirstLastRuntime α)}

def PieceHolds (before : Int -> Int -> Bool) (function : Block α ->
    SQLFunctionCtx (SFirstLastRuntime α) -> SQLFunctionCtx (SFirstLastRuntime α)) : Prop :=
  ∀ piece : Timed α,
    Holds before (function piece.block ⟨⟨0, false, none⟩, initVal⟩).aOutputBuf piece.keyed

theorem keyDist_keeps (precedes : Precedes before) (pieces : PieceHolds before function) :
    Keeps (keyDist before function) Timed.keyed fun ctx => Holds before ctx.aOutputBuf where
  piece piece := pieces piece
  setup := .unset rfl rfl
  merge output input rows rows' output' input' := by
    dsimp only [keyDist, firstLastDistMerge]
    cases input' with
    | unset unset empty =>
      rw [if_pos (by simp [unset])]
      cases output' with
      | unset unset' empty' => exact .unset unset' (by rw [present_append, empty, empty']; rfl)
      | set value set' value_eq extreme =>
        exact .set value set' value_eq (by rwa [present_append, empty, append_nil])
    | set value set value_eq extreme =>
      rw [if_neg (by simp [set])]
      cases output' with
      | unset unset' empty' =>
        rw [if_pos (.inl (by simp [unset']))]
        exact .set value set value_eq (by rwa [present_append, empty', List.nil_append])
      | set value' set' value_eq' extreme' =>
        by_cases ahead : before input.aOutputBuf.key output.aOutputBuf.key
        · rw [if_pos (.inr ahead)]
          refine .set value set value_eq ?_
          rw [present_append]
          exact extreme'.append_right precedes extreme ahead
        · rw [if_neg (by simp [set', ahead])]
          refine .set value' set' value_eq' ?_
          rw [present_append]
          exact extreme'.append_left precedes extreme ahead

theorem second_counts : Folds (keyDist before function)
    (fun ctx rows => Holds before ctx.aOutputBuf rows)
    (fun final rows => Iterated final.counts (present rows)) where
  start := Iterated.start
  second final input rows rows' final' input' := by
    dsimp only [keyDist, firstLastDistSecondMerge]
    cases input' with
    | unset unset empty =>
      rw [if_pos (by simp [unset]), present_append, empty, append_nil]
      exact final'
    | set value set value_eq extreme =>
      rw [if_neg (by simp [set]), present_append]
      exact final'.more (setVal_more _) (ne_nil_of_mem extreme.mem)

theorem second_found : Folds (keyDist before function)
    (fun ctx rows => Holds before ctx.aOutputBuf rows)
    (fun final rows => final.aOutputBuf.i64Key = 0 ∨
      ∃ row ∈ present rows, row.1 = final.aOutputBuf.i64Key) where
  start := .inl rfl
  second final input rows rows' final' input' := by
    dsimp only [keyDist, firstLastDistSecondMerge]
    have kept : final.aOutputBuf.i64Key = 0 ∨
        ∃ row ∈ present (rows ++ rows'), row.1 = final.aOutputBuf.i64Key := by
      refine final'.imp_right fun ⟨row, member, key⟩ => ⟨row, ?_, key⟩
      rw [present_append]
      exact mem_append_left _ member
    cases input' with
    | unset unset empty =>
      rw [if_pos (by simp [unset])]
      exact kept
    | set value set value_eq extreme =>
      rw [if_neg (by simp [set])]
      by_cases taken : final.aOutputBuf.i64Key = 0 ∨
          before input.aOutputBuf.key final.aOutputBuf.i64Key
      · rw [if_pos taken]
        refine .inr ⟨(input.aOutputBuf.key, value), ?_, rfl⟩
        rw [present_append]
        exact mem_append_right _ extreme.mem
      · rw [if_neg taken]
        exact kept

theorem second_stays (state : SSecondRuntime α) (counts : Counts) (set : state.i64Key ≠ 0) :
    FoldsFrom (keyDist before function) (fun ctx rows => Holds before ctx.aOutputBuf rows)
      ⟨state, counts⟩
      (fun final rows => (∀ row ∈ present rows, ¬ before row.1 state.i64Key) ->
        final.aOutputBuf = state) where
  start _ := rfl
  second final input rows rows' final' input' behind := by
    rw [present_append] at behind
    have kept := final' fun row member => behind row (mem_append_left _ member)
    dsimp only [keyDist, firstLastDistSecondMerge]
    cases input' with
    | unset unset empty =>
      rw [if_pos (by simp [unset])]
      exact kept
    | set value flag value_eq extreme =>
      have later := behind _ (mem_append_right _ extreme.mem)
      rw [if_neg (by simp [flag]), kept, if_neg (by simp [set, later])]

theorem second_forgets (precedes : Precedes before) (state : SSecondRuntime α) (counts : Counts)
    (zero : state.i64Key = 0) :
    FoldsFrom (keyDist before function) (fun ctx rows => Holds before ctx.aOutputBuf rows)
      ⟨state, counts⟩
      (fun final rows => (∀ row ∈ present rows, row.1 ≠ 0) ->
        (present rows = [] ∧ final.aOutputBuf = state) ∨
          ∃ value, final.aOutputBuf.value = some value ∧ final.aOutputBuf.i64Key ≠ 0 ∧
            Extreme before (present rows) (final.aOutputBuf.i64Key, value)) where
  start _ := .inl ⟨rfl, rfl⟩
  second final input rows rows' final' input' nonzero := by
    rw [present_append] at nonzero ⊢
    have done := final' fun row member => nonzero row (mem_append_left _ member)
    dsimp only [keyDist, firstLastDistSecondMerge]
    cases input' with
    | unset unset empty =>
      rw [if_pos (by simp [unset]), empty, append_nil]
      exact done
    | set value flag value_eq extreme =>
      have input_nonzero := nonzero _ (mem_append_right _ extreme.mem)
      rw [if_neg (by simp [flag])]
      rcases done with ⟨empty, same⟩ | ⟨value', value_eq', set', extreme'⟩
      · rw [if_pos (.inl (by rw [same, zero])), empty, List.nil_append]
        exact .inr ⟨value, value_eq, input_nonzero, extreme⟩
      · by_cases ahead : before input.aOutputBuf.key final.aOutputBuf.i64Key
        · rw [if_pos (.inr ahead)]
          exact .inr ⟨value, value_eq, input_nonzero, extreme'.append_right precedes extreme ahead⟩
        · rw [if_neg (by simp [set', ahead])]
          exact .inr ⟨value', value_eq', set', extreme'.append_left precedes extreme ahead⟩

def behind (key : Int) (trees : List (MergeTree (Timed α))) : List (MergeTree (Timed α)) :=
  (trees.dropWhile fun tree =>
    !(present (tree.rows Timed.keyed)).any fun row => row.1 = key).tail

theorem split_behind {key : Int} (found : ∃ row ∈ present (keyedOf trees), row.1 = key) :
    ∃ front tree, trees = front ++ tree :: behind key trees ∧
      ∃ row ∈ present (tree.rows Timed.keyed), row.1 = key := by
  induction trees with
  | nil =>
    obtain ⟨row, member, -⟩ := found
    cases member
  | cons tree trees ih =>
    by_cases here : (present (tree.rows Timed.keyed)).any fun row => row.1 = key
    · refine ⟨[], tree, ?_, by simpa using here⟩
      rw [behind, List.dropWhile_cons_of_neg (by rw [here]; decide)]
      rfl
    · have rest : ∃ row ∈ present (keyedOf trees), row.1 = key := by
        obtain ⟨row, member, rfl⟩ := found
        rw [keyedOf, List.flatMap_cons, present_append, mem_append] at member
        refine ⟨row, member.resolve_left fun inside => here ?_, rfl⟩
        exact List.any_eq_true.mpr ⟨row, inside, decide_eq_true rfl⟩
      obtain ⟨front, tree', trees_eq, row⟩ := ih rest
      refine ⟨tree :: front, tree', ?_, row⟩
      rw [behind, List.dropWhile_cons_of_pos (by rw [Bool.not_eq_true] at here; rw [here]; rfl),
        List.cons_append]
      exact congrArg (tree :: ·) trees_eq

theorem keyedOf_split (front : List (MergeTree (Timed α))) (tree : MergeTree (Timed α))
    (back : List (MergeTree (Timed α))) : present (keyedOf (front ++ tree :: back)) =
      present (keyedOf front) ++ (present (tree.rows Timed.keyed) ++ present (keyedOf back)) := by
  simp [keyedOf]

theorem second_eq (final : SQLFunctionCtx (SSecondRuntime α))
    (input : SQLFunctionCtx (SFirstLastRuntime α)) : (keyDist before function).second final input =
      firstLastDistSecondMerge before input.aOutputBuf final := rfl

theorem second_takes (precedes : Precedes before) (pieces : PieceHolds before function)
    {front back : List (MergeTree (Timed α))} {tree : MergeTree (Timed α)} {key : Int}
    (nodup : ((present (keyedOf (front ++ tree :: back))).map Prod.fst).Nodup)
    (extreme : Extreme before (present (keyedOf (front ++ tree :: back))) (key, value))
    (inside : ∃ row ∈ present (tree.rows Timed.keyed), row.1 = key) :
    ((keyDist before function).second ((keyDist before function).finalOf front)
      ((keyDist before function).partialOf tree)).aOutputBuf = ⟨key, some value⟩ := by
  have keeps := keyDist_keeps precedes pieces
  have found := second_found.finalOf keeps front
  have holds := keeps.partialOf tree
  rw [keyedOf_split] at extreme nodup
  have none_before := extreme.none_before
  obtain ⟨row, member, rfl⟩ := inside
  have row_eq : row = (row.1, value) :=
    List.inj_on_of_nodup_map nodup (mem_append_right _ (mem_append_left _ member)) extreme.mem rfl
  have own : Extreme before (present (tree.rows Timed.keyed)) (row.1, value) :=
    ⟨row_eq ▸ member, fun other member =>
      none_before other (mem_append_right _ (mem_append_left _ member))⟩
  rw [map_append, map_append] at nodup
  have apart := (nodup_append.mp nodup).2.2
  have own_nodup := (nodup_append.mp (nodup_append.mp nodup).2.1).1
  cases holds with
  | unset unset empty => exact absurd empty (ne_nil_of_mem member)
  | set value' flag value_eq extreme' =>
    have same : ((keyDist before function).partialOf tree).aOutputBuf.key = row.1 ∧
        value' = value :=
      Prod.mk.inj (extreme'.unique precedes own_nodup own)
    have taken : ((keyDist before function).finalOf front).aOutputBuf.i64Key = 0 ∨
        before row.1 ((keyDist before function).finalOf front).aOutputBuf.i64Key := by
      refine found.imp_right fun ⟨other, member', other_eq⟩ => ?_
      rw [<- other_eq]
      by_contra behind
      have ahead := none_before other (mem_append_left _ member')
      refine apart other.1 (mem_map_of_mem member') row.1 ?_ (precedes.total _ _ ahead behind)
      exact mem_append_left _ (mem_map_of_mem member)
    have set : ¬ ¬ ((keyDist before function).partialOf tree).aOutputBuf.valFlag = true := by
      simpa using flag
    rw [<- same.1] at taken
    rw [second_eq, firstLastDistSecondMerge, if_neg set]
    dsimp only
    rw [if_pos taken, same.1, value_eq, same.2]

/-- The value with the key 0 is given up for the one of a later tree. -/
def Forgotten (before : Int -> Int -> Bool) (trees : List (MergeTree (Timed α))) : Prop :=
  ∃ value next, Extreme before (present (keyedOf trees)) (0, value) ∧
    Extreme before (present (keyedOf (behind 0 trees))) next ∧ next.2 ≠ value

def keyValue (agg : Aggregation (Timed α) (SQLFunctionCtx (SFirstLastRuntime α))
    (SQLFunctionCtx (SSecondRuntime α))) (trees : List (MergeTree (Timed α))) : Option α :=
  (functionFinalize (agg.finalOf trees).counts (agg.finalOf trees).aOutputBuf.value).join

section

variable (precedes : Precedes before) (pieces : PieceHolds before function)

include precedes pieces

theorem keyValue_none (empty : present (keyedOf trees) = []) :
    keyValue (keyDist before function) trees = none := by
  have iterated : Iterated _ (present (keyedOf trees)) :=
    second_counts.finalOf (keyDist_keeps precedes pieces) trees
  rw [keyValue, functionFinalize_eq iterated, empty]
  rfl

theorem keyValue_some (some : present (keyedOf trees) ≠ []) :
    keyValue (keyDist before function) trees =
      ((keyDist before function).finalOf trees).aOutputBuf.value := by
  have iterated : Iterated _ (present (keyedOf trees)) :=
    second_counts.finalOf (keyDist_keeps precedes pieces) trees
  rw [keyValue, functionFinalize_eq iterated, if_neg (by simpa using some)]
  rfl

theorem keyValue_iff (nodup : ((present (keyedOf trees)).map Prod.fst).Nodup)
    (extreme : Extreme before (present (keyedOf trees)) row) :
    keyValue (keyDist before function) trees = some row.2 ↔ ¬ Forgotten before trees := by
  obtain ⟨key, value⟩ := row
  have keeps := keyDist_keeps precedes pieces
  obtain ⟨front, tree, trees_eq, inside⟩ := split_behind ⟨_, extreme.mem, rfl⟩
  rw [keyValue_some precedes pieces (ne_nil_of_mem extreme.mem)]
  have extreme_split := trees_eq ▸ extreme
  have nodup_split := trees_eq ▸ nodup
  have taken := second_takes precedes pieces nodup_split extreme_split inside
  have final := congrArg (keyDist before function).finalOf trees_eq
  rw [Aggregation.finalOf_split] at final
  generalize (keyDist before function).second ((keyDist before function).finalOf front)
    ((keyDist before function).partialOf tree) = second at taken final
  obtain ⟨state, counts⟩ := second
  dsimp only at taken
  subst taken
  rw [final]
  rw [keyedOf_split] at nodup_split extreme_split
  rw [map_append, map_append] at nodup_split
  have own_back := (nodup_append.mp nodup_split).2.1
  have nodup_back := (nodup_append.mp own_back).2.1
  by_cases zero : key = 0
  · subst zero
    have nonzero : ∀ row ∈ present (keyedOf (behind 0 trees)), row.1 ≠ 0 := by
      intro row member zero
      obtain ⟨own, inside, own_zero⟩ := inside
      exact (nodup_append.mp own_back).2.2 own.1 (mem_map_of_mem inside) row.1
        (mem_map_of_mem member) (own_zero.trans zero.symm)
    have forgets := (second_forgets precedes ⟨0, some value⟩ counts rfl).finalFrom keeps
      (behind 0 trees) nonzero
    rcases forgets with ⟨empty, same⟩ | ⟨value', value_eq, -, extreme'⟩
    · rw [same]
      refine iff_of_true rfl fun ⟨_, next, _, next_extreme, _⟩ => ?_
      exact ne_nil_of_mem next_extreme.mem empty
    · rw [value_eq, Option.some_inj]
      constructor
      · rintro same ⟨value'', next, zero_extreme, next_extreme, other⟩
        have zero_eq := zero_extreme.unique precedes nodup extreme
        have next_eq := next_extreme.unique precedes nodup_back extreme'
        apply other
        rw [next_eq, (Prod.mk.inj zero_eq).2]
        exact same
      · intro kept
        by_contra other
        exact kept ⟨value, _, extreme, extreme', other⟩
  · have after : ∀ row ∈ present (keyedOf (behind key trees)), ¬ before row.1 key :=
      fun row member => extreme_split.none_before row
        (mem_append_right _ (mem_append_right _ member))
    have stays := (second_stays ⟨key, some value⟩ counts zero).finalFrom keeps (behind key trees)
      after
    rw [stays]
    refine iff_of_true rfl fun ⟨value', _, zero_extreme, _, _⟩ => zero ?_
    exact (Prod.mk.inj (extreme.unique precedes nodup zero_extreme)).1

end

def firstOf (piece : Timed α) : Option α :=
  let ctx := (firstFunction .asc piece.block ⟨none, initVal⟩).2
  (functionFinalize ctx.counts ctx.aOutputBuf).join

def lastOf (piece : Timed α) : Option α :=
  let ctx := (lastFunction .desc piece.block ⟨none, initVal⟩).2
  (functionFinalize ctx.counts ctx.aOutputBuf).join

/-- The value of the row no other is before, and none where there is no value. -/
inductive Gives (before : Int -> Int -> Bool) (rows : List (Int × α)) : Option α -> Prop where
  | none (empty : rows = []) : Gives before rows none
  | some (row : Int × α) (extreme : Extreme before rows row) : Gives before rows (some row.2)

theorem setVal_pos {elems : Int} (pos : 0 < elems) :
    (initVal.setVal elems 1).numOfIteratedElems = elems := by
  rw [Counts.setVal, if_neg (by omega), initVal, zero_add]

theorem finalize_some {counts : Counts} (pos : counts.numOfIteratedElems ≠ 0) (value : Option α) :
    (functionFinalize counts value).join = value := by
  rw [functionFinalize, if_neg pos]
  rfl

theorem firstOf_gives (piece : Timed α) :
    Gives isEarlier (present piece.keyed) (firstOf piece) := by
  rw [firstOf, firstFunction, if_neg (by simp [Piece.block])]
  cases hasNull : piece.hasNullValue with
  | true =>
    rw [if_pos (by exact hasNull)]
    cases found : firstNotNull piece.block.cells with
    | none => exact .none (firstNotNull_none found)
    | some place =>
      obtain ⟨i, value⟩ := place
      obtain ⟨-, rest, rows_eq⟩ := firstNotNull_some found
      exact .some _ (head_extreme piece.sorted rows_eq)
  | false =>
    rw [if_neg (by simp [Piece.block, hasNull])]
    dsimp only
    by_cases empty : piece.rows = []
    · have size : piece.block.size = 0 := length_eq_zero_iff.mpr empty
      rw [size]
      refine .none ?_
      rw [Timed.keyed, empty]
      rfl
    · obtain ⟨value, rest, value_eq, rows_eq⟩ := head_filled (piece.nulls hasNull) empty
      have size : (0 : Int) < piece.block.size :=
        Int.natCast_pos.mpr (List.length_pos_iff.mpr empty)
      have pos := setVal_pos size
      have gives : Gives isEarlier (present piece.keyed) (some value) :=
        .some _ (head_extreme piece.sorted rows_eq)
      rw [finalize_some (by omega)]
      exact value_eq ▸ gives

theorem lastOf_gives (piece : Timed α) : Gives isLater (present piece.keyed) (lastOf piece) := by
  rw [lastOf, lastFunction, if_neg (by simp [Piece.block])]
  cases hasNull : piece.hasNullValue with
  | true =>
    rw [if_pos (by exact hasNull)]
    cases found : lastNotNull piece.block.cells with
    | none => exact .none (lastNotNull_none found)
    | some place =>
      obtain ⟨i, value⟩ := place
      obtain ⟨rest, rows_eq⟩ := lastNotNull_some found
      exact .some _ (last_extreme piece.sorted rows_eq)
  | false =>
    rw [if_neg (by simp [Piece.block, hasNull])]
    dsimp only
    by_cases empty : piece.rows = []
    · have size : piece.block.size = 0 := length_eq_zero_iff.mpr empty
      rw [size]
      refine .none ?_
      rw [Timed.keyed, empty]
      rfl
    · obtain ⟨value, rest, value_eq, rows_eq⟩ := last_filled (piece.nulls hasNull) empty
      have size : (0 : Int) < piece.block.size :=
        Int.natCast_pos.mpr (List.length_pos_iff.mpr empty)
      have pos := setVal_pos size
      have gives : Gives isLater (present piece.keyed) (some value) :=
        .some _ (last_extreme piece.sorted rows_eq)
      rw [finalize_some (by omega)]
      exact value_eq ▸ gives

theorem keyDist_iff (precedes : Precedes before) (pieces : PieceHolds before function)
    (timeline : Timeline α) {plain : Option α}
    (gives : Gives before (present timeline.all.keyed) plain) :
    keyValue (keyDist before function) timeline.trees = plain ↔
      ¬ Forgotten before timeline.trees := by
  have perm := timeline.present_perm
  cases gives with
  | none empty =>
    have trees_empty : present (keyedOf timeline.trees) = [] :=
      List.perm_nil.mp (empty ▸ perm)
    refine iff_of_true (keyValue_none precedes pieces trees_empty) ?_
    rintro ⟨_, _, extreme, _, _⟩
    exact ne_nil_of_mem extreme.mem trees_empty
  | some row extreme =>
    exact keyValue_iff precedes pieces timeline.nodup (extreme.perm perm.symm)

/-- Distributed aggregation gives what the plain functions give on all rows, but for a first or a
last value of the timestamp 0 that the client forgets. -/
theorem distributed_iff {α β : Type} (rows : Partition α) (numbers : Partition ℚ)
    (number : { type : DataType // type.isNumber }) (spread : { type : DataType // type.spreads })
    (isMin : Bool) (timeline : Timeline β) :
    (countDist.finalOf rows.trees).aOutputBuf = countOf rows.all ∧
    functionFinalize ((sumDist number).finalOf numbers.trees).counts
        ((sumDist number).finalOf numbers.trees).aOutputBuf = sumOf number numbers.all ∧
    avgFinalizer ((avgDist number).finalOf numbers.trees).counts
        ((avgDist number).finalOf numbers.trees).aOutputBuf = avgOf number numbers.all ∧
    functionFinalize ((minMaxDist number isMin).finalOf numbers.trees).counts
        ((minMaxDist number isMin).finalOf numbers.trees).aOutputBuf =
      minMaxOf number isMin numbers.all ∧
    spreadFunctionFinalize ((spreadDist spread).finalOf numbers.trees).counts
        ((spreadDist spread).finalOf numbers.trees).aOutputBuf = spreadOf spread numbers.all ∧
    (keyValue firstDist timeline.trees = firstOf timeline.all ↔
      ¬ Forgotten isEarlier timeline.trees) ∧
    (keyValue lastDist timeline.trees = lastOf timeline.all ↔ ¬ Forgotten isLater timeline.trees) :=
  ⟨countDist_eq rows, sumDist_eq number.2 numbers, avgDist_eq number.2 numbers,
    minMaxDist_eq number.2 numbers, spreadDist_eq spread.2 numbers,
    keyDist_iff isEarlier_precedes firstDist_piece timeline (firstOf_gives timeline.all),
    keyDist_iff isLater_precedes lastDist_piece timeline (lastOf_gives timeline.all)⟩

/-- A value of the timestamp 0, and one of the timestamp 5 that another vnode gives. -/
def zeroFirst : Timeline Int where
  all := ⟨⟨[(0, some 7), (5, some 8)], false, by decide⟩, by decide⟩
  trees := [.piece ⟨⟨[(0, some 7)], false, by decide⟩, by decide⟩,
    .piece ⟨⟨[(5, some 8)], false, by decide⟩, by decide⟩]
  perm := List.Perm.refl _

theorem zeroFirst_forgotten :
    keyValue firstDist zeroFirst.trees = some 8 ∧ firstOf zeroFirst.all = some 7 := by
  decide +kernel

end Luomi.Client.DistributedKeys
