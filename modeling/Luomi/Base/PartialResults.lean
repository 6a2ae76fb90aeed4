import Mathlib.Data.List.Perm.Basic
import Mathlib.Order.Lattice
import Mathlib.Data.Rat.Defs

/-!
# Partial results

A set of rows is cut into pieces.  Each piece gives a partial result, partial results are merged
along a tree, and the results of several trees are folded into the final one.  What a partial
result stands for is a relation to the rows under it: where every operation keeps it, the final
result stands for all rows, whatever the pieces and the trees are.
-/

set_option autoImplicit false

namespace Luomi.PartialResults

inductive MergeTree (Piece : Type) where
  | piece (rows : Piece)
  | empty
  | merge (output input : MergeTree Piece)

variable {Piece Row Partial Final : Type}

def MergeTree.rows (rowsOf : Piece -> List Row) : MergeTree Piece -> List Row
  | .piece rows => rowsOf rows
  | .empty => []
  | .merge output input => output.rows rowsOf ++ input.rows rowsOf

structure Aggregation (Piece Partial Final : Type) where
  piece : Piece -> Partial
  setup : Partial
  merge : Partial -> Partial -> Partial
  start : Final
  second : Final -> Partial -> Final

def Aggregation.partialOf (agg : Aggregation Piece Partial Final) : MergeTree Piece -> Partial
  | .piece rows => agg.piece rows
  | .empty => agg.setup
  | .merge output input => agg.merge (agg.partialOf output) (agg.partialOf input)

def Aggregation.finalFrom (agg : Aggregation Piece Partial Final) (final : Final)
    (trees : List (MergeTree Piece)) : Final :=
  trees.foldl (fun final tree => agg.second final (agg.partialOf tree)) final

def Aggregation.finalOf (agg : Aggregation Piece Partial Final) (trees : List (MergeTree Piece)) :
    Final :=
  agg.finalFrom agg.start trees

structure Keeps (agg : Aggregation Piece Partial Final) (rowsOf : Piece -> List Row)
    (Stands : Partial -> List Row -> Prop) : Prop where
  piece : ∀ rows, Stands (agg.piece rows) (rowsOf rows)
  setup : Stands agg.setup []
  merge : ∀ output input before after, Stands output before -> Stands input after ->
    Stands (agg.merge output input) (before ++ after)

structure FoldsFrom (agg : Aggregation Piece Partial Final) (Stands : Partial -> List Row -> Prop)
    (start : Final) (Final' : Final -> List Row -> Prop) : Prop where
  start : Final' start []
  second : ∀ final input before after, Final' final before -> Stands input after ->
    Final' (agg.second final input) (before ++ after)

abbrev Folds (agg : Aggregation Piece Partial Final) (Stands : Partial -> List Row -> Prop)
    (Final' : Final -> List Row -> Prop) : Prop :=
  FoldsFrom agg Stands agg.start Final'

variable {agg : Aggregation Piece Partial Final} {rowsOf : Piece -> List Row}
  {Stands : Partial -> List Row -> Prop} {Final' : Final -> List Row -> Prop}

theorem Keeps.partialOf (keeps : Keeps agg rowsOf Stands) (tree : MergeTree Piece) :
    Stands (agg.partialOf tree) (tree.rows rowsOf) := by
  induction tree with
  | piece rows => exact keeps.piece rows
  | empty => exact keeps.setup
  | merge output input output' input' => exact keeps.merge _ _ _ _ output' input'

section

variable {start : Final} (folds : FoldsFrom agg Stands start Final')
  (keeps : Keeps agg rowsOf Stands) (trees : List (MergeTree Piece))

include folds keeps

theorem FoldsFrom.foldl (final : Final) (before : List Row) (stands : Final' final before) :
    Final' (agg.finalFrom final trees) (before ++ trees.flatMap (MergeTree.rows rowsOf)) := by
  induction trees generalizing final before with
  | nil => simpa [Aggregation.finalFrom] using stands
  | cons tree trees ih =>
    rw [Aggregation.finalFrom, List.foldl_cons, List.flatMap_cons, <- List.append_assoc]
    exact ih _ _ (folds.second _ _ _ _ stands (keeps.partialOf tree))

theorem FoldsFrom.finalFrom :
    Final' (agg.finalFrom start trees) (trees.flatMap (MergeTree.rows rowsOf)) := by
  have all := folds.foldl keeps trees start [] folds.start
  rwa [List.nil_append] at all

end

theorem Folds.finalOf (folds : Folds agg Stands Final') (keeps : Keeps agg rowsOf Stands)
    (trees : List (MergeTree Piece)) :
    Final' (agg.finalOf trees) (trees.flatMap (MergeTree.rows rowsOf)) :=
  folds.finalFrom keeps trees

theorem Aggregation.finalOf_split (front : List (MergeTree Piece)) (tree : MergeTree Piece)
    (back : List (MergeTree Piece)) : agg.finalOf (front ++ tree :: back) =
      agg.finalFrom (agg.second (agg.finalOf front) (agg.partialOf tree)) back := by
  rw [Aggregation.finalOf, Aggregation.finalFrom, List.foldl_append, List.foldl_cons]
  rfl

section Semilattice

variable {α : Type} (op : α -> α -> α) [Std.Associative op] [Std.Commutative op]

theorem foldl_perm (start : α) {values values' : List α} (perm : values.Perm values') :
    values.foldl op start = values'.foldl op start := by
  refine perm.foldl_eq' (fun x _ y _ z => ?_) start
  calc op (op z x) y = op z (op x y) := Std.Associative.assoc z x y
    _ = op z (op y x) := congrArg (op z) (Std.Commutative.comm x y)
    _ = op (op z y) x := (Std.Associative.assoc z y x).symm

variable [Std.IdempotentOp op]

theorem foldl_absorbs (start : α) (values : List α) :
    op (values.foldl op start) start = values.foldl op start := by
  have joined : values.foldl op (op start start) = op start (values.foldl op start) :=
    List.foldl_assoc
  have same : op start start = start := Std.IdempotentOp.idempotent start
  rw [same] at joined
  exact (Std.Commutative.comm _ _).trans joined.symm

theorem foldl_merge (start : α) (before after : List α) :
    op (before.foldl op start) (after.foldl op start) = (before ++ after).foldl op start := by
  have joined : after.foldl op (op (before.foldl op start) start) =
      op (before.foldl op start) (after.foldl op start) := List.foldl_assoc
  rw [<- joined, foldl_absorbs op start before, List.foldl_append]

theorem foldl_has (start : α) {values : List α} {value : α} (member : value ∈ values) :
    op (values.foldl op start) value = values.foldl op start := by
  induction values generalizing start with
  | nil => cases member
  | cons first values ih =>
    rcases List.mem_cons.mp member with rfl | member
    · have moved : values.foldl op (op value start) = op value (values.foldl op start) :=
        List.foldl_assoc
      have swap : op start value = op value start := Std.Commutative.comm start value
      have twice : op value value = value := Std.IdempotentOp.idempotent value
      rw [List.foldl_cons, swap, moved]
      calc op (op value (values.foldl op start)) value
          = op value (op value (values.foldl op start)) := Std.Commutative.comm _ _
        _ = op (op value value) (values.foldl op start) := (Std.Associative.assoc _ _ _).symm
        _ = op value (values.foldl op start) := congrArg (op · _) twice
    · exact ih (op start first) member

theorem foldl_fixed (start : α) (values : List α) :
    values.foldl op start = start ↔ ∀ value ∈ values, op start value = start := by
  constructor
  · intro fixed value member
    have has := foldl_has op start member
    rwa [fixed] at has
  · intro fixed
    induction values with
    | nil => rfl
    | cons value values ih =>
      rw [List.foldl_cons, fixed value List.mem_cons_self]
      exact ih fun other member => fixed other (List.mem_cons_of_mem _ member)

end Semilattice

end Luomi.PartialResults
