import Mathlib.Data.List.Perm.Basic
import Mathlib.Data.List.Count
import Mathlib.Order.Lattice

/-!
# The best rows of a list

A buffer keeps the best rows of a list, up to some number.  It holds rows of the list, each at most
once, and none that is left out has a better value.  One more row is put in as long as there is
room, and later in the place of the worst; two buffers are put together by putting the rows of the
one into the other.
-/

set_option autoImplicit false

namespace Luomi.BestRows

variable {Row Value : Type} [LinearOrder Value] {value : Row -> Value} {most : Nat}

structure Best (value : Row -> Value) (most : Nat) (rows kept : List Row) : Prop where
  length : kept.length = min most rows.length
  rest : ∃ rest, rows.Perm (kept ++ rest) ∧ ∀ row ∈ kept, ∀ other ∈ rest, value other ≤ value row

namespace Best

theorem nil : Best value most [] [] :=
  ⟨by simp, [], List.Perm.refl _, by simp⟩

variable {kept kept' rows : List Row}

theorem perm_kept (best : Best value most rows kept)
    (perm : kept.Perm kept') : Best value most rows kept' := by
  obtain ⟨rest, rows_perm, below⟩ := best.rest
  refine ⟨perm.length_eq ▸ best.length, rest, rows_perm.trans (perm.append_right rest), ?_⟩
  intro row member
  exact below row (perm.mem_iff.mpr member)

theorem all_kept (best : Best value most rows kept)
    (room : kept.length < most) : rows.Perm kept := by
  obtain ⟨rest, rows_perm, -⟩ := best.rest
  have length := best.length
  have lengths := rows_perm.length_eq
  rw [List.length_append] at lengths
  have none : rest = [] := List.length_eq_zero_iff.mp (by omega)
  rwa [none, List.append_nil] at rows_perm

theorem of_perm (perm : rows.Perm kept) (room : rows.length ≤ most) : Best value most rows kept :=
  ⟨by rw [<- perm.length_eq]; omega, [], by rwa [List.append_nil], by simp⟩

section

variable (best : Best value most rows kept)
include best

theorem add_room {row : Row} (room : kept.length < most) (added : kept'.Perm (row :: kept)) :
    Best value most (rows ++ [row]) kept' := by
  have all := best.all_kept room
  have same : (rows ++ [row]).Perm kept' :=
    (List.perm_append_singleton row rows).trans ((all.cons row).trans added.symm)
  refine of_perm same ?_
  rw [List.length_append, List.length_singleton, all.length_eq]
  exact room

theorem add_worse {row : Row}
    (full : kept.length = most) (worse : ∀ other ∈ kept, value row ≤ value other) :
    Best value most (rows ++ [row]) kept := by
  obtain ⟨rest, rows_perm, below⟩ := best.rest
  have length := best.length
  refine ⟨?_, rest ++ [row], ?_, ?_⟩
  · rw [List.length_append]
    omega
  · rw [<- List.append_assoc]
    exact rows_perm.append_right [row]
  · intro other member left left_member
    rcases List.mem_append.mp left_member with left_member | left_member
    · exact below other member left left_member
    · rw [List.mem_singleton.mp left_member]
      exact worse other member

theorem add_better {others : List Row} {row worst : Row} (full : kept.length = most)
    (split : kept.Perm (worst :: others)) (worst_le : ∀ other ∈ kept, value worst ≤ value other)
    (better : value worst ≤ value row) (added : kept'.Perm (row :: others)) :
    Best value most (rows ++ [row]) kept' := by
  obtain ⟨rest, rows_perm, below⟩ := best.rest
  have length := best.length
  have lengths := split.length_eq
  refine perm_kept ⟨?_, worst :: rest, ?_, ?_⟩ added.symm
  · rw [List.length_append, List.length_cons, List.length_singleton]
    rw [List.length_cons] at lengths
    omega
  · calc (rows ++ [row]).Perm (row :: rows) := List.perm_append_singleton row rows
      _ |>.Perm (row :: (kept ++ rest)) := rows_perm.cons row
      _ |>.Perm (row :: (worst :: others ++ rest)) := (split.append_right rest).cons row
      _ |>.Perm (row :: (others ++ worst :: rest)) :=
        (List.perm_middle (a := worst)).symm.cons row
  · intro other member left left_member
    have bound : value worst ≤ value other := by
      rcases List.mem_cons.mp member with rfl | member
      · exact better
      · exact worst_le other (split.mem_iff.mpr (List.mem_cons_of_mem _ member))
    rcases List.mem_cons.mp left_member with rfl | left_member
    · exact bound
    · have worst_kept : worst ∈ kept := split.mem_iff.mpr List.mem_cons_self
      exact (below worst worst_kept left left_member).trans bound

end

theorem join {rows' : List Row} (best' : Best value most rows' kept')
    (best : Best value most (rows ++ kept') kept) : Best value most (rows ++ rows') kept := by
  obtain ⟨rest', rows_perm', below'⟩ := best'.rest
  obtain ⟨rest, rows_perm, below⟩ := best.rest
  have length' := best'.length
  have length := best.length
  have lengths' := rows_perm'.length_eq
  rw [List.length_append] at length lengths'
  refine ⟨?_, rest ++ rest', ?_, ?_⟩
  · rw [List.length_append]
    omega
  · calc (rows ++ rows').Perm (rows ++ (kept' ++ rest')) := rows_perm'.append_left rows
      _ = rows ++ kept' ++ rest' := (List.append_assoc _ _ _).symm
      _ |>.Perm (kept ++ rest ++ rest') := rows_perm.append_right rest'
      _ = kept ++ (rest ++ rest') := List.append_assoc _ _ _
  · intro row member left left_member
    rcases List.mem_append.mp left_member with left_member | left_member
    · exact below row member left left_member
    · by_contra above
      rw [not_le] at above
      -- `kept'` is full of better rows then, so that there is no place left for `row`
      have full : kept'.length = most := by
        have some := List.length_pos_of_mem left_member
        omega
      have counts := rows_perm.countP_eq fun other => decide (value row < value other)
      rw [List.countP_append, List.countP_append] at counts
      have all : kept'.countP (fun other => decide (value row < value other)) = kept'.length := by
        rw [List.countP_eq_length]
        intro other other_member
        exact decide_eq_true (above.trans_le (below' other other_member left left_member))
      have none : rest.countP (fun other => decide (value row < value other)) = 0 := by
        rw [List.countP_eq_zero]
        intro other other_member
        simpa using below row member other other_member
      have less : kept.countP (fun other => decide (value row < value other)) < kept.length := by
        refine lt_of_le_of_ne List.countP_le_length fun same => ?_
        have self := List.countP_eq_length.mp same row member
        simp at self
      omega

end Best

end Luomi.BestRows
