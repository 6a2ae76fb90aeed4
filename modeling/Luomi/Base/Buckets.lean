import Mathlib.Tactic

/-!
# Tables of lists

The elements of a table are those of its lists, one list after the other.
-/

set_option autoImplicit false

namespace Luomi.Buckets

open Function (update update_of_ne update_self)

variable {α : Type} {count : Nat} {table other : Nat -> List α}

def elements (count : Nat) (table : Nat -> List α) : List α :=
  (List.range count).flatMap table

theorem mem_elements {element : α} :
    element ∈ elements count table ↔ ∃ bucket, bucket < count ∧ element ∈ table bucket := by
  unfold elements
  rw [List.mem_flatMap]
  apply exists_congr
  intro bucket
  rw [List.mem_range]

theorem elements_succ : elements (count + 1) table = elements count table ++ table count := by
  unfold elements
  rw [List.range_succ, List.flatMap_append, List.flatMap_singleton]

theorem elements_congr (same : ∀ bucket, bucket < count -> other bucket = table bucket) :
    elements count other = elements count table := by
  apply List.flatMap_congr
  intro bucket member
  exact same bucket (List.mem_range.mp member)

theorem elements_perm_cons {bucket : Nat} {element : α} (inside : bucket < count)
    (grown : (other bucket).Perm (element :: table bucket))
    (same : ∀ another, another ≠ bucket -> other another = table another) :
    (elements count other).Perm (element :: elements count table) := by
  induction count with
  | zero => exact absurd inside (Nat.not_lt_zero bucket)
  | succ count ih =>
    rw [elements_succ, elements_succ]
    by_cases last : bucket = count
    · subst last
      rw [elements_congr fun another below => same another (Nat.ne_of_lt below)]
      exact (grown.append_left _).trans List.perm_middle
    · rw [same count (Ne.symm last)]
      exact (ih (by omega)).append_right _

theorem elements_perm (alike : ∀ bucket, (other bucket).Perm (table bucket)) :
    (elements count other).Perm (elements count table) := by
  induction count with
  | zero => exact List.Perm.refl _
  | succ count ih =>
    rw [elements_succ, elements_succ]
    exact ih.append (alike count)

theorem elements_split {bucket : Nat} (inside : bucket < count) : (elements count table).Perm
      (table bucket ++ elements count (update table bucket [])) := by
  induction count with
  | zero => exact absurd inside (Nat.not_lt_zero bucket)
  | succ count ih =>
    rw [elements_succ, elements_succ]
    by_cases last : bucket = count
    · subst last
      have front : elements bucket (update table bucket []) = elements bucket table :=
        elements_congr fun another below => update_of_ne (Nat.ne_of_lt below) _ _
      rw [front, update_self, List.append_nil]
      exact List.perm_append_comm
    · rw [update_of_ne (Ne.symm last), <- List.append_assoc]
      exact (ih (by omega)).append_right _

theorem elements_update {bucket : Nat} (inside : bucket < count) (fresh : List α) :
    (elements count (update table bucket fresh)).Perm
      (fresh ++ elements count (update table bucket [])) := by
  have split := @elements_split _ count (update table bucket fresh) bucket inside
  rwa [update_self, Function.update_idem] at split

theorem replace_perm [BEq α] [LawfulBEq α] {element fresh : α} {list : List α}
    (member : element ∈ list) :
    (list.replace element fresh).Perm (fresh :: list.erase element) := by
  induction list with
  | nil => cases member
  | cons first rest ih =>
    by_cases same : first = element
    · subst same
      rw [List.replace_cons_self, List.erase_cons_head]
    · have inRest : element ∈ rest :=
        (List.mem_cons.mp member).resolve_left (Ne.symm same)
      rw [List.replace_cons, List.erase_cons]
      have notFirst : (element == first) = false := beq_false_of_ne (Ne.symm same)
      have notElement : (first == element) = false := beq_false_of_ne same
      rw [notFirst, notElement]
      exact ((ih inRest).cons first).trans (List.Perm.swap fresh first _)

end Luomi.Buckets
