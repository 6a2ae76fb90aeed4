import Mathlib.Tactic

/-!
# Extents that are placed one behind the other

Items get their places in the order of a list, each behind the one before.  The extents of
two items are apart, and all lie between the front and the end.
-/

set_option autoImplicit false

namespace Luomi.Placement

variable {Item : Type}

def start [DecidableEq Item] (size : Item -> Int) : List Item -> Int -> Item -> Int
  | [], front, _ => front
  | other :: items, front, item =>
    if other = item then front else start size items (front + size other) item

variable {size : Item -> Int} [DecidableEq Item]

theorem start_ge (nonneg : ∀ item, 0 ≤ size item) (items : List Item) (front : Int)
    (item : Item) : front ≤ start size items front item := by
  induction items generalizing front with
  | nil => exact le_rfl
  | cons other items ih =>
    unfold start
    split
    · exact le_rfl
    · exact (le_add_of_nonneg_right (nonneg other)).trans (ih _)

theorem apart (nonneg : ∀ item, 0 ≤ size item) {items : List Item} {one other : Item}
    (differ : one ≠ other) (front : Int) (memberOne : one ∈ items) (memberOther : other ∈ items) :
    start size items front one + size one ≤ start size items front other ∨
      start size items front other + size other ≤ start size items front one := by
  induction items generalizing front with
  | nil => exact absurd memberOne List.not_mem_nil
  | cons item items ih =>
    unfold start
    by_cases first : item = one
    · rw [if_pos first, if_neg (first ▸ differ), first]
      exact Or.inl (start_ge nonneg items _ other)
    rw [if_neg first]
    by_cases second : item = other
    · rw [if_pos second, second]
      exact Or.inr (start_ge nonneg items _ one)
    rw [if_neg second]
    exact ih _ ((List.mem_cons.mp memberOne).resolve_left (Ne.symm first))
      ((List.mem_cons.mp memberOther).resolve_left (Ne.symm second))

end Luomi.Placement
