import Mathlib.Tactic

/-!
# Windows of sorted lists

In a list sorted by a key the elements below a bound are a prefix, so the
elements between two bounds are a slice whose ends are two counts, and the
elements of two ranges of keys, one below the other, stand in that order.
-/

set_option autoImplicit false

namespace Luomi.SortedWindow

variable {α κ : Type} [LinearOrder κ] {key : α -> κ}

section

variable (key : α -> κ) (list : List α)

def Ascending : Prop :=
  list.Pairwise fun left right => key left ≤ key right

def lower (bound : κ) : Nat :=
  list.countP fun item => key item < bound

def upper (bound : κ) : Nat :=
  list.countP fun item => key item ≤ bound

end

/-- The elements between two bounds, both included. -/
def between (key : α -> κ) (low high : κ) (list : List α) : List α :=
  list.filter fun item => low ≤ key item ∧ key item ≤ high

theorem between_append (low high : κ) (left right : List α) : between key low high (left ++ right) =
      between key low high left ++ between key low high right :=
  List.filter_append left right

variable {low : κ}

theorem between_eq_nil_iff {high : κ} {list : List α} :
    between key low high list = [] ↔ ∀ item ∈ list, ¬ (low ≤ key item ∧ key item ≤ high) := by
  simp [between, List.filter_eq_nil_iff]

theorem between_flatMap {β : Type} (low high : κ) (blocks : List β) (items : β -> List α) :
    between key low high (blocks.flatMap items) =
      blocks.flatMap fun block => between key low high (items block) := by
  induction blocks with
  | nil => rfl
  | cons block blocks ih => rw [List.flatMap_cons, between_append, ih, List.flatMap_cons]

theorem lower_le_length (key : α -> κ) (list : List α) (bound : κ) : lower key list bound ≤
    list.length :=
  List.countP_le_length

theorem upper_le_length (key : α -> κ) (list : List α) (bound : κ) : upper key list bound ≤
    list.length :=
  List.countP_le_length

section Sorted

variable {list : List α}
  {index : Nat}

theorem getElem_iff_lt_countP {property : α -> Bool}
    (downward : list.Pairwise fun left right => property right = true -> property left = true) (inside : index < list.length) :
    property list[index] = true ↔ index < list.countP property := by
  induction list generalizing index with
  | nil => cases inside
  | cons item rest ih =>
    obtain ⟨first, later⟩ := List.pairwise_cons.mp downward
    by_cases holds : property item = true
    · cases index with
      | zero => simp [holds]
      | succ index =>
        have inside : index < rest.length := Nat.lt_of_succ_lt_succ inside
        simp only [List.getElem_cons_succ, List.countP_cons, holds, if_true]
        rw [ih later inside]
        omega
    · have none' : (item :: rest).countP property = 0 := by
        rw [List.countP_eq_zero]
        intro other member
        rcases List.mem_cons.mp member with rfl | member
        · exact holds
        · exact fun other' => holds (first other member other')
      rw [none']
      refine iff_of_false (fun found => ?_) (Nat.not_lt_zero index)
      cases index with
      | zero => exact holds found
      | succ index => exact holds (first _ (List.getElem_mem _) found)

section

variable (sorted : Ascending key list)
include sorted

theorem key_lt_iff (inside : index < list.length)
    (bound : κ) : key list[index] < bound ↔ index < lower key list bound := by
  have downward : list.Pairwise fun left right =>
      decide (key right < bound) = true -> decide (key left < bound) = true :=
    sorted.imp fun ordered below => by
      rw [decide_eq_true_eq] at below ⊢
      exact lt_of_le_of_lt ordered below
  rw [lower, <- getElem_iff_lt_countP downward inside, decide_eq_true_eq]

theorem key_le_iff (inside : index < list.length)
    (bound : κ) : key list[index] ≤ bound ↔ index < upper key list bound := by
  have downward : list.Pairwise fun left right =>
      decide (key right ≤ bound) = true -> decide (key left ≤ bound) = true :=
    sorted.imp fun ordered below => by
      rw [decide_eq_true_eq] at below ⊢
      exact le_trans ordered below
  rw [upper, <- getElem_iff_lt_countP downward inside, decide_eq_true_eq]

theorem between_eq_slice {high : κ} (ordered : low ≤ high) : between key low high list =
      (list.drop (lower key list low)).take (upper key list high - lower key list low) := by
  induction list with
  | nil => simp [between]
  | cons item rest ih =>
    obtain ⟨first, later⟩ := List.pairwise_cons.mp sorted
    have ih := ih later
    by_cases below : key item < low
    · have under : key item ≤ high := le_of_lt (lt_of_lt_of_le below ordered)
      have out : between key low high (item :: rest) = between key low high rest := by
        simp [between, not_le_of_gt below]
      have lowerEq : lower key (item :: rest) low = lower key rest low + 1 := by
        simp [lower, below]
      have upperEq : upper key (item :: rest) high = upper key rest high + 1 := by
        simp [upper, under]
      rw [out, ih, lowerEq, upperEq, List.drop_succ_cons, Nat.add_sub_add_right]
    · have none' : lower key (item :: rest) low = 0 := by
        rw [lower, List.countP_eq_zero]
        intro other member
        rw [decide_eq_true_eq]
        rcases List.mem_cons.mp member with rfl | member
        · exact below
        · exact fun less => below (lt_of_le_of_lt (first other member) less)
      have restNone : lower key rest low = 0 := by
        have : lower key (item :: rest) low = lower key rest low := by
          simp [lower, below]
        rw [<- this, none']
      rw [none', List.drop_zero, Nat.sub_zero]
      rw [restNone, List.drop_zero, Nat.sub_zero] at ih
      by_cases above : key item ≤ high
      · have upperEq : upper key (item :: rest) high = upper key rest high + 1 := by
          simp [upper, above]
        rw [upperEq, List.take_succ_cons, <- ih]
        simp [between, le_of_not_gt below, above]
      · have nothing : upper key (item :: rest) high = 0 := by
          rw [upper, List.countP_eq_zero]
          intro other member
          rw [decide_eq_true_eq]
          rcases List.mem_cons.mp member with rfl | member
          · exact above
          · exact fun less => above (le_trans (first other member) less)
        rw [nothing, List.take_zero, between_eq_nil_iff]
        intro other member inside
        rcases List.mem_cons.mp member with rfl | member
        · exact above inside.2
        · exact above (le_trans (first other member) inside.2)

theorem length_between {high : κ} (ordered : low ≤ high) :
    (between key low high list).length = upper key list high - lower key list low := by
  have bound := upper_le_length key list high
  rw [between_eq_slice sorted ordered, List.length_take, List.length_drop]
  omega

theorem filter_append_filter (early late : κ -> Prop) [DecidablePred early] [DecidablePred late]
    (apart : ∀ left right, early left -> late right -> left < right) :
    (list.filter fun item => early (key item)) ++ (list.filter fun item => late (key item)) =
      list.filter fun item => early (key item) ∨ late (key item) := by
  induction list with
  | nil => rfl
  | cons item rest ih =>
    obtain ⟨first, restSorted⟩ := List.pairwise_cons.mp sorted
    have ih := ih restSorted
    by_cases isEarly : early (key item)
    · have notLate : ¬ late (key item) := fun isLate => lt_irrefl _ (apart _ _ isEarly isLate)
      simp only [List.filter_cons, isEarly, notLate, true_or, decide_true, decide_false, if_true,
        Bool.false_eq_true, if_false, List.cons_append, ih]
    · by_cases isLate : late (key item)
      · have none' : (rest.filter fun other => early (key other)) = [] := by
          rw [List.filter_eq_nil_iff]
          intro other member
          rw [decide_eq_true_eq]
          intro otherEarly
          exact absurd (apart _ _ otherEarly isLate) (not_lt_of_ge (first other member))
        rw [none', List.nil_append] at ih
        simp [isEarly, isLate, none', ih]
      · simpa [List.filter_cons, isEarly, isLate] using ih

end

end Sorted

end Luomi.SortedWindow
