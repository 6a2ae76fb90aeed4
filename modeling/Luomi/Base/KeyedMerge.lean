import Mathlib.Algebra.Order.BigOperators.Group.Finset
import Mathlib.Algebra.BigOperators.Group.Finset.Piecewise
import Mathlib.Data.List.Basic
import Mathlib.Tactic.Common

/-!
# Merging sources by their heads

Several sources are read from their beginnings.  Each draw takes the head of a
source whose key is least among the heads of all of them.  A merge reads every
source in its own order, and its result is ordered when every source is.
-/

set_option autoImplicit false

namespace Luomi.KeyedMerge

open Function (update_of_ne update_self)

section Draws

variable {α K : Type*} [Preorder K] (key : α -> K) (n : Nat) (sources : Nat -> List α)

/-- `drawn` is what has been drawn so far, each item with its source, and
`taken` how many items every source has given. -/
inductive Merged : (Nat -> Nat) -> List (Nat × α) -> Prop where
  | start : Merged (fun _ => 0) []
  | draw {taken : Nat -> Nat} {drawn : List (Nat × α)} {a : Nat} {item : α}
      (before : Merged taken drawn) (source : a < n)
      (head : (sources a)[taken a]? = some item)
      (least : ∀ b other, b < n -> (sources b)[taken b]? = some other -> key item ≤ key other) :
      Merged (Function.update taken a (taken a + 1)) (drawn ++ [(a, item)])

variable {key n sources}

variable {drawn : List (Nat × α)} {taken : Nat -> Nat}

section

variable (merged : Merged key n sources taken drawn)
include merged

theorem Merged.taken_le (b : Nat) : taken b ≤ (sources b).length := by
  induction merged with
  | start => exact Nat.zero_le _
  | @draw taken drawn a item before source head least hypothesis =>
    by_cases same : b = a
    · subst same
      rw [update_self]
      exact (List.getElem?_eq_some_iff.mp head).1
    · rw [update_of_ne same]
      exact hypothesis

theorem Merged.of_source (b : Nat) :
    (drawn.filter fun draw => draw.1 = b).map Prod.snd = (sources b).take (taken b) := by
  induction merged with
  | start => simp
  | @draw taken drawn a item before source head least hypothesis =>
    rw [List.filter_append, List.map_append, hypothesis]
    by_cases same : b = a
    · subst same
      obtain ⟨small, isItem⟩ := List.getElem?_eq_some_iff.mp head
      rw [update_self, List.take_succ_eq_append_getElem small, isItem]
      simp
    · rw [update_of_ne same]
      simp [Ne.symm same]

theorem Merged.source_lt : ∀ draw ∈ drawn, draw.1 < n ∧ draw.2 ∈ sources draw.1 := by
  induction merged with
  | start => simp
  | @draw taken drawn a item before source head least hypothesis =>
    intro draw member
    rcases List.mem_append.mp member with earlier | now
    · exact hypothesis draw earlier
    · rw [List.mem_singleton.mp now]
      exact ⟨source, List.mem_of_getElem? head⟩

theorem Merged.count : drawn.length = ∑ b ∈ Finset.range n, taken b := by
  induction merged with
  | start => simp
  | @draw taken drawn a item before source head least hypothesis =>
    rw [Finset.sum_update_of_mem (Finset.mem_range.mpr source), List.length_append,
      hypothesis, Finset.sum_eq_add_sum_sdiff_singleton_of_mem (Finset.mem_range.mpr source)]
    simp
    omega

theorem Merged.left_over (less : drawn.length < ∑ b ∈ Finset.range n, (sources b).length) :
    ∃ b item, b < n ∧ (sources b)[taken b]? = some item := by
  rw [merged.count] at less
  obtain ⟨b, member, small⟩ := Finset.exists_lt_of_sum_lt less
  exact ⟨b, _, Finset.mem_range.mp member, List.getElem?_eq_getElem small⟩

theorem Merged.complete (full : drawn.length = ∑ b ∈ Finset.range n, (sources b).length) (b : Nat)
    (source : b < n) : taken b = (sources b).length := by
  rw [merged.count] at full
  exact (Finset.sum_eq_sum_iff_of_le fun c _ => merged.taken_le c).mp full b
    (Finset.mem_range.mpr source)

theorem Merged.le_rest (ordered : ∀ b, b < n -> (sources b).Pairwise fun x y => key x ≤ key y) :
    ∀ draw ∈ drawn, ∀ b i other, b < n -> taken b ≤ i -> (sources b)[i]? = some other ->
      key draw.2 ≤ key other := by
  induction merged with
  | start => simp
  | @draw taken drawn a item before source head least hypothesis =>
    intro draw member b i other small rest otherAt
    have restBefore : taken b ≤ i := by
      by_cases same : b = a
      · subst same
        rw [update_self] at rest
        omega
      · rwa [update_of_ne same] at rest
    rcases List.mem_append.mp member with earlier | now
    · exact hypothesis draw earlier b i other small restBefore otherAt
    · rw [List.mem_singleton.mp now]
      obtain ⟨iSmall, isOther⟩ := List.getElem?_eq_some_iff.mp otherAt
      have headOf : (sources b)[taken b]? = some (sources b)[taken b] :=
        List.getElem?_eq_getElem (by omega)
      refine (least b _ small headOf).trans ?_
      by_cases same : taken b = i
      · simp only [same, isOther]
        exact le_refl _
      · rw [<- isOther]
        exact List.pairwise_iff_getElem.mp (ordered b small) _ _ (by omega) iSmall (by omega)

theorem Merged.ordered (ordered : ∀ b, b < n -> (sources b).Pairwise fun x y => key x ≤ key y) :
    (drawn.map Prod.snd).Pairwise fun x y => key x ≤ key y := by
  induction merged with
  | start => simp
  | @draw taken drawn a item before source head least hypothesis =>
    rw [List.map_append, List.pairwise_append]
    refine ⟨hypothesis, by simp, ?_⟩
    intro x member y last
    obtain ⟨draw, drawMember, rfl⟩ := List.mem_map.mp member
    obtain rfl : y = item := by simpa using last
    exact before.le_rest ordered draw drawMember a (taken a) y source (Nat.le_refl _) head

end

end Draws

end Luomi.KeyedMerge
