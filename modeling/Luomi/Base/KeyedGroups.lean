import Mathlib.Data.List.Nodup
import Mathlib.Data.List.Perm.Basic
import Mathlib.Tactic

/-!
# Grouping a sequence by key

Items are taken one by one; each is absorbed by the group of its key, which is
started when the key is met for the first time.  Absorbing may fail.  `Grouped`
says what the groups hold of the items taken so far; it is preserved by every
step, so what absorbing one item preserves holds of every group of the run.
-/

set_option autoImplicit false

namespace Luomi.KeyedGroups

open List (map_append map_cons map_nil mem_append mem_append_left mem_cons mem_singleton)
open Option (bind_eq_some_iff map_map some.inj)

variable {ι κ β : Type} [DecidableEq κ]
variable (key : ι -> κ) (start : ι -> β) (absorb : β -> ι -> Option β)

def place : List (κ × β) -> ι -> Option (List (κ × β))
  | [], item => (absorb (start item) item).map fun group => [(key item, group)]
  | (k, group) :: rest, item =>
    if k = key item then (absorb group item).map fun group' => (k, group') :: rest
    else (place rest item).map ((k, group) :: ·)

def gather (items : List ι) : Option (List (κ × β)) :=
  items.foldlM (place key start absorb) []

section Place

variable {key} {start} {absorb}
  {item : ι} {groups : List (κ × β)}

theorem place_absent (absent : key item ∉ groups.map Prod.fst) :
    place key start absorb groups item =
      (absorb (start item) item).map fun group => groups ++ [(key item, group)] := by
  induction groups with
  | nil => rfl
  | cons group rest ih =>
    simp only [map_cons, mem_cons, not_or] at absent
    rw [place, if_neg (Ne.symm absent.1), ih absent.2, map_map]
    rfl

theorem place_present {before after : List (κ × β)} {group : β}
    (fresh : key item ∉ before.map Prod.fst) :
    place key start absorb (before ++ (key item, group) :: after) item =
      (absorb group item).map fun group' => before ++ (key item, group') :: after := by
  induction before with
  | nil => simp [place]
  | cons first before ih =>
    simp only [map_cons, mem_cons, not_or] at fresh
    rw [List.cons_append, place, if_neg (Ne.symm fresh.1), ih fresh.2, map_map]
    rfl

theorem absent_or_split (groups : List (κ × β)) (k : κ) : k ∉ groups.map Prod.fst ∨
      ∃ before group after, groups = before ++ (k, group) :: after ∧ k ∉ before.map Prod.fst := by
  induction groups with
  | nil => left; simp
  | cons first rest ih =>
    by_cases same : first.1 = k
    · right
      exact ⟨[], first.2, rest, by simp [<- same], by simp⟩
    · rcases ih with absent | ⟨before, group, after, split, fresh⟩
      · left
        simp only [map_cons, mem_cons, not_or]
        exact ⟨Ne.symm same, absent⟩
      · right
        refine ⟨first :: before, group, after, by rw [split]; rfl, ?_⟩
        simp only [map_cons, mem_cons, not_or]
        exact ⟨Ne.symm same, fresh⟩

/-- What placing an item does: a new last group, or one group exchanged. -/
theorem place_cases {groups' : List (κ × β)}
    (placed : place key start absorb groups item = some groups') :
    (key item ∉ groups.map Prod.fst ∧ ∃ group, absorb (start item) item = some group ∧
      groups' = groups ++ [(key item, group)]) ∨
    ∃ before group after group', groups = before ++ (key item, group) :: after ∧
      absorb group item = some group' ∧ groups' = before ++ (key item, group') :: after := by
  rcases absent_or_split groups (key item) with absent | ⟨before, group, after, split, fresh⟩
  · rw [place_absent absent] at placed
    obtain ⟨group, absorbed, result⟩ := Option.map_eq_some_iff.mp placed
    exact .inl ⟨absent, group, absorbed, result.symm⟩
  · subst split
    rw [place_present fresh] at placed
    obtain ⟨group', absorbed, result⟩ := Option.map_eq_some_iff.mp placed
    exact .inr ⟨before, group, after, group', rfl, absorbed, result.symm⟩

end Place

/-- The groups of the items taken so far: one for each key met, holding its items. -/
structure Grouped (R : κ -> List ι -> β -> Prop) (taken : List ι) (groups : List (κ × β)) :
    Prop where
  nodup : (groups.map Prod.fst).Nodup
  keys : ∀ k, k ∈ groups.map Prod.fst ↔ k ∈ taken.map key
  holds : ∀ group ∈ groups, R group.1 (taken.filter (key · = group.1)) group.2

section Runs

variable {key} {start} {absorb}
variable {R : κ -> List ι -> β -> Prop}

theorem grouped_nil : Grouped key R [] [] where
  nodup := List.nodup_nil
  keys := fun k => by simp
  holds := fun group member => by simp at member

variable {taken : List ι} {item : ι}

theorem filter_append_other {k : κ} (other : key item ≠ k) :
    (taken ++ [item]).filter (key · = k) = taken.filter (key · = k) := by
  simp [other]

theorem filter_append_same (taken : List ι) (item : ι) :
    (taken ++ [item]).filter (key · = key item) = taken.filter (key · = key item) ++ [item] := by
  simp

variable {groups : List (κ × β)}

theorem grouped_place {groups' : List (κ × β)} (grouped : Grouped key R taken groups)
    (opens : ∀ group, absorb (start item) item = some group -> R (key item) [item] group)
    (joins : ∀ group group', R (key item) (taken.filter (key · = key item)) group ->
      absorb group item = some group' ->
      R (key item) (taken.filter (key · = key item) ++ [item]) group')
    (placed : place key start absorb groups item = some groups') :
    Grouped key R (taken ++ [item]) groups' := by
  rcases place_cases placed with
    ⟨absent, group, absorbed, rfl⟩ | ⟨before, group, after, group', rfl, absorbed, rfl⟩
  · have noneTaken : taken.filter (key · = key item) = [] := by
      rw [List.filter_eq_nil_iff]
      intro other member same
      apply absent
      rw [grouped.keys, <- of_decide_eq_true same]
      exact List.mem_map_of_mem member
    refine ⟨?_, ?_, ?_⟩
    · rw [map_append, List.nodup_append]
      refine ⟨grouped.nodup, by simp, ?_⟩
      intro k member k' member' same
      simp only [map_cons, map_nil, mem_singleton] at member'
      apply absent
      rw [<- member', <- same]
      exact member
    · intro k
      simp only [map_append, mem_append, grouped.keys k, map_cons, map_nil]
    · intro some' member
      rcases mem_append.mp member with old | new
      · have other : key item ≠ some'.1 := by
          intro same
          apply absent
          rw [same]
          exact List.mem_map_of_mem old
        rw [filter_append_other other]
        exact grouped.holds some' old
      · rw [mem_singleton.mp new, filter_append_same, noneTaken]
        exact opens group absorbed
  · have nodup := grouped.nodup
    have keys := grouped.keys
    simp only [map_append, map_cons] at nodup keys
    have apart := List.nodup_middle.mp nodup
    have elsewhere : ∀ other ∈ before ++ after, key item ≠ other.1 := by
      intro other member same
      apply (List.nodup_cons.mp apart).1
      rw [<- map_append, same]
      exact List.mem_map_of_mem member
    refine ⟨?_, ?_, ?_⟩
    · simpa only [map_append, map_cons] using nodup
    · intro k
      have known : key item ∈ taken.map key := by
        rw [<- keys]
        simp
      simp only [map_append, map_cons, keys k, mem_append, map_nil, mem_singleton]
      constructor
      · exact Or.inl
      · rintro (old | rfl)
        · exact old
        · exact known
    · intro some' member
      rcases mem_append.mp member with old | new
      · rw [filter_append_other (elsewhere some' (mem_append_left _ old))]
        exact grouped.holds some' (mem_append_left _ old)
      · rcases mem_cons.mp new with rfl | old
        · rw [filter_append_same]
          apply joins group group' _ absorbed
          exact grouped.holds (key item, group) (by simp)
        · rw [filter_append_other (elsewhere some' (List.mem_append_right _ old))]
          exact grouped.holds some' (List.mem_append_right _ (List.mem_cons_of_mem _ old))

theorem exists_place
    (grouped : Grouped key R taken groups) (opens : ∃ group, absorb (start item) item = some group)
    (joins : ∀ group, R (key item) (taken.filter (key · = key item)) group ->
      ∃ group', absorb group item = some group') :
    ∃ groups', place key start absorb groups item = some groups' := by
  rcases absent_or_split groups (key item) with absent | ⟨before, group, after, split, fresh⟩
  · obtain ⟨group, absorbed⟩ := opens
    rw [place_absent absent, absorbed]
    exact ⟨_, rfl⟩
  · subst split
    obtain ⟨group', absorbed⟩ := joins group (grouped.holds (key item, group) (by simp))
    rw [place_present fresh, absorbed]
    exact ⟨_, rfl⟩

variable {items : List ι}

theorem grouped_gather (opens : ∀ item ∈ items, ∀ group, absorb (start item) item = some group ->
      R (key item) [item] group)
    (joins : ∀ item ∈ items, ∀ taken group group', R (key item) taken group ->
      absorb group item = some group' -> R (key item) (taken ++ [item]) group')
    (ran : gather key start absorb items = some groups) : Grouped key R items groups := by
  induction items using List.reverseRecOn generalizing groups with
  | nil =>
    cases some.inj ran
    exact grouped_nil
  | append_singleton items item ih =>
    rw [gather, List.foldlM_append] at ran
    obtain ⟨before, ranBefore, placed⟩ := bind_eq_some_iff.mp ran
    rw [List.foldlM_cons] at placed
    obtain ⟨after, placed, result⟩ := bind_eq_some_iff.mp placed
    cases some.inj result
    have earlier := ih (fun other member => opens other (mem_append_left _ member))
      (fun other member => joins other (mem_append_left _ member)) ranBefore
    have last : item ∈ items ++ [item] := by simp
    exact grouped_place earlier (opens item last)
      (fun group group' => joins item last _ group group') placed

theorem exists_gather (opens : ∀ item ∈ items, ∃ group, absorb (start item) item = some group ∧
      R (key item) [item] group) (joins : ∀ item ∈ items, ∀ taken group, R (key item) taken group ->
      ∃ group', absorb group item = some group' ∧ R (key item) (taken ++ [item]) group') :
    ∃ groups, gather key start absorb items = some groups ∧ Grouped key R items groups := by
  induction items using List.reverseRecOn with
  | nil => exact ⟨[], rfl, grouped_nil⟩
  | append_singleton items item ih =>
    obtain ⟨before, ranBefore, earlier⟩ := ih
      (fun other member => opens other (mem_append_left _ member))
      (fun other member => joins other (mem_append_left _ member))
    have last : item ∈ items ++ [item] := by simp
    obtain ⟨first, absorbedFirst, holdsFirst⟩ := opens item last
    have step : ∃ after, place key start absorb before item = some after := by
      apply exists_place earlier ⟨first, absorbedFirst⟩
      intro group holds
      obtain ⟨group', absorbed, -⟩ := joins item last _ group holds
      exact ⟨group', absorbed⟩
    obtain ⟨after, placed⟩ := step
    refine ⟨after, ?_, ?_⟩
    · rw [gather, List.foldlM_append]
      refine bind_eq_some_iff.mpr ⟨before, ranBefore, ?_⟩
      rw [List.foldlM_cons]
      exact bind_eq_some_iff.mpr ⟨after, placed, rfl⟩
    · apply grouped_place earlier _ _ placed
      · intro group absorbed
        rw [absorbedFirst] at absorbed
        exact some.inj absorbed ▸ holdsFirst
      · intro group group' holds absorbed
        obtain ⟨other, absorbedOther, result⟩ := joins item last _ group holds
        rw [absorbed] at absorbedOther
        exact some.inj absorbedOther ▸ result

end Runs

theorem flatMap_filter_perm {keys : List κ} (nodup : keys.Nodup) :
    ∀ {items : List ι}, (∀ item ∈ items, key item ∈ keys) ->
      (keys.flatMap fun k => items.filter (key · = k)).Perm items := by
  induction keys with
  | nil =>
    intro items covered
    have noItems : items = [] := by
      apply List.eq_nil_iff_forall_not_mem.mpr
      intro item member
      simpa using covered item member
    rw [noItems]
    exact List.Perm.refl _
  | cons k keys ih =>
    intro items covered
    obtain ⟨fresh, nodup'⟩ := List.nodup_cons.mp nodup
    have others : (keys.flatMap fun k' => items.filter (key · = k')) =
        keys.flatMap fun k' =>
          (items.filter fun item => !decide (key item = k)).filter (key · = k') := by
      apply List.flatMap_congr
      intro k' member
      rw [List.filter_filter]
      apply List.filter_congr
      intro item _
      by_cases same : key item = k'
      · have apart : key item ≠ k := by
          intro both
          apply fresh
          rw [<- both, same]
          exact member
        simp [same, same ▸ apart]
      · simp [same]
    rw [List.flatMap_cons, others]
    apply (List.Perm.append_left _ (ih nodup' ?_)).trans
    · exact List.filter_append_perm _ items
    · intro item member
      obtain ⟨member, apart⟩ := List.mem_filter.mp member
      have known := covered item member
      simp only [mem_cons] at known
      rcases known with same | known
      · simp [same] at apart
      · exact known

end Luomi.KeyedGroups
