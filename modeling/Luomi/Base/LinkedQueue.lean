import Mathlib.Tactic

/-!
# Queues of linked nodes

A queue is a first and a last node and a link from every node to the one behind it.
Nodes enter at the end and leave at the front.
-/

set_option autoImplicit false

namespace Luomi.LinkedQueue

variable {ι : Type} {next other : ι -> Option ι}

def Chain (next : ι -> Option ι) : Option ι -> List ι -> Prop
  | start, [] => start = none
  | start, id :: rest => start = some id ∧ Chain next (next id) rest

structure Queue (next : ι -> Option ι) (first last : Option ι) (nodes : List ι) : Prop where
  chain : Chain next first nodes
  last : last = nodes.getLast?
  distinct : nodes.Nodup

variable {nodes : List ι} {first last : Option ι}

theorem Chain.congr (same : ∀ id ∈ nodes, other id = next id) :
    ∀ {start : Option ι}, Chain next start nodes -> Chain other start nodes := by
  induction nodes with
  | nil => exact fun chain => chain
  | cons id rest ih =>
    intro start chain
    refine ⟨chain.1, ?_⟩
    rw [same id List.mem_cons_self]
    exact ih (fun later member => same later (List.mem_cons_of_mem _ member)) chain.2

theorem Chain.concat [DecidableEq ι] {front : List ι} {last id : ι} {start : Option ι}
    (chain : Chain next start (front ++ [last])) (distinct : (front ++ [last]).Nodup)
    (ends : next id = none) (fresh : id ∉ front ++ [last]) :
    Chain (Function.update next last (some id)) start (front ++ [last] ++ [id]) := by
  have notLast : id ≠ last := fun same => fresh (by rw [same]; exact List.mem_concat_self)
  induction front generalizing start with
  | nil =>
    refine ⟨chain.1, ?_, ?_⟩
    · rw [Function.update_self]
    · rw [Function.update_of_ne notLast]
      exact ends
  | cons node front ih =>
    obtain ⟨absent, rest⟩ := List.nodup_cons.mp distinct
    have notNode : node ≠ last := fun same => absent (by rw [same]; exact List.mem_concat_self)
    refine ⟨chain.1, ?_⟩
    rw [Function.update_of_ne notNode]
    exact ih chain.2 rest (fun member => fresh (List.mem_cons_of_mem _ member))

theorem Queue.first_eq_none (queue : Queue next first last nodes) : first = none ↔ nodes = [] := by
  cases nodes with
  | nil => exact iff_of_true queue.chain rfl
  | cons id rest =>
    refine iff_of_false ?_ (List.cons_ne_nil _ _)
    rw [queue.chain.1]
    exact Option.some_ne_none id

theorem Queue.nil (next : ι -> Option ι) : Queue next none none [] :=
  ⟨rfl, rfl, List.nodup_nil⟩

theorem Queue.congr (queue : Queue next first last nodes)
    (same : ∀ id ∈ nodes, other id = next id) : Queue other first last nodes :=
  ⟨queue.chain.congr same, queue.last, queue.distinct⟩

theorem Queue.enter {id : ι} (queue : Queue next first none nodes) (ends : next id = none) :
    Queue next (some id) (some id) (nodes ++ [id]) := by
  rw [List.getLast?_eq_none_iff.mp queue.last.symm]
  exact ⟨⟨rfl, ends⟩, rfl, List.nodup_singleton id⟩

theorem Queue.push [DecidableEq ι] {id last : ι}
    (queue : Queue next first (some last) nodes) (ends : next id = none) (fresh : id ∉ nodes) :
    Queue (Function.update next last (some id)) first (some id) (nodes ++ [id]) := by
  obtain ⟨front, rfl⟩ := List.getLast?_eq_some_iff.mp queue.last.symm
  refine ⟨queue.chain.concat queue.distinct ends fresh, ?_, ?_⟩
  · rw [List.getLast?_concat]
  · apply List.Nodup.append queue.distinct (List.nodup_singleton id)
    exact List.disjoint_singleton.mpr fresh

theorem Queue.pop {id : ι} (queue : Queue next (some id) last nodes) : ∃ rest, nodes = id :: rest ∧
      Queue next (next id) (if next id = none then none else last) rest := by
  cases nodes with
  | nil => exact absurd queue.chain (Option.some_ne_none id)
  | cons node rest =>
    obtain ⟨same, chain⟩ := queue.chain
    cases Option.some.inj same
    refine ⟨rest, rfl, chain, ?_, (List.nodup_cons.mp queue.distinct).2⟩
    cases rest with
    | nil =>
      have stop : next id = none := chain
      rw [if_pos stop, List.getLast?_nil]
    | cons later rest =>
      rw [if_neg (by rw [chain.1]; exact Option.some_ne_none later), queue.last]
      rfl

end Luomi.LinkedQueue
