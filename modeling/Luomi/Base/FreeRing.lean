import Mathlib.Tactic

/-!
# A queue in a ring

Some places of a ring, from a first one on, hold the elements of a queue.  Elements
are taken from the first place and put behind the last one.
-/

set_option autoImplicit false

namespace Luomi.FreeRing

variable {α : Type} {size first count : Nat} {cells : Nat -> α}

def window (size first count : Nat) (cells : Nat -> α) : List α :=
  (List.range count).map fun turn => cells ((first + turn) % size)

theorem length_window : (window size first count cells).length = count := by
  rw [window, List.length_map, List.length_range]

theorem window_zero (fits : count ≤ size) :
    window size 0 count cells = (List.range count).map cells := by
  apply List.map_congr_left
  intro turn member
  have below := List.mem_range.mp member
  rw [Nat.zero_add, Nat.mod_eq_of_lt (by omega)]

theorem window_take : window size first (count + 1) cells =
    cells (first % size) :: window size ((first + 1) % size) count cells := by
  unfold window
  rw [List.range_succ_eq_map, List.map_cons, List.map_map, Nat.add_zero]
  congr 1
  apply List.map_congr_left
  intro turn _
  have places : (first + (turn + 1)) % size = ((first + 1) % size + turn) % size := by
    rw [Nat.mod_add_mod]
    congr 1
    omega
  exact congrArg cells places

theorem window_put (room : count < size) (element : α) :
    window size first (count + 1) (Function.update cells ((first + count) % size) element) =
      window size first count cells ++ [element] := by
  unfold window
  rw [List.range_succ, List.map_append, List.map_singleton, Function.update_self]
  congr 1
  apply List.map_congr_left
  intro turn member
  have early := List.mem_range.mp member
  apply Function.update_of_ne
  intro same
  have turns : turn ≡ count [MOD size] := Nat.ModEq.add_left_cancel' _ same
  rw [Nat.ModEq, Nat.mod_eq_of_lt (by omega), Nat.mod_eq_of_lt room] at turns
  omega

/-- A queue of numbers below the size of the ring that lacks one of them has room. -/
theorem room_of_not_mem {cells : Nat -> Nat} {number : Nat}
    (distinct : (window size first count cells).Nodup)
    (range : ∀ other ∈ window size first count cells, other < size) (below : number < size)
    (absent : number ∉ window size first count cells) : count < size := by
  have more : (number :: window size first count cells).Nodup :=
    List.nodup_cons.mpr ⟨absent, distinct⟩
  have within : number :: window size first count cells ⊆ List.range size := by
    intro other member
    rw [List.mem_range]
    rcases List.mem_cons.mp member with rfl | inWindow
    · exact below
    · exact range other inWindow
  have bound := (more.subperm within).length_le
  rw [List.length_cons, length_window, List.length_range] at bound
  exact bound

end Luomi.FreeRing
