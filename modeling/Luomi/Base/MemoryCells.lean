import Mathlib.Tactic

/-!
# Copying lists into and out of memory

Memory is a table of cells with a place for every integer.  Reading a stretch gives a
list, writing a list fills the stretch it is as long as.
-/

set_option autoImplicit false

namespace Luomi.MemoryCells

variable {α : Type}

def readCells (cells : Int -> α) (pos count : Int) : List α :=
  (List.range count.toNat).map fun i : Nat => cells (pos + i)

def writeCells : (Int -> α) -> Int -> List α -> Int -> α
  | cells, _, [] => cells
  | cells, pos, item :: rest => writeCells (Function.update cells pos item) (pos + 1) rest

section Reading

variable {cells cells' : Int -> α} {pos count : Int}

@[simp] theorem length_readCells (cells : Int -> α) (pos count : Int) :
    (readCells cells pos count).length = count.toNat := by
  unfold readCells
  rw [List.length_map, List.length_range]

theorem readCells_nil (nothing : count ≤ 0) : readCells cells pos count = [] := by
  apply List.eq_nil_of_length_eq_zero
  rw [length_readCells, Int.toNat_of_nonpos nothing]

theorem readCells_congr (same : ∀ i, pos ≤ i -> i < pos + count -> cells i = cells' i) :
    readCells cells pos count = readCells cells' pos count := by
  unfold readCells
  apply List.map_congr_left
  intro i member
  have below := List.mem_range.mp member
  apply same <;> omega

theorem readCells_append {more : Int} (nonneg : 0 ≤ count) (moreNonneg : 0 ≤ more) :
    readCells cells pos (count + more) =
      readCells cells pos count ++ readCells cells (pos + count) more := by
  unfold readCells
  rw [Int.toNat_add nonneg moreNonneg, List.range_add, List.map_append, List.map_map]
  congr 1
  apply List.map_congr_left
  intro i _
  show cells (pos + ((count.toNat + i : Nat) : Int)) = cells (pos + count + i)
  congr 1
  push_cast
  rw [Int.toNat_of_nonneg nonneg]
  ring

end Reading

section Writing

variable {cells : Int -> α} {pos : Int} {list : List α}

theorem writeCells_before {place : Int} (before : place < pos) :
    writeCells cells pos list place = cells place := by
  induction list generalizing cells pos with
  | nil => rfl
  | cons item rest ih =>
    unfold writeCells
    rw [ih (by omega), Function.update_of_ne (by omega)]

theorem writeCells_behind {place : Int} (behind : pos + list.length ≤ place) :
    writeCells cells pos list place = cells place := by
  induction list generalizing cells pos with
  | nil => rfl
  | cons item rest ih =>
    rw [List.length_cons] at behind
    push_cast at behind
    unfold writeCells
    rw [ih (by omega), Function.update_of_ne (by omega)]

theorem readCells_writeCells : readCells (writeCells cells pos list) pos list.length = list := by
  induction list generalizing cells pos with
  | nil => rfl
  | cons item rest ih =>
    have length : ((item :: rest).length : Int) = 1 + rest.length := by
      rw [List.length_cons]
      push_cast
      ring
    have first : writeCells (Function.update cells pos item) (pos + 1) rest pos = item := by
      rw [writeCells_before (by omega), Function.update_self]
    rw [length, readCells_append (by omega) (by omega)]
    unfold writeCells
    rw [ih]
    show [writeCells (Function.update cells pos item) (pos + 1) rest (pos + 0)] ++ rest = _
    rw [Int.add_zero, first]
    rfl

theorem readCells_writeCells_front (nonneg : 0 ≤ pos) :
    readCells (writeCells cells pos list) 0 (list.length + pos) = readCells cells 0 pos ++ list := by
  rw [Int.add_comm, readCells_append nonneg (by omega), Int.zero_add, readCells_writeCells]
  congr 1
  apply readCells_congr
  intro i _ below
  exact writeCells_before (by omega)

end Writing

end Luomi.MemoryCells
