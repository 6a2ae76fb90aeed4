import Luomi.Client.Arithmetic

/-!
# The rows of an arithmetic expression

A NULL is placed by the number of the row, a number by the place of the pointer.  From old to
new both agree where no row or every row is NULL, from new to old only where no row but the
last one is.
-/

namespace Luomi.Client.ArithmeticRows

open Aggregates Arithmetic
open List (append_assoc cons_append length_cons length_range map_append map_cons mem_append
  mem_cons mem_cons_of_mem mem_cons_self mem_map mem_singleton range_succ)

theorem placeRows_append (step : Int) (row : Nat -> Option Cell) (first second : List Nat)
    (out : Output) : placeRows step row (first ++ second) out =
      (placeRows step row first out).bind (placeRows step row second) := by
  induction first generalizing out with
  | nil => rfl
  | cons i rest ih =>
    rw [cons_append, placeRows, placeRows]
    cases row i with
    | none => rfl
    | some cell => exact ih _

variable {row : Nat -> Option Cell}
  {rows : List Nat}

theorem placeRows_nulls {step : Int} (out : Output) (nulls : ∀ i ∈ rows, row i = some none) :
    placeRows step row rows out = some ⟨out.pos,
      (rows.reverse.map fun i : Nat => (out.pos + (i : Int), (none : Cell))) ++ out.written⟩ := by
  induction rows generalizing out with
  | nil => rfl
  | cons i rest ih =>
    rw [placeRows, nulls i mem_cons_self]
    simp only
    rw [ih _ fun j later => nulls j (mem_cons_of_mem _ later), List.reverse_cons,
      map_append, append_assoc]
    rfl

theorem placeRows_asc {value : Nat -> ℚ} (num : Nat) (out : Output)
    (values : ∀ i < num, row i = some (some (value i))) :
    placeRows 1 row (List.range num) out = some ⟨out.pos + num,
      ((List.range num).reverse.map fun i : Nat => (out.pos + (i : Int), some (value i))) ++
        out.written⟩ := by
  induction num with
  | zero => simp [placeRows]
  | succ num ih =>
    rw [range_succ, placeRows_append, ih fun i small => values i (by omega),
      Option.bind_some, placeRows, values num (by omega)]
    simp only [placeRows, placeRow, List.reverse_append, List.reverse_singleton,
      List.nil_append, map_cons, cons_append, Nat.cast_succ]
    rw [add_assoc]

variable {cell : Nat -> Cell}

theorem placeRows_desc (num : Nat) (out : Output) (cells : ∀ i < num, row i = some (cell i))
    (numbers : ∀ i < num, 0 < i -> ∃ value, cell i = some value) :
    ∃ pos, placeRows (-1) row (List.range num).reverse out = some ⟨pos,
      ((List.range num).map fun i => (slotOf .desc out.pos num i, cell i)) ++ out.written⟩ := by
  induction num generalizing out with
  | zero => exact ⟨out.pos, rfl⟩
  | succ num ih =>
    rw [range_succ, List.reverse_append, List.reverse_singleton, List.singleton_append,
      placeRows, cells num (by omega)]
    simp only
    rcases Nat.eq_zero_or_pos num with rfl | positive
    · cases isCell : cell 0 with
      | none =>
        refine ⟨out.pos, ?_⟩
        simp [placeRows, placeRow, slotOf, isCell]
      | some value =>
        refine ⟨out.pos + -1, ?_⟩
        simp [placeRows, placeRow, slotOf, isCell]
    · obtain ⟨value, isValue⟩ := numbers num (by omega) positive
      obtain ⟨pos, runs⟩ := ih ⟨out.pos + -1, (out.pos, some value) :: out.written⟩
        (fun i small => cells i (by omega)) (fun i small => numbers i (by omega))
      refine ⟨pos, ?_⟩
      rw [isValue, placeRow, runs, map_append, append_assoc]
      congr 3
      · refine List.map_congr_left fun i _ => ?_
        rw [Prod.mk.injEq]
        refine ⟨?_, rfl⟩
        simp only [slotOf]
        push_cast
        omega
      · simp [slotOf, isValue]

variable {rest : List (Int × Cell)}

theorem lookup_map {α : Type} {slot : α -> Int} {cell : α -> Cell} {rows : List α} (distinct : ∀ i ∈ rows, ∀ j ∈ rows, slot i = slot j -> i = j) {i : α}
    (member : i ∈ rows) :
    ((rows.map fun j => (slot j, cell j)) ++ rest).lookup (slot i) = some (cell i) := by
  induction rows with
  | nil => cases member
  | cons j later ih =>
    rw [map_cons, cons_append]
    by_cases same : slot i = slot j
    · have isJ := distinct i member j mem_cons_self same
      rw [isJ, List.lookup_cons_self]
    · have isLater : i ∈ later := by
        rcases mem_cons.mp member with rfl | isIn
        · exact absurd rfl same
        · exact isIn
      rw [List.lookup_cons]
      have different : (slot i == slot j) = false := by simpa using same
      rw [different]
      exact ih (fun a isA b isB => distinct a (mem_cons_of_mem _ isA) b
        (mem_cons_of_mem _ isB)) isLater

structure Placed (order : Order) (num : Nat) (value : Nat -> Cell) (before after : Output) :
    Prop where
  slots : ∃ writes, after.written = writes ++ before.written ∧ ∀ pos,
    pos ∈ writes.map Prod.fst ↔ ∃ i < num, pos = slotOf order before.pos num i
  values : ∀ i < num, after.written.lookup (slotOf order before.pos num i) = some (value i)

variable {num : Nat} {order : Order}

theorem slotOf_inj {base : Int} {i j : Nat}
    (same : slotOf order base num i = slotOf order base num j) : i = j := by
  cases order with
  | asc =>
    simp only [slotOf] at same
    omega
  | desc =>
    simp only [slotOf] at same
    omega

theorem placed_of_map {order : Order} {num : Nat} {value : Nat -> Cell} {before after : Output}
    {rows : List Nat} (rowsAre : ∀ i, i ∈ rows ↔ i < num)
    (written : after.written =
      (rows.map fun i => (slotOf order before.pos num i, value i)) ++ before.written) :
    Placed order num value before after := by
  refine ⟨⟨_, written, fun pos => ?_⟩, fun i small => ?_⟩
  · rw [List.map_map, mem_map]
    constructor
    · rintro ⟨i, isIn, rfl⟩
      exact ⟨i, (rowsAre i).mp isIn, rfl⟩
    · rintro ⟨i, small, rfl⟩
      exact ⟨i, (rowsAre i).mpr small, rfl⟩
  · rw [written]
    exact lookup_map (fun a _ b _ same => slotOf_inj same) ((rowsAre i).mpr small)

def InPlace (order : Order) (num : Nat) (cell : Nat -> Cell) : Prop :=
  match order with
  | .asc => (∀ i < num, ∃ value, cell i = some value) ∨ ∀ i < num, cell i = none
  | .desc => ∀ i < num, 0 < i -> ∃ value, cell i = some value

theorem placeRows_inPlace (out : Output) (cells : ∀ i < num, row i = some (cell i))
    (inPlace : InPlace order num cell) :
    ∃ after, placeRows (stepOf order) row (indices order num) out = some after ∧
      Placed order num cell out after := by
  cases order with
  | asc =>
    rcases inPlace with numbers | nulls
    · have values : ∀ i < num, row i = some (some ((cell i).getD 0)) := by
        intro i small
        obtain ⟨value, isValue⟩ := numbers i small
        rw [cells i small, isValue]
        rfl
      refine ⟨_, placeRows_asc num out values,
        @placed_of_map .asc num cell out _ (List.range num).reverse (by simp) ?_⟩
      simp only
      congr 1
      refine List.map_congr_left fun i isIn => ?_
      obtain ⟨value, isValue⟩ := numbers i (by simpa using isIn)
      rw [isValue]
      rfl
    · refine ⟨_, placeRows_nulls out fun i isIn => ?_,
        @placed_of_map .asc num cell out _ (List.range num).reverse (by simp) ?_⟩
      · have small : i < num := by simpa [indices] using isIn
        rw [cells i small, nulls i small]
      · simp only [indices]
        congr 1
        refine List.map_congr_left fun i isIn => ?_
        rw [nulls i (by simpa using isIn)]
        rfl
  | desc =>
    obtain ⟨pos, runs⟩ := placeRows_desc num out cells inPlace
    exact ⟨_, runs, placed_of_map (by simp) rfl⟩

/-- What the pointer tells of the rows, from old to new. -/
structure Advanced (rows : List Nat) (row : Nat -> Option Cell) (out after : Output) : Prop where
  least : out.pos ≤ after.pos
  most : after.pos ≤ out.pos + rows.length
  nulls : after.pos = out.pos -> ∀ i ∈ rows, row i = some none
  numbers : after.pos = out.pos + rows.length -> ∀ i ∈ rows, ∃ value, row i = some (some value)
  writes : ∃ writes, after.written = writes ++ out.written ∧
    ∀ pos value, (pos, some value) ∈ writes -> pos < after.pos

variable {out after : Output}

theorem placeRows_advanced
    (runs : placeRows 1 row rows out = some after) : Advanced rows row out after := by
  induction rows generalizing out with
  | nil =>
    obtain rfl := Option.some.inj runs
    exact ⟨le_rfl, by simp, fun _ _ isIn => (by cases isIn), fun _ _ isIn => (by cases isIn),
      [], rfl, fun _ _ isIn => (by cases isIn)⟩
  | cons i rest ih =>
    rw [placeRows] at runs
    cases isCell : row i with
    | none =>
      rw [isCell] at runs
      cases runs
    | some cell =>
      rw [isCell] at runs
      obtain ⟨least, most, nulls, numbers, writes, written, ahead⟩ := ih runs
      cases cell with
      | none =>
        simp only [placeRow] at least most nulls numbers written
        refine ⟨least, ?_, fun same j isIn => ?_, fun same => ?_,
          writes ++ [(out.pos + (i : Int), none)], ?_, fun pos value isIn => ?_⟩
        · rw [length_cons]
          push_cast
          omega
        · rcases mem_cons.mp isIn with rfl | isLater
          · exact isCell
          · exact nulls same j isLater
        · rw [length_cons] at same
          push_cast at same
          omega
        · rw [written, append_assoc]
          rfl
        · rcases mem_append.mp isIn with isNew | isFirst
          · exact ahead pos value isNew
          · cases mem_singleton.mp isFirst
      | some first =>
        simp only [placeRow] at least most nulls numbers written
        refine ⟨by omega, ?_, fun same => ?_, fun same j isIn => ?_,
          writes ++ [(out.pos, some first)], ?_, fun pos value isIn => ?_⟩
        · rw [length_cons]
          push_cast
          omega
        · omega
        · rw [length_cons] at same
          push_cast at same
          rcases mem_cons.mp isIn with rfl | isLater
          · exact ⟨first, isCell⟩
          · exact numbers (by omega) j isLater
        · rw [written, append_assoc]
          rfl
        · rcases mem_append.mp isIn with isNew | isFirst
          · exact ahead pos value isNew
          · have isPos := (Prod.mk.inj (mem_singleton.mp isFirst)).1
            omega

/-- What the pointer tells of the rows, from new to old. -/
structure Receded (rows : List Nat) (row : Nat -> Option Cell) (out after : Output) : Prop where
  least : out.pos - rows.length ≤ after.pos
  most : after.pos ≤ out.pos
  numbers : after.pos = out.pos - rows.length -> ∀ i ∈ rows, ∃ value, row i = some (some value)
  writes : ∃ writes, after.written = writes ++ out.written ∧
    ∀ pos ∈ writes.map Prod.fst, out.pos - rows.length < pos
  values : ∀ writes, after.written = writes ++ out.written ->
    ∀ pos value, (pos, some value) ∈ writes -> pos ≤ out.pos

theorem placeRows_receded
    (runs : placeRows (-1) row rows out = some after) : Receded rows row out after := by
  induction rows generalizing out with
  | nil =>
    obtain rfl := Option.some.inj runs
    refine ⟨by simp, le_rfl, fun _ _ isIn => (by cases isIn),
      ⟨[], rfl, fun _ isIn => (by cases isIn)⟩, fun writes written => ?_⟩
    have none_ : writes = [] := @List.append_cancel_right _ _ out.written _ written.symm
    rw [none_]
    exact fun _ _ isIn => (by cases isIn)
  | cons i rest ih =>
    rw [placeRows] at runs
    cases isCell : row i with
    | none =>
      rw [isCell] at runs
      cases runs
    | some cell =>
      rw [isCell] at runs
      obtain ⟨least, most, numbers, ⟨writes, written, behind⟩, values⟩ := ih runs
      have newValues := values writes written
      have splits : ∃ write : Int × Cell, out.pos ≤ write.1 ∧
          (∀ value, write.2 = some value -> write.1 ≤ out.pos) ∧
          (placeRow (-1) cell i out).written = write :: out.written ∧
          out.pos - 1 ≤ (placeRow (-1) cell i out).pos ∧
          (placeRow (-1) cell i out).pos ≤ out.pos ∧
          ((placeRow (-1) cell i out).pos = out.pos - 1 -> ∃ value, cell = some value) := by
        cases cell with
        | none =>
          exact ⟨(out.pos + (i : Int), none), (by simp), fun _ isValue => (by cases isValue), rfl,
            (by simp [placeRow]), le_rfl, fun same => (by simp only [placeRow] at same; omega)⟩
        | some value =>
          exact ⟨(out.pos, some value), le_rfl, fun _ _ => le_rfl, rfl,
            (by simp only [placeRow]; omega), (by simp only [placeRow]; omega),
            fun _ => ⟨value, rfl⟩⟩
      obtain ⟨write, from_, upTo, isWritten, low, high, isNumber⟩ := splits
      rw [isWritten] at written
      have together : after.written = (writes ++ [write]) ++ out.written := by
        rw [written, append_assoc]
        rfl
      refine ⟨?_, by omega, fun same j isIn => ?_, ⟨writes ++ [write], together,
        fun pos isIn => ?_⟩, fun others written' pos value isIn => ?_⟩
      · rw [length_cons]
        push_cast
        omega
      · rw [length_cons] at same
        push_cast at same
        rcases mem_cons.mp isIn with rfl | isLater
        · obtain ⟨value, isValue⟩ := isNumber (by omega)
          exact ⟨value, by rw [isCell, isValue]⟩
        · exact numbers (by omega) j isLater
      · rw [length_cons]
        push_cast
        rw [map_append, mem_append] at isIn
        rcases isIn with isNew | isFirst
        · have low' := behind pos isNew
          omega
        · have isPos := mem_singleton.mp isFirst
          omega
      · obtain rfl := List.append_cancel_right (written'.symm.trans together)
        rcases mem_append.mp isIn with isNew | isFirst
        · exact le_trans (newValues pos value isNew) high
        · have isWrite := mem_singleton.mp isFirst
          have isPos := upTo value (by rw [<- isWrite])
          rw [<- isWrite] at isPos
          exact isPos

theorem lookup_mem {writes : List (Int × Cell)} {pos : Int} {cell : Cell}
    (isIn : pos ∈ writes.map Prod.fst) (found : (writes ++ rest).lookup pos = some cell) :
    (pos, cell) ∈ writes := by
  induction writes with
  | nil => cases isIn
  | cons write later ih =>
    obtain ⟨first, value⟩ := write
    rw [cons_append, List.lookup_cons] at found
    by_cases same : pos = first
    · have equal : (pos == first) = true := by simpa using same
      rw [equal] at found
      simp only [Option.some.injEq] at found
      rw [same, found]
      exact mem_cons_self
    · have different : (pos == first) = false := by simpa using same
      rw [different] at found
      rw [map_cons, mem_cons] at isIn
      rcases isIn with isFirst | isLater
      · exact absurd isFirst same
      · exact mem_cons_of_mem _ (ih isLater found)

theorem asc_exact {value : Nat -> Cell} (runs : placeRows 1 row (List.range num) out = some after)
    (placed : Placed .asc num value out after) (live : ∃ i < num, ∃ number, value i = some number)
    (last : ∀ number, row (num - 1) = some (some number) -> ∃ number, value (num - 1) = some number) :
    ∀ i < num, ∃ number, row i = some (some number) := by
  obtain ⟨some_, small, number, isNumber⟩ := live
  obtain ⟨num, rfl⟩ : ∃ m, num = m + 1 := ⟨num - 1, by omega⟩
  obtain ⟨⟨writes, written, slots⟩, values⟩ := placed
  have advanced := placeRows_advanced runs
  obtain ⟨others, written', ahead⟩ := advanced.writes
  obtain rfl := List.append_cancel_right (written.symm.trans written')
  have inWrites : ∀ i < num + 1, (out.pos + (i : Int), value i) ∈ writes := by
    intro i isSmall
    have found := values i isSmall
    rw [written] at found
    exact lookup_mem ((slots _).mpr ⟨i, isSmall, rfl⟩) found
  rw [range_succ, placeRows_append] at runs
  obtain ⟨mid, first, second⟩ := Option.bind_eq_some_iff.mp runs
  rw [placeRows] at second
  cases isCell : row num with
  | none =>
    rw [isCell] at second
    cases second
  | some cell =>
    cases cell with
    | none =>
      -- The last NULL is out of the cells, unless no number came before it.
      exfalso
      rw [isCell] at second
      obtain rfl := Option.some.inj second
      have before := placeRows_advanced first
      obtain ⟨earlier, writtenMid, -⟩ := before.writes
      have isWrite : writes = (mid.pos + (num : Int), none) :: earlier := by
        refine @List.append_cancel_right _ _ out.written _ ?_
        rw [<- written]
        simp only [placeRow, writtenMid]
        rfl
      obtain ⟨i, isSmall, isSlot⟩ := (slots (mid.pos + (num : Int))).mp
        (by rw [isWrite]; exact mem_cons_self)
      simp only [slotOf] at isSlot
      have least := before.least
      have nulls := before.nulls (by omega)
      rw [placeRows_nulls out nulls, Option.some.injEq] at first
      obtain rfl := first
      simp only at writtenMid
      have isEarlier := List.append_cancel_right writtenMid
      have isIn := inWrites some_ small
      rw [isWrite, isNumber, <- isEarlier] at isIn
      rcases mem_cons.mp isIn with isLast | isBefore
      · exact Option.some_ne_none _ (Prod.mk.inj isLast).2
      · obtain ⟨_, -, isPair⟩ := mem_map.mp isBefore
        exact Option.some_ne_none _ (Prod.mk.inj isPair).2.symm
    | some lastNumber =>
      obtain ⟨number', isNumber'⟩ := last lastNumber isCell
      have isIn := inWrites num (Nat.lt_succ_self _)
      simp only [Nat.add_sub_cancel] at isNumber'
      rw [isNumber'] at isIn
      have reached := ahead _ _ isIn
      have most := advanced.most
      rw [length_range] at most
      have all := advanced.numbers (by
        rw [length_range]
        push_cast at most ⊢
        omega)
      exact fun i isSmall => all i (List.mem_range.mpr isSmall)

theorem desc_exact (runs : placeRows (-1) row (List.range num).reverse out = some after)
    (slots : ∃ writes, after.written = writes ++ out.written ∧ ∀ pos,
      pos ∈ writes.map Prod.fst ↔ ∃ i < num, pos = slotOf .desc out.pos num i) :
    ∀ i < num, 0 < i -> ∃ number, row i = some (some number) := by
  intro i small positive
  obtain ⟨num, rfl⟩ : ∃ m, num = m + 1 := ⟨num - 1, by omega⟩
  obtain ⟨writes, written, slots⟩ := slots
  rw [List.range_succ_eq_map, List.reverse_cons, placeRows_append] at runs
  obtain ⟨mid, first, second⟩ := Option.bind_eq_some_iff.mp runs
  have receded := placeRows_receded first
  obtain ⟨earlier, writtenMid, behind⟩ := receded.writes
  have numbers := receded.numbers
  rw [List.length_reverse, List.length_map, length_range] at behind numbers
  rw [placeRows] at second
  cases isCell : row 0 with
  | none =>
    rw [isCell] at second
    cases second
  | some cell =>
    rw [isCell] at second
    obtain rfl := Option.some.inj second
    have isWritten : (placeRow (-1) cell 0 mid).written = (mid.pos, cell) :: mid.written := by
      cases cell with
      | none => simp [placeRow]
      | some number => rfl
    have isWrite : writes = (mid.pos, cell) :: earlier := by
      refine @List.append_cancel_right _ _ out.written _ ?_
      rw [<- written, isWritten, writtenMid]
      rfl
    have lowest := (slots (out.pos - num)).mpr ⟨0, Nat.succ_pos _, by
      simp only [slotOf]
      push_cast
      omega⟩
    rw [isWrite, map_cons, mem_cons] at lowest
    rcases lowest with isLast | isEarlier
    · refine numbers isLast.symm i (List.mem_reverse.mpr (mem_map.mpr ⟨i - 1, ?_, ?_⟩))
      · exact List.mem_range.mpr (by omega)
      · exact Nat.succ_pred_eq_of_pos positive
    · have low := behind _ isEarlier
      omega

end Luomi.Client.ArithmeticRows
