import Luomi.Util.IntegerCodec

/-!
# What one word of the Simple8B encoder holds

The selector tables agree with each other, and a word chosen by `scan` takes at
least one element, never more than its selector has room for, and only elements
whose zig-zag delta fits its field width.
-/

namespace Luomi.IntegerScan

open ZigZag IntegerCodec

/-- `bit_per_integer[selector]`. -/
def fieldBits (selector : Nat) : Nat := bitPerInteger.getD selector 0

/-- `selector_to_elems[selector]`. -/
def capacity (selector : Nat) : Nat := selectorToElems.getD selector 0

theorem capacity_pos : ∀ selector < 16, 0 < capacity selector := by decide

theorem capacity_antitone : ∀ high < 16, ∀ low ≤ high, capacity high ≤ capacity low := by
  decide

theorem fieldBits_monotone : ∀ high < 16, ∀ low ≤ high, fieldBits low ≤ fieldBits high := by
  decide

theorem fieldBits_mul_capacity : ∀ selector < 16, fieldBits selector * capacity selector ≤ 60 := by
  decide

theorem fieldBits_le : ∀ selector < 16, fieldBits selector ≤ 60 := by decide

theorem fieldBits_zero_run : ∀ selector < 2, fieldBits selector = 0 := by decide

theorem bitToSelector_getD : ∀ bit < 61,
    bitToSelector.getD bit 0 < 16 ∧ bit ≤ fieldBits (bitToSelector.getD bit 0) := by
  decide +kernel

variable {selector : Nat}

section

variable (inside : selector < 16)
include inside

theorem getElem?_bitPerInteger : bitPerInteger[selector]? = some (fieldBits selector) := by
  have bound : selector < bitPerInteger.length := inside
  rw [fieldBits, List.getD_eq_getElem?_getD, List.getElem?_eq_getElem bound]
  rfl

theorem getElem?_selectorToElems : selectorToElems[selector]? = some (capacity selector) := by
  have bound : selector < selectorToElems.length := inside
  rw [capacity, List.getD_eq_getElem?_getD, List.getElem?_eq_getElem bound]
  rfl

@[simp] theorem readTable_bitPerInteger :
    readTable bitPerInteger selector = .ok (fieldBits selector) := by
  rw [readTable, getElem?_bitPerInteger inside]

@[simp] theorem readTable_selectorToElems :
    readTable selectorToElems selector = .ok (capacity selector) := by
  rw [readTable, getElem?_selectorToElems inside]

end

theorem readTable_bitToSelector (bit : Nat) : readTable bitToSelector bit =
      if bit < 61 then .ok (bitToSelector.getD bit 0) else .error .pastTable := by
  have size : bitToSelector.length = 61 := rfl
  by_cases inside : bit < 61
  · rw [if_pos inside, readTable, List.getD_eq_getElem?_getD, List.getElem?_eq_getElem (by omega)]
    rfl
  · rw [if_neg inside, readTable, List.getElem?_eq_none (by omega)]

theorem toNat_lt_two_pow_tmpBit (value : BitVec 64) : value.toNat < 2 ^ tmpBit value := by
  unfold tmpBit
  split
  · rename_i zero
    simp [zero]
  · exact BitVec.toNat_lt_two_pow_sub_clz

theorem tmpBit_le_of_lt {value : BitVec 64} {bits : Nat} (small : value.toNat < 2 ^ bits) :
    tmpBit value ≤ bits := by
  unfold tmpBit
  split
  · exact Nat.zero_le _
  · rename_i nonzero
    have leading := BitVec.two_pow_sub_clz_le_toNat_of_ne_zero (by decide) nonzero
    by_contra longer
    have power : 2 ^ bits ≤ 2 ^ (64 - 1 - value.clz.toNat) :=
      Nat.pow_le_pow_right (by decide) (by omega)
    omega

theorem skipSelectors_spec (elems : Nat) : ∀ (rooms : List Nat) (selector : Nat),
    (∃ room ∈ rooms, room ≤ elems) ->
      ∃ skipped, skipSelectors elems selector rooms = .ok (selector + skipped) ∧
        ∃ room, rooms[skipped]? = some room ∧ room ≤ elems := by
  intro rooms
  induction rooms with
  | nil => simp
  | cons room rooms ih =>
    intro selector small
    rw [skipSelectors]
    by_cases wide : elems < room
    · rw [if_pos wide]
      have later : ∃ room ∈ rooms, room ≤ elems := by
        obtain ⟨other, member, le⟩ := small
        rcases List.mem_cons.mp member with rfl | member
        · omega
        · exact ⟨other, member, le⟩
      obtain ⟨skipped, run, found⟩ := ih (selector + 1) later
      refine ⟨skipped + 1, ?_, by simpa using found⟩
      rw [run]
      congr 1
      omega
    · rw [if_neg wide]
      exact ⟨0, rfl, room, rfl, by omega⟩

theorem closeWord_spec {elems : Nat} (inside : selector < 16) (some' : 0 < elems) :
    ∃ wider, selector ≤ wider ∧ wider < 16 ∧ capacity wider ≤ elems ∧
      closeWord selector elems = .ok ⟨wider, fieldBits wider, capacity wider⟩ := by
  have last : ∃ room ∈ selectorToElems.drop selector, room ≤ elems := by
    refine ⟨1, ?_, some'⟩
    rw [List.mem_iff_getElem?]
    refine ⟨15 - selector, ?_⟩
    rw [List.getElem?_drop, show selector + (15 - selector) = 15 by omega]
    rfl
  obtain ⟨skipped, run, room, entry, le⟩ :=
    skipSelectors_spec elems (selectorToElems.drop selector) selector last
  rw [List.getElem?_drop] at entry
  have bound : selector + skipped < 16 := by
    by_contra beyond
    rw [List.getElem?_eq_none (by change 16 ≤ _; omega)] at entry
    cases entry
  have same : room = capacity (selector + skipped) := by
    rw [getElem?_selectorToElems bound] at entry
    exact (Option.some.inj entry).symm
  refine ⟨selector + skipped, by omega, bound, by omega, ?_⟩
  simp [closeWord, run, bound, bind, Except.bind, pure, Except.pure]

/-- The zig-zag deltas of a list that follows `prev`. -/
def zigzags (prev : BitVec 64) : List (BitVec 64) -> List (BitVec 64)
  | [] => []
  | curr :: rest => zigzag (curr - prev) :: zigzags curr rest

theorem zigzags_take (prev : BitVec 64) (values : List (BitVec 64)) (count : Nat) :
    zigzags prev (values.take count) = (zigzags prev values).take count := by
  induction values generalizing prev count with
  | nil => simp [zigzags]
  | cons curr rest ih =>
    cases count with
    | zero => rfl
    | succ count => simp [zigzags, ih]

/-- What `scan` guarantees of the word it returns, having accepted `elems`
elements before the `values` still ahead of it. -/
structure Chosen (prevTmp : BitVec 64) (selector elems : Nat) (values : List (BitVec 64))
    (word : Word) : Prop where
  wider : selector ≤ word.selector
  inTable : word.selector < 16
  bitExact : word.bit = fieldBits word.selector
  room : word.elems ≤ capacity word.selector
  available : word.elems ≤ elems + values.length
  nonempty : 0 < elems ∨ values ≠ [] -> 0 < word.elems
  full : word.elems = elems + values.length ∨ word.elems = capacity word.selector
  fits : ∀ value ∈ (zigzags prevTmp values).take (word.elems - elems),
    value.toNat < 2 ^ word.bit

theorem closeWord_chosen {prevTmp : BitVec 64} {elems : Nat}
    {values : List (BitVec 64)} {word : Word} (inside : selector < 16)
    (some' : 0 < elems) (run : closeWord selector elems = .ok word) :
    Chosen prevTmp selector elems values word := by
  obtain ⟨wider, le, bound, small, result⟩ := closeWord_spec inside some'
  rw [result] at run
  cases run
  refine ⟨le, bound, rfl, le_rfl, ?_, fun _ => capacity_pos wider bound, Or.inr rfl, ?_⟩
  · exact small.trans (Nat.le_add_right _ _)
  · have none' : capacity wider - elems = 0 := by omega
    simp [none']

theorem scan_chosen (prev : BitVec 64) : ∀ (values : List (BitVec 64)) (prevTmp : BitVec 64)
    (selector elems : Nat) (word : Word), selector < 16 -> elems ≤ capacity selector ->
      scan prev prevTmp selector (fieldBits selector) elems values = .ok word ->
        Chosen prevTmp selector elems values word := by
  intro values
  induction values with
  | nil =>
    intro prevTmp selector elems word inside room run
    simp only [scan, Except.ok.injEq] at run
    subst run
    exact ⟨le_rfl, inside, rfl, room, le_rfl, by simp, Or.inl rfl, by simp [zigzags]⟩
  | cons curr rest ih =>
    intro prevTmp selector elems word inside room run
    rw [scan] at run
    split at run
    · cases run
    · simp only [readTable_selectorToElems inside, readTable_bitToSelector,
        bind, Except.bind] at run
      split at run
      · cases run
      · by_cases more : elems + 1 ≤ capacity selector
        · rw [if_pos more] at run
          by_cases listed : tmpBit (zigzag (curr - prevTmp)) < 61
          · obtain ⟨wantedBound, wide⟩ := bitToSelector_getD _ listed
            simp only [listed, if_true, readTable_selectorToElems wantedBound] at run
            generalize bitToSelector.getD (tmpBit (zigzag (curr - prevTmp))) 0 = wanted
              at run wantedBound wide
            by_cases also : elems + 1 ≤ capacity wanted
            · have bothBound : max selector wanted < 16 := by omega
              have bothRoom : elems + 1 ≤ capacity (max selector wanted) := by
                rcases max_choice selector wanted with same | same <;> rw [same] <;> assumption
              rw [if_pos also, readTable_bitPerInteger bothBound] at run
              have chosen := ih curr (max selector wanted) (elems + 1) word bothBound bothRoom run
              refine ⟨(le_max_left _ _).trans chosen.wider, chosen.inTable,
                chosen.bitExact, chosen.room, ?_, fun _ => chosen.nonempty (Or.inl (by omega)),
                ?_, ?_⟩
              · have := chosen.available
                simp only [List.length_cons]
                omega
              · rcases chosen.full with all | cap
                · left; simp only [List.length_cons]; omega
                · exact Or.inr cap
              · -- the head delta fits because the final selector is at least `wanted`
                intro value member
                cases count : word.elems - elems with
                | zero => rw [count] at member; simp at member
                | succ more' =>
                  rw [count, zigzags, List.take_succ_cons] at member
                  rcases List.mem_cons.mp member with rfl | member
                  · have bits := fieldBits_monotone word.selector chosen.inTable wanted
                      ((le_max_right _ _).trans chosen.wider)
                    rw [chosen.bitExact]
                    exact (toNat_lt_two_pow_tmpBit _).trans_le
                      (Nat.pow_le_pow_right (by decide) (wide.trans bits))
                  · apply chosen.fits
                    rwa [show word.elems - (elems + 1) = more' by omega]
            · rw [if_neg also] at run
              by_cases first : elems = 0
              · have := capacity_pos wanted wantedBound
                omega
              · exact closeWord_chosen inside (by omega) run
          · simp [listed] at run
        · rw [if_neg more] at run
          have := capacity_pos selector inside
          exact closeWord_chosen inside (by omega) run

end Luomi.IntegerScan
