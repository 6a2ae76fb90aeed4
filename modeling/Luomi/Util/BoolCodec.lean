import Luomi.Base.LittleEndian

/-!
# The bool codec (`tsCompressBoolImp`, `tsDecompressBoolImp`)

Four values share a byte, two bits each, the first value lowest.  The two codes
besides 0 are 1 for true and 2 for `TSDB_DATA_BOOL_NULL`.
-/

namespace Luomi.BoolCodec

open List (getD_eq_getElem?_getD getElem?_eq_none length_append)

def boolNull : UInt8 := 2

/-- `output[pos] = f(output[pos])`, where `pos` is the last byte written. -/
def updateLast (f : UInt8 -> UInt8) : List UInt8 -> List UInt8
  | [] => []
  | [byte] => [f byte]
  | byte :: next :: rest => byte :: updateLast f (next :: rest)

/-- One iteration; `none` is the exit on a wrong value. -/
def step (i : Nat) (output : List UInt8) (value : UInt8) : Option (List UInt8) :=
  let output := if i % 4 = 0 then output ++ [0] else output
  let shift := UInt8.ofNat (2 * (i % 4))
  if value = 1 then some (updateLast (· ||| (1 <<< shift)) output)
  else if value = 0 then some (updateLast (· &&& ((1 <<< shift) - 1)) output)
  else if value = boolNull then some (updateLast (· ||| (2 <<< shift)) output)
  else none

def encodeLoop : Nat -> List UInt8 -> List UInt8 -> Option (List UInt8)
  | _, output, [] => some output
  | i, output, value :: rest => do
      let output <- step i output value
      encodeLoop (i + 1) output rest

def tsCompressBoolImp (input : List UInt8) : Option (List UInt8) :=
  encodeLoop 0 [] input

/-- The decoding loop; `left` is `nelements - i`, and `ipos` is `i / 4`. -/
def decodeLoop (input : List UInt8) : Nat -> Nat -> Option (List UInt8)
  | 0, _ => some []
  | left + 1, i => do
      let byte <- input[i / 4]?
      let ele := (byte >>> UInt8.ofNat (2 * (i % 4))) &&& 3
      let value := if ele = 1 then 1 else if ele = 2 then boolNull else 0
      let rest <- decodeLoop input left (i + 1)
      return value :: rest

def tsDecompressBoolImp (input : List UInt8) (nelements : Nat) : Option (List UInt8) :=
  decodeLoop input nelements 0

/-- The code at position `i`, 0 behind the end. -/
def code (bytes : List UInt8) (i : Nat) : Nat :=
  (bytes.getD (i / 4) 0).toNat / 4 ^ (i % 4) % 4

/-- The bytes written for `values`: one for every four begun, with their codes
and zeros above. -/
structure Holds (bytes values : List UInt8) : Prop where
  length : bytes.length = (values.length + 3) / 4
  codes : ∀ i, code bytes i = (values.getD i 0).toNat

theorem updateLast_append (f : UInt8 -> UInt8) (bytes : List UInt8) (byte : UInt8) :
    updateLast f (bytes ++ [byte]) = bytes ++ [f byte] := by
  induction bytes with
  | nil => rfl
  | cons first rest ih =>
    cases rest with
    | nil => rfl
    | cons second rest =>
      simp only [List.cons_append, updateLast] at ih ⊢
      rw [ih]

/-- What the three updates do to a byte whose codes from position `r` on are
clear. -/
theorem shifted_toNat (value : UInt8) (small : value.toNat < 4) : ∀ r < 4,
    (value <<< UInt8.ofNat (2 * r)).toNat = value.toNat * 4 ^ r := by
  intro r bound
  have power : 4 ^ r * 4 ≤ 4 ^ 4 := by
    rw [<- pow_succ]; exact Nat.pow_le_pow_right (by decide) (by omega)
  have fits : value.toNat * 4 ^ r < 256 := by nlinarith
  have amount : (UInt8.ofNat (2 * r)).toNat % 8 = 2 * r := by
    rw [UInt8.toNat_ofNat']; omega
  rw [UInt8.toNat_shiftLeft, amount, Nat.shiftLeft_eq, Nat.pow_mul]
  exact Nat.mod_eq_of_lt fits

variable {byte : UInt8} {r : Nat}

theorem or_shifted_toNat {value : UInt8} (bound : r < 4)
    (small : value.toNat < 4) (clear : byte.toNat < 4 ^ r) :
    (byte ||| (value <<< UInt8.ofNat (2 * r))).toNat = byte.toNat + value.toNat * 4 ^ r := by
  have power : (4 : Nat) ^ r = 2 ^ (2 * r) := by rw [Nat.pow_mul]
  rw [UInt8.toNat_or, shifted_toNat value small r bound, power, Nat.or_comm, Nat.mul_comm,
    <- Nat.two_pow_add_eq_or_of_lt (by rw [<- power]; exact clear)]
  omega

theorem and_mask_toNat (bound : r < 4) (clear : byte.toNat < 4 ^ r) :
    (byte &&& ((1 <<< UInt8.ofNat (2 * r)) - 1)).toNat = byte.toNat := by
  have shifted := shifted_toNat 1 (by decide) r bound
  have one : (1 : UInt8).toNat = 1 := rfl
  have power : (4 : Nat) ^ r = 2 ^ (2 * r) := by rw [Nat.pow_mul]
  have positive : 0 < (4 : Nat) ^ r := Nat.pow_pos (by decide)
  have mask : ((1 : UInt8) <<< UInt8.ofNat (2 * r) - 1).toNat = 2 ^ (2 * r) - 1 := by
    rw [UInt8.toNat_sub_of_le, shifted, one, Nat.one_mul, power]
    rw [UInt8.le_iff_toNat_le, shifted, one, Nat.one_mul]
    exact positive
  rw [UInt8.toNat_and, mask, Nat.and_two_pow_sub_one_eq_mod, Nat.mod_eq_of_lt]
  rwa [<- power]

theorem code_append_last {init : List UInt8} (i : Nat) : code (init ++ [byte]) i =
      if i / 4 = init.length then byte.toNat / 4 ^ (i % 4) % 4 else code init i := by
  unfold code
  by_cases last : i / 4 = init.length
  · simp [last]
  · rw [if_neg last]
    by_cases before : i / 4 < init.length
    · simp [getD_eq_getElem?_getD, List.getElem?_append_left before]
    · have behind : init.length + 1 ≤ i / 4 := by omega
      simp [getD_eq_getElem?_getD, getElem?_eq_none, behind, show init.length ≤ i / 4 by omega]

variable {bytes values : List UInt8}

theorem openByte (holds : Holds bytes values) :
    ∃ init byte, (if values.length % 4 = 0 then bytes ++ [0] else bytes) = init ++ [byte] ∧
      init.length = values.length / 4 ∧ byte.toNat < 4 ^ (values.length % 4) ∧
      ∀ i, code (init ++ [byte]) i = (values.getD i 0).toNat := by
  have length := holds.length
  by_cases first : values.length % 4 = 0
  · rw [if_pos first]
    refine ⟨bytes, 0, rfl, by omega, by rw [first]; decide, ?_⟩
    intro i
    rw [code_append_last, <- holds.codes i]
    split
    · rename_i last
      simp [code, last]
    · rfl
  · rw [if_neg first]
    obtain empty | ⟨init, byte, rfl⟩ := List.eq_nil_or_concat bytes
    · subst empty
      simp only [List.length_nil] at length
      omega
    rw [List.concat_eq_append] at holds length ⊢
    rw [length_append, List.length_singleton] at length
    have size : init.length = values.length / 4 := by omega
    refine ⟨init, byte, rfl, size, ?_, holds.codes⟩
    have clear : ∀ q, values.length % 4 ≤ q -> q < 4 -> byte.toNat / 4 ^ q % 4 = 0 := by
      intro q above below
      have zero := holds.codes (4 * (values.length / 4) + q)
      rw [code_append_last, if_pos (by omega), show (4 * (values.length / 4) + q) % 4 = q by omega,
        getD_eq_getElem?_getD, getElem?_eq_none (by omega)] at zero
      exact zero
    have byteBound := byte.toNat_lt
    have third := clear 3 (by omega) (by decide)
    have second := fun above => clear 2 above (by decide)
    have first' := fun above => clear 1 above (by decide)
    have range : values.length % 4 = 1 ∨ values.length % 4 = 2 ∨ values.length % 4 = 3 := by omega
    rcases range with one | two | three
    · have := second (by omega)
      have := first' (by omega)
      rw [one]
      omega
    · have := second (by omega)
      rw [two]
      omega
    · rw [three]
      omega

theorem add_code {byte value q : Nat} (small : value < 4) (rBound : r < 4) (qBound : q < 4)
    (clear : byte < 4 ^ r) :
    (byte + value * 4 ^ r) / 4 ^ q % 4 = if q = r then value else byte / 4 ^ q % 4 := by
  have rCases : r = 0 ∨ r = 1 ∨ r = 2 ∨ r = 3 := by omega
  have qCases : q = 0 ∨ q = 1 ∨ q = 2 ∨ q = 3 := by omega
  rcases rCases with rfl | rfl | rfl | rfl <;> rcases qCases with rfl | rfl | rfl | rfl <;>
    norm_num at clear ⊢ <;> omega

theorem step_holds (holds : Holds bytes values) {value : UInt8}
    (allowed : value = 0 ∨ value = 1 ∨ value = boolNull) :
    ∃ next, step values.length bytes value = some next ∧ Holds next (values ++ [value]) := by
  obtain ⟨init, byte, opened, size, clear, codes⟩ := openByte holds
  have rBound : values.length % 4 < 4 := Nat.mod_lt _ (by decide)
  have small : value.toNat < 4 := by
    rcases allowed with rfl | rfl | rfl <;> decide
  -- each of the three branches adds the value at its position
  have stored : ∃ last, step values.length bytes value = some (init ++ [last]) ∧
      last.toNat = byte.toNat + value.toNat * 4 ^ (values.length % 4) := by
    unfold step
    rw [opened]
    simp only [updateLast_append]
    rcases allowed with rfl | rfl | rfl
    · rw [if_neg (by decide), if_pos rfl]
      refine ⟨_, rfl, ?_⟩
      rw [and_mask_toNat rBound clear, show (0 : UInt8).toNat = 0 from rfl, Nat.zero_mul,
        Nat.add_zero]
    · rw [if_pos rfl]
      refine ⟨_, rfl, ?_⟩
      rw [or_shifted_toNat rBound small clear]
    · rw [if_neg (by decide), if_neg (by decide), if_pos rfl]
      refine ⟨_, rfl, ?_⟩
      rw [show (2 : UInt8) = boolNull from rfl, or_shifted_toNat rBound small clear]
  obtain ⟨last, run, lastNat⟩ := stored
  refine ⟨init ++ [last], run, ?_, ?_⟩
  · simp only [length_append, List.length_singleton]
    omega
  · intro i
    have before := codes i
    rw [code_append_last] at before ⊢
    by_cases inLast : i / 4 = init.length
    · rw [if_pos inLast] at before ⊢
      rw [lastNat, add_code small rBound (Nat.mod_lt _ (by decide)) clear]
      by_cases here : i % 4 = values.length % 4
      · have same : i = values.length := by omega
        rw [if_pos here, same, getD_eq_getElem?_getD]
        simp
      · rw [if_neg here, before]
        simp only [getD_eq_getElem?_getD]
        by_cases earlier : i < values.length
        · rw [List.getElem?_append_left earlier]
        · rw [getElem?_eq_none (by omega), getElem?_eq_none (by simp; omega)]
    · rw [if_neg inLast] at before ⊢
      rw [before]
      simp only [getD_eq_getElem?_getD]
      by_cases earlier : i < values.length
      · rw [List.getElem?_append_left earlier]
      · rw [getElem?_eq_none (by omega), getElem?_eq_none (by simp; omega)]

theorem encodeLoop_holds : ∀ (rest bytes values : List UInt8), Holds bytes values ->
    (∀ value ∈ rest, value = 0 ∨ value = 1 ∨ value = boolNull) ->
      ∃ output, encodeLoop values.length bytes rest = some output ∧
        Holds output (values ++ rest) := by
  intro rest
  induction rest with
  | nil =>
    intro bytes values holds _
    exact ⟨bytes, rfl, by simpa using holds⟩
  | cons value rest ih =>
    intro bytes values holds allowed
    obtain ⟨next, run, held⟩ := step_holds holds (allowed value (by simp))
    obtain ⟨output, loop, final⟩ := ih next (values ++ [value]) held
      (fun other member => allowed other (by simp [member]))
    refine ⟨output, ?_, by simpa using final⟩
    rw [length_append, List.length_singleton] at loop
    simp [encodeLoop, run, loop]

variable {input : List UInt8}

/-- Every column of bools is accepted and takes one byte for every four values
begun. -/
theorem tsCompressBoolImp_holds
    (allowed : ∀ value ∈ input, value = 0 ∨ value = 1 ∨ value = boolNull) :
    ∃ output, tsCompressBoolImp input = some output ∧ Holds output input := by
  have empty : Holds [] [] := ⟨rfl, by intro i; simp [code]⟩
  simpa [tsCompressBoolImp] using encodeLoop_holds input [] [] empty allowed

theorem decodeLoop_holds (holds : Holds bytes values)
    (allowed : ∀ value ∈ values, value = 0 ∨ value = 1 ∨ value = boolNull)
    (rest : List UInt8) : ∀ left i : Nat, i + left = values.length ->
      decodeLoop (bytes ++ rest) left i = some (values.drop i) := by
  intro left
  induction left with
  | zero =>
    intro i whole
    rw [List.drop_eq_nil_of_le (by omega)]
    rfl
  | succ left ih =>
    intro i whole
    have length := holds.length
    have inside : i / 4 < bytes.length := by omega
    have iBound : i < values.length := by omega
    have present : (bytes ++ rest)[i / 4]? = some bytes[i / 4] := by
      rw [List.getElem?_append_left inside, List.getElem?_eq_getElem inside]
    have codeNat := holds.codes i
    rw [code, getD_eq_getElem?_getD, List.getElem?_eq_getElem inside,
      getD_eq_getElem?_getD, List.getElem?_eq_getElem iBound] at codeNat
    simp only [Option.getD_some] at codeNat
    have read : (bytes[i / 4] >>> UInt8.ofNat (2 * (i % 4))) &&& 3 = values[i] := by
      apply UInt8.toNat_inj.mp
      have amount : (UInt8.ofNat (2 * (i % 4))).toNat % 8 = 2 * (i % 4) := by
        rw [UInt8.toNat_ofNat']; omega
      rw [UInt8.toNat_and, UInt8.toNat_shiftRight, amount, Nat.shiftRight_eq_div_pow,
        Nat.pow_mul, show (3 : UInt8).toNat = 2 ^ 2 - 1 from rfl,
        Nat.and_two_pow_sub_one_eq_mod]
      exact codeNat
    have value : (if values[i] = 1 then (1 : UInt8) else if values[i] = 2 then boolNull else 0) =
        values[i] := by
      rcases allowed values[i] (List.getElem_mem iBound) with zero | one | null
      · rw [zero]; decide
      · rw [one]; decide
      · rw [null]; decide
    have later := ih (i + 1) (by omega)
    simp only [decodeLoop, present, later, read, value, bind, Option.bind, pure]
    rw [List.getElem_cons_drop]

theorem bool_roundTrip_append
    (allowed : ∀ value ∈ input, value = 0 ∨ value = 1 ∨ value = boolNull) :
    ∃ output, tsCompressBoolImp input = some output ∧ ∀ rest,
      tsDecompressBoolImp (output ++ rest) input.length = some input := by
  obtain ⟨output, run, holds⟩ := tsCompressBoolImp_holds allowed
  refine ⟨output, run, ?_⟩
  intro rest
  simpa [tsDecompressBoolImp] using decodeLoop_holds holds allowed rest input.length 0 (by omega)

end Luomi.BoolCodec
