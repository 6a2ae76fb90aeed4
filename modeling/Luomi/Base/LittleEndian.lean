import Mathlib.Tactic

/-!
# Little-endian byte strings

Natural numbers and machine words as little-endian bytes: the memory layout
every `memcpy` of an integer reads and writes on the platforms the sources
assume.  `leBytes` stores a number in a fixed number of bytes, `leValue` reads
one back, and `encodeWords`/`decodeWords` lay out whole arrays.
-/

set_option autoImplicit false

namespace Luomi.LittleEndian

/-- The `count` low bytes of a number, lowest first. -/
def leBytes : Nat -> Nat -> List UInt8
  | 0, _ => []
  | count + 1, value => UInt8.ofNat value :: leBytes count (value / 256)

/-- The number whose bytes, lowest first, are given. -/
def leValue : List UInt8 -> Nat
  | [] => 0
  | byte :: rest => byte.toNat + 256 * leValue rest

@[simp] theorem leBytes_length (count value : Nat) : (leBytes count value).length = count := by
  induction count generalizing value with
  | zero => rfl
  | succ count ih => simp [leBytes, ih]

theorem leValue_leBytes (count value : Nat) :
    leValue (leBytes count value) = value % 256 ^ count := by
  induction count generalizing value with
  | zero => simp [leBytes, leValue, Nat.mod_one]
  | succ count ih =>
    have low : (UInt8.ofNat value).toNat = value % 256 := UInt8.toNat_ofNat'
    simp only [leBytes, leValue, ih, low]
    rw [Nat.pow_succ', Nat.mod_mul]

theorem leValue_leBytes_of_lt {count value : Nat} (fits : value < 256 ^ count) :
    leValue (leBytes count value) = value := by
  rw [leValue_leBytes, Nat.mod_eq_of_lt fits]

theorem leBytes_leValue (bytes : List UInt8) : leBytes bytes.length (leValue bytes) = bytes := by
  induction bytes with
  | nil => rfl
  | cons byte rest ih =>
    have byteBound := byte.toNat_lt
    have quotient : (byte.toNat + 256 * leValue rest) / 256 = leValue rest := by
      omega
    have head : UInt8.ofNat (byte.toNat + 256 * leValue rest) = byte := by
      apply UInt8.toNat_inj.mp
      rw [UInt8.toNat_ofNat']
      omega
    simp only [List.length_cons, leValue, leBytes, quotient, ih, head]

theorem leValue_lt (bytes : List UInt8) : leValue bytes < 256 ^ bytes.length := by
  induction bytes with
  | nil => simp [leValue]
  | cons byte rest ih =>
    have byteBound := byte.toNat_lt
    simp only [leValue, List.length_cons, Nat.pow_succ']
    omega

section Words

variable {width : Nat}

def wordOf (width : Nat) (bytes : List UInt8) : BitVec width :=
  BitVec.ofNat width (leValue bytes)

/-- An array of words of `size` bytes each, as `memcpy` sees it. -/
def encodeWords (size : Nat) (words : List (BitVec width)) : List UInt8 :=
  words.flatMap fun word => leBytes size word.toNat

/-- The first `count` words of a buffer; `none` when the copy would read past
its end. -/
def decodeWords (width size : Nat) : Nat -> List UInt8 -> Option (List (BitVec width))
  | 0, _ => some []
  | count + 1, bytes =>
    if bytes.length < size then none
    else (decodeWords width size count (bytes.drop size)).map
      (wordOf width (bytes.take size) :: ·)

theorem encodeWords_length (size : Nat) (words : List (BitVec width)) :
    (encodeWords size words).length = words.length * size := by
  induction words with
  | nil => simp [encodeWords]
  | cons word rest ih =>
    simp only [encodeWords, List.flatMap_cons, List.length_append, leBytes_length,
      List.length_cons] at ih ⊢
    rw [ih]
    ring

theorem wordOf_leBytes (size : Nat) (enough : width ≤ 8 * size) (word : BitVec width) :
    wordOf width (leBytes size word.toNat) = word := by
  have fits : word.toNat < 256 ^ size := by
    have : (2 : Nat) ^ width ≤ 2 ^ (8 * size) := Nat.pow_le_pow_right (by decide) enough
    rw [Nat.pow_mul] at this
    exact lt_of_lt_of_le word.isLt this
  rw [wordOf, leValue_leBytes_of_lt fits]
  simp

theorem decodeWords_encodeWords (size : Nat) (enough : width ≤ 8 * size)
    (words : List (BitVec width)) (rest : List UInt8) :
    decodeWords width size words.length (encodeWords size words ++ rest) = some words := by
  induction words with
  | nil => rfl
  | cons word words ih =>
    have split : encodeWords size (word :: words) ++ rest =
        leBytes size word.toNat ++ (encodeWords size words ++ rest) := by
      simp [encodeWords, List.append_assoc]
    have long : ¬ (leBytes size word.toNat ++ (encodeWords size words ++ rest)).length < size := by
      simp
    rw [split, List.length_cons, decodeWords, if_neg long]
    rw [List.drop_left' (leBytes_length ..), List.take_left' (leBytes_length ..)]
    rw [ih, wordOf_leBytes size enough]
    rfl

theorem encodeWords_injective {size : Nat} (enough : width ≤ 8 * size) (positive : 0 < size)
    {left right : List (BitVec width)}
    (same : encodeWords size left = encodeWords size right) : left = right := by
  have lengths : left.length = right.length := by
    have total := congrArg List.length same
    rw [encodeWords_length, encodeWords_length] at total
    exact Nat.eq_of_mul_eq_mul_right positive total
  have readLeft := decodeWords_encodeWords size enough left []
  have readRight := decodeWords_encodeWords size enough right []
  rw [same, lengths, readRight] at readLeft
  exact (Option.some.inj readLeft).symm

theorem encodeWords_decodeWords (size : Nat) (exactly : width = 8 * size)
    (count : Nat) (bytes : List UInt8) (whole : bytes.length = count * size) :
    ∃ words : List (BitVec width), decodeWords width size count bytes = some words ∧
      words.length = count ∧ encodeWords size words = bytes := by
  induction count generalizing bytes with
  | zero =>
    have empty : bytes = [] := List.eq_nil_of_length_eq_zero (by simpa using whole)
    exact ⟨[], rfl, rfl, by simp [encodeWords, empty]⟩
  | succ count ih =>
    rw [Nat.succ_mul] at whole
    obtain ⟨words, read, length, layout⟩ := ih (bytes.drop size) (by simp; omega)
    have taken : (bytes.take size).length = size := by
      rw [List.length_take]; omega
    have headFits : leValue (bytes.take size) < 2 ^ width := by
      have := leValue_lt (bytes.take size)
      rw [taken] at this
      rw [exactly, Nat.pow_mul]
      exact this
    have head : leBytes size (wordOf width (bytes.take size)).toNat = bytes.take size := by
      rw [wordOf, BitVec.toNat_ofNat, Nat.mod_eq_of_lt headFits]
      simpa [taken] using leBytes_leValue (bytes.take size)
    refine ⟨wordOf width (bytes.take size) :: words, ?_, by simp [length], ?_⟩
    · rw [decodeWords, if_neg (by omega), read]
      rfl
    · have joined : encodeWords size (wordOf width (bytes.take size) :: words) =
          leBytes size (wordOf width (bytes.take size)).toNat ++ encodeWords size words := by
        simp [encodeWords]
      rw [joined, head, layout, List.take_append_drop]

end Words

end Luomi.LittleEndian
