import Luomi.Base.LittleEndian

/-!
# Byte buffers of a fixed size

A message is laid out in a buffer by copies to places that are computed by hand, and
picked apart by copies from such places.  A copy that would touch a byte outside the
buffer has no result; places are integers, since an address may lie before the buffer.
The lemmas say what a copy does to a buffer given as the bytes before the place, the
bytes at it and the bytes after it.
-/

set_option autoImplicit false

namespace Luomi.ByteBuffer
open LittleEndian
open List (append_assoc flatMap_cons length_append length_drop length_reverse length_take)
open Option (bind_eq_bind bind_eq_some_iff bind_some map_some some.inj)

def store (buffer : List UInt8) (place : Int) (bytes : List UInt8) : Option (List UInt8) :=
  if 0 ≤ place ∧ place.toNat + bytes.length ≤ buffer.length then
    some (buffer.take place.toNat ++ (bytes ++ buffer.drop (place.toNat + bytes.length)))
  else none

def load (buffer : List UInt8) (place : Int) (count : Nat) : Option (List UInt8) :=
  if 0 ≤ place ∧ place.toNat + count ≤ buffer.length then
    some ((buffer.drop place.toNat).take count)
  else none

def storeAll (buffer : List UInt8) (place : Int) : List (List UInt8) -> Option (List UInt8)
  | [] => some buffer
  | piece :: rest => do
      let buffer <- store buffer place piece
      storeAll buffer (place + piece.length) rest

section

variable (buffer : List UInt8) (place : Int)

def load32 : Option (BitVec 32) :=
  (load buffer place 4).map (wordOf 32)

def store32 (word : BitVec 32) : Option (List UInt8) :=
  store buffer place (leBytes 4 word.toNat)

def load16 : Option (BitVec 16) :=
  (load buffer place 2).map (wordOf 16)

def store16 (word : BitVec 16) : Option (List UInt8) :=
  store buffer place (leBytes 2 word.toNat)

def increase : Option (List UInt8) := do
  let count <- load32 buffer place
  store32 buffer place (count + 1)

end

def reverseBytes {width : Nat} (size : Nat) (word : BitVec width) : BitVec width :=
  wordOf width (leBytes size word.toNat).reverse

def netBytes {width : Nat} (size : Nat) (word : BitVec width) : List UInt8 :=
  (leBytes size word.toNat).reverse

def loadNet (width size : Nat) (buffer : List UInt8) (place : Int) : Option (BitVec width) :=
  (load buffer place size).map fun bytes => wordOf width bytes.reverse

structure Cursor where
  body : List UInt8
  place : Nat

def Cursor.put (c : Cursor) (bytes : List UInt8) : Option Cursor := do
  let body <- store c.body c.place bytes
  some ⟨body, c.place + bytes.length⟩

def Cursor.skip (c : Cursor) (count : Nat) : Cursor := ⟨c.body, c.place + count⟩

/-- Why a program on buffers gives no result: it returned a code, or it touched a byte
outside a buffer or failed an assertion. -/
inductive Stop where
  | returned (code : Int)
  | crashed

def orCrash {α : Type} : Option α -> Except Stop α
  | some a => .ok a
  | none => .error .crashed

def require (condition : Prop) [Decidable condition] (stop : Stop) : Except Stop Unit :=
  if condition then .ok () else .error stop

def readMany {σ α : Type} (step : σ -> Except Stop (α × σ)) :
    Nat -> σ -> Except Stop (List α × σ)
  | 0, s => pure ([], s)
  | count + 1, s => do
      let (first, s) <- step s
      let (rest, s) <- readMany step count s
      pure (first :: rest, s)

abbrev zeros (count : Nat) : List UInt8 := List.replicate count 0

section Words

theorem leBytes_mod (size value : Nat) : leBytes size (value % 256 ^ size) = leBytes size value :=
    by
  induction size generalizing value with
  | zero => rfl
  | succ size ih =>
    have low : UInt8.ofNat (value % 256 ^ (size + 1)) = UInt8.ofNat value := by
      apply UInt8.toNat_inj.mp
      rw [UInt8.toNat_ofNat', UInt8.toNat_ofNat', Nat.pow_succ']
      exact Nat.mod_mul_right_mod value 256 (256 ^ size)
    have high : value % 256 ^ (size + 1) / 256 = value / 256 % 256 ^ size := by
      rw [Nat.pow_succ', Nat.mod_mul_right_div_self]
    rw [leBytes, leBytes, low, high, ih]

section

variable {width size : Nat} (exactly : width = 8 * size)

include exactly

theorem wordOf_toNat (bytes : List UInt8) (whole : bytes.length = size) :
    leBytes size (wordOf width bytes).toNat = bytes := by
  have fits : leValue bytes < 2 ^ width := by
    have bound := leValue_lt bytes
    rw [whole] at bound
    rw [exactly, Nat.pow_mul]
    exact bound
  rw [wordOf, BitVec.toNat_ofNat, Nat.mod_eq_of_lt fits, <- whole, leBytes_leValue]

theorem leBytes_reverseBytes (word : BitVec width) :
    leBytes size (reverseBytes size word).toNat = (leBytes size word.toNat).reverse := by
  apply wordOf_toNat exactly
  rw [length_reverse, leBytes_length]

theorem reverseBytes_wordOf (word : BitVec width) :
    reverseBytes size (wordOf width (leBytes size word.toNat).reverse) = word := by
  have turned : leBytes size (wordOf width (leBytes size word.toNat).reverse).toNat =
      (leBytes size word.toNat).reverse := by
    apply wordOf_toNat exactly
    rw [length_reverse, leBytes_length]
  rw [reverseBytes, turned, List.reverse_reverse]
  exact wordOf_leBytes size (by omega) word

end

theorem leBytes_ofNat32 (value : Nat) :
    leBytes 4 (BitVec.ofNat 32 value).toNat = leBytes 4 value := by
  rw [BitVec.toNat_ofNat]
  exact leBytes_mod 4 value

theorem leBytes_ofNat16 (value : Nat) :
    leBytes 2 (BitVec.ofNat 16 value).toNat = leBytes 2 value := by
  rw [BitVec.toNat_ofNat]
  exact leBytes_mod 2 value

theorem wordOf_leBytes32 (value : Nat) : wordOf 32 (leBytes 4 value) = BitVec.ofNat 32 value := by
  rw [<- leBytes_ofNat32 value]
  exact wordOf_leBytes 4 (by decide) (BitVec.ofNat 32 value)

theorem wordOf_leBytes16 (value : Nat) : wordOf 16 (leBytes 2 value) = BitVec.ofNat 16 value := by
  rw [<- leBytes_ofNat16 value]
  exact wordOf_leBytes 2 (by decide) (BitVec.ofNat 16 value)

variable {value : Nat}

theorem toInt_ofNat32 (small : value < 2 ^ 31) : (BitVec.ofNat 32 value).toInt = value := by
  rw [BitVec.toInt_eq_toNat_cond, BitVec.toNat_ofNat, Nat.mod_eq_of_lt (by omega),
    if_pos (by omega)]

theorem toInt_ofNat32_large (large : 2 ^ 31 ≤ value) (small : value < 2 ^ 32) :
    (BitVec.ofNat 32 value).toInt = value - 2 ^ 32 := by
  rw [BitVec.toInt_eq_toNat_cond, BitVec.toNat_ofNat, Nat.mod_eq_of_lt small, if_neg (by omega)]
  norm_num

theorem ofNat32_ne_zero (positive : 0 < value) (small : value < 2 ^ 31) :
    BitVec.ofNat 32 value ≠ 0 := by
  intro zero
  have signed := toInt_ofNat32 small
  rw [zero] at signed
  have : (0 : BitVec 32).toInt = 0 := rfl
  omega

end Words

section Copies

variable {left old right bytes : List UInt8} {place : Int}

theorem store_middle (located : place = left.length) (same : bytes.length = old.length) :
    store (left ++ (old ++ right)) place bytes = some (left ++ (bytes ++ right)) := by
  subst located
  have inside : 0 ≤ (left.length : Int) ∧ (left.length : Int).toNat + bytes.length ≤
      (left ++ (old ++ right)).length := by
    simp [same]
  have rest : (left ++ (old ++ right)).drop (left.length + bytes.length) = right := by
    rw [<- append_assoc, List.drop_left' (by simp [same])]
  rw [store, if_pos inside, Int.toNat_natCast, List.take_left' rfl, rest]

theorem load_middle {count : Nat} (located : place = left.length) (whole : count = bytes.length) :
    load (left ++ (bytes ++ right)) place count = some bytes := by
  subst located whole
  have inside : 0 ≤ (left.length : Int) ∧ (left.length : Int).toNat + bytes.length ≤
      (left ++ (bytes ++ right)).length := by
    simp
  rw [load, if_pos inside, Int.toNat_natCast, List.drop_left' rfl, List.take_left' rfl]

variable {buffer : List UInt8}
  {buffer' : List UInt8}

theorem store_inside (stored : store buffer place bytes = some buffer') :
    0 ≤ place ∧ place + bytes.length ≤ buffer.length ∧ buffer'.length = buffer.length := by
  unfold store at stored
  split at stored
  next inside =>
    obtain ⟨nonneg, fits⟩ := inside
    obtain rfl := some.inj stored
    refine ⟨nonneg, by omega, ?_⟩
    simp only [length_append, length_take, length_drop]
    omega
  next => cases stored

theorem load_inside {count : Nat} (loaded : load buffer place count = some bytes) :
    0 ≤ place ∧ place + count ≤ buffer.length ∧ bytes.length = count := by
  unfold load at loaded
  split at loaded
  next inside =>
    obtain ⟨nonneg, fits⟩ := inside
    obtain rfl := some.inj loaded
    refine ⟨nonneg, by omega, ?_⟩
    simp only [length_take, length_drop]
    omega
  next => cases loaded

variable {pieces : List (List UInt8)}

theorem storeAll_inside
    (stored : storeAll buffer place pieces = some buffer') : buffer'.length = buffer.length := by
  induction pieces generalizing buffer place with
  | nil => rw [some.inj stored]
  | cons piece rest ih =>
    obtain ⟨between, first, others⟩ := bind_eq_some_iff.mp stored
    rw [ih others, (store_inside first).2.2]

section

variable (located : place = left.length)

include located

theorem storeAll_middle (same : pieces.flatten.length = old.length) :
    storeAll (left ++ (old ++ right)) place pieces = some (left ++ (pieces.flatten ++ right)) := by
  induction pieces generalizing left old place with
  | nil =>
    have empty : old = [] := List.eq_nil_of_length_eq_zero (by simpa using same.symm)
    rw [empty]
    rfl
  | cons piece rest ih =>
    rw [List.flatten_cons, length_append] at same
    have first : piece.length = (old.take piece.length).length := by
      rw [length_take]
      omega
    have others : rest.flatten.length = (old.drop piece.length).length := by
      rw [length_drop]
      omega
    have split : old ++ right = old.take piece.length ++ (old.drop piece.length ++ right) := by
      rw [<- append_assoc, List.take_append_drop]
    have next : place + piece.length = ((left ++ piece).length : Int) := by
      rw [located, length_append]
      push_cast
      ring
    rw [storeAll, split, store_middle located first, bind_eq_bind, bind_some,
      <- append_assoc, ih next others]
    simp

theorem load32_middle {value : Nat} :
    load32 (left ++ (leBytes 4 value ++ right)) place = some (BitVec.ofNat 32 value) := by
  rw [load32, load_middle located (leBytes_length ..).symm, map_some, wordOf_leBytes32]

variable {value : Nat}

theorem load16_middle :
    load16 (left ++ (leBytes 2 value ++ right)) place = some (BitVec.ofNat 16 value) := by
  rw [load16, load_middle located (leBytes_length ..).symm, map_some, wordOf_leBytes16]

theorem load32_turned :
    (load32 (left ++ ((leBytes 4 value).reverse ++ right)) place).map (reverseBytes 4) =
      some (BitVec.ofNat 32 value) := by
  have whole : 4 = (leBytes 4 value).reverse.length := by
    rw [length_reverse, leBytes_length]
  rw [load32, load_middle located whole, map_some, map_some, <- leBytes_ofNat32,
    reverseBytes_wordOf (by decide)]

theorem load16_turned :
    (load16 (left ++ ((leBytes 2 value).reverse ++ right)) place).map (reverseBytes 2) =
      some (BitVec.ofNat 16 value) := by
  have whole : 2 = (leBytes 2 value).reverse.length := by
    rw [length_reverse, leBytes_length]
  rw [load16, load_middle located whole, map_some, map_some, <- leBytes_ofNat16,
    reverseBytes_wordOf (by decide)]

theorem store32_middle {word : BitVec 32} (same : old.length = 4) :
    store32 (left ++ (old ++ right)) place word =
      some (left ++ (leBytes 4 word.toNat ++ right)) := by
  rw [store32, store_middle located (by rw [leBytes_length, same])]

theorem store16_middle {word : BitVec 16} (same : old.length = 2) :
    store16 (left ++ (old ++ right)) place word =
      some (left ++ (leBytes 2 word.toNat ++ right)) := by
  rw [store16, store_middle located (by rw [leBytes_length, same])]

theorem increase_middle : increase (left ++ (leBytes 4 value ++ right)) place =
      some (left ++ (leBytes 4 (value + 1) ++ right)) := by
  have next : BitVec.ofNat 32 value + 1 = BitVec.ofNat 32 (value + 1) := by
    rw [BitVec.ofNat_add]
    rfl
  rw [increase, load32_middle located, bind_eq_bind, bind_some,
    store32_middle located (leBytes_length ..), next, leBytes_ofNat32]

end

theorem increase_inside (stored : increase buffer place = some buffer') :
    buffer'.length = buffer.length := by
  obtain ⟨count, read, written⟩ := bind_eq_some_iff.mp stored
  exact (store_inside written).2.2

end Copies

section Network

variable {width size : Nat} {left right : List UInt8} {place : Int}

@[simp] theorem netBytes_length (size : Nat) (word : BitVec width) :
    (netBytes size word).length = size := by
  rw [netBytes, length_reverse, leBytes_length]

variable {body : List UInt8} {fields : List (List UInt8)}

theorem load_at {bytes : List UInt8} {count : Nat} (k : Nat)
    (stands : body = left ++ (fields.flatten ++ right)) (found : fields[k]? = some bytes)
    (located : place = left.length + (fields.take k).flatten.length)
    (counted : count = bytes.length) : load body place count = some bytes := by
  obtain ⟨inside, is⟩ := List.getElem?_eq_some_iff.mp found
  have split : fields.flatten =
      (fields.take k).flatten ++ (bytes ++ (fields.drop (k + 1)).flatten) := by
    rw [<- is, <- List.flatten_cons, List.getElem_cons_drop, <- List.flatten_append,
      List.take_append_drop]
  have apart : body = (left ++ (fields.take k).flatten) ++
      (bytes ++ ((fields.drop (k + 1)).flatten ++ right)) := by
    rw [stands, split]
    simp only [append_assoc]
  rw [apart]
  exact load_middle (by rw [located, length_append]; push_cast; rfl) counted

theorem loadNet_at {word : BitVec width} (k : Nat) (exactly : width = 8 * size)
    (stands : body = left ++ (fields.flatten ++ right))
    (found : fields[k]? = some (netBytes size word))
    (located : place = left.length + (fields.take k).flatten.length) :
    loadNet width size body place = some word := by
  rw [loadNet, load_at k stands found located (netBytes_length ..).symm, map_some, netBytes,
    List.reverse_reverse, wordOf_leBytes size (by omega)]

theorem reverseBytes_reverseBytes (exactly : width = 8 * size) (word : BitVec width) :
    reverseBytes size (reverseBytes size word) = word := by
  rw [reverseBytes, leBytes_reverseBytes exactly, List.reverse_reverse,
    wordOf_leBytes size (by omega)]

end Network

section Stopping

variable {σ α β : Type} {s s' : σ}

theorem bind_ok {x : Except Stop α} {f : α -> Except Stop β} {b : β} :
    (x >>= f) = .ok b ↔ ∃ a, x = .ok a ∧ f a = .ok b := by
  cases x with
  | error stop => simp [bind, Except.bind]
  | ok a => simp [bind, Except.bind]

@[simp] theorem ok_bind (a : α) (f : α -> Except Stop β) : (Except.ok a >>= f) = f a := rfl

theorem orCrash_ok {o : Option α} {a : α} : orCrash o = .ok a ↔ o = some a := by
  cases o <;> simp [orCrash]

variable {condition : Prop} {stop : Stop}

theorem require_ok [Decidable condition] {u : Unit} :
    require condition stop = .ok u ↔ condition := by
  unfold require
  split <;> simp [*]

theorem require_met [Decidable condition] (met : condition) :
    require condition stop = .ok () := if_pos met

variable {step : σ -> Except Stop (α × σ)}
  {count : Nat}

theorem readMany_cons {between : σ} {first : α}
    {rest : List α} (read : step s = .ok (first, between))
    (others : readMany step count between = .ok (rest, s')) :
    readMany step (count + 1) s = .ok (first :: rest, s') := by
  simp only [readMany, read, ok_bind, others]
  rfl

variable {values : List α}

theorem readMany_length
    (ran : readMany step count s = .ok (values, s')) : values.length = count := by
  induction count generalizing s values with
  | zero =>
    cases Except.ok.inj ran
    rfl
  | succ count ih =>
    obtain ⟨⟨first, between⟩, _, others⟩ := bind_ok.mp ran
    obtain ⟨⟨rest, last⟩, readRest, result⟩ := bind_ok.mp others
    cases Except.ok.inj result
    rw [List.length_cons, ih readRest]

theorem readMany_all {P : α -> Prop} (each : ∀ s a s', step s = .ok (a, s') -> P a)
    (ran : readMany step count s = .ok (values, s')) : ∀ a ∈ values, P a := by
  induction count generalizing s values with
  | zero =>
    cases Except.ok.inj ran
    exact fun a member => absurd member List.not_mem_nil
  | succ count ih =>
    obtain ⟨⟨first, between⟩, read, others⟩ := bind_ok.mp ran
    obtain ⟨⟨rest, last⟩, readRest, result⟩ := bind_ok.mp others
    cases Except.ok.inj result
    intro a member
    rcases List.mem_cons.mp member with here | later
    · exact here ▸ each _ _ _ read
    · exact ih readRest a later

theorem readMany_records {step : Int -> Except Stop (α × Int)} {entry : β -> List UInt8}
    {value : β -> α} {body left right : List UInt8} {records : List β}
    (each : ∀ r ∈ records, ∀ left right, body = left ++ (entry r ++ right) ->
      step left.length = .ok (value r, ((left ++ entry r).length : Int)))
    (stands : body = left ++ (records.flatMap entry ++ right)) :
    readMany step records.length left.length =
      .ok (records.map value, ((left ++ records.flatMap entry).length : Int)) := by
  induction records generalizing left with
  | nil =>
    rw [List.flatMap_nil, List.append_nil]
    rfl
  | cons r rest ih =>
    have here : body = left ++ (entry r ++ (rest.flatMap entry ++ right)) := by
      rw [stands, flatMap_cons, append_assoc]
    have behind : body = (left ++ entry r) ++ (rest.flatMap entry ++ right) := by
      rw [here, append_assoc]
    have first := each r List.mem_cons_self left _ here
    have others := ih (fun r member => each r (List.mem_cons_of_mem _ member)) behind
    rw [List.length_cons, readMany_cons first others, List.map_cons, flatMap_cons, append_assoc]

end Stopping

section Filling

variable {done bytes : List UInt8} {room : Nat} {c c' : Cursor}

def filled (done : List UInt8) (room : Nat) : Cursor :=
  ⟨done ++ zeros room, done.length⟩

variable {count : Nat}

theorem zeros_split (fits : count ≤ room) : zeros room = zeros count ++ zeros (room - count) := by
  rw [zeros, zeros, zeros, List.replicate_append_replicate, Nat.add_sub_cancel' fits]

theorem put_filled (fits : bytes.length ≤ room) :
    (filled done room).put bytes = some (filled (done ++ bytes) (room - bytes.length)) := by
  have stored : store (done ++ zeros room) (done.length : Int) bytes =
      some (done ++ (bytes ++ zeros (room - bytes.length))) := by
    rw [zeros_split fits]
    exact store_middle rfl (by rw [List.length_replicate])
  simp only [Cursor.put, filled, stored, bind_eq_bind, bind_some, append_assoc, length_append]

theorem skip_filled (fits : count ≤ room) :
    (filled done room).skip count = filled (done ++ zeros count) (room - count) := by
  simp only [Cursor.skip, filled, zeros_split fits, append_assoc, length_append,
    List.length_replicate]

theorem put_place (ran : c.put bytes = some c') : c'.place = c.place + bytes.length := by
  obtain ⟨body, _, result⟩ := bind_eq_some_iff.mp ran
  rw [<- some.inj result]

variable {β : Type} {step : Cursor -> β -> Except Stop Cursor} {entry : β -> List UInt8}
  {records : List β}

theorem foldlM_filled (each : ∀ r ∈ records, ∀ done room, (entry r).length ≤ room ->
      step (filled done room) r = .ok (filled (done ++ entry r) (room - (entry r).length)))
    (fits : (records.flatMap entry).length ≤ room) : records.foldlM step (filled done room) =
      .ok (filled (done ++ records.flatMap entry) (room - (records.flatMap entry).length)) := by
  induction records generalizing done room with
  | nil =>
    rw [List.flatMap_nil, List.append_nil]
    rfl
  | cons r rest ih =>
    rw [flatMap_cons, length_append] at fits
    have first := each r List.mem_cons_self done room (by omega)
    have others := @ih (done ++ entry r) (room - (entry r).length)
      (fun r member => each r (List.mem_cons_of_mem _ member)) (by omega)
    rw [List.foldlM_cons, first, ok_bind, others, flatMap_cons, append_assoc,
      length_append, Nat.sub_sub]

theorem foldlM_place (each : ∀ c r c', step c r = .ok c' -> c'.place = c.place + (entry r).length)
    (ran : records.foldlM step c = .ok c') :
    c'.place = c.place + (records.flatMap entry).length := by
  induction records generalizing c with
  | nil =>
    cases Except.ok.inj ran
    rfl
  | cons r rest ih =>
    rw [List.foldlM_cons] at ran
    obtain ⟨between, first, others⟩ := bind_ok.mp ran
    rw [ih others, each _ _ _ first, flatMap_cons, length_append, Nat.add_assoc]

end Filling

end Luomi.ByteBuffer
