import Luomi.Base.ByteBuffer
import Luomi.Util.DoubleCodec
import Luomi.Util.IntegerReach
import Luomi.Util.TimestampCodec

/-!
# Where the encoders store

The encoders once more, storing into an output buffer that the caller gives.  A column of
`n` values of `w` bytes is given `n * w + 1` bytes; a store behind them has no result.
What is stored before an encoder falls back to the raw copy stays in the buffer until the
copy overwrites it.
-/

namespace Luomi.CodecStores

open ByteBuffer LittleEndian NibblePairs ZigZag
open Luomi.IntegerCodec (IntType widen scan fillWord safeInt64Add Exit)
open Luomi.XorCodec (Layout byteCount encodeValue)
open List (append_nil length_append length_cons)

/-- How an encoder leaves its loop other than through the end: to the raw copy, past the
end of a table, without progress, or by a store outside its buffer. -/
inductive Leave where
  | copy (c : Cursor)
  | pastTable
  | noProgress
  | outside

def emit (c : Cursor) (bytes : List UInt8) : Except Leave Cursor :=
  match c.put bytes with
  | some c => .ok c
  | none => .error .outside

/-- The end of an encoder: the first byte says whether the column is packed or copied.
What is returned is the number of bytes and the buffer. -/
def finish (packed raw : UInt8) (input : List UInt8) :
    Except Leave Cursor -> Option (Nat × List UInt8)
  | .ok c => do
      let output <- store c.body 0 [packed]
      some (c.place, output)
  | .error (.copy c) => do
      let output <- store c.body 0 [raw]
      let output <- store output 1 input
      some (input.length + 1, output)
  | .error _ => none

def packWords (byteLimit : Nat) :
    Nat -> BitVec 64 -> Cursor -> List (BitVec 64) -> Except Leave Cursor
  | _, _, c, [] => .ok c
  | 0, _, _, _ :: _ => .error .noProgress
  | fuel + 1, prev, c, values@(_ :: _) =>
    match scan prev prev 0 0 0 values with
    | .error .copyAndExit => .error (.copy c)
    | .error .pastTable => .error .pastTable
    | .error .noProgress => .error .noProgress
    | .ok word =>
      let taken := values.take word.elems
      let buffer := fillWord word.bit 0 prev (BitVec.ofNat 64 word.selector) taken
      if c.place + 8 ≤ byteLimit then do
        let c <- emit c (leBytes 8 buffer.toNat)
        packWords byteLimit fuel (taken.getLastD prev) c (values.drop word.elems)
      else .error (.copy c)

def tsCompressINTInto (type : IntType) (input : List type.Value) (output : List UInt8) :
    Option (Nat × List UInt8) :=
  finish 0 1 (encodeWords type.wordLength input)
    (packWords (input.length * type.wordLength + 1) input.length 0 ⟨output, 1⟩ (input.map widen))

structure Stamping where
  i : Nat
  prevValue : BitVec 64
  prevDelta : BitVec 64
  flag1 : UInt8
  dd1 : BitVec 64
  c : Cursor

/-- One `memcpy` behind its test against the raw size. -/
def emitBelow (limit : Nat) (c : Cursor) (bytes : List UInt8) : Except Leave Cursor :=
  if limit ≤ c.place + bytes.length - 1 then .error (.copy c) else emit c bytes

def stampStep (limit : Nat) (s : Stamping) (curr : BitVec 64) : Except Leave Stamping :=
  if !safeInt64Add curr (-s.prevValue) then .error (.copy s.c)
  else
    let currDelta := curr - s.prevValue
    if !safeInt64Add currDelta (-s.prevDelta) then .error (.copy s.c)
    else
      let dd := zigzag (currDelta - s.prevDelta)
      if s.i % 2 = 0 then
        .ok { s with
          i := s.i + 1, prevValue := curr, prevDelta := currDelta,
          flag1 := TimestampCodec.flagOf dd, dd1 := dd }
      else do
        let flag2 := TimestampCodec.flagOf dd
        let c <- emitBelow limit s.c [header s.flag1 flag2]
        let c <- emitBelow limit c (leBytes s.flag1.toNat s.dd1.toNat)
        let c <- emitBelow limit c (leBytes flag2.toNat dd.toNat)
        return { s with i := s.i + 1, prevValue := curr, prevDelta := currDelta, c := c }

def stampTail (limit : Nat) (s : Stamping) : Except Leave Cursor :=
  if s.i % 2 = 1 then do
    let c <- emitBelow limit s.c [header s.flag1 0]
    emitBelow limit c (leBytes s.flag1.toNat s.dd1.toNat)
  else .ok s.c

def tsCompressTimestampInto (input : List (BitVec 64)) (output : List UInt8) :
    Option (Nat × List UInt8) :=
  match input with
  | [] => some (0, output)
  | first :: _ =>
    let limit := input.length * 8
    finish 1 0 (encodeWords 8 input)
      (input.foldlM (stampStep limit) ⟨0, first, -first, 0, 0, ⟨output, 1⟩⟩ >>= stampTail limit)

variable {width : Nat}

structure Xoring (width : Nat) where
  i : Nat
  prevValue : BitVec width
  prevDiff : BitVec width
  prevFlag : UInt8
  c : Cursor

section

variable (layout : Layout width)

def emitPair (c : Cursor) (flags : UInt8) (diff1 : BitVec width) (flag1 : UInt8)
    (diff2 : BitVec width) (flag2 : UInt8) : Except Leave Cursor := do
  let c <- emit c [flags]
  let c <- emit c (encodeValue layout diff1 flag1)
  emit c (encodeValue layout diff2 flag2)

def xorStep (byteLimit : Nat) (s : Xoring width) (curr : BitVec width) :
    Except Leave (Xoring width) :=
  let diff := curr ^^^ s.prevValue
  let flag := XorCodec.flagOf layout diff
  if s.i % 2 = 0 then
    .ok { s with i := s.i + 1, prevValue := curr, prevDiff := diff, prevFlag := flag }
  else if s.c.place + 1 + byteCount s.prevFlag + byteCount flag ≤ byteLimit then do
    let c <- emitPair layout s.c (header s.prevFlag flag) s.prevDiff s.prevFlag diff flag
    return { s with i := s.i + 1, prevValue := curr, c := c }
  else .error (.copy s.c)

def xorTail (byteLimit : Nat) (s : Xoring width) : Except Leave Cursor :=
  if s.i % 2 = 1 then
    if s.c.place + 1 + byteCount s.prevFlag + 1 ≤ byteLimit then
      emitPair layout s.c s.prevFlag s.prevDiff s.prevFlag 0 0
    else .error (.copy s.c)
  else .ok s.c

def compressInto (input : List (BitVec width)) (output : List UInt8) : Option (Nat × List UInt8) :=
  let byteLimit := input.length * layout.valueBytes + 1
  finish 0 1 (encodeWords layout.valueBytes input)
    (input.foldlM (xorStep layout byteLimit) ⟨0, 0, 0, 0, ⟨output, 1⟩⟩ >>= xorTail layout byteLimit)

end

def tsCompressDoubleInto (input : List (BitVec 64)) (output : List UInt8) :
    Option (Nat × List UInt8) :=
  compressInto DoubleCodec.doubleLayout input output

/-- Into every buffer of the size, the encoder stores the encoding, and it returns the
number of its bytes. -/
def StoresInside (size : Nat) (encoding : Option (List UInt8))
    (into : List UInt8 -> Option (Nat × List UInt8)) : Prop :=
  ∀ output, output.length = size -> ∃ bytes rest, encoding = some bytes ∧
    into output = some (bytes.length, bytes ++ rest) ∧ (bytes ++ rest).length = size

/-- The output behind its first byte, with the cursor behind it. -/
structure Holds (size : Nat) (c : Cursor) (out : List UInt8) : Prop where
  sized : c.body.length = size
  place : c.place = out.length + 1
  stands : ∃ first rest, c.body = first :: (out ++ rest)

section Buffers

variable {size : Nat} {c : Cursor} {out bytes : List UInt8}

theorem holds_start {output : List UInt8} (sized : output.length = size) (positive : 0 < size) :
    Holds size ⟨output, 1⟩ [] := by
  cases output with
  | nil =>
    rw [List.length_nil] at sized
    omega
  | cons first rest => exact ⟨sized, rfl, first, rest, rfl⟩

theorem emit_holds (holds : Holds size c out) (fits : c.place + bytes.length ≤ size) :
    ∃ c', emit c bytes = .ok c' ∧ Holds size c' (out ++ bytes) := by
  obtain ⟨first, rest, body⟩ := holds.stands
  have sized := holds.sized
  have place := holds.place
  have length : c.body.length = 1 + out.length + rest.length := by
    rw [body, length_cons, length_append]
    omega
  have cut : c.body = (first :: out) ++ (rest.take bytes.length ++ rest.drop bytes.length) := by
    rw [List.take_append_drop, body, List.cons_append]
  have same : bytes.length = (rest.take bytes.length).length := by
    rw [List.length_take]
    omega
  have stored : store c.body c.place bytes =
      some ((first :: out) ++ (bytes ++ rest.drop bytes.length)) := by
    rw [cut]
    exact store_middle (by rw [place, length_cons]) same
  refine ⟨⟨(first :: out) ++ (bytes ++ rest.drop bytes.length), c.place + bytes.length⟩, ?_, ?_⟩
  · simp only [emit, Cursor.put, stored, Option.bind_eq_bind, Option.bind_some]
  · refine ⟨?_, ?_, first, rest.drop bytes.length, ?_⟩
    · rw [<- sized]
      exact (store_inside stored).2.2
    · rw [length_append]
      change c.place + bytes.length = _
      omega
    · rw [List.append_assoc]
      rfl

theorem store_first {first value : UInt8} {rest : List UInt8} :
    store (first :: rest) 0 [value] = some (value :: rest) :=
  @store_middle [] [first] rest [value] 0 rfl rfl

theorem finish_packed {packed raw : UInt8} {input : List UInt8} (holds : Holds size c out) :
    ∃ rest, finish packed raw input (.ok c) =
        some ((packed :: out).length, (packed :: out) ++ rest) ∧
      ((packed :: out) ++ rest).length = size := by
  obtain ⟨first, rest, body⟩ := holds.stands
  refine ⟨rest, ?_, ?_⟩
  · simp only [finish, body, store_first, Option.bind_eq_bind, Option.bind_some, holds.place]
    rfl
  · rw [<- holds.sized, body]
    rfl

theorem finish_raw {packed raw : UInt8} {input : List UInt8}
    (sized : c.body.length = input.length + 1) :
    ∃ rest, finish packed raw input (.error (.copy c)) =
        some ((raw :: input).length, (raw :: input) ++ rest) ∧
      ((raw :: input) ++ rest).length = input.length + 1 := by
  obtain ⟨first, old, body⟩ := List.exists_cons_of_length_eq_add_one sized
  have same : input.length = old.length := by
    rw [body, length_cons] at sized
    omega
  have copied : store (raw :: old) 1 input = some (raw :: input) := by
    have whole := @store_middle [raw] old [] input 1 rfl same
    rw [append_nil, append_nil] at whole
    exact whole
  refine ⟨[], ?_, ?_⟩
  · simp only [finish, body, store_first, Option.bind_eq_bind, Option.bind_some, copied, append_nil]
    rfl
  · rw [append_nil, length_cons]

end Buffers

section Following

variable {σ τ σ' τ' : Type} {size : Nat}

/-- A run that stores and one that collects the bytes end in the same way. -/
def Follows (size : Nat) (same : σ -> τ -> Prop) : Option τ -> Except Leave σ -> Prop
  | some t, run => ∃ s, run = .ok s ∧ same s t
  | none, run => ∃ c, run = .error (.copy c) ∧ c.body.length = size

theorem Follows.bind {same : σ -> τ -> Prop} {same' : σ' -> τ' -> Prop} {x : Option τ}
    {run : Except Leave σ} {f : τ -> Option τ'} {g : σ -> Except Leave σ'}
    (first : Follows size same x run) (next : ∀ s t, same s t -> Follows size same' (f t) (g s)) :
    Follows size same' (x.bind f) (run >>= g) := by
  cases x with
  | some t =>
    obtain ⟨s, rfl, related⟩ := first
    exact next s t related
  | none =>
    obtain ⟨c, rfl, sized⟩ := first
    exact ⟨c, rfl, sized⟩

theorem Follows.ok {same : σ -> τ -> Prop} {s : σ} {t : τ} (related : same s t) :
    Follows size same (some t) (.ok s) := ⟨s, rfl, related⟩

theorem Follows.copy {same : σ -> τ -> Prop} {c : Cursor} (sized : c.body.length = size) :
    Follows size same none (.error (.copy c)) := ⟨c, rfl, sized⟩

/-- What an encoder that follows its encoding does with every buffer of the size. -/
theorem Follows.finishes {packed raw : UInt8} {input : List UInt8} {x : Option (List UInt8)}
    {run : Except Leave Cursor} (follows : Follows (input.length + 1) (Holds (input.length + 1)) x
      run) :
    ∃ rest, finish packed raw input run = some ((x.elim (raw :: input) (packed :: ·)).length,
          x.elim (raw :: input) (packed :: ·) ++ rest) ∧
      (x.elim (raw :: input) (packed :: ·) ++ rest).length = input.length + 1 := by
  cases x with
  | some out =>
    obtain ⟨c, rfl, holds⟩ := follows
    exact finish_packed holds
  | none =>
    obtain ⟨c, rfl, sized⟩ := follows
    exact finish_raw sized

end Following

/-! ### Integers -/

theorem packWords_follows {byteLimit fuel : Nat} {prev : BitVec 64} {c : Cursor}
    {out : List UInt8} {values : List (BitVec 64)} (holds : Holds byteLimit c out)
    (inTable : IntegerCodec.compressLoop byteLimit fuel prev out values ≠ .error .pastTable)
    (progress : IntegerCodec.compressLoop byteLimit fuel prev out values ≠ .error .noProgress) :
    Follows byteLimit (Holds byteLimit)
      (IntegerCodec.compressLoop byteLimit fuel prev out values).toOption
      (packWords byteLimit fuel prev c values) := by
  induction fuel generalizing prev c out values with
  | zero =>
    cases values with
    | nil => exact Follows.ok holds
    | cons value rest => exact absurd rfl progress
  | succ fuel ih =>
    cases values with
    | nil => exact Follows.ok holds
    | cons value rest =>
      unfold IntegerCodec.compressLoop at inTable progress ⊢
      unfold packWords
      cases chosen : scan prev prev 0 0 0 (value :: rest) with
      | error exit =>
        rw [chosen] at inTable progress
        cases exit with
        | copyAndExit => exact Follows.copy holds.sized
        | pastTable => exact absurd rfl inTable
        | noProgress => exact absurd rfl progress
      | ok word =>
        rw [chosen] at inTable progress
        simp only [bind, Except.bind] at inTable progress ⊢
        rw [holds.place]
        split at inTable
        next fits =>
          rw [if_pos fits] at progress ⊢
          rw [if_pos fits]
          obtain ⟨c', emitted, held⟩ := @emit_holds byteLimit c out
            (leBytes 8 (fillWord word.bit 0 prev (BitVec.ofNat 64 word.selector)
              ((value :: rest).take word.elems)).toNat) holds
            (by rw [holds.place, leBytes_length]; exact fits)
          rw [emitted]
          exact ih held inTable progress
        next full =>
          rw [if_neg full, if_neg full]
          exact Follows.copy holds.sized

/-! ### Timestamps -/

structure SameStamping (size : Nat) (s : Stamping) (t : TimestampCodec.Encoder) : Prop where
  i : s.i = t.i
  prevValue : s.prevValue = t.prevValue
  prevDelta : s.prevDelta = t.prevDelta
  flag1 : s.flag1 = t.flag1
  dd1 : s.dd1 = t.dd1
  holds : Holds size s.c t.out

theorem emitBelow_follows {limit : Nat} {c : Cursor} {out : List UInt8} (bytes : List UInt8)
    (holds : Holds (limit + 1) c out) :
    Follows (limit + 1) (Holds (limit + 1)) (TimestampCodec.store limit out bytes)
      (emitBelow limit c bytes) := by
  unfold TimestampCodec.store emitBelow
  rw [holds.place]
  split
  next => exact Follows.copy holds.sized
  next below =>
    obtain ⟨c', emitted, held⟩ := @emit_holds (limit + 1) c out bytes holds
      (by rw [holds.place]; omega)
    exact ⟨c', emitted, held⟩

variable {t : TimestampCodec.Encoder}

section

variable {limit : Nat} {s : Stamping} (same : SameStamping (limit + 1) s t)

include same

theorem stampStep_follows (curr : BitVec 64) :
    Follows (limit + 1) (SameStamping (limit + 1)) (TimestampCodec.step limit t curr)
      (stampStep limit s curr) := by
  unfold TimestampCodec.step stampStep
  rw [same.prevValue, same.prevDelta, same.i, same.flag1, same.dd1]
  split
  · exact Follows.copy same.holds.sized
  · simp only
    split
    · exact Follows.copy same.holds.sized
    · split
      · exact Follows.ok ⟨rfl, rfl, rfl, rfl, rfl, same.holds⟩
      · refine (emitBelow_follows _ same.holds).bind fun c out holds => ?_
        refine (emitBelow_follows _ holds).bind fun c out holds => ?_
        refine (emitBelow_follows _ holds).bind fun c out holds => ?_
        exact Follows.ok ⟨rfl, rfl, rfl, rfl, rfl, holds⟩

theorem stampSteps_follow (values : List (BitVec 64)) :
    Follows (limit + 1) (SameStamping (limit + 1)) (TimestampCodec.encodeLoop limit t values)
      (values.foldlM (stampStep limit) s) := by
  induction values generalizing s t with
  | nil => exact Follows.ok same
  | cons curr rest ih => exact (stampStep_follows same curr).bind fun _ _ next => ih next

theorem stampTail_follows :
    Follows (limit + 1) (Holds (limit + 1)) (TimestampCodec.encodeTail limit t)
      (stampTail limit s) := by
  unfold TimestampCodec.encodeTail stampTail
  rw [same.i, same.flag1, same.dd1]
  split
  · exact (emitBelow_follows _ same.holds).bind fun _ _ holds => emitBelow_follows _ holds
  · exact Follows.ok same.holds

end

/-- The encoding is the packed form or the copy, each behind its first byte. -/
theorem timestamp_encoding (first : BitVec 64) (rest : List (BitVec 64)) :
    TimestampCodec.tsCompressTimestampImp (first :: rest) =
      ((TimestampCodec.encodeLoop ((first :: rest).length * 8) ⟨0, first, -first, 0, 0, []⟩
        (first :: rest)).bind (TimestampCodec.encodeTail ((first :: rest).length * 8))).elim
        (0 :: encodeWords 8 (first :: rest)) (1 :: ·) := by
  unfold TimestampCodec.tsCompressTimestampImp
  simp only
  split
  next out packed => rw [packed]; rfl
  next full => rw [full]; rfl

theorem timestamp_storesInside (input : List (BitVec 64)) :
    StoresInside (input.length * 8 + 1) (some (TimestampCodec.tsCompressTimestampImp input))
      (tsCompressTimestampInto input) := by
  intro output sized
  cases input with
  | nil => exact ⟨[], output, rfl, rfl, sized⟩
  | cons first rest =>
    have raw : (encodeWords 8 (first :: rest)).length = (first :: rest).length * 8 :=
      encodeWords_length 8 _
    have same : SameStamping ((first :: rest).length * 8 + 1)
        ⟨0, first, -first, 0, 0, ⟨output, 1⟩⟩ ⟨0, first, -first, 0, 0, []⟩ :=
      ⟨rfl, rfl, rfl, rfl, rfl, holds_start sized (Nat.succ_pos _)⟩
    have follows := (stampSteps_follow same (first :: rest)).bind
      fun _ _ last => stampTail_follows last
    rw [<- raw] at follows
    obtain ⟨behind, finished, whole⟩ := @Follows.finishes 1 0 _ _ _ follows
    have encoding := timestamp_encoding first rest
    rw [<- raw] at encoding
    refine ⟨_, behind, rfl, ?_, ?_⟩
    · rw [encoding, <- finished, raw]
      rfl
    · rw [encoding, whole, raw]

/-! ### Floating point -/

section Xor

variable {size : Nat} {layout : Layout width} {c : Cursor} {out : List UInt8}

structure SameXoring (size : Nat) (s : Xoring width) (t : XorCodec.Encoder width) : Prop where
  i : s.i = t.i
  prevValue : s.prevValue = t.prevValue
  prevDiff : s.prevDiff = t.prevDiff
  prevFlag : s.prevFlag = t.prevFlag
  holds : Holds size s.c t.out

theorem encodeValue_length (diff : BitVec width) (flag : UInt8) :
    (encodeValue layout diff flag).length = byteCount flag := leBytes_length _ _

theorem emitPair_holds (holds : Holds size c out) (flags : UInt8) (diff1 : BitVec width)
    (flag1 : UInt8) (diff2 : BitVec width) (flag2 : UInt8)
    (fits : c.place + 1 + byteCount flag1 + byteCount flag2 ≤ size) :
    ∃ c', emitPair layout c flags diff1 flag1 diff2 flag2 = .ok c' ∧
      Holds size c' (out ++ flags :: (encodeValue layout diff1 flag1 ++
        encodeValue layout diff2 flag2)) := by
  have bytes1 := @encodeValue_length _ layout diff1 flag1
  have bytes2 := @encodeValue_length _ layout diff2 flag2
  rw [holds.place] at fits
  obtain ⟨c1, emitted1, holds1⟩ := @emit_holds size c out [flags] holds
    (by rw [holds.place, List.length_singleton]; omega)
  obtain ⟨c2, emitted2, holds2⟩ := @emit_holds size c1 _ (encodeValue layout diff1 flag1) holds1
    (by rw [holds1.place, length_append, List.length_singleton]; omega)
  obtain ⟨c3, emitted3, holds3⟩ := @emit_holds size c2 _ (encodeValue layout diff2 flag2) holds2
    (by rw [holds2.place, length_append, length_append, List.length_singleton]; omega)
  refine ⟨c3, ?_, ?_⟩
  · simp only [emitPair, emitted1, emitted2, emitted3, bind, Except.bind]
  · simpa only [List.append_assoc, List.cons_append, List.nil_append] using holds3

section

variable {s : Xoring width} {t : XorCodec.Encoder width} (same : SameXoring size s t)

include same

theorem xorStep_follows (curr : BitVec width) :
    Follows size (SameXoring size) (XorCodec.step layout size t curr)
      (xorStep layout size s curr) := by
  unfold XorCodec.step xorStep
  rw [same.prevValue, same.i, same.prevFlag, same.prevDiff, same.holds.place]
  simp only
  split
  · exact Follows.ok ⟨rfl, rfl, rfl, rfl, same.holds⟩
  · split
    next fits =>
      obtain ⟨c', emitted, holds⟩ := @emitPair_holds _ size layout s.c t.out same.holds
        (header t.prevFlag (XorCodec.flagOf layout (curr ^^^ t.prevValue))) t.prevDiff t.prevFlag
        (curr ^^^ t.prevValue) (XorCodec.flagOf layout (curr ^^^ t.prevValue))
        (by rw [same.holds.place]; exact fits)
      rw [emitted]
      exact Follows.ok ⟨rfl, rfl, rfl, rfl, holds⟩
    next => exact Follows.copy same.holds.sized

theorem xorSteps_follow (values : List (BitVec width)) :
    Follows size (SameXoring size) (XorCodec.encodeLoop layout size t values)
      (values.foldlM (xorStep layout size) s) := by
  induction values generalizing s t with
  | nil => exact Follows.ok same
  | cons curr rest ih => exact (xorStep_follows same curr).bind fun _ _ next => ih next

theorem xorTail_follows :
    Follows size (Holds size) (XorCodec.encodeTail layout size t) (xorTail layout size s) := by
  unfold XorCodec.encodeTail xorTail
  rw [same.i, same.prevFlag, same.prevDiff, same.holds.place]
  split
  · simp only
    split
    next fits =>
      have one : byteCount 0 = 1 := by decide
      obtain ⟨c', emitted, holds⟩ := @emitPair_holds _ size layout s.c t.out same.holds
        t.prevFlag t.prevDiff t.prevFlag 0 0 (by rw [same.holds.place, one]; exact fits)
      exact ⟨c', emitted, holds⟩
    next => exact Follows.copy same.holds.sized
  · exact Follows.ok same.holds

end

theorem compress_encoding (layout : Layout width) (input : List (BitVec width)) :
    XorCodec.compress layout input = (XorCodec.packed layout input).elim
      (1 :: encodeWords layout.valueBytes input) (0 :: ·) := by
  unfold XorCodec.compress
  split
  next out packed => rw [packed]; rfl
  next full => rw [full]; rfl

theorem compress_storesInside (layout : Layout width) (input : List (BitVec width)) :
    StoresInside (input.length * layout.valueBytes + 1) (some (XorCodec.compress layout input))
      (compressInto layout input) := by
  intro output sized
  have raw : (encodeWords layout.valueBytes input).length = input.length * layout.valueBytes :=
    encodeWords_length layout.valueBytes _
  have same : SameXoring (input.length * layout.valueBytes + 1) ⟨0, 0, 0, 0, ⟨output, 1⟩⟩
      (⟨0, 0, 0, 0, []⟩ : XorCodec.Encoder width) :=
    ⟨rfl, rfl, rfl, rfl, holds_start sized (Nat.succ_pos _)⟩
  have follows : Follows (input.length * layout.valueBytes + 1)
      (Holds (input.length * layout.valueBytes + 1)) (XorCodec.packed layout input) _ :=
    (@xorSteps_follow _ _ layout _ _ same input).bind fun _ _ last => xorTail_follows last
  rw [<- raw] at follows
  obtain ⟨behind, finished, whole⟩ := @Follows.finishes 0 1 _ _ _ follows
  refine ⟨_, behind, rfl, ?_, ?_⟩
  · rw [compress_encoding, <- finished, raw]
    rfl
  · rw [compress_encoding, whole, raw]

end Xor

section

variable {type : IntType} {input : List type.Value}
  (produced : IntegerCodec.tsCompressINTImp type input ≠ none)

include produced

theorem int_encoding : IntegerCodec.tsCompressINTImp type input =
      some ((IntegerCodec.compressLoop (input.length * type.wordLength + 1) input.length 0 []
        (input.map widen)).toOption.elim (1 :: encodeWords type.wordLength input) (0 :: ·)) := by
  unfold IntegerCodec.tsCompressINTImp at produced ⊢
  simp only at produced ⊢
  split at produced
  next out packed => rw [packed]; rfl
  next full => rw [full]; rfl
  next past => exact absurd rfl produced
  next stuck => exact absurd rfl produced

theorem int_storesInside :
    StoresInside (input.length * type.wordLength + 1) (IntegerCodec.tsCompressINTImp type input)
      (tsCompressINTInto type input) := by
  intro output sized
  have raw : (encodeWords type.wordLength input).length = input.length * type.wordLength :=
    encodeWords_length type.wordLength _
  have start := holds_start sized (Nat.succ_pos _)
  have inTable : IntegerCodec.compressLoop (input.length * type.wordLength + 1) input.length 0 []
      (input.map widen) ≠ .error .pastTable := by
    intro past
    exact produced (by simp only [IntegerCodec.tsCompressINTImp, past])
  have progress : IntegerCodec.compressLoop (input.length * type.wordLength + 1) input.length 0 []
      (input.map widen) ≠ .error .noProgress := by
    intro stuck
    exact produced (by simp only [IntegerCodec.tsCompressINTImp, stuck])
  have encoding := int_encoding produced
  have follows := packWords_follows start inTable progress
  rw [<- raw] at follows encoding
  obtain ⟨behind, finished, whole⟩ := @Follows.finishes 0 1 _ _ _ follows
  refine ⟨_, behind, encoding, ?_, ?_⟩
  · rw [<- finished, raw]
    rfl
  · rw [whole, raw]

end

/-- The encoders of integers, timestamps and doubles store inside `n * w + 1` bytes and read
inside their tables exactly if no word of the integers meets a wide delta. -/
theorem stores_inside_iff (type : IntType) (integers : List type.Value)
    (timestamps doubles : List (BitVec 64)) : (StoresInside (integers.length * type.wordLength + 1)
        (IntegerCodec.tsCompressINTImp type integers) (tsCompressINTInto type integers) ∧
      StoresInside (timestamps.length * 8 + 1)
        (some (TimestampCodec.tsCompressTimestampImp timestamps))
        (tsCompressTimestampInto timestamps) ∧
      StoresInside (doubles.length * 8 + 1) (some (DoubleCodec.tsCompressDoubleImp doubles))
        (tsCompressDoubleInto doubles)) ↔
    ¬∃ prev values, IntegerReach.WordStart (integers.map widen) prev values ∧
      IntegerReach.MeetsWideDelta prev values := by
  rw [<- IntegerReach.tsCompressINTImp_eq_none_iff]
  constructor
  · rintro ⟨inside, -, -⟩ missing
    obtain ⟨bytes, rest, encoding, -⟩ := inside (zeros (integers.length * type.wordLength + 1))
      (List.length_replicate ..)
    rw [missing] at encoding
    cases encoding
  · intro produced
    exact ⟨int_storesInside produced, timestamp_storesInside timestamps,
      compress_storesInside DoubleCodec.doubleLayout doubles⟩

/-- The single value 2^59 is looked up behind the table of selectors. -/
theorem wide_value_outside : ¬∀ (type : IntType) (integers : List type.Value),
    StoresInside (integers.length * type.wordLength + 1)
      (IntegerCodec.tsCompressINTImp type integers) (tsCompressINTInto type integers) := by
  intro all
  obtain ⟨bytes, rest, encoding, -⟩ := all .bigint [0x0800000000000000#64] (zeros 9) rfl
  have past : IntegerCodec.tsCompressINTImp .bigint [0x0800000000000000#64] = none := by
    decide +kernel
  rw [past] at encoding
  cases encoding

end Luomi.CodecStores
