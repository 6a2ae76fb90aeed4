import Luomi.Base.BitFields
import Luomi.Base.NibblePairs

/-!
# The float and double codecs

`tsCompressDoubleImp` and `tsCompressFloatImp` are one algorithm at two widths.
Each value is xor-ed with the one before it and the difference is cut at its
leading or at its trailing zero bytes; a flag holds the choice and the number
of bytes kept, and two flags share a byte.

A shift by a negative amount or by the width and more has no defined result in
C.  The codec is therefore modelled over the machine's shifts, of which only
the defined ones are fixed.
-/

namespace Luomi.XorCodec

open LittleEndian NibblePairs

structure Shifts (width : Nat) where
  right : BitVec width -> Int -> BitVec width
  left : BitVec width -> Int -> BitVec width
  right_defined : ∀ (word : BitVec width) (shift : Nat), shift < width ->
    right word shift = word >>> shift
  left_defined : ∀ (word : BitVec width) (shift : Nat), shift < width ->
    left word shift = word <<< shift

/-- What the two codecs differ in: the size of a value, and the builtins that
count the zeros of a difference that is not 0. -/
structure Layout (width : Nat) where
  valueBytes : Nat
  clz : BitVec width -> Nat
  ctz : BitVec width -> Nat
  shifts : Shifts width

variable {width : Nat}

/-- The flag of a difference; the subtractions are on `uint8_t`. -/
def flagOf (layout : Layout width) (diff : BitVec width) : UInt8 :=
  let leadingZeros := if diff = 0 then width else layout.clz diff
  let trailingZeros := if diff = 0 then width else layout.ctz diff
  if trailingZeros > leadingZeros then
    let nbytes := UInt8.ofNat layout.valueBytes - UInt8.ofNat (trailingZeros / 8)
    let nbytes := if nbytes > 0 then nbytes - 1 else nbytes
    ((1 : UInt8) <<< 3) ||| nbytes
  else
    let nbytes := UInt8.ofNat layout.valueBytes - UInt8.ofNat (leadingZeros / 8)
    if nbytes > 0 then nbytes - 1 else nbytes

/-- `(flag & INT8MASK(3)) + 1`. -/
def byteCount (flag : UInt8) : Nat := (flag &&& 7).toNat + 1

/-- `nshift` and `shift_width`. -/
def shiftWidth (width : Nat) (flag : UInt8) : Int :=
  ((width : Int) - byteCount flag * 8) * (flag >>> 3).toNat

/-- `encodeDoubleValue` and `encodeFloatValue`: the bytes they append. -/
def encodeValue (layout : Layout width) (diff : BitVec width) (flag : UInt8) : List UInt8 :=
  leBytes (byteCount flag) (layout.shifts.right diff (shiftWidth width flag)).toNat

/-- The variables of the encoding loop; `out` is `output[1 .. opos - 1]`. -/
structure Encoder (width : Nat) where
  i : Nat
  prevValue : BitVec width
  prevDiff : BitVec width
  prevFlag : UInt8
  out : List UInt8

/-- One iteration; `none` is the return with the raw copy. -/
def step (layout : Layout width) (byteLimit : Nat) (state : Encoder width)
    (curr : BitVec width) : Option (Encoder width) :=
  let predicted := state.prevValue
  let diff := curr ^^^ predicted
  let flag := flagOf layout diff
  if state.i % 2 = 0 then
    some { state with i := state.i + 1, prevValue := curr, prevDiff := diff, prevFlag := flag }
  else
    let nbyte1 := byteCount state.prevFlag
    let nbyte2 := byteCount flag
    if state.out.length + 1 + 1 + nbyte1 + nbyte2 ≤ byteLimit then
      some { state with
        i := state.i + 1, prevValue := curr,
        out := state.out ++ header state.prevFlag flag ::
          (encodeValue layout state.prevDiff state.prevFlag ++ encodeValue layout diff flag) }
    else none

def encodeLoop (layout : Layout width) (byteLimit : Nat) :
    Encoder width -> List (BitVec width) -> Option (Encoder width)
  | state, [] => some state
  | state, curr :: rest => do
      let state <- step layout byteLimit state curr
      encodeLoop layout byteLimit state rest

/-- `if (nelements % 2)`: the last value of an odd column. -/
def encodeTail (layout : Layout width) (byteLimit : Nat) (state : Encoder width) :
    Option (List UInt8) :=
  if state.i % 2 = 1 then
    let nbyte1 := byteCount state.prevFlag
    let nbyte2 := 1
    if state.out.length + 1 + 1 + nbyte1 + nbyte2 ≤ byteLimit then
      some (state.out ++ state.prevFlag ::
        (encodeValue layout state.prevDiff state.prevFlag ++ encodeValue layout 0 0))
    else none
  else some state.out

/-- The packed column behind its indicator byte, or `none` when it is no
smaller than the values themselves. -/
def packed (layout : Layout width) (input : List (BitVec width)) : Option (List UInt8) :=
  let byteLimit := input.length * layout.valueBytes + 1
  (encodeLoop layout byteLimit ⟨0, 0, 0, 0, []⟩ input).bind (encodeTail layout byteLimit)

def compress (layout : Layout width) (input : List (BitVec width)) : List UInt8 :=
  match packed layout input with
  | some out => 0 :: out
  | none => 1 :: encodeWords layout.valueBytes input

/-- The loop of `decodeDoubleValue` and `decodeFloatValue` over the bytes of a
difference. -/
def orBytes (shifts : Shifts width) : Nat -> BitVec width -> List UInt8 -> BitVec width
  | _, diff, [] => diff
  | i, diff, byte :: rest =>
    orBytes shifts (i + 1)
      (diff ||| shifts.left (BitVec.ofNat width byte.toNat) ((8 * i : Nat) : Int)) rest

/-- `decodeDoubleValue` and `decodeFloatValue`: the difference and the rest of
the input, or `none` past its end. -/
def decodeValue (layout : Layout width) (flag : UInt8) (input : List UInt8) :
    Option (BitVec width × List UInt8) :=
  if input.length < byteCount flag then none
  else
    let diff := orBytes layout.shifts 0 0 (input.take (byteCount flag))
    some (layout.shifts.left diff (shiftWidth width flag), input.drop (byteCount flag))

/-- The decoding loop; `left` is `nelements - i`. -/
def decodeLoop (layout : Layout width) :
    Nat -> Nat -> UInt8 -> BitVec width -> List UInt8 -> Option (List (BitVec width))
  | 0, _, _, _, _ => some []
  | left + 1, i, flags, prevValue, input => do
      let (flags, input) <-
        if i % 2 = 0 then
          match input with
          | [] => none
          | flags :: input => some (flags, input)
        else some (flags, input)
      let flag := flags &&& 15
      let (diff, input) <- decodeValue layout flag input
      let curr := prevValue ^^^ diff
      let rest <- decodeLoop layout left (i + 1) (flags >>> 4) curr input
      return curr :: rest

def decompress (layout : Layout width) (input : List UInt8) (nelements : Nat) :
    Option (List (BitVec width)) :=
  match input with
  | [] => none
  | indicator :: input =>
    if indicator = 1 then decodeWords width layout.valueBytes nelements input
    else decodeLoop layout nelements 0 0 0 input

end Luomi.XorCodec
