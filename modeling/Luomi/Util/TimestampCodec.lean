import Luomi.Base.NibblePairs
import Luomi.Util.IntegerCodec

/-!
# The timestamp codec (`tsCompressTimestampImp`, `tsDecompressTimestampImp`)

Timestamps are stored as zig-zag differences of successive deltas, each cut to
its significant bytes; two of them share a byte that holds their lengths.  The
first value passes through the same arithmetic with a previous delta of
`-istream[0]`, which leaves the value itself.
-/

namespace Luomi.TimestampCodec

open LittleEndian NibblePairs ZigZag IntegerCodec

/-- `LONG_BYTES - __builtin_clzll(dd) / BITS_PER_BYTE`, or 0 for 0. -/
def flagOf (dd : BitVec 64) : UInt8 :=
  if dd = 0 then 0 else UInt8.ofNat (8 - dd.clz.toNat / 8)

/-- The variables of the encoding loop; `out` is `output[1 .. _pos - 1]`. -/
structure Encoder where
  i : Nat
  prevValue : BitVec 64
  prevDelta : BitVec 64
  flag1 : UInt8
  dd1 : BitVec 64
  out : List UInt8

/-- One `memcpy` to `output + _pos` behind its test against the raw size. -/
def store (limit : Nat) (out bytes : List UInt8) : Option (List UInt8) :=
  if limit ≤ out.length + 1 + bytes.length - 1 then none else some (out ++ bytes)

/-- One iteration; `none` is `goto _exit_over`. -/
def step (limit : Nat) (state : Encoder) (curr : BitVec 64) : Option Encoder :=
  if !safeInt64Add curr (-state.prevValue) then none
  else
    let currDelta := curr - state.prevValue
    if !safeInt64Add currDelta (-state.prevDelta) then none
    else
      let dd := zigzag (currDelta - state.prevDelta)
      if state.i % 2 = 0 then
        some { state with
          i := state.i + 1, prevValue := curr, prevDelta := currDelta,
          flag1 := flagOf dd, dd1 := dd }
      else do
        let flag2 := flagOf dd
        let out <- store limit state.out [header state.flag1 flag2]
        let out <- store limit out (leBytes state.flag1.toNat state.dd1.toNat)
        let out <- store limit out (leBytes flag2.toNat dd.toNat)
        return { state with
          i := state.i + 1, prevValue := curr, prevDelta := currDelta, out := out }

def encodeLoop (limit : Nat) : Encoder -> List (BitVec 64) -> Option Encoder
  | state, [] => some state
  | state, curr :: rest => do
      let state <- step limit state curr
      encodeLoop limit state rest

/-- `if (nelements % 2 == 1)`: the last element of an odd column. -/
def encodeTail (limit : Nat) (state : Encoder) : Option (List UInt8) :=
  if state.i % 2 = 1 then do
    let out <- store limit state.out [header state.flag1 0]
    store limit out (leBytes state.flag1.toNat state.dd1.toNat)
  else some state.out

/-- `tsCompressTimestampImp`: the bytes it returns the count of. -/
def tsCompressTimestampImp (input : List (BitVec 64)) : List UInt8 :=
  match input with
  | [] => []
  | first :: _ =>
    let limit := input.length * 8
    let start : Encoder := ⟨0, first, -first, 0, 0, []⟩
    match (encodeLoop limit start input).bind (encodeTail limit) with
    | some out => 1 :: out
    | none => 0 :: encodeWords 8 input

/-- Decoding of one `delta_of_delta` of `nbytes` bytes; a longer one than the
variable it is copied to has no defined result. -/
def readDelta (nbytes : Nat) (ip : List UInt8) : Option (BitVec 64 × List UInt8) :=
  if nbytes = 0 then some (0, ip)
  else if 8 < nbytes ∨ ip.length < nbytes then none
  else some (unzigzag (wordOf 64 (ip.take nbytes)), ip.drop nbytes)

/-- The decoding loop; `left` is `nelements - opos` and `first` is `opos == 0`. -/
def decodeLoop : Bool -> Nat -> BitVec 64 -> BitVec 64 -> List UInt8 -> Option (List (BitVec 64))
  | _, 0, _, _, _ => some []
  | _, _ + 1, _, _, [] => none
  | first, left + 1, prevValue, prevDelta, flags :: ip => do
      let (dd, ip) <- readDelta (lowNibble flags).toNat ip
      let prevDelta := if first then 0 else dd + prevDelta
      let prevValue := if first then dd else prevValue + prevDelta
      match left with
      | 0 => return [prevValue]
      | left + 1 =>
        let (dd, ip) <- readDelta (highNibble flags).toNat ip
        let nextDelta := dd + prevDelta
        let nextValue := prevValue + nextDelta
        let rest <- decodeLoop false left nextValue nextDelta ip
        return prevValue :: nextValue :: rest

/-- `tsDecompressTimestampImp`; `none` stands for its failed `assert` and for
reads past the end of the input. -/
def tsDecompressTimestampImp (input : List UInt8) (nelements : Nat) :
    Option (List (BitVec 64)) :=
  if nelements = 0 then some []
  else
    match input with
    | [] => none
    | indicator :: ip =>
      if indicator = 0 then decodeWords 64 8 nelements ip
      else if indicator = 1 then decodeLoop true nelements 0 0 ip
      else none

end Luomi.TimestampCodec
