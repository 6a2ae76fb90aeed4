import Luomi.Base.BitFields
import Luomi.Base.LittleEndian
import Luomi.Base.ZigZag

/-!
# The Simple8B integer codec (`tsCompressINTImp`, `tsDecompressINTImp`)

Values are read from memory as little-endian words of the column type's width
and widened to 64 bits; all 64-bit arithmetic wraps.  A packed block starts
with the byte 0 and holds one selector and one run of equal-width zig-zag
deltas in each 64-bit word; a raw block starts with the byte 1 and repeats the
input.  `int` counters (`nelements`, `opos`, `byte_limit`) are natural numbers.

The three selector tables are arrays of 16, 16 and 61 entries.  Reading one of
them past its end has no defined result, and the model says so.
-/

namespace Luomi.IntegerCodec

open BitFields LittleEndian ZigZag

/-- The `TSDB_DATA_TYPE_*` codes the integer codec accepts. -/
inductive IntType where
  | tinyint
  | smallint
  | int
  | bigint
  deriving DecidableEq

def IntType.wordLength : IntType -> Nat
  | .tinyint => 1
  | .smallint => 2
  | .int => 4
  | .bigint => 8

abbrev IntType.Value (type : IntType) := BitVec (8 * type.wordLength)

/-- `(int64_t)(*((intN_t *)input + j))`. -/
def widen {type : IntType} (value : type.Value) : BitVec 64 := value.signExtend 64

/-- `*((intN_t *)output + _pos) = curr_value`. -/
def truncate (type : IntType) (value : BitVec 64) : type.Value :=
  value.setWidth (8 * type.wordLength)

def safeInt64Add (a b : BitVec 64) : Bool :=
  !((0 < a.toInt && (2 ^ 63 - 1) - a.toInt < b.toInt) ||
    (a.toInt < 0 && b.toInt < -2 ^ 63 - a.toInt))

def simple8bMaxInt64 : Nat := 2305843009213693951

def bitPerInteger : List Nat := [0, 0, 1, 2, 3, 4, 5, 6, 7, 8, 10, 12, 15, 20, 30, 60]

def selectorToElems : List Nat := [240, 120, 60, 30, 20, 15, 12, 10, 8, 7, 6, 5, 4, 3, 2, 1]

def bitToSelector : List Nat :=
  [0, 2, 3, 4, 5, 6, 7, 8, 9, 10, 10, 11, 11, 12, 12, 12, 13, 13, 13, 13, 13,
   14, 14, 14, 14, 14, 14, 14, 14, 14, 14, 15, 15, 15, 15, 15, 15, 15, 15, 15, 15, 15,
   15, 15, 15, 15, 15, 15, 15, 15, 15, 15, 15, 15, 15, 15, 15, 15, 15, 15, 15]

/-- How the encoder leaves its packing loop other than through the end. -/
inductive Exit where
  /-- `goto _copy_and_exit`: the column is stored raw. -/
  | copyAndExit
  /-- A table is read past its end. -/
  | pastTable
  /-- A word took no element, so the loop would not end. -/
  | noProgress
  deriving DecidableEq

def readTable (table : List Nat) (index : Nat) : Except Exit Nat :=
  match table[index]? with
  | some entry => .ok entry
  | none => .error .pastTable

/-- `tmp_bit`: the number of significant bits of a zig-zag value. -/
def tmpBit (zigzagValue : BitVec 64) : Nat :=
  if zigzagValue = 0 then 0 else 64 - zigzagValue.clz.toNat

structure Word where
  selector : Nat
  bit : Nat
  elems : Nat
  deriving DecidableEq

/-- `while (elems < selector_to_elems[selector]) selector++;` over the rest of
the table. -/
def skipSelectors (elems : Nat) : Nat -> List Nat -> Except Exit Nat
  | _, [] => .error .pastTable
  | selector, room :: rooms =>
    if elems < room then skipSelectors elems (selector + 1) rooms else .ok selector

def closeWord (selector elems : Nat) : Except Exit Word := do
  let selector <- skipSelectors elems selector (selectorToElems.drop selector)
  let elems <- readTable selectorToElems selector
  let bit <- readTable bitPerInteger selector
  return ⟨selector, bit, elems⟩

/-- The loop over `j` that chooses one word.  `prev` is `prev_value`, the value
before the word; `prevTmp` is `prev_value_tmp`. -/
def scan (prev : BitVec 64) :
    BitVec 64 -> Nat -> Nat -> Nat -> List (BitVec 64) -> Except Exit Word
  | _, selector, bit, elems, [] => .ok ⟨selector, bit, elems⟩
  | prevTmp, selector, _, elems, curr :: rest =>
    if !safeInt64Add curr (-prev) then .error .copyAndExit
    else
      let zigzagValue := zigzag (curr - prevTmp)
      if simple8bMaxInt64 ≤ zigzagValue.toNat then .error .copyAndExit
      else do
        let room <- readTable selectorToElems selector
        -- `&&` reads `bit_to_selector` only after its left operand holds.
        if elems + 1 ≤ room then
          let wanted <- readTable bitToSelector (tmpBit zigzagValue)
          let wantedRoom <- readTable selectorToElems wanted
          if elems + 1 ≤ wantedRoom then
            let selector := max selector wanted
            let bit <- readTable bitPerInteger selector
            scan prev curr selector bit (elems + 1) rest
          else closeWord selector elems
        else closeWord selector elems

/-- The loop over `k` that fills `buffer` with the elements of one word. -/
def fillWord (bit : Nat) : Nat -> BitVec 64 -> BitVec 64 -> List (BitVec 64) -> BitVec 64
  | _, _, buffer, [] => buffer
  | k, prev, buffer, curr :: rest =>
    fillWord bit (k + 1) curr
      (buffer ||| ((zigzag (curr - prev) &&& mask 64 bit) <<< (bit * k + 4))) rest

/-- The loop over words.  `out` is `output[1 .. opos - 1]`; fuel bounds the
number of words by the number of elements. -/
def compressLoop (byteLimit : Nat) :
    Nat -> BitVec 64 -> List UInt8 -> List (BitVec 64) -> Except Exit (List UInt8)
  | _, _, out, [] => .ok out
  | 0, _, _, _ :: _ => .error .noProgress
  | fuel + 1, prev, out, values@(_ :: _) => do
      let word <- scan prev prev 0 0 0 values
      let taken := values.take word.elems
      let buffer := fillWord word.bit 0 prev (BitVec.ofNat 64 word.selector) taken
      if out.length + 1 + 8 ≤ byteLimit then
        compressLoop byteLimit fuel (taken.getLastD prev) (out ++ leBytes 8 buffer.toNat)
          (values.drop word.elems)
      else .error .copyAndExit

/-- `tsCompressINTImp`: the bytes it returns the count of, or `none` when the
encoder reads one of its tables past the end. -/
def tsCompressINTImp (type : IntType) (input : List type.Value) : Option (List UInt8) :=
  let byteLimit := input.length * type.wordLength + 1
  match compressLoop byteLimit input.length 0 [] (input.map widen) with
  | .ok out => some (0 :: out)
  | .error .copyAndExit => some (1 :: encodeWords type.wordLength input)
  | .error .pastTable => none
  | .error .noProgress => none

/-- The loop over `i` that reads the next `count` fields of the word `w`. -/
def unpackWord (w : BitVec 64) (selector bit : Nat) :
    Nat -> Nat -> BitVec 64 -> List (BitVec 64)
  | 0, _, _ => []
  | count + 1, i, prev =>
    let zigzagValue :=
      if selector = 0 ∨ selector = 1 then 0 else (w >>> (4 + bit * i)) &&& mask 64 bit
    let curr := unzigzag zigzagValue + prev
    curr :: unpackWord w selector bit count (i + 1) curr

/-- The loop over words of the decoder; `left` is `nelements - count`. -/
def decompressLoop : Nat -> Nat -> BitVec 64 -> List UInt8 -> Option (List (BitVec 64))
  | _, 0, _, _ => some []
  | 0, _ + 1, _, _ => none
  | fuel + 1, left@(_ + 1), prev, ip =>
    if ip.length < 8 then none
    else do
      let w := wordOf 64 (ip.take 8)
      let selector := (w &&& mask 64 4).toNat
      let bit <- bitPerInteger[selector]?
      let elems <- selectorToElems[selector]?
      let values := unpackWord w selector bit (min elems left) 0 prev
      let rest <- decompressLoop fuel (left - min elems left) (values.getLastD prev)
        (ip.drop 8)
      return values ++ rest

/-- `tsDecompressINTImp`: the elements written, or `none` when it would read
past the end of the input. -/
def tsDecompressINTImp (type : IntType) (input : List UInt8) (nelements : Nat) :
    Option (List type.Value) :=
  match input with
  | [] => none
  | indicator :: ip =>
    if indicator = 1 then decodeWords _ type.wordLength nelements ip
    else (decompressLoop nelements nelements 0 ip).map (List.map (truncate type))

end Luomi.IntegerCodec
