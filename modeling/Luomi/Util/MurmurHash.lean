import Mathlib.Tactic

/-!
# The hash of a key (`thashutil.c`)
-/

namespace Luomi.MurmurHash

def rotl32 (x r : UInt32) : UInt32 := (x <<< r) ||| (x >>> (32 - r))

/-- `k1 *= c1; k1 = ROTL32(k1, 15); k1 *= c2`. -/
def scramble (k1 : UInt32) : UInt32 := rotl32 (k1 * 0xcc9e2d51) 15 * 0x1b873593

def fmix32 (h : UInt32) : UInt32 :=
  let h := (h ^^^ (h >>> 16)) * 0x85ebca6b
  let h := (h ^^^ (h >>> 13)) * 0xc2b2ae35
  h ^^^ (h >>> 16)

def mixBytes (h1 : UInt32) : List UInt8 -> UInt32
  | b0 :: b1 :: b2 :: b3 :: rest =>
    let k1 := b0.toUInt32 ||| (b1.toUInt32 <<< 8) ||| (b2.toUInt32 <<< 16) |||
      (b3.toUInt32 <<< 24)
    mixBytes (rotl32 (h1 ^^^ scramble k1) 13 * 5 + 0xe6546b64) rest
  | [b0, b1, b2] =>
    h1 ^^^ scramble ((b2.toUInt32 <<< 16) ^^^ (b1.toUInt32 <<< 8) ^^^ b0.toUInt32)
  | [b0, b1] => h1 ^^^ scramble ((b1.toUInt32 <<< 8) ^^^ b0.toUInt32)
  | [b0] => h1 ^^^ scramble b0.toUInt32
  | [] => h1

def murmurHash3_32 (key : List UInt8) : UInt32 :=
  fmix32 (mixBytes 0x12345678 key ^^^ UInt32.ofNat key.length)

end Luomi.MurmurHash
