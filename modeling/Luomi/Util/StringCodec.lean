import Luomi.Base.LittleEndian

/-!
# The string codec (`tsCompressStringImp`, `tsDecompressStringImp`)

Strings are packed by LZ4 and kept as they are where that does not help.  LZ4 is
taken as a pair of functions with the properties the codec and its callers meet
it with.
-/

namespace Luomi.StringCodec

/-- `LZ4_compress_default` and `LZ4_decompress_safe`.  `none` stands for a result
that is not positive, or negative.  A block has to end where its last literals
end: `LZ4_decompress_generic` takes any byte behind them for an error, here for
the one to four bytes a caller may have added. -/
structure Lz4 where
  compressDefault : List UInt8 -> Int -> Option (List UInt8)
  decompressSafe : List UInt8 -> Nat -> Option (List UInt8)
  decompress_exact : ∀ {input packed : List UInt8} {size : Int} {capacity : Nat},
    compressDefault input size = some packed -> input.length ≤ capacity ->
      decompressSafe packed capacity = some input
  decompress_longer : ∀ {input packed extra : List UInt8} {size : Int} (capacity : Nat),
    compressDefault input size = some packed -> 1 ≤ extra.length -> extra.length ≤ 4 ->
      decompressSafe (packed ++ extra) capacity = none

/-- A library that finds nothing to compress, as LZ4 does on short strings. -/
instance : Inhabited Lz4 where
  default :=
    { compressDefault := fun _ _ => none
      decompressSafe := fun _ _ => none
      decompress_exact := by intro _ _ _ _ run; cases run
      decompress_longer := by intro _ _ _ _ _ run; cases run }

variable (lz4 : Lz4)

section

variable (input : List UInt8)

def tsCompressStringImp (outputSize : Int) : List UInt8 :=
  match lz4.compressDefault input (outputSize - 1) with
  | some packed => if packed.length > input.length then 0 :: input else 1 :: packed
  | none => 0 :: input

/-- The bytes written, or `none` when the process exits. -/
def tsDecompressStringImp (outputSize : Nat) : Option (List UInt8) :=
  match input with
  | [] => none
  | indicator :: data =>
    if indicator = 1 then lz4.decompressSafe data outputSize
    else if indicator = 0 then some data
    else none

theorem tsDecompressStringImp_longer (outputSize : Int) (capacity : Nat) {extra : List UInt8}
    (some' : 1 ≤ extra.length) (few : extra.length ≤ 4) :
    tsDecompressStringImp lz4 (tsCompressStringImp lz4 input outputSize ++ extra) capacity ≠
      some input := by
  have raw : tsDecompressStringImp lz4 ((0 :: input) ++ extra) capacity ≠ some input := by
    intro same
    have lengths : input ++ extra = input := Option.some.inj same
    have := congrArg List.length lengths
    rw [List.length_append] at this
    omega
  unfold tsCompressStringImp
  split
  · rename_i packed run
    split
    · exact raw
    · have error : tsDecompressStringImp lz4 ((1 :: packed) ++ extra) capacity = none :=
        lz4.decompress_longer capacity run some' few
      rw [error]
      intro same
      cases same
  · exact raw

end

end Luomi.StringCodec
