import Luomi.Util.BoolCodec
import Luomi.Util.DoubleCodec
import Luomi.Util.FloatCodec
import Luomi.Util.StringCodec
import Luomi.Util.TimestampCodec

/-!
# One-step compression of the embedded database (`compress.c`)

A flushed column is the output of its type's codec, padded to the next multiple
of four (by one to four bytes) and closed by a checksum of all of it.  The
recorded length of a column counts the padding, and `decompressTaosOneStep`
hands the codec everything in front of the checksum.
-/

namespace Luomi.Edb.Compress

open LittleEndian XorCodec BoolCodec DoubleCodec FloatCodec IntegerCodec StringCodec TimestampCodec

inductive ColType where
  | bool
  | tinyInt
  | smallInt
  | int
  | bigInt
  | float
  | double
  | string
  | timestamp
  deriving DecidableEq

def gColTypeSize : ColType -> Nat
  | .bool => 1
  | .tinyInt => 1
  | .smallInt => 2
  | .int => 4
  | .bigInt => 8
  | .float => 4
  | .double => 8
  | .string => 32
  | .timestamp => 8

/-- What the code runs on: the shifts C leaves undefined, the LZ4 library and the
checksum function. -/
structure Machine where
  shifts : Shifts 32
  lz4 : Lz4
  crc32c : List UInt8 -> UInt32

variable (machine : Machine)

section

variable (type : ColType) (input : List UInt8) (nelements outputSize : Nat)

/-- `gTaosCompFunc[type]` in one stage; `none` is an exit or no defined result. -/
def gTaosCompFunc : Option (List UInt8) :=
  match type with
  | .bool => tsCompressBoolImp input
  | .tinyInt => (decodeWords 8 1 nelements input).bind (tsCompressINTImp .tinyint)
  | .smallInt => (decodeWords 16 2 nelements input).bind (tsCompressINTImp .smallint)
  | .int => (decodeWords 32 4 nelements input).bind (tsCompressINTImp .int)
  | .bigInt => (decodeWords 64 8 nelements input).bind (tsCompressINTImp .bigint)
  | .float => (decodeWords 32 4 nelements input).map (tsCompressFloatImp machine.shifts)
  | .double => (decodeWords 64 8 nelements input).map tsCompressDoubleImp
  | .string => some (tsCompressStringImp machine.lz4 input outputSize)
  | .timestamp => (decodeWords 64 8 nelements input).map tsCompressTimestampImp

/-- `gTaosDecompFunc[type]` in one stage: the bytes written to the output. -/
def gTaosDecompFunc : Option (List UInt8) :=
  match type with
  | .bool => tsDecompressBoolImp input nelements
  | .tinyInt => (tsDecompressINTImp .tinyint input nelements).map (encodeWords 1)
  | .smallInt => (tsDecompressINTImp .smallint input nelements).map (encodeWords 2)
  | .int => (tsDecompressINTImp .int input nelements).map (encodeWords 4)
  | .bigInt => (tsDecompressINTImp .bigint input nelements).map (encodeWords 8)
  | .float => (tsDecompressFloatImp machine.shifts input nelements).map (encodeWords 4)
  | .double => (tsDecompressDoubleImp input nelements).map (encodeWords 8)
  | .string => tsDecompressStringImp machine.lz4 input outputSize
  | .timestamp => (tsDecompressTimestampImp input nelements).map (encodeWords 8)

end

/-- `size += 4 - size%4`: the bytes the output buffer happens to hold there. -/
def padding (stale : Nat -> UInt8) (size : Nat) : List UInt8 :=
  (List.range (4 - size % 4)).map fun index => stale (size + index)

def taosCalcChecksumAppend (stream : List UInt8) : List UInt8 :=
  stream ++ leBytes 4 (machine.crc32c stream).toNat

def taosCheckChecksumWhole (stream : List UInt8) : Bool :=
  if stream.length < 4 then false
  else leValue (stream.drop (stream.length - 4)) =
    (machine.crc32c (stream.take (stream.length - 4))).toNat

/-- The loop body of `compressTaosOneStep` for one column: the bytes written to
the record file.  `stale` is what the output buffer holds from before. -/
def compressTaosOneStep (stale : Nat -> UInt8) (maxColSize : Nat) (type : ColType)
    (pInput : List UInt8) (inputCount : Nat) : Option (List UInt8) := do
  let outSize := maxColSize * inputCount + 4
  let output <- gTaosCompFunc machine type pInput inputCount outSize
  return taosCalcChecksumAppend machine (output ++ padding stale output.length)

/-- `decompressTaosOneStep`: its return code and what it leaves in `pOutput`.
`pInput` has the recorded length of the column. -/
def decompressTaosOneStep (type : ColType) (pInput : List UInt8) (rowCount outSize : Nat) :
    Option (Int × List UInt8) := do
  let pOutput <- gTaosDecompFunc machine type (pInput.take (pInput.length - 4)) rowCount outSize
  let size := pOutput.length
  return (if size ≠ gColTypeSize type * rowCount then -3 else 0, pOutput)

end Luomi.Edb.Compress
