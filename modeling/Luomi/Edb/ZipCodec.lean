import Luomi.Base.StreamCodec
import Luomi.Edb.OneStepBounds

/-!
# Compression with zlib (`compress.c`)

`zipCompress` and `zipDeCompress` drive the streaming library; the types "zlib" and
"zstd" of a database both use them, with different sizes for the output.  A result of
`none` means that C writes behind a buffer or that a loop does not end; a failure of
`malloc` or of `deflateInit2` is not modelled.
-/

namespace Luomi.Edb.ZipCodec

open StreamCodec Compress Database OneStepBounds

section Zip

variable (codec : CodecPair)

/-- The fields of `z_stream` that `zipCompress` goes by; `total_out` is the length of
what has been written. -/
structure DeflateStream where
  state : codec.Deflating
  nextIn : Bytes
  availOut : Nat
  written : Bytes

variable {codec} in
def DeflateStream.deflate (stream : DeflateStream codec) (flush : Flush) :
    Code × DeflateStream codec :=
  let answer := codec.deflate stream.state flush stream.nextIn stream.availOut
  (answer.code,
    { state := answer.state
      nextIn := stream.nextIn.drop answer.taken
      availOut := stream.availOut - answer.produced.length
      written := stream.written ++ answer.produced })

def flushLoop (nDestData : Nat) : Nat -> DeflateStream codec -> Option (Int × DeflateStream codec)
  | 0, _ => none
  | fuel + 1, stream =>
    if stream.nextIn ≠ [] ∧ stream.written.length < nDestData then
      let (code, next) := stream.deflate .fullFlush
      if code ≠ .ok then some (-1, next) else flushLoop nDestData fuel next
    else some (0, stream)

def finishLoop : Nat -> DeflateStream codec -> Option (Int × DeflateStream codec)
  | 0, _ => none
  | fuel + 1, stream =>
    let (code, next) := stream.deflate .finish
    if code = .streamEnd then some (0, next)
    else if code ≠ .ok then some (-2, next)
    else finishLoop fuel next

/-- `zipCompress` behind `zipCompressInit`: the return code, `*nDestData` and what has
been written to `destData`. -/
def zipCompress (srcData : Bytes) (nDestData : Nat) : Option (Int × Nat × Bytes) :=
  let fuel := srcData.length + nDestData + 2
  (flushLoop codec nDestData fuel ⟨codec.deflateInit, srcData, nDestData, []⟩).bind
    fun (err, stream) =>
      if err ≠ 0 then some (err, nDestData, stream.written)
      else if stream.nextIn ≠ [] then some (stream.nextIn.length, nDestData, stream.written)
      else
        (finishLoop codec fuel stream).bind fun (err, stream) =>
          if err ≠ 0 then some (err, nDestData, stream.written)
          else if codec.deflateEnd stream.state ≠ .ok then some (-3, nDestData, stream.written)
          else some (0, stream.written.length, stream.written)

/-- The fields of `z_stream` that `zipDeCompress` goes by; `nextIn` is all the memory
from `next_in` on. -/
structure InflateStream where
  state : codec.Inflating
  nextIn : Bytes
  totalIn : Nat
  availOut : Nat
  written : Bytes

variable {codec} in
def InflateStream.inflate (stream : InflateStream codec) (availIn : Nat) :
    Code × InflateStream codec :=
  let answer := codec.inflate stream.state (stream.nextIn.take availIn) stream.availOut
  (answer.code,
    { state := answer.state
      nextIn := stream.nextIn.drop answer.taken
      totalIn := stream.totalIn + answer.taken
      availOut := stream.availOut - answer.produced.length
      written := stream.written ++ answer.produced })

def dummyHead : Bytes := [0x78, 0x01]

/-- The loop of `zipDeCompress`; `behindHead` is the memory behind `dummyHead`. -/
def inflateLoop (behindHead : Bytes) (nSrcData nDestData : Nat) :
    Nat -> InflateStream codec -> Option (Int × InflateStream codec)
  | 0, _ => none
  | fuel + 1, stream =>
    if stream.written.length < nDestData ∧ stream.totalIn < nSrcData then
      let (err, next) := { stream with availOut := nSrcData }.inflate nSrcData
      match err with
      | .streamEnd => some (0, next)
      | .ok => inflateLoop behindHead nSrcData nDestData fuel next
      | .dataError =>
        let (err, again) := { next with nextIn := dummyHead ++ behindHead }.inflate
          dummyHead.length
        if err ≠ .ok then some (-2, again)
        else inflateLoop behindHead nSrcData nDestData fuel again
      | _ => some (-3, next)
    else some (0, stream)

/-- `zipDeCompress`: the return code, `*nDestData` and what has been written to
`destData`.  `memory` is what stands in memory from `srcData` on. -/
def zipDeCompress (behindHead memory : Bytes) (nSrcData nDestData : Nat) :
    Option (Int × Nat × Bytes) :=
  (inflateLoop codec behindHead nSrcData nDestData (nSrcData + nDestData + 1)
    ⟨codec.inflateInit, memory, 0, 0, []⟩).map fun (err, stream) =>
      if err ≠ 0 then (err, nDestData, stream.written)
      else if codec.inflateEnd stream.state ≠ .ok then (-4, nDestData, stream.written)
      else (0, stream.written.length, stream.written)

variable (machine : Machine)

/-- What `pOutput` holds up to `size`: what has been written, and what was there. -/
def pOutput (stale : Nat -> UInt8) (written : Bytes) (size : Nat) : Bytes :=
  written ++ (List.range (size - written.length)).map fun index => stale (written.length + index)

section

variable (maxColSize inputCount : Nat) (stale : Nat -> UInt8) (pInput : Bytes)

/-- The loop body of `compressZlib`: the bytes written to the record file.  The
checksum must not be behind the end of the buffer. -/
def zlibColumn : Option Bytes :=
  let outSize := maxColSize * inputCount + 4 + 100
  (zipCompress codec pInput outSize).bind fun (_, size, written) =>
    let size := size + (4 - size % 4)
    if outSize < size + 4 then none
    else some (taosCalcChecksumAppend machine (pOutput stale written size))

/-- The loop body of `compressZstd`. -/
def zstdColumn : Option Bytes :=
  let outSize := maxColSize * inputCount + 4
  (zipCompress codec pInput 0).bind fun (_, size, written) =>
    if outSize < size + 4 then none
    else some (taosCalcChecksumAppend machine (pOutput stale written size))

end

def storeColumns (column : (Nat -> UInt8) -> Bytes -> Option Bytes) (stale : Nat -> Nat -> UInt8) :
    Nat -> List Bytes -> Option (List Bytes)
  | _, [] => some []
  | index, pInput :: rest =>
    (column (stale index) pInput).bind fun stored =>
      (storeColumns column stale (index + 1) rest).map fun others => stored :: others

/-- What a compression leaves: its return code, the record and `colLens`. -/
def recorded (stored : List Bytes) : Nat × Bytes × List Nat :=
  ((stored.map List.length).sum, stored.flatten, stored.map List.length)

section

variable (stale : Nat -> Nat -> UInt8) (maxColSize inputCount : Nat) (inputs : List Bytes)

def compressZlib : Option (Nat × Bytes × List Nat) :=
  (storeColumns (zlibColumn codec machine maxColSize inputCount) stale 0 inputs).map recorded

def compressZstd : Option (Nat × Bytes × List Nat) :=
  (storeColumns (zstdColumn codec machine maxColSize inputCount) stale 0 inputs).map recorded

end

/-- The end of `decompressZlib` and `decompressZstd`; `none` where more than
`outSize` bytes have been written. -/
def checkedSize (type : ColType) (rowCount outSize : Nat) (result : Int × Nat × Bytes) :
    Option (Int × Bytes) :=
  let (_, size, written) := result
  if outSize < written.length then none
  else some (if size ≠ gColTypeSize type * rowCount then -3 else 0, written)

section

variable (behind behindHead : Bytes) (type : ColType) (pInput : Bytes) (rowCount outSize : Nat)

/-- `decompressZlib`: its return code and what it leaves in `pOutput`.  `pInput` has
the recorded length of the column, and `behind` is the memory behind it. -/
def decompressZlib : Option (Int × Bytes) :=
  (zipDeCompress codec behindHead (pInput ++ behind) (pInput.length - 4) outSize).bind
    (checkedSize type rowCount outSize)

def decompressZstd : Option (Int × Bytes) :=
  (zipDeCompress codec behindHead (pInput ++ behind) (pInput.length - 4) 0).bind
    (checkedSize type rowCount outSize)

end

/-- Reading column `col` of a record. -/
def readColumn (record : Bytes) (colLens : List Nat) (col : Nat) : Bytes :=
  (record.drop (colLens.take col).sum).take (colLens.getD col 0)

/-- The two types of compression that use the library. -/
inductive ZipType where
  | zlib
  | zstd

def ZipType.compress : ZipType -> (Nat -> Nat -> UInt8) -> Nat -> Nat -> List Bytes ->
    Option (Nat × Bytes × List Nat)
  | .zlib => compressZlib codec machine
  | .zstd => compressZstd codec machine

def ZipType.decompress : ZipType -> Bytes -> Bytes -> ColType -> Bytes -> Nat -> Nat ->
    Option (Int × Bytes)
  | .zlib => decompressZlib codec
  | .zstd => decompressZstd codec

structure ZipLog extends FilledLog where
  room : rows ≤ head.cacheSize

/-- What the machine holds where the code has not written. -/
structure Memory where
  stale : Nat -> Nat -> UInt8
  behind : Bytes
  behindHead : Bytes

def RoundTrips (type : ZipType) (memory : Memory) (log : ZipLog) : Prop :=
  ∃ totalSize record colLens,
    type.compress codec machine memory.stale log.head.maxColSize log.rows
        (log.columns.map fun column => column.2.bytes) = some (totalSize, record, colLens) ∧
      ∀ col column, log.columns[col]? = some column ->
        type.decompress codec memory.behind memory.behindHead column.1
          (readColumn record colLens col) log.rows (gColTypeSize column.1 * log.head.cacheSize) =
            some (0, column.2.bytes)

/-- The stream of a content, padded and with its checksum, is not longer than the
buffer. -/
def Fits (maxColSize rows : Nat) (content : Bytes) : Prop :=
  (codec.stream content).length + (4 - (codec.stream content).length % 4) + 4 ≤
    maxColSize * rows + 4 + 100

end Zip

end Luomi.Edb.ZipCodec
