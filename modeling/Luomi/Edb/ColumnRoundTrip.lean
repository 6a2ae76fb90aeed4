import Luomi.Edb.Compress
import Luomi.Util.IntegerReach
import Luomi.Util.TimestampRoundTrip

/-!
# Which columns survive one-step compression

The checksum of a stored column always matches.  Codecs driven by the number of
elements do not see the padding behind their output; the string codec is driven
by the length it is given and takes the padding for a part of the column.
-/

namespace Luomi.Edb.ColumnRoundTrip

open LittleEndian XorCodec BoolCodec DoubleCodec FloatCodec IntegerCodec StringCodec TimestampCodec
open IntegerRoundTrip IntegerReach TimestampRoundTrip Compress
open Option (bind_some map_some some_ne_none)

/-- The content of a column of one block: at least one row, and bools as they
may be written. -/
structure Column (type : ColType) where
  rows : Nat
  bytes : List UInt8
  nonempty : 1 ≤ rows
  whole : bytes.length = rows * gColTypeSize type
  bools : type = .bool -> ∀ value ∈ bytes, value = 0 ∨ value = 1 ∨ value = boolNull

def Column.words {type : ColType} (width size : Nat) (column : Column type) :
    List (BitVec width) :=
  (decodeWords width size column.rows column.bytes).getD []

/-- Compressing a column, checking the stored bytes and decompressing them with
the recorded length gives its bytes back and the code 0. -/
def ColumnRestored (machine : Machine) (stale : Nat -> UInt8) (maxColSize outSize : Nat)
    {type : ColType} (column : Column type) : Prop :=
  ∃ stored,
    compressTaosOneStep machine stale maxColSize type column.bytes column.rows = some stored ∧
    taosCheckChecksumWhole machine stored = true ∧
    decompressTaosOneStep machine type stored column.rows outSize = some (0, column.bytes)

def Survives {type : ColType} (column : Column type) : Prop :=
  match type with
  | .bigInt => ¬ ∃ prev values,
      WordStart ((column.words 64 8).map (@widen .bigint)) prev values ∧
        MeetsWideDelta prev values
  | .float => (∀ value ∈ column.words 32 4, value = 0) ∨ RawSized (column.words 32 4)
  | .string => False
  | _ => True

section Framing

variable (machine : Machine)

theorem padding_length (stale : Nat -> UInt8) (size : Nat) :
    1 ≤ (padding stale size).length ∧ (padding stale size).length ≤ 4 := by
  rw [padding, List.length_map, List.length_range]
  omega

theorem take_taosCalcChecksumAppend (stream : List UInt8) :
    (taosCalcChecksumAppend machine stream).take
      ((taosCalcChecksumAppend machine stream).length - 4) = stream := by
  rw [taosCalcChecksumAppend, List.length_append, leBytes_length, Nat.add_sub_cancel,
    List.take_left' rfl]

theorem taosCheckChecksumWhole_append (stream : List UInt8) :
    taosCheckChecksumWhole machine (taosCalcChecksumAppend machine stream) = true := by
  have long : ¬ (taosCalcChecksumAppend machine stream).length < 4 := by
    rw [taosCalcChecksumAppend, List.length_append, leBytes_length]
    omega
  have sum : (taosCalcChecksumAppend machine stream).drop
      ((taosCalcChecksumAppend machine stream).length - 4) =
        leBytes 4 (machine.crc32c stream).toNat := by
    rw [taosCalcChecksumAppend, List.length_append, leBytes_length, Nat.add_sub_cancel,
      List.drop_left' rfl]
  have fits : (machine.crc32c stream).toNat < 256 ^ 4 := (machine.crc32c stream).toNat_lt
  rw [taosCheckChecksumWhole, if_neg long, take_taosCalcChecksumAppend, sum,
    leValue_leBytes_of_lt fits, decide_eq_true rfl]

/-- A column comes back exactly if its codec restores it from its output with the
padding behind it. -/
theorem columnRestored_iff (stale : Nat -> UInt8) (maxColSize outSize : Nat) {type : ColType}
    (column : Column type) : ColumnRestored machine stale maxColSize outSize column ↔
      ∃ output, gTaosCompFunc machine type column.bytes column.rows
          (maxColSize * column.rows + 4) = some output ∧
        gTaosDecompFunc machine type (output ++ padding stale output.length) column.rows outSize =
          some column.bytes := by
  constructor
  · rintro ⟨stored, compressed, -, decompressed⟩
    obtain ⟨output, run, same⟩ := Option.bind_eq_some_iff.mp compressed
    cases same
    refine ⟨output, run, ?_⟩
    rw [decompressTaosOneStep, take_taosCalcChecksumAppend] at decompressed
    obtain ⟨pOutput, read, result⟩ := Option.bind_eq_some_iff.mp decompressed
    rw [read]
    exact congrArg some (Prod.mk.inj (Option.some.inj result)).2
  · rintro ⟨output, run, read⟩
    refine ⟨taosCalcChecksumAppend machine (output ++ padding stale output.length), ?_,
      taosCheckChecksumWhole_append machine _, ?_⟩
    · rw [compressTaosOneStep]
      simp only [run, bind, Option.bind, pure]
    · have size : column.bytes.length = gColTypeSize type * column.rows := by
        rw [column.whole, Nat.mul_comm]
      rw [decompressTaosOneStep, take_taosCalcChecksumAppend]
      simp [read, size]

theorem columnRestored_of_codec {stale : Nat -> UInt8} {maxColSize outSize : Nat}
    {type : ColType} {column : Column type} (output : List UInt8)
    (run : gTaosCompFunc machine type column.bytes column.rows
      (maxColSize * column.rows + 4) = some output)
    (read : ∀ rest, gTaosDecompFunc machine type (output ++ rest) column.rows outSize =
      some column.bytes) : ColumnRestored machine stale maxColSize outSize column :=
  (columnRestored_iff machine stale maxColSize outSize column).mpr ⟨output, run, read _⟩

end Framing

theorem Column.words_spec {type : ColType} (column : Column type) (width size : Nat)
    (exactly : width = 8 * size) (colSize : gColTypeSize type = size) :
    decodeWords width size column.rows column.bytes = some (column.words width size) ∧
      (column.words width size).length = column.rows ∧
        encodeWords size (column.words width size) = column.bytes := by
  obtain ⟨words, read, length, layout⟩ := encodeWords_decodeWords size exactly column.rows
    column.bytes (by rw [column.whole, colSize])
  have same : column.words width size = words := by rw [Column.words, read, Option.getD_some]
  rw [same]
  exact ⟨read, length, layout⟩

section Codecs

variable (machine : Machine) (stale : Nat -> UInt8) (maxColSize outSize : Nat)

theorem bool_restored (column : Column .bool) :
    ColumnRestored machine stale maxColSize outSize column := by
  obtain ⟨output, run, read⟩ := bool_roundTrip_append (column.bools rfl)
  have length : column.bytes.length = column.rows := by
    rw [column.whole]
    exact Nat.mul_one _
  refine columnRestored_of_codec machine output run ?_
  intro rest
  rw [<- length]
  exact read rest

section

variable {type : ColType} (intType : IntType) (column : Column type)
  (colSize : gColTypeSize type = intType.wordLength)
  (comp : ∀ output, gTaosCompFunc machine type column.bytes column.rows output =
    (decodeWords (8 * intType.wordLength) intType.wordLength column.rows column.bytes).bind
      (tsCompressINTImp intType))
  (decomp : ∀ input, gTaosDecompFunc machine type input column.rows outSize =
    (tsDecompressINTImp intType input column.rows).map (encodeWords intType.wordLength))

include colSize comp decomp

/-- One argument for the four integer types: `type` is the column's, `intType`
the codec's. -/
theorem integer_restored_iff :
    ColumnRestored machine stale maxColSize outSize column ↔
      tsCompressINTImp intType (column.words (8 * intType.wordLength) intType.wordLength) ≠
        none := by
  obtain ⟨read, length, layout⟩ := column.words_spec (8 * intType.wordLength) intType.wordLength rfl
    colSize
  constructor
  · intro restored
    obtain ⟨output, run, -⟩ := (columnRestored_iff machine _ _ _ column).mp restored
    rw [comp, read, bind_some] at run
    rw [run]
    exact some_ne_none output
  · intro produced
    obtain ⟨output, run⟩ := Option.ne_none_iff_exists'.mp produced
    refine columnRestored_of_codec machine output (by rw [comp, read, bind_some, run]) ?_
    intro rest
    have decoded := decompress_compress run rest
    rw [length] at decoded
    rw [decomp, decoded, map_some, layout]

theorem narrow_restored (narrow : intType ≠ .bigint) :
    ColumnRestored machine stale maxColSize outSize column := by
  rw [integer_restored_iff machine stale maxColSize outSize intType column colSize comp decomp]
  obtain ⟨out, run, -⟩ := roundTrips_of_narrow narrow
    (column.words (8 * intType.wordLength) intType.wordLength)
  rw [run]
  exact some_ne_none out

end

theorem bigInt_restored_iff (column : Column .bigInt) :
    ColumnRestored machine stale maxColSize outSize column ↔ Survives column := by
  rw [integer_restored_iff machine stale maxColSize outSize .bigint column rfl (fun _ => rfl)
    (fun _ => rfl), Ne, tsCompressINTImp_eq_none_iff]
  rfl

theorem double_restored (column : Column .double) :
    ColumnRestored machine stale maxColSize outSize column := by
  obtain ⟨read, length, layout⟩ := column.words_spec 64 8 rfl rfl
  refine columnRestored_of_codec machine (tsCompressDoubleImp (column.words 64 8)) ?_ ?_
  · simp only [gTaosCompFunc, read, map_some]
  · intro rest
    have decoded := tsDecompressDoubleImp_append (column.words 64 8) rest
    rw [length] at decoded
    simp only [gTaosDecompFunc, decoded, map_some, layout]

theorem timestamp_restored (column : Column .timestamp) :
    ColumnRestored machine stale maxColSize outSize column := by
  obtain ⟨read, length, layout⟩ := column.words_spec 64 8 rfl rfl
  refine columnRestored_of_codec machine (tsCompressTimestampImp (column.words 64 8)) ?_ ?_
  · simp only [gTaosCompFunc, read, map_some]
  · intro rest
    have decoded := tsDecompressTimestampImp_append (column.words 64 8) rest
    rw [length] at decoded
    simp only [gTaosDecompFunc, decoded, map_some, layout]

theorem string_not_restored (column : Column .string) :
    ¬ ColumnRestored machine stale maxColSize outSize column := by
  rw [columnRestored_iff]
  rintro ⟨output, run, read⟩
  obtain ⟨some', few⟩ := padding_length stale output.length
  cases run
  exact tsDecompressStringImp_longer machine.lz4 column.bytes _ outSize some' few read

theorem float_restored_iff_words (column : Column .float) :
    ColumnRestored machine stale maxColSize outSize column ↔ tsDecompressFloatImp machine.shifts
        (tsCompressFloatImp machine.shifts (column.words 32 4) ++
          padding stale (tsCompressFloatImp machine.shifts (column.words 32 4)).length)
        (column.words 32 4).length = some (column.words 32 4) := by
  obtain ⟨read, length, layout⟩ := column.words_spec 32 4 rfl rfl
  have output : gTaosCompFunc machine .float column.bytes column.rows
      (maxColSize * column.rows + 4) =
        some (tsCompressFloatImp machine.shifts (column.words 32 4)) := by
    simp only [gTaosCompFunc, read, map_some]
  rw [columnRestored_iff, output, length]
  simp only [gTaosDecompFunc]
  constructor
  · rintro ⟨_, equal, decoded⟩
    cases equal
    obtain ⟨words, run, same⟩ := Option.map_eq_some_iff.mp decoded
    rw [run, encodeWords_injective (by decide) (by decide) (same.trans layout.symm)]
  · intro decoded
    exact ⟨_, rfl, by rw [decoded, map_some, layout]⟩

end Codecs

section

variable (lz4 : Lz4) (crc32c : List UInt8 -> UInt32) (stale : Nat -> UInt8)
  (maxColSize outSize : Nat)

theorem float_restored_iff_survives (column : Column .float) :
    (∀ shifts : Shifts 32, ColumnRestored ⟨shifts, lz4, crc32c⟩ stale maxColSize outSize column) ↔
      Survives column := by
  constructor
  · intro restored
    by_contra fails
    obtain ⟨notZeros, notRaw⟩ := not_or.mp fails
    have decoded := (float_restored_iff_words _ stale maxColSize outSize column).mp
      (restored clearingShifts)
    exact notZeros (zeros_of_restored notRaw (fun diff _ nonzero => lossy_of_clearing nonzero)
      _ decoded)
  · intro survives shifts
    rw [float_restored_iff_words]
    exact tsDecompressFloatImp_of_holds shifts survives _

/-- One-step compression keeps a column, whatever the undefined shifts do, exactly
if it is one of those that survive: never a string column, a BIGINT column whose
words meet no wide delta, a float column of zeros or stored raw, and every
column of the other types. -/
theorem oneStep_columnRestored_iff (type : ColType) (column : Column type) :
    (∀ shifts : Shifts 32, ColumnRestored ⟨shifts, lz4, crc32c⟩ stale maxColSize outSize column) ↔
      Survives column := by
  cases type with
  | bool =>
    exact iff_of_true (fun shifts => bool_restored _ stale maxColSize outSize column) trivial
  | tinyInt =>
    exact iff_of_true (fun shifts => narrow_restored _ stale maxColSize outSize .tinyint column
      rfl (fun _ => rfl) (fun _ => rfl) (by decide)) trivial
  | smallInt =>
    exact iff_of_true (fun shifts => narrow_restored _ stale maxColSize outSize .smallint column
      rfl (fun _ => rfl) (fun _ => rfl) (by decide)) trivial
  | int =>
    exact iff_of_true (fun shifts => narrow_restored _ stale maxColSize outSize .int column
      rfl (fun _ => rfl) (fun _ => rfl) (by decide)) trivial
  | bigInt =>
    constructor
    · intro restored
      exact (bigInt_restored_iff _ stale maxColSize outSize column).mp (restored clearingShifts)
    · intro survives shifts
      exact (bigInt_restored_iff _ stale maxColSize outSize column).mpr survives
  | float => exact float_restored_iff_survives lz4 crc32c stale maxColSize outSize column
  | double =>
    exact iff_of_true (fun shifts => double_restored _ stale maxColSize outSize column) trivial
  | string =>
    refine iff_of_false ?_ (fun none' => none')
    intro restored
    exact string_not_restored _ stale maxColSize outSize column (restored clearingShifts)
  | timestamp =>
    exact iff_of_true (fun shifts => timestamp_restored _ stale maxColSize outSize column) trivial

end

def oneString : Column .string where
  rows := 1
  bytes := (List.range 32).map UInt8.ofNat
  nonempty := le_rfl
  whole := by decide
  bools := by intro wrong; cases wrong

theorem oneStep_string_lost :
    ¬ ∃ (machine : Machine) (stale : Nat -> UInt8) (maxColSize outSize : Nat),
      ColumnRestored machine stale maxColSize outSize oneString := by
  rintro ⟨machine, stale, maxColSize, outSize, restored⟩
  exact string_not_restored machine stale maxColSize outSize oneString restored

end Luomi.Edb.ColumnRoundTrip
