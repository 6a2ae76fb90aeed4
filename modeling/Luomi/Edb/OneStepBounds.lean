import Luomi.Edb.ColumnRoundTrip
import Luomi.Edb.Database
import Luomi.Util.CodecStores

/-!
# The output buffer of one-step compression

One buffer of `maxColSize * n + 4` bytes takes every column in turn: the output of its
codec, one to four bytes of padding and the checksum.  The widest column is eight bytes
wide, or 32 with a string column, so the padded output has to be shorter than the values of
such a column themselves.
-/

namespace Luomi.Edb.OneStepBounds

open LittleEndian XorCodec BoolCodec DoubleCodec FloatCodec IntegerCodec StringCodec TimestampCodec
open List (length_cons mem_cons)
open IntegerReach CodecStores Compress Database ColumnRoundTrip
open Option (map_some some.injEq some_ne_none)

structure Content (type : ColType) where
  rows : Nat
  bytes : List UInt8
  whole : bytes.length = rows * gColTypeSize type

structure FilledLog where
  files : FileSystem
  args : CreateArgs
  head : LogHead
  created : createDb files args = .ok head
  rows : Nat
  nonempty : 1 ≤ rows
  columns : List (Sigma Content)
  types : columns.map Sigma.fst = head.colType
  height : ∀ column ∈ columns, column.2.rows = rows

/-- What is stored for a column stays inside the output buffer.  A wrong bool ends the
process; no other column may leave the encoder without a result. -/
def Inside (machine : Machine) (stale : Nat -> UInt8) (maxColSize : Nat) {type : ColType}
    (content : Content type) : Prop :=
  (type ≠ .bool ->
    compressTaosOneStep machine stale maxColSize type content.bytes content.rows ≠ none) ∧
  ∀ stored, compressTaosOneStep machine stale maxColSize type content.bytes content.rows =
    some stored -> stored.length ≤ maxColSize * content.rows + 4

def Content.words {type : ColType} (width size : Nat) (content : Content type) :
    List (BitVec width) :=
  (decodeWords width size content.rows content.bytes).getD []

def packedTimestamps : List (BitVec 64) -> Option (List UInt8)
  | [] => none
  | first :: rest =>
    (TimestampCodec.encodeLoop ((first :: rest).length * 8) ⟨0, first, -first, 0, 0, []⟩
      (first :: rest)).bind (TimestampCodec.encodeTail ((first :: rest).length * 8))

def packedIntegers (input : List (BitVec 64)) : Option (List UInt8) :=
  (IntegerCodec.compressLoop (input.length * 8 + 1) input.length 0 []
    (input.map (@widen .bigint))).toOption

/-- There is a packed form, and with its first byte it is shorter than `size` bytes. -/
def PackedBelow (size : Nat) (packed : Option (List UInt8)) : Prop :=
  ∃ out, packed = some out ∧ out.length + 1 < size

/-- A string column has to be packed below its size; the columns of eight bytes have to be
where there is no string column; the others always fit. -/
def Compact (machine : Machine) (maxColSize : Nat) {type : ColType} (content : Content type) :
    Prop :=
  match type with
  | .bigInt => (¬∃ prev values, WordStart ((content.words 64 8).map (@widen .bigint)) prev values ∧
        MeetsWideDelta prev values) ∧
      (maxColSize = 8 -> PackedBelow (8 * content.rows) (packedIntegers (content.words 64 8)))
  | .double => maxColSize = 8 ->
      PackedBelow (8 * content.rows) (packed doubleLayout (content.words 64 8))
  | .timestamp => maxColSize = 8 ->
      PackedBelow (8 * content.rows) (packedTimestamps (content.words 64 8))
  | .string => PackedBelow (32 * content.rows)
      (machine.lz4.compressDefault content.bytes (maxColSize * content.rows + 4 - 1 : Nat))
  | _ => True

theorem widest_fold (columns : List ColType) (sizes : Nat × Nat)
    (start : sizes.2 = 8 ∨ sizes.2 = 32) :
    (columns.foldl (fun sizes type =>
        ((sizes.1 + gColTypeSize type) % 65536,
          if sizes.2 < gColTypeSize type then gColTypeSize type else sizes.2)) sizes).2 =
      if sizes.2 = 32 ∨ ColType.string ∈ columns then 32 else 8 := by
  induction columns generalizing sizes with
  | nil =>
    rcases start with narrow | wide
    · simp [narrow]
    · simp [wide]
  | cons type rest ih =>
    have next : (if sizes.2 < gColTypeSize type then gColTypeSize type else sizes.2) =
        if sizes.2 = 32 ∨ type = .string then 32 else 8 := by
      rcases start with narrow | wide
      · cases type <;> simp [narrow, gColTypeSize]
      · cases type <;> simp [wide, gColTypeSize]
    rw [List.foldl_cons, ih _ (by simp only [next]; split <;> simp)]
    simp only [next]
    by_cases wide : sizes.2 = 32 ∨ type = .string
    · rw [if_pos wide, if_pos (Or.inl rfl), if_pos]
      rcases wide with already | string
      · exact Or.inl already
      · exact Or.inr (string ▸ List.mem_cons_self)
    · rw [if_neg wide]
      obtain ⟨notYet, other⟩ := not_or.mp wide
      have still : (sizes.2 = 32 ∨ ColType.string ∈ type :: rest) ↔
          ((8 : Nat) = 32 ∨ ColType.string ∈ rest) := by
        simp [notYet, Ne.symm other]
      exact (if_congr still rfl rfl).symm

theorem rowSizes_widest (columns : List ColType) :
    (rowSizes columns).2 = if ColType.string ∈ columns then 32 else 8 := by
  rw [rowSizes, widest_fold columns (8, 8) (Or.inl rfl)]
  exact if_congr (by simp) rfl rfl

theorem createDb_head {files : FileSystem} {args : CreateArgs} {head : LogHead}
    (created : createDb files args = .ok head) :
    head.maxColSize = (rowSizes args.colType).2 ∧ head.colType = .timestamp :: args.colType := by
  unfold createDb at created
  split at created <;> try cases created
  split at created <;> try cases created
  split at created <;> try cases created
  split at created <;> try cases created
  simp only at created
  split at created <;> try cases created
  split at created <;> try cases created
  exact ⟨rfl, rfl⟩

/-- The values of a column are 8 or 32 bytes apart in the output buffer, 32 as soon as
there are strings. -/
structure Apart (maxColSize : Nat) (type : ColType) : Prop where
  either : maxColSize = 8 ∨ maxColSize = 32
  strings : type = .string -> maxColSize = 32

theorem FilledLog.apart (log : FilledLog) {column : Sigma Content} (among : column ∈ log.columns) :
    Apart log.head.maxColSize column.1 := by
  obtain ⟨widest, types⟩ := createDb_head log.created
  rw [rowSizes_widest] at widest
  constructor
  · rw [widest]
    split
    · exact Or.inr rfl
    · exact Or.inl rfl
  · intro string
    have listed : column.1 ∈ ColType.timestamp :: log.args.colType := by
      rw [<- types, <- log.types]
      exact List.mem_map_of_mem among
    rw [string, mem_cons] at listed
    rw [widest, if_pos (listed.resolve_left (by intro same; cases same))]

section Column

variable (machine : Machine) (stale : Nat -> UInt8) {maxColSize : Nat} {type : ColType}
  {content : Content type}

theorem compressTaosOneStep_eq_map (bytes : List UInt8) (rows : Nat) :
    compressTaosOneStep machine stale maxColSize type bytes rows =
      (gTaosCompFunc machine type bytes rows (maxColSize * rows + 4)).map fun output =>
        taosCalcChecksumAppend machine (output ++ padding stale output.length) := by
  cases run : gTaosCompFunc machine type bytes rows (maxColSize * rows + 4) with
  | none => simp only [compressTaosOneStep, run, bind, Option.bind, Option.map_none]
  | some output => simp only [compressTaosOneStep, run, bind, Option.bind, pure, map_some]

theorem stored_length (output : List UInt8) :
    (taosCalcChecksumAppend machine (output ++ padding stale output.length)).length =
      output.length + (4 - output.length % 4) + 4 := by
  rw [taosCalcChecksumAppend, List.length_append, List.length_append, leBytes_length, padding,
    List.length_map, List.length_range]

theorem inside_iff_below (apart : Apart maxColSize type) : Inside machine stale maxColSize content ↔
      (type ≠ .bool -> gTaosCompFunc machine type content.bytes content.rows
        (maxColSize * content.rows + 4) ≠ none) ∧
      ∀ output, gTaosCompFunc machine type content.bytes content.rows
        (maxColSize * content.rows + 4) = some output ->
          output.length < maxColSize * content.rows := by
  have whole : maxColSize * content.rows % 4 = 0 := by
    rcases apart.either with narrow | wide
    · rw [narrow]
      omega
    · rw [wide]
      omega
  unfold Inside
  simp only [compressTaosOneStep_eq_map, ne_eq, Option.map_eq_none_iff]
  refine and_congr_right fun _ => ⟨?_, ?_⟩
  · intro inside output run
    have room := inside _ (by rw [run, map_some])
    rw [stored_length] at room
    omega
  · intro below stored result
    obtain ⟨output, run, rfl⟩ := Option.map_eq_some_iff.mp result
    have room := below output run
    rw [stored_length]
    omega

theorem Content.words_spec (content : Content type) (width size : Nat)
    (exactly : width = 8 * size) (colSize : gColTypeSize type = size) :
    decodeWords width size content.rows content.bytes = some (content.words width size) ∧
      (content.words width size).length = content.rows := by
  obtain ⟨words, read, length, -⟩ := encodeWords_decodeWords size exactly content.rows
    content.bytes (by rw [content.whole, colSize])
  have same : content.words width size = words := by rw [Content.words, read, Option.getD_some]
  rw [same]
  exact ⟨read, length⟩

end Column

/-! ### Bools -/

theorem updateLast_length (f : UInt8 -> UInt8) (bytes : List UInt8) :
    (updateLast f bytes).length = bytes.length := by
  induction bytes with
  | nil => rfl
  | cons first rest ih =>
    cases rest with
    | nil => rfl
    | cons second rest => simp only [updateLast, length_cons] at ih ⊢; omega

variable {output : List UInt8}

theorem boolStep_length {i : Nat} {next : List UInt8} {value : UInt8}
    (run : BoolCodec.step i output value = some next) : next.length ≤ output.length + 1 := by
  have opened : (if i % 4 = 0 then output ++ [0] else output).length ≤ output.length + 1 := by
    split
    · rw [List.length_append, List.length_singleton]
    · exact Nat.le_succ _
  unfold BoolCodec.step at run
  simp only at run
  split at run
  · cases run
    rw [updateLast_length]
    exact opened
  · split at run
    · cases run
      rw [updateLast_length]
      exact opened
    · split at run
      · cases run
        rw [updateLast_length]
        exact opened
      · cases run

theorem boolLoop_length {i : Nat} {values result : List UInt8}
    (run : BoolCodec.encodeLoop i output values = some result) :
    result.length ≤ output.length + values.length := by
  induction values generalizing i output with
  | nil =>
    cases run
    exact Nat.le_add_right _ _
  | cons value rest ih =>
    obtain ⟨next, stepped, run⟩ := Option.bind_eq_some_iff.mp run
    have one := boolStep_length stepped
    have others := ih run
    rw [length_cons]
    omega

/-! ### Integers -/

theorem bounded_of_storesInside {size : Nat} {encoding : Option (List UInt8)}
    {into : List UInt8 -> Option (Nat × List UInt8)} (inside : StoresInside size encoding into) (run : encoding = some output) : output.length ≤ size := by
  obtain ⟨bytes, rest, same, -, whole⟩ :=
    inside (List.replicate size 0) List.length_replicate
  rw [run] at same
  cases same
  rw [List.length_append] at whole
  omega

section Codecs

variable (machine : Machine) {maxColSize outputSize : Nat} {type : ColType}

/-- The codec has a result, unless the column holds a wrong bool, and each leaves room. -/
def Leaves (machine : Machine) (maxColSize outputSize : Nat) {type : ColType}
    (content : Content type) : Prop :=
  (type ≠ .bool -> gTaosCompFunc machine type content.bytes content.rows outputSize ≠ none) ∧
  ∀ output, gTaosCompFunc machine type content.bytes content.rows outputSize = some output ->
    output.length < maxColSize * content.rows

theorem eight_below {rows : Nat} (apart : Apart maxColSize type) : 8 * rows ≤ maxColSize * rows :=
    by
  apply Nat.mul_le_mul_right
  rcases apart.either with narrow | wide <;> omega

theorem bool_leaves (apart : Apart maxColSize .bool) (content : Content .bool)
    (nonempty : 1 ≤ content.rows) : Leaves machine maxColSize outputSize content := by
  have room := @eight_below _ _ content.rows apart
  refine ⟨fun other => absurd rfl other, ?_⟩
  intro output run
  have length := boolLoop_length (show BoolCodec.encodeLoop 0 [] content.bytes = some output from run)
  have whole := content.whole
  simp only [gColTypeSize, Nat.mul_one] at whole
  rw [List.length_nil, whole] at length
  omega

theorem narrow_leaves (intType : IntType) (narrow : intType ≠ .bigint) (content : Content type)
    (apart : Apart maxColSize type) (nonempty : 1 ≤ content.rows)
    (colSize : gColTypeSize type = intType.wordLength)
    (comp : gTaosCompFunc machine type content.bytes content.rows outputSize =
      (decodeWords (8 * intType.wordLength) intType.wordLength content.rows content.bytes).bind
        (tsCompressINTImp intType)) : Leaves machine maxColSize outputSize content := by
  obtain ⟨read, length⟩ := content.words_spec (8 * intType.wordLength) intType.wordLength rfl
    colSize
  have room := @eight_below _ _ content.rows apart
  obtain ⟨packed, produced, -⟩ := roundTrips_of_narrow narrow
    (content.words (8 * intType.wordLength) intType.wordLength)
  have small : intType.wordLength ≤ 4 := by
    cases intType with
    | tinyint => decide
    | smallint => decide
    | int => decide
    | bigint => exact absurd rfl narrow
  have below := Nat.mul_le_mul_left content.rows small
  unfold Leaves
  rw [comp, read, Option.bind_some, produced]
  refine ⟨fun _ => some_ne_none packed, ?_⟩
  intro output same
  cases same
  have bound := bounded_of_storesInside
    (int_storesInside (by rw [produced]; exact some_ne_none packed)) produced
  rw [length] at bound
  omega

variable {packed : Option (List UInt8)}

/-- A packed form or the raw copy, each behind its first byte, is shorter than the values in
the buffer: always for values 32 bytes apart, else if it is packed below its size. -/
theorem eight_iff_packed {rows : Nat} {raw : List UInt8}
    {indicator copied : UInt8} (apart : Apart maxColSize type) (nonempty : 1 ≤ rows)
    (rawLength : raw.length = rows * 8)
    (produced : output = packed.elim (copied :: raw) (indicator :: ·))
    (bound : output.length ≤ rows * 8 + 1) :
    output.length < maxColSize * rows ↔ (maxColSize = 8 -> PackedBelow (8 * rows) packed) := by
  rcases apart.either with narrow | wide
  · rw [narrow, produced]
    cases packed with
    | none =>
      refine iff_of_false ?_ ?_
      · simp only [Option.elim_none, length_cons, rawLength]
        omega
      · intro below
        obtain ⟨out, missing, -⟩ := below rfl
        cases missing
    | some out =>
      simp only [Option.elim_some, length_cons, PackedBelow, some.injEq,
        exists_eq_left', forall_const]
  · refine iff_of_true (by rw [wide]; omega) ?_
    intro narrow
    omega

theorem bigInt_leaves_iff (content : Content .bigInt) (apart : Apart maxColSize .bigInt)
    (nonempty : 1 ≤ content.rows) :
    Leaves machine maxColSize outputSize content ↔ Compact machine maxColSize content := by
  obtain ⟨read, length⟩ := content.words_spec 64 8 rfl rfl
  have comp : gTaosCompFunc machine .bigInt content.bytes content.rows outputSize =
      @tsCompressINTImp .bigint (content.words 64 8) := by
    simp only [gTaosCompFunc, read]
    rfl
  have wide := tsCompressINTImp_eq_none_iff .bigint (content.words 64 8)
  have leaves : Leaves machine maxColSize outputSize content ↔
      @tsCompressINTImp .bigint (content.words 64 8) ≠ none ∧
        ∀ output, @tsCompressINTImp .bigint (content.words 64 8) = some output ->
          output.length < maxColSize * content.rows := by
    unfold Leaves
    rw [comp]
    exact and_congr_left' ⟨fun none' => none' (by intro same; cases same), fun produced _ => produced⟩
  refine leaves.trans (Iff.trans (and_congr_right fun produced => ?_)
    (and_congr_left' (not_congr wide)))
  obtain ⟨output, run⟩ := Option.ne_none_iff_exists'.mp produced
  have raw : (encodeWords 8 (content.words 64 8)).length = content.rows * 8 := by
    rw [encodeWords_length, length]
  have split : output = (packedIntegers (content.words 64 8)).elim
      (1 :: encodeWords 8 (content.words 64 8)) (0 :: ·) :=
    Option.some.inj (run.symm.trans (int_encoding produced))
  have bound : output.length ≤ (content.words 64 8).length * 8 + 1 :=
    bounded_of_storesInside (int_storesInside produced) run
  rw [length] at bound
  have packed := eight_iff_packed apart nonempty raw split bound
  rw [run, <- packed]
  simp only [some.injEq, forall_eq']

theorem eight_leaves_iff {content : Content type} {raw : List UInt8} {indicator copied : UInt8} (apart : Apart maxColSize type)
    (nonempty : 1 ≤ content.rows)
    (comp : gTaosCompFunc machine type content.bytes content.rows outputSize = some output)
    (rawLength : raw.length = content.rows * 8)
    (produced : output = packed.elim (copied :: raw) (indicator :: ·))
    (bound : output.length ≤ content.rows * 8 + 1) : Leaves machine maxColSize outputSize content ↔
      (maxColSize = 8 -> PackedBelow (8 * content.rows) packed) := by
  rw [<- eight_iff_packed apart nonempty rawLength produced bound]
  unfold Leaves
  rw [comp]
  constructor
  · intro leaves
    exact leaves.2 output rfl
  · intro below
    refine ⟨fun _ => some_ne_none output, ?_⟩
    intro other same
    cases same
    exact below

theorem double_leaves_iff (content : Content .double) (apart : Apart maxColSize .double)
    (nonempty : 1 ≤ content.rows) :
    Leaves machine maxColSize outputSize content ↔ Compact machine maxColSize content := by
  obtain ⟨read, length⟩ := content.words_spec 64 8 rfl rfl
  have bound : (tsCompressDoubleImp (content.words 64 8)).length ≤
      (content.words 64 8).length * 8 + 1 :=
    bounded_of_storesInside (compress_storesInside doubleLayout (content.words 64 8)) rfl
  have raw : (encodeWords doubleLayout.valueBytes (content.words 64 8)).length =
      content.rows * 8 := by
    rw [encodeWords_length, length]
    rfl
  refine eight_leaves_iff machine apart nonempty ?_ raw
    (compress_encoding doubleLayout (content.words 64 8)) ?_
  · simp only [gTaosCompFunc, read, map_some]
    rfl
  · rw [<- length]
    exact bound

theorem timestamp_leaves_iff (content : Content .timestamp) (apart : Apart maxColSize .timestamp)
    (nonempty : 1 ≤ content.rows) :
    Leaves machine maxColSize outputSize content ↔ Compact machine maxColSize content := by
  obtain ⟨read, length⟩ := content.words_spec 64 8 rfl rfl
  have bound := bounded_of_storesInside (timestamp_storesInside (content.words 64 8)) rfl
  have raw : (encodeWords 8 (content.words 64 8)).length = content.rows * 8 := by
    rw [encodeWords_length, length]
  have split : tsCompressTimestampImp (content.words 64 8) =
      (packedTimestamps (content.words 64 8)).elim (0 :: encodeWords 8 (content.words 64 8))
        (1 :: ·) := by
    cases words : content.words 64 8 with
    | nil =>
      rw [words, List.length_nil] at length
      omega
    | cons first rest => exact timestamp_encoding first rest
  rw [length] at bound
  refine eight_leaves_iff machine apart nonempty ?_ raw split bound
  simp only [gTaosCompFunc, read, map_some]

theorem float_leaves (content : Content .float) (apart : Apart maxColSize .float)
    (nonempty : 1 ≤ content.rows) : Leaves machine maxColSize outputSize content := by
  obtain ⟨read, length⟩ := content.words_spec 32 4 rfl rfl
  have room := @eight_below _ _ content.rows apart
  have comp : gTaosCompFunc machine .float content.bytes content.rows outputSize =
      some (tsCompressFloatImp machine.shifts (content.words 32 4)) := by
    simp only [gTaosCompFunc, read, map_some]
  have bound : (tsCompressFloatImp machine.shifts (content.words 32 4)).length ≤
      (content.words 32 4).length * 4 + 1 :=
    bounded_of_storesInside (compress_storesInside (floatLayout machine.shifts)
      (content.words 32 4)) rfl
  unfold Leaves
  rw [comp]
  refine ⟨fun _ => some_ne_none _, ?_⟩
  intro output same
  cases same
  omega

theorem string_below_iff {lz4 : Lz4} {input : List UInt8} {room : Nat} (positive : 1 ≤ room) :
    (tsCompressStringImp lz4 input room).length < input.length ↔
      PackedBelow input.length (lz4.compressDefault input (room - 1 : Nat)) := by
  have less : (room : Int) - 1 = (room - 1 : Nat) := by
    omega
  unfold tsCompressStringImp PackedBelow
  rw [less]
  cases run : lz4.compressDefault input (room - 1 : Nat) with
  | none =>
    refine iff_of_false ?_ ?_
    · simp only [length_cons]
      omega
    · rintro ⟨out, missing, -⟩
      cases missing
  | some packed =>
    simp only [some.injEq, exists_eq_left']
    split
    · rw [length_cons]
      omega
    · rw [length_cons]

theorem string_leaves_iff (content : Content .string) (apart : Apart maxColSize .string) :
    Leaves machine maxColSize (maxColSize * content.rows + 4) content ↔
      Compact machine maxColSize content := by
  have wide := apart.strings rfl
  have whole : content.bytes.length = 32 * content.rows := by
    rw [content.whole]
    exact Nat.mul_comm _ _
  unfold Leaves Compact
  simp only [gTaosCompFunc, some.injEq, forall_eq']
  refine (and_iff_right fun _ => some_ne_none _).trans ?_
  have below := @string_below_iff machine.lz4 content.bytes (maxColSize * content.rows + 4)
    (Nat.le_add_left 1 _)
  rw [whole] at below
  rw [wide] at below ⊢
  exact below

end Codecs

def oneRow : FilledLog where
  files := ⟨false, true, true, true⟩
  args := ⟨"", "db", 1, [.int], 16, .byCol, .taosOneStep, 1, rfl⟩
  head := {
    storeType := .byCol
    compressType := .taosOneStep
    hoursPerFile := 1
    maxColSize := 8
    curRowCount := 0
    cacheSize := 16
    rowSize := 12
    dataPos := 84
    startTimestamp := 0
    endTimestamp := 0
    colCount := 2
    colType := [.timestamp, .int] }
  created := by decide
  rows := 1
  nonempty := Nat.le_refl 1
  columns := [⟨.timestamp, 1, leBytes 8 1546300800000, by decide⟩, ⟨.int, 1, leBytes 4 0, by decide⟩]
  types := rfl
  height := by
    intro column among
    simp only [mem_cons, List.not_mem_nil, or_false] at among
    rcases among with rfl | rfl <;> rfl

end Luomi.Edb.OneStepBounds
