import Luomi.Vnode.ColumnBlock

/-!
# The buffers of packed columns (`vnodeImportToFile`, `vnodeCommitMultiToFile`)

The packed columns of a block lie one behind the other in one allocation, each behind an
`SData` with its length.  The import and the commit leave different space behind a column,
and the writer puts a checksum behind what the codec gives.
-/

namespace Luomi.Vnode.ImportBuffers

open ColumnBlock

def sizeofData : Nat := 8

/-- Where `cdata[0]`, `cdata[1]` and so on are, with some bytes to spare for a column. -/
def cdataFrom (pointsPerFileBlock spare : Nat) : Nat -> List SColumn -> List Nat
  | _, [] => []
  | offset, column :: later =>
    offset :: cdataFrom pointsPerFileBlock spare
      (offset + (sizeofData + spare + pointsPerFileBlock * column.bytes)) later

def bytesPerPoint (pObj : SMeterObj) : Nat := (pObj.schema.map SColumn.bytes).sum

/-- `cdata` and the size of `buffer1` in `vnodeImportToFile`; the `rowsInFileBlock` of the
vnode is the `pointsPerFileBlock` its meters are made with. -/
def importBuffers (pObj : SMeterObj) : List Nat × Nat :=
  (cdataFrom pObj.pointsPerFileBlock extraBytes 0 pObj.schema,
    bytesPerPoint pObj * pObj.pointsPerFileBlock + (sizeofData + extraBytes) * pObj.schema.length)

/-- What `vnodeWriteBlockToFile` stores behind the `SData` of a column in `cdata`. -/
def packed (codec : Codec) (compression points : Nat) (column : SColumn × Bytes) : Bytes :=
  if compression ≠ 0 then
    taosCalcChecksumAppend codec (codec.pCompFunc column.1.type compression column.2 points)
  else []

/-- No packed column comes to the `SData` of the next one or to the end of the buffer. -/
def Apart (codec : Codec) (compression points size : Nat) :
    List (SColumn × Bytes) -> List Nat -> Prop
  | column :: columns, offset :: offsets =>
    offset + sizeofData + (packed codec compression points column).length ≤
        offsets.head?.getD size ∧
      Apart codec compression points size columns offsets
  | _, _ => True

section Layout

variable {codec : Codec} {compression points pointsPerFileBlock spare size : Nat}

/-- What the columns take with their lengths and what is spare. -/
def spaceOf (pointsPerFileBlock spare : Nat) (schema : List SColumn) : Nat :=
  (schema.map fun column => sizeofData + spare + pointsPerFileBlock * column.bytes).sum

theorem spaceOf_eq (schema : List SColumn) : spaceOf pointsPerFileBlock spare schema =
    (schema.map SColumn.bytes).sum * pointsPerFileBlock + (sizeofData + spare) * schema.length := by
  induction schema with
  | nil => exact (Nat.zero_mul _).symm
  | cons column schema ih =>
    rw [spaceOf] at ih ⊢
    rw [List.map_cons, List.sum_cons, ih, List.map_cons, List.sum_cons, List.length_cons]
    ring

theorem apart_iff (schema : List SColumn) {offset : Nat} {data : List Bytes}
    (length : data.length = schema.length)
    (whole : size = offset + spaceOf pointsPerFileBlock spare schema) :
    Apart codec compression points size (schema.zip data)
        (cdataFrom pointsPerFileBlock spare offset schema) ↔
      ∀ column ∈ schema.zip data, (packed codec compression points column).length ≤
        pointsPerFileBlock * column.1.bytes + spare := by
  induction schema generalizing offset data with
  | nil => exact iff_of_true trivial fun _ member => nomatch member
  | cons column schema ih =>
    obtain ⟨bytes, data, rfl⟩ := List.exists_cons_of_length_eq_add_one length
    let behind := offset + (sizeofData + spare + pointsPerFileBlock * column.bytes)
    have later : size = behind + spaceOf pointsPerFileBlock spare schema := by
      rw [whole, spaceOf, List.map_cons, List.sum_cons, <- Nat.add_assoc]
      rfl
    have next : (cdataFrom pointsPerFileBlock spare behind schema).head?.getD size = behind := by
      cases schema with
      | nil => exact later
      | cons => rfl
    rw [List.zip_cons_cons, List.forall_mem_cons, cdataFrom, Apart,
      ih (Nat.succ.inj length) later, next]
    apply and_congr_left'
    simp only [behind]
    omega

end Layout

variable {codec : Codec} {compression : Nat} {pObj : SMeterObj}

theorem packed_length {points : Nat} (column : SColumn × Bytes) (packs : compression ≠ 0) :
    (packed codec compression points column).length =
      (codec.pCompFunc column.1.type compression column.2 points).length + sizeofChecksum := by
  rw [packed, if_pos packs, taosCalcChecksumAppend, List.length_append, LittleEndian.leBytes_length]

def plainCodec : Codec where
  taosCalcChecksum _ := 0
  pCompFunc _ _ data _ := 0 :: data
  pDecompFunc _ _ data _ := data.tail
  getStatistics _ _ _ _ _ := ⟨0, 0, 0, 0, 0⟩
  lossless _ _ _ _ _ _ _ _ := rfl
  bounded _ _ _ _ _ _ := Nat.le_succ _
  nonempty _ _ _ _ _ _ _ := List.cons_ne_nil _ _

/-- A timestamp and an integer, one point in a block of the files. -/
def shortMeter : SMeterObj where
  schema := [⟨0, 9, 8⟩, ⟨1, 4, 4⟩]
  sversion := 0
  pointsPerFileBlock := 1
  timestamp := rfl
  sorted := by decide
  ids := by decide
  types := by decide
  sizes := by decide
  bytesPerPoint := by decide
  rowsInFileBlock := by decide

def onePoint : Points shortMeter where
  points := 1
  data := [List.replicate 8 0, List.replicate 4 0]
  some' := Nat.one_pos
  most := Nat.one_pos
  length := rfl
  sizes := by decide

def tsdbMaxColumns : Nat := 256

/-- `cmsize` in `vnodeCommitMultiToFile`: one buffer for all meters of the commit. -/
def cmsize (meters : List SMeterObj) (rowsInFileBlock : Nat) : Nat :=
  (meters.map bytesPerPoint).foldl max 0 * rowsInFileBlock +
    (sizeofData + (extraBytes + sizeofChecksum)) * tsdbMaxColumns

theorem Apart.grow {size larger : Nat} (room : size ≤ larger) :
    ∀ {columns : List (SColumn × Bytes)} {offsets : List Nat} {points : Nat},
      Apart codec compression points size columns offsets ->
        Apart codec compression points larger columns offsets
  | [], _, _, _ => trivial
  | _ :: _, [], _, _ => trivial
  | column :: columns, offset :: offsets, points, apart => by
    obtain ⟨first, rest⟩ := apart
    refine ⟨first.trans ?_, rest.grow room⟩
    cases offsets with
    | nil => exact room
    | cons next offsets => exact le_rfl

end Luomi.Vnode.ImportBuffers
