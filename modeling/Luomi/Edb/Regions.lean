import Luomi.Edb.Conservation

/-!
# Which bytes of the log file `put_db` writes

The mapped region has `sizeof(LOG_HEAD) + rowSize * cacheSize` bytes, while the
data area starts behind the table of column types.  The last column of a full
log therefore ends four bytes behind the region for each column.
-/

namespace Luomi.Edb.Regions

open Compress Database Bookkeeping Conservation

/-- A `memcpy` to the mapped file. -/
structure Copy where
  offset : Nat
  length : Nat
  deriving DecidableEq

/-- The loop over the columns from `colType[i]` on; `pos` and `prev` are the
position and the type of the column before. -/
def columnCopies (cacheSize slot : Nat) : Nat -> ColType -> List ColType -> List Copy
  | _, _, [] => []
  | pos, prev, type :: rest =>
    let size := gColTypeSize type
    let pos := pos + gColTypeSize prev * cacheSize
    ⟨pos + size * slot, size⟩ :: columnCopies cacheSize slot pos type rest

/-- The copies of `put_db` for a row stored in `slot`. -/
def putCopies (head : LogHead) (slot : Nat) : List Copy :=
  match head.storeType with
  | .byRow =>
    let pos := head.dataPos + head.rowSize * slot
    [⟨pos, 8⟩, ⟨pos + 8, head.rowSize - 8⟩]
  | .byCol =>
    ⟨head.dataPos + 8 * slot, 8⟩ ::
      columnCopies head.cacheSize slot head.dataPos .timestamp head.colType.tail

/-- The slots of the rows stored by a sequence of `put_db` calls, up to the one
the process does not survive. -/
def putSlots {α : Type} (codec : Codec α) : Db α -> List (Row α) -> List Nat
  | _, [] => []
  | db, row :: rows =>
    match flushBefore codec db row.timestamp with
    | none => []
    | some before =>
      before.head.curRowCount ::
        match flushAfter codec (storeRow before row) with
        | none => []
        | some db => putSlots codec db rows

/-- Every byte of a copy lies behind the head and the table of column types and
inside the mapped region. -/
def Inside (head : LogHead) (copy : Copy) : Prop :=
  ∀ position, copy.offset ≤ position -> position < copy.offset + copy.length ->
    sizeofLogHead + (head.colCount - 1) * sizeofColType ≤ position ∧ position < mappingSize head

/-- The width of what `put_db` stores last: the last column, or a whole row. -/
def lastStride (head : LogHead) : Nat :=
  match head.storeType with
  | .byRow => head.rowSize
  | .byCol => gColTypeSize (head.colType.getLastD .timestamp)

/-- The slot leaves as many bytes of its region free as the table of column types
takes. -/
def SlotFits (head : LogHead) (slot : Nat) : Prop :=
  (head.colCount - 1) * sizeofColType + lastStride head * (slot + 1) ≤
    lastStride head * head.cacheSize

theorem gColTypeSize_bounds (type : ColType) : 1 ≤ gColTypeSize type ∧ gColTypeSize type ≤ 32 := by
  cases type <;> decide

def totalSize (columns : List ColType) : Nat := (columns.map gColTypeSize).sum

theorem rowSizes_fst (columns : List ColType) : ∀ sizes : Nat × Nat,
    sizes.1 + 32 * columns.length < 65536 ->
      (columns.foldl (fun sizes type =>
          ((sizes.1 + gColTypeSize type) % 65536,
            if sizes.2 < gColTypeSize type then gColTypeSize type else sizes.2)) sizes).1 =
        sizes.1 + totalSize columns := by
  induction columns with
  | nil => intro sizes _; simp [totalSize]
  | cons type rest ih =>
    intro sizes short
    have bounds := gColTypeSize_bounds type
    rw [List.length_cons] at short
    have noWrap : (sizes.1 + gColTypeSize type) % 65536 = sizes.1 + gColTypeSize type :=
      Nat.mod_eq_of_lt (by omega)
    rw [List.foldl_cons, noWrap, ih _ (by simp only; omega)]
    simp only [totalSize, List.map_cons, List.sum_cons]
    omega

/-- The copies of all columns, the first of which starts at `pos`. -/
def stridedCopies (cacheSize slot : Nat) : Nat -> List ColType -> List Copy
  | _, [] => []
  | pos, type :: rest =>
    ⟨pos + gColTypeSize type * slot, gColTypeSize type⟩ ::
      stridedCopies cacheSize slot (pos + gColTypeSize type * cacheSize) rest

theorem columnCopies_eq (cacheSize slot : Nat) (columns : List ColType) :
    ∀ (pos : Nat) (prev : ColType), columnCopies cacheSize slot pos prev columns =
      stridedCopies cacheSize slot (pos + gColTypeSize prev * cacheSize) columns := by
  induction columns with
  | nil => intro pos prev; rfl
  | cons type rest ih =>
    intro pos prev
    simp only [columnCopies, stridedCopies, ih]

theorem stridedCopies_from (cacheSize slot : Nat) (columns : List ColType) :
    ∀ pos, ∀ copy ∈ stridedCopies cacheSize slot pos columns,
      pos ≤ copy.offset ∧ 1 ≤ copy.length := by
  induction columns with
  | nil => intro pos copy member; cases member
  | cons type rest ih =>
    intro pos copy member
    rcases List.mem_cons.mp member with rfl | member
    · exact ⟨Nat.le_add_right _ _, (gColTypeSize_bounds type).1⟩
    · obtain ⟨after, length⟩ := ih _ copy member
      exact ⟨by omega, length⟩

theorem stridedCopies_end (cacheSize slot gap : Nat) (columns : List ColType) :
    ∀ pos type, (∀ copy ∈ stridedCopies cacheSize slot pos (type :: columns),
      copy.offset + copy.length + gap ≤ pos + totalSize (type :: columns) * cacheSize) ↔
        gap + gColTypeSize ((type :: columns).getLastD .timestamp) * (slot + 1) ≤
          gColTypeSize ((type :: columns).getLastD .timestamp) * cacheSize := by
  induction columns with
  | nil =>
    intro pos type
    simp only [stridedCopies, List.mem_singleton, forall_eq, totalSize, List.map_cons,
      List.map_nil, List.sum_cons, List.sum_nil, Nat.add_zero, List.getLastD_cons,
      List.getLastD_nil, Nat.mul_succ]
    omega
  | cons next rest ih =>
    intro pos type
    have last : (type :: next :: rest).getLastD .timestamp =
        (next :: rest).getLastD .timestamp := by
      simp only [List.getLastD_cons]
    have later := ih (pos + gColTypeSize type * cacheSize) next
    have total : totalSize (type :: next :: rest) * cacheSize =
        gColTypeSize type * cacheSize + totalSize (next :: rest) * cacheSize := by
      simp only [totalSize, List.map_cons, List.sum_cons]
      ring
    rw [last, <- later, stridedCopies, List.forall_mem_cons, total]
    constructor
    · rintro ⟨-, others⟩ copy member
      have := others copy member
      omega
    · intro others
      refine ⟨?_, fun copy member => by have := others copy member; omega⟩
      -- the last column's room bounds the slot, and its strip pays for the gap
      have fits := later.mp others
      have sizeBounds := gColTypeSize_bounds ((next :: rest).getLastD .timestamp)
      have member : (next :: rest).getLastD .timestamp ∈ next :: rest := by
        rw [List.getLastD_eq_getLast?, List.getLast?_eq_some_getLast (by simp), Option.getD_some]
        exact List.getLast_mem _
      have part : gColTypeSize ((next :: rest).getLastD .timestamp) ≤ totalSize (next :: rest) :=
        List.single_le_sum (by simp) _ (List.mem_map_of_mem member)
      have slotBound : slot + 1 ≤ cacheSize := by
        by_contra beyond
        have : gColTypeSize ((next :: rest).getLastD .timestamp) * cacheSize <
            gColTypeSize ((next :: rest).getLastD .timestamp) * (slot + 1) :=
          Nat.mul_lt_mul_of_pos_left (by omega) (by omega)
        omega
      have strip : gColTypeSize type * (slot + 1) ≤ gColTypeSize type * cacheSize :=
        Nat.mul_le_mul_left _ slotBound
      have wide : gColTypeSize ((next :: rest).getLastD .timestamp) * cacheSize ≤
          totalSize (next :: rest) * cacheSize := Nat.mul_le_mul_right _ part
      simp only [Nat.mul_succ] at strip fits ⊢
      omega

section Calls

variable {files : FileSystem} {args : CreateArgs} {head : LogHead}

theorem inside_iff (copy : Copy)
    (dataPos : head.dataPos = sizeofLogHead + (head.colCount - 1) * sizeofColType)
    (after : head.dataPos ≤ copy.offset) (length : 1 ≤ copy.length) :
    Inside head copy ↔ copy.offset + copy.length ≤ mappingSize head := by
  constructor
  · intro inside
    have := (inside (copy.offset + copy.length - 1) (by omega) (by omega)).2
    omega
  · intro bound position low high
    exact ⟨by omega, by omega⟩

theorem createDb_layout (accepted : createDb files args = .ok head) :
    head.dataPos = sizeofLogHead + (head.colCount - 1) * sizeofColType ∧
      head.rowSize = totalSize head.colType ∧ head.colType = .timestamp :: head.colType.tail := by
  obtain ⟨few, -, -, -, -, -, -, rowSize, dataPos, colCount, colType⟩ := createDb_head accepted
  refine ⟨by rw [dataPos, colCount, Nat.add_sub_cancel], ?_, by rw [colType]; rfl⟩
  have columns := args.columns
  have short : (8, 8).1 + 32 * args.colType.length < 65536 := by
    simp only [maxColCount] at few
    simp only
    omega
  rw [rowSize, rowSizes, rowSizes_fst args.colType (8, 8) short, colType]
  simp [totalSize, gColTypeSize]

theorem putCopies_inside_iff (accepted : createDb files args = .ok head) (slot : Nat) :
    (∀ copy ∈ putCopies head slot, Inside head copy) ↔ SlotFits head slot := by
  obtain ⟨dataPos, rowSize, colType⟩ := createDb_layout accepted
  have eight : 8 ≤ head.rowSize := by
    rw [rowSize, colType]
    simp [totalSize, gColTypeSize]
  cases store : head.storeType with
  | byRow =>
    have stride : lastStride head = head.rowSize := by rw [lastStride, store]
    simp only [putCopies, store, List.forall_mem_cons, List.not_mem_nil, false_implies,
      implies_true, and_true, SlotFits, stride]
    have timestamp := inside_iff ⟨head.dataPos + head.rowSize * slot, 8⟩ dataPos
      (Nat.le_add_right _ _) (by simp)
    rw [timestamp, mappingSize, Nat.mul_succ]
    simp only
    by_cases columns : head.rowSize = 8
    · have nothing : Inside head ⟨head.dataPos + head.rowSize * slot + 8, head.rowSize - 8⟩ := by
        intro position low high
        simp only at low high
        omega
      rw [and_iff_left nothing]
      omega
    · have data := inside_iff ⟨head.dataPos + head.rowSize * slot + 8, head.rowSize - 8⟩ dataPos
        (by simp only; omega) (by simp only; omega)
      rw [data, mappingSize]
      simp only
      omega
  | byCol =>
    have stride : lastStride head = gColTypeSize (head.colType.getLastD .timestamp) := by
      rw [lastStride, store]
    have copies : putCopies head slot =
        stridedCopies head.cacheSize slot head.dataPos head.colType := by
      rw [putCopies, store, colType]
      simp only [stridedCopies, columnCopies_eq, List.tail_cons]
      rfl
    have strips := stridedCopies_end head.cacheSize slot
      ((head.colCount - 1) * sizeofColType) head.colType.tail head.dataPos .timestamp
    rw [<- colType] at strips
    rw [SlotFits, stride, <- strips, copies]
    have size : mappingSize head + (head.colCount - 1) * sizeofColType =
        head.dataPos + totalSize head.colType * head.cacheSize := by
      rw [mappingSize, rowSize, dataPos]
      omega
    constructor
    · intro inside copy member
      obtain ⟨after, length⟩ := stridedCopies_from _ _ _ _ copy member
      have := (inside_iff copy dataPos after length).mp (inside copy member)
      omega
    · intro ends copy member
      obtain ⟨after, length⟩ := stridedCopies_from _ _ _ _ copy member
      rw [inside_iff copy dataPos after length]
      have := ends copy member
      omega

end Calls

section Runs

variable {α : Type}

section

variable (created : CreatedDb) (codec : Codec α) (rows : List (Row α))

/-- Every copy of every `put_db` of a run is inside. -/
def AllInside : Prop :=
  ∀ slot ∈ putSlots codec (openDb created.head) rows, ∀ copy ∈ putCopies created.head slot,
    Inside created.head copy

/-- A run stays inside the region exactly if each row goes to a slot that leaves
as many bytes of its strip free as the table of column types takes. -/
theorem allInside_iff : AllInside created codec rows ↔
      ∀ slot ∈ putSlots codec (openDb created.head) rows, SlotFits created.head slot := by
  constructor
  · intro inside slot member
    exact (putCopies_inside_iff created.accepted slot).mp (inside slot member)
  · intro fits slot member
    exact (putCopies_inside_iff created.accepted slot).mpr (fits slot member)

end

/-- A cache of one row with one INT column: the mapped region ends at 92, the
column goes to 92..95. -/
def oneColumnDb : CreatedDb where
  files := ⟨false, true, true, true⟩
  args :=
    { root := "/data", name := "one", colCount := 1, colType := [.int], cacheSize := 1
      storeType := .byCol, compressType := .none, hoursPerFile := 1
      columns := List.length_singleton }
  head :=
    { storeType := .byCol, compressType := .none, hoursPerFile := 1, maxColSize := 8
      curRowCount := 0, cacheSize := 1, rowSize := 12, dataPos := 84, startTimestamp := 0
      endTimestamp := 0, colCount := 2, colType := [.timestamp, .int] }
  accepted := by decide

theorem put_outside_region : ¬ ∀ (created : CreatedDb) (codec : Codec Nat) (rows : List (Row Nat)),
      AllInside created codec rows := by
  intro all
  have inside := all oneColumnDb copyCodec [⟨0, 7⟩] 0 (by decide) ⟨92, 4⟩ (by decide)
  exact absurd (inside 92 le_rfl (by decide)).2 (by decide)

end Runs

end Luomi.Edb.Regions
