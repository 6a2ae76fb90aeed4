import Mathlib.Data.List.Perm.Subperm
import Luomi.Client.InsertRouting

/-!
# The rows of one table's block

`Holds` says what a block carries of the rows parsed into it; `Kept` what is left
of them after sorting, with one row for each time stamp.
-/

namespace Luomi.Client.InsertRows

open LittleEndian InsertRouting
open List (length_cons mem_cons mem_cons_of_mem pairwise_cons)

variable {rows : List Row} {dataBuf : STableDataBlocks SShellSubmitBlock}
  {rowSize : Nat}

theorem rowsIn_flatten (sizes : ∀ row ∈ rows, row.length = rowSize) :
    rowsIn rowSize rows.length rows.flatten = rows := by
  induction rows with
  | nil => rfl
  | cons row rows ih =>
    have size := sizes row (by simp)
    rw [length_cons, List.flatten_cons, rowsIn, List.take_left' size,
      List.drop_left' size, ih (fun other member => sizes other (mem_cons_of_mem _ member))]

theorem length_flatten (sizes : ∀ row ∈ rows, row.length = rowSize) :
    rows.flatten.length = rowSize * rows.length := by
  induction rows with
  | nil => simp
  | cons row rows ih =>
    rw [List.flatten_cons, List.length_append, sizes row (by simp),
      ih (fun other member => sizes other (mem_cons_of_mem _ member)), length_cons]
    ring

/-- The rows whose time stamp differs from the last one kept before them. -/
def distinctAfter : Row -> List Row -> List Row
  | _, [] => []
  | last, row :: rest =>
    if tsKey last = tsKey row then distinctAfter last rest
    else row :: distinctAfter row rest

theorem distinctAfter_sublist (last : Row) (rest : List Row) :
    (distinctAfter last rest).Sublist rest := by
  induction rest generalizing last with
  | nil => exact List.Sublist.refl _
  | cons row rest ih =>
    rw [distinctAfter]
    split
    · exact (ih last).cons row
    · exact (ih row).cons_cons row

theorem distinctAfter_covers (last : Row) (rest : List Row) :
    ∀ row ∈ rest, ∃ kept ∈ last :: distinctAfter last rest, tsKey kept = tsKey row := by
  induction rest generalizing last with
  | nil =>
    intro row member
    simp at member
  | cons first rest ih =>
    intro row member
    rw [distinctAfter]
    split
    · rename_i same
      rcases mem_cons.mp member with rfl | later
      · exact ⟨last, by simp, same⟩
      · exact ih last row later
    · rcases mem_cons.mp member with rfl | later
      · exact ⟨row, by simp, rfl⟩
      · obtain ⟨kept, inKept, same⟩ := ih first row later
        exact ⟨kept, mem_cons_of_mem _ inKept, same⟩

variable {rest : List Row}

theorem distinctAfter_sorted {last : Row}
    (sorted : (last :: rest).Pairwise fun before after => tsKey before ≤ tsKey after) :
    (last :: distinctAfter last rest).Pairwise fun before after => tsKey before < tsKey after := by
  induction rest generalizing last with
  | nil => simp [distinctAfter]
  | cons row rest ih =>
    obtain ⟨least, sortedRest⟩ := pairwise_cons.mp sorted
    rw [distinctAfter]
    split
    · apply ih
      rw [pairwise_cons]
      refine ⟨?_, (pairwise_cons.mp sortedRest).2⟩
      intro other member
      exact least other (mem_cons_of_mem _ member)
    · rename_i apart
      have below : tsKey last < tsKey row :=
        lt_of_le_of_ne (least row (by simp)) apart
      rw [pairwise_cons]
      refine ⟨?_, ih sortedRest⟩
      intro other member
      rcases mem_cons.mp member with rfl | later
      · exact below
      · have inRest := (distinctAfter_sublist row rest).subset later
        exact below.trans_le ((pairwise_cons.mp sortedRest).1 other inRest)

/-- The loop with `kept` and `last` in their final places, `junk` moved over or
passed, and `rest` to come. -/
theorem removeDuplicates_eq (rest : List Row) :
    ∀ (kept : List Row) (last : Row) (junk : List Row), ∃ junk',
      removeDuplicates rest.length (kept ++ last :: (junk ++ rest)) kept.length
          (kept.length + 1 + junk.length) = (kept ++ last :: (distinctAfter last rest ++ junk'),
          kept.length + (distinctAfter last rest).length) := by
  induction rest with
  | nil =>
    intro kept last junk
    exact ⟨junk, by simp [removeDuplicates, distinctAfter]⟩
  | cons row rest ih =>
    intro kept last junk
    have atLast : (kept ++ last :: (junk ++ row :: rest)).getD kept.length [] = last := by
      rw [List.getD_eq_getElem?_getD]
      simp
    have atRow : (kept ++ last :: (junk ++ row :: rest)).getD
        (kept.length + 1 + junk.length) [] = row := by
      have split : kept ++ last :: (junk ++ row :: rest) =
          (kept ++ last :: junk) ++ row :: rest := by simp
      have place : kept.length + 1 + junk.length = (kept ++ last :: junk).length := by
        simp
        omega
      rw [split, place, List.getD_eq_getElem?_getD]
      simp
    rw [length_cons, removeDuplicates, atLast, atRow, distinctAfter]
    by_cases same : tsKey last = tsKey row
    · rw [if_pos same, if_pos same]
      obtain ⟨junk', looped⟩ := ih kept last (junk ++ [row])
      refine ⟨junk', ?_⟩
      rw [<- looped]
      simp [Nat.add_assoc]
    · rw [if_neg same, if_neg same]
      obtain ⟨junk', moved⟩ : ∃ junk',
          (if kept.length + 1 ≠ kept.length + 1 + junk.length then
            (kept ++ last :: (junk ++ row :: rest)).set (kept.length + 1) row
          else kept ++ last :: (junk ++ row :: rest)) =
            (kept ++ [last]) ++ row :: (junk' ++ rest) ∧ junk'.length = junk.length := by
        cases junk with
        | nil => exact ⟨[], by simp⟩
        | cons first junk =>
          refine ⟨junk ++ [row], ?_, by simp⟩
          rw [if_pos (by simp)]
          have behind : (kept ++ last :: (first :: junk ++ row :: rest)) =
              (kept ++ [last]) ++ first :: (junk ++ row :: rest) := by simp
          have place : kept.length + 1 = (kept ++ [last]).length := by simp
          rw [behind, place, List.set_append_right _ _ (le_refl _)]
          simp
      obtain ⟨moved, sizes⟩ := moved
      simp only [moved]
      obtain ⟨junk'', looped⟩ := ih (kept ++ [last]) row junk'
      refine ⟨junk'', ?_⟩
      have start : (kept ++ [last]).length = kept.length + 1 := by simp
      rw [start, sizes] at looped
      have next : kept.length + 1 + junk.length + 1 = kept.length + 1 + 1 + junk.length := by
        omega
      rw [next, looped]
      simp
      omega

/-- What is left of the rows of a table: some of them, in strict order of time,
and for each of them one of the same time stamp. -/
structure Kept (rows kept : List Row) : Prop where
  ordered : kept.Pairwise fun before after => tsKey before < tsKey after
  taken : kept.Subperm rows
  covers : ∀ row ∈ rows, ∃ other ∈ kept, tsKey other = tsKey row

theorem kept_sorted (qsort : Qsort) {first : Row}
    (sorted : qsort.sort rows = first :: rest) : Kept rows (first :: distinctAfter first rest) where
  ordered := by
    apply distinctAfter_sorted
    rw [<- sorted]
    exact qsort.sorted rows
  taken := by
    have perm := qsort.perm rows
    rw [sorted] at perm
    have sub : (first :: distinctAfter first rest).Sublist (first :: rest) :=
      (distinctAfter_sublist first rest).cons_cons first
    exact sub.subperm.trans perm.subperm
  covers := by
    intro row member
    have perm := qsort.perm rows
    rw [sorted] at perm
    rcases mem_cons.mp (perm.mem_iff.mpr member) with rfl | later
    · exact ⟨row, by simp, rfl⟩
    · exact distinctAfter_covers first rest row later

theorem Kept.length_le {kept : List Row} (sorted : Kept rows kept) : kept.length ≤ rows.length :=
  sorted.taken.length_le

structure Parsed (rows : List Row) (dataBuf : STableDataBlocks SShellSubmitBlock) : Prop where
  size : dataBuf.size = submitBlockSize + rows.flatten.length
  payLoad : dataBuf.pData.payLoad = rows.flatten
  ordered : dataBuf.ordered = true ->
    (rows.Pairwise fun before after => tsKey before < tsKey after) ∧
      ∀ row ∈ rows, tsKey row ≤ dataBuf.prevTS

structure SameFrame (dataBuf dataBuf' : STableDataBlocks SShellSubmitBlock) : Prop where
  meterId : dataBuf'.meterId = dataBuf.meterId
  rowSize : dataBuf'.rowSize = dataBuf.rowSize
  numOfRows : dataBuf'.pData.numOfRows = dataBuf.pData.numOfRows

theorem parsed_row (parsed : Parsed rows dataBuf) (row : Row) :
    Parsed (rows ++ [row]) (tsParseOneRowData dataBuf row) where
  size := by
    simp only [tsParseOneRowData, parsed.size, List.flatten_append, List.flatten_singleton,
      List.length_append]
    omega
  payLoad := by
    simp [tsParseOneRowData, parsed.payLoad]
  ordered := by
    intro still
    simp only [tsParseOneRowData, Bool.and_eq_true, decide_eq_true_eq] at still
    obtain ⟨before, below⟩ := still
    obtain ⟨strict, bounded⟩ := parsed.ordered before
    simp only [tsParseOneRowData, if_pos before]
    constructor
    · rw [List.pairwise_append]
      refine ⟨strict, by simp, ?_⟩
      intro other member last inLast
      rw [List.mem_singleton.mp inLast]
      exact (bounded other member).trans_lt below
    · intro other member
      rcases List.mem_append.mp member with earlier | last
      · exact (bounded other earlier).trans below.le
      · rw [List.mem_singleton.mp last]

theorem parsed_rows (parsed : Parsed rows dataBuf) (new : List Row) :
    Parsed (rows ++ new) (new.foldl tsParseOneRowData dataBuf) ∧
      SameFrame dataBuf (new.foldl tsParseOneRowData dataBuf) := by
  induction new generalizing rows dataBuf with
  | nil =>
    rw [List.append_nil]
    exact ⟨parsed, rfl, rfl, rfl⟩
  | cons row new ih =>
    obtain ⟨later, frame⟩ := ih (parsed_row parsed row)
    rw [List.append_assoc] at later
    exact ⟨later, frame.meterId, frame.rowSize, frame.numOfRows⟩

structure Holds (table : Table) (rows : List Row)
    (dataBuf : STableDataBlocks SShellSubmitBlock) : Prop where
  parsed : Parsed rows dataBuf
  meterId : dataBuf.meterId = table.name
  rowSize : dataBuf.rowSize = table.rowSize
  vgid : dataBuf.vgid = table.vgid.signExtend 64
  sid : dataBuf.pData.sid = table.sid
  sversion : dataBuf.pData.sversion = table.sversion
  uid : dataBuf.pData.uid = table.uid
  numOfRows : dataBuf.pData.numOfRows = BitVec.ofNat 16 rows.length

variable {count : Nat}

theorem fits_int16 (fits : count < 2 ^ 15) : (BitVec.ofNat 16 count).toInt = count := by
  have value : (BitVec.ofNat 16 count).toNat = count := Nat.mod_eq_of_lt (by omega)
  rw [BitVec.toInt_eq_toNat_of_lt (by omega), value]

structure Open (table : Table) (rows : List Row)
    (dataBuf : STableDataBlocks SShellSubmitBlock) : Prop where
  parsed : Parsed rows dataBuf
  meterId : dataBuf.meterId = table.name
  rowSize : dataBuf.rowSize = table.rowSize
  numOfRows : dataBuf.pData.numOfRows = BitVec.ofNat 16 rows.length

theorem open_created (table : Table) :
    Open table [] (tscCreateDataBlockEx table.rowSize submitBlockSize table.name clearedBlock) where
  parsed :=
    { size := rfl
      payLoad := rfl
      ordered := fun _ => ⟨List.Pairwise.nil, fun row member => by simp at member⟩ }
  meterId := rfl
  rowSize := rfl
  numOfRows := rfl

theorem Holds.open {table : Table} (holds : Holds table rows dataBuf) :
    Open table rows dataBuf where
  parsed := holds.parsed
  meterId := holds.meterId
  rowSize := holds.rowSize
  numOfRows := holds.numOfRows

variable {clause : Clause}

theorem fillBlock_holds (opened : Open clause.table rows dataBuf)
    (some' : clause.rows ≠ []) (fits : clause.rows.length < 2 ^ 15) :
    ∃ dataBuf', fillBlock dataBuf clause = some dataBuf' ∧
      Holds clause.table (rows ++ clause.rows) dataBuf' := by
  have positive : ¬ (BitVec.ofNat 16 clause.rows.length).toInt ≤ 0 := by
    have := List.length_pos_iff.mpr some'
    rw [fits_int16 fits]
    omega
  obtain ⟨parsed, frame⟩ := parsed_rows opened.parsed clause.rows
  rw [fillBlock, tsParseValues, if_neg positive]
  refine ⟨_, rfl, ⟨parsed.size, parsed.payLoad, parsed.ordered⟩, ?_, ?_, rfl, rfl, rfl, rfl, ?_⟩
  · exact frame.meterId.trans opened.meterId
  · exact frame.rowSize.trans opened.rowSize
  · simp only [tsSetBlockInfo]
    rw [frame.numOfRows, opened.numOfRows, List.length_append, BitVec.ofNat_add]

theorem fillBlock_signs {dataBuf' : STableDataBlocks SShellSubmitBlock}
    (filled : fillBlock dataBuf clause = some dataBuf') : dataBuf'.pData.uid = clause.table.uid ∧
      dataBuf'.vgid = clause.table.vgid.signExtend 64 := by
  rw [fillBlock] at filled
  obtain ⟨⟨parsed, numOfRows⟩, -, result⟩ := Option.bind_eq_some_iff.mp filled
  cases Option.some.inj result
  exact ⟨rfl, rfl⟩

/-- What a message carries of a table: its identity, and rows in order of time. -/
structure Carries (table : Table) (kept : List Row) (block : SShellSubmitBlock) : Prop where
  sid : htonl block.sid = table.sid
  sversion : htonl block.sversion = table.sversion
  uid : htobe64 block.uid = table.uid
  numOfRows : (htons block.numOfRows).toInt = kept.length
  payLoad : block.payLoad = kept.flatten

theorem leBytes_wordOf (bytes : List UInt8) (size : bytes.length = count) :
    leBytes count (wordOf (8 * count) bytes).toNat = bytes := by
  have fits : leValue bytes < 2 ^ (8 * count) := by
    have := leValue_lt bytes
    rw [size] at this
    rw [Nat.pow_mul]
    exact this
  rw [wordOf, BitVec.toNat_ofNat, Nat.mod_eq_of_lt fits, <- size]
  exact leBytes_leValue bytes

theorem swap_swap {count : Nat} (word : BitVec (8 * count)) :
    wordOf (8 * count) (leBytes count (wordOf (8 * count)
      (leBytes count word.toNat).reverse).toNat).reverse = word := by
  rw [leBytes_wordOf _ (by simp), List.reverse_reverse]
  exact wordOf_leBytes count (le_refl _) word

theorem htonl_htonl (word : BitVec 32) : htonl (htonl word) = word :=
  @swap_swap 4 word

theorem htobe64_htobe64 (word : BitVec 64) : htobe64 (htobe64 word) = word :=
  @swap_swap 8 word

theorem htons_htons (word : BitVec 16) : htons (htons word) = word :=
  @swap_swap 2 word

section Sorting

variable {qsort : Qsort} {table : Table} {rows : List Row}
variable {dataBuf : STableDataBlocks SShellSubmitBlock}

section

variable (holds : Holds table rows dataBuf)
include holds

theorem numOfRows_eq (fits : rows.length < 2 ^ 15) :
    dataBuf.pData.numOfRows.toInt = rows.length := by
  rw [holds.numOfRows, fits_int16 fits]

section

variable (fits : rows.length < 2 ^ 15) (sizes : ∀ row ∈ rows, row.length = table.rowSize)

include fits sizes

theorem size_matches :
    dataBuf.pData.numOfRows.toInt * dataBuf.rowSize + submitBlockSize = dataBuf.size := by
  rw [numOfRows_eq holds fits, holds.rowSize, holds.parsed.size, length_flatten sizes]
  push_cast
  ring

theorem networkBlock_carries (some' : rows ≠ []) :
    ∃ sorted kept, sortRemoveDuplicates qsort dataBuf = some sorted ∧ Kept rows kept ∧
      Carries table kept (networkBlock sorted) := by
  have asserted := size_matches holds fits sizes
  by_cases ordered : dataBuf.ordered = true
  · refine ⟨dataBuf, rows, ?_, ⟨(holds.parsed.ordered ordered).1, List.Subperm.refl _, fun row member =>
      ⟨row, member, rfl⟩⟩, ?_⟩
    · rw [sortRemoveDuplicates]
      simp only [asserted, ne_eq, not_true_eq_false, if_false, ordered, if_true]
    · refine ⟨?_, ?_, ?_, ?_, ?_⟩
      · rw [networkBlock, htonl_htonl, holds.sid]
      · rw [networkBlock, htonl_htonl, holds.sversion]
      · rw [networkBlock, htobe64_htobe64, holds.uid]
      · rw [networkBlock, htons_htons, numOfRows_eq holds fits]
      · simp [networkBlock, holds.parsed.size, holds.parsed.payLoad]
  · have numOfRows : dataBuf.pData.numOfRows.toInt.toNat = rows.length := by
      rw [numOfRows_eq holds fits]
      simp
    have cut : rowsIn dataBuf.rowSize rows.length dataBuf.pData.payLoad = rows := by
      rw [holds.rowSize, holds.parsed.payLoad]
      exact rowsIn_flatten sizes
    obtain ⟨first, rest, sorted⟩ : ∃ first rest, qsort.sort rows = first :: rest := by
      apply List.exists_cons_of_ne_nil
      intro none'
      have perm := qsort.perm rows
      rw [none'] at perm
      exact some' perm.symm.eq_nil
    have count : rows.length - 1 = rest.length := by
      have := (qsort.perm rows).length_eq
      rw [sorted, length_cons] at this
      omega
    obtain ⟨junk, looped⟩ := removeDuplicates_eq rest [] first []
    simp only [List.nil_append, List.length_nil, Nat.zero_add, Nat.add_zero] at looped
    have kept := kept_sorted qsort sorted
    have ran : sortRemoveDuplicates qsort dataBuf = some
        { dataBuf with
          ordered := true
          size := submitBlockSize + dataBuf.rowSize * ((distinctAfter first rest).length + 1)
          pData :=
            { dataBuf.pData with
              numOfRows := BitVec.ofNat 16 ((distinctAfter first rest).length + 1)
              payLoad := (first :: (distinctAfter first rest ++ junk)).flatten } } := by
      rw [sortRemoveDuplicates]
      simp only [asserted, ne_eq, not_true_eq_false, if_false, ordered, numOfRows, cut, sorted,
        count, looped]
      rfl
    refine ⟨_, first :: distinctAfter first rest, ran, kept, ?_⟩
    · have keptFits := lt_of_le_of_lt kept.length_le fits
      have keptSizes : ∀ row ∈ first :: distinctAfter first rest, row.length = dataBuf.rowSize := by
        intro row member
        rw [holds.rowSize]
        exact sizes row (kept.taken.subset member)
      have bytes := length_flatten keptSizes
      refine ⟨?_, ?_, ?_, ?_, ?_⟩
      · rw [networkBlock, htonl_htonl, holds.sid]
      · rw [networkBlock, htonl_htonl, holds.sversion]
      · rw [networkBlock, htobe64_htobe64, holds.uid]
      · rw [networkBlock, htons_htons]
        rw [length_cons] at keptFits ⊢
        exact fits_int16 keptFits
      · simp only [networkBlock]
        rw [Nat.add_sub_cancel_left, <- length_cons, <- bytes, <- List.cons_append,
          List.flatten_append, List.take_left]

end

end

theorem sortRemoveDuplicates_uid {sorted : STableDataBlocks SShellSubmitBlock}
    (ran : sortRemoveDuplicates qsort dataBuf = some sorted) :
    sorted.pData.uid = dataBuf.pData.uid := by
  rw [sortRemoveDuplicates] at ran
  split at ran
  · cases ran
  · split at ran
    · cases Option.some.inj ran
      rfl
    · cases Option.some.inj ran
      rfl

end Sorting

end Luomi.Client.InsertRows
