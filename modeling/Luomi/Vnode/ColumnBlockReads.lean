import Luomi.Vnode.ColumnBlock

/-!
# A block is read back

What is written for a block is found again: the records of its columns with their checksum, and
each column where its record says, as long as the record can say it.  The offset has 24 bits and
a sign, so that is as long as every column starts in the first 8 MB of its block.
-/

namespace Luomi.Vnode.ColumnBlockReads

open LittleEndian ColumnBlock
open List (append_assoc flatMap_cons length_append length_cons length_replicate mem_cons
  mem_cons_self not_mem_nil pairwise_cons)

variable {codec : Codec} {compression points : Nat} {columns : List (SColumn × Bytes)}

theorem read_middle (before middle after : Bytes) :
    readFd ⟨before ++ (middle ++ after), before.length⟩ middle.length =
      (middle, middle.length, ⟨before ++ (middle ++ after), before.length + middle.length⟩) := by
  unfold readFd
  simp

variable {size : Nat}

theorem read_at {fd : Descriptor} (before : Bytes) {middle after : Bytes}
    (file : fd.file = before ++ (middle ++ after)) (pos : fd.pos = before.length)
    (whole : size = middle.length) :
    readFd fd size = (middle, size, { fd with pos := fd.pos + size }) := by
  obtain ⟨content, position⟩ := fd
  obtain rfl : content = before ++ (middle ++ after) := file
  obtain rfl : position = before.length := pos
  rw [whole, read_middle]

theorem lseek_nat (fd : Descriptor) (offset : Nat) :
    lseek fd offset = { fd with pos := offset } := by
  unfold lseek
  rw [if_neg (by omega), Int.toNat_natCast]

theorem taosCheckChecksumWhole_append (stream : Bytes) :
    taosCheckChecksumWhole codec (taosCalcChecksumAppend codec stream) = true := by
  unfold taosCheckChecksumWhole taosCalcChecksumAppend sizeofChecksum
  simp [wordOf_leBytes]

theorem toBytes_length (field : SField) : field.toBytes.length = sizeofField := by
  simp [SField.toBytes, sizeofField]

theorem wordAt_first {width : Nat} (enough : width ≤ 8 * size) (word : BitVec width)
    (rest : Bytes) : wordAt width 0 size (leBytes size word.toNat ++ rest) = word := by
  unfold wordAt
  rw [List.drop_zero, List.take_left' (leBytes_length ..), wordOf_leBytes size enough]

theorem wordAt_skip {position : Nat} (behind : size ≤ position) (width count value : Nat)
    (rest : Bytes) : wordAt width position count (leBytes size value ++ rest) =
      wordAt width (position - size) count rest := by
  unfold wordAt
  rw [List.drop_append, List.drop_eq_nil_of_le (by rw [leBytes_length]; exact behind),
    List.nil_append, leBytes_length]

theorem ofBytes_toBytes (field : SField) : SField.ofBytes field.toBytes = field := by
  obtain ⟨colId, bytes, numOfNullPoints, type, offset, len, sum, max, min, wsum⟩ := field
  unfold SField.ofBytes SField.toBytes
  simp [wordAt_skip, wordAt_first]

theorem parseFields_flatMap (fields : List SField) (rest : Bytes) :
    parseFields fields.length (fields.flatMap SField.toBytes ++ rest) = fields := by
  induction fields with
  | nil => rfl
  | cons field fields ih =>
    rw [flatMap_cons, append_assoc, length_cons, parseFields,
      List.take_left' (toBytes_length field), List.drop_left' (toBytes_length field), ih,
      ofBytes_toBytes]

def sizeOf' (codec : Codec) (compression points : Nat) (column : SColumn × Bytes) : Nat :=
  (stored codec compression points column).length + sizeofChecksum

def start (codec : Codec) (compression points : Nat) (columns : List (SColumn × Bytes))
    (col : Nat) : Nat :=
  fieldsSize columns.length + ((columns.take col).map (sizeOf' codec compression points)).sum

theorem fieldsFrom_length (key : Bytes) (offset : Nat) :
    (fieldsFrom codec compression points key offset columns).length = columns.length := by
  induction columns generalizing offset with
  | nil => rfl
  | cons column columns ih => rw [fieldsFrom, length_cons, length_cons, ih]

theorem fieldsFrom_getElem? (key : Bytes) (offset col : Nat) :
    (fieldsFrom codec compression points key offset columns)[col]? = columns[col]?.map
      (fieldOf codec compression points key
        (offset + ((columns.take col).map (sizeOf' codec compression points)).sum)) := by
  induction columns generalizing offset col with
  | nil => simp [fieldsFrom]
  | cons column columns ih =>
    cases col with
    | zero => simp [fieldsFrom]
    | succ col =>
      rw [fieldsFrom, List.getElem?_cons_succ, ih, List.getElem?_cons_succ, List.take_succ_cons,
        List.map_cons, List.sum_cons]
      congr 2
      unfold sizeOf'
      omega

theorem flatMap_take_length (col : Nat) : ((columns.take col).flatMap fun column =>
    taosCalcChecksumAppend codec (stored codec compression points column)).length =
      ((columns.take col).map (sizeOf' codec compression points)).sum := by
  rw [List.length_flatMap]
  congr 1
  apply List.map_congr_left
  intro column _
  simp [taosCalcChecksumAppend, sizeOf', sizeofChecksum]

def fields (codec : Codec) (compression points : Nat) (columns : List (SColumn × Bytes)) :
    List SField :=
  fieldsFrom codec compression points ((columns.head?.map Prod.snd).getD [])
    (fieldsSize columns.length) columns

theorem flatMap_toBytes_length (records : List SField) :
    (records.flatMap SField.toBytes).length = sizeofField * records.length := by
  induction records with
  | nil => rfl
  | cons record records ih =>
    rw [flatMap_cons, length_append, ih, toBytes_length, length_cons, Nat.mul_succ, Nat.add_comm]

theorem fields_length : (fields codec compression points columns).length = columns.length :=
  fieldsFrom_length ..

theorem blockBytes_eq : blockBytes codec compression points columns =
    taosCalcChecksumAppend codec ((fields codec compression points columns).flatMap SField.toBytes)
      ++ columns.flatMap fun column =>
        taosCalcChecksumAppend codec (stored codec compression points column) :=
  rfl

theorem header_length : (taosCalcChecksumAppend codec
    ((fields codec compression points columns).flatMap SField.toBytes)).length =
      fieldsSize columns.length := by
  unfold taosCalcChecksumAppend fieldsSize
  rw [length_append, flatMap_toBytes_length, fields_length, leBytes_length]

variable {col : Nat} {column : SColumn × Bytes}

theorem columns_split (here : columns[col]? = some column) :
    columns = columns.take col ++ column :: columns.drop (col + 1) := by
  obtain ⟨below, rfl⟩ := List.getElem?_eq_some_iff.mp here
  rw [List.getElem_cons_drop, List.take_append_drop]

theorem blockBytes_split (codec : Codec) (compression points : Nat)
    (here : columns[col]? = some column) :
    ∃ before after, blockBytes codec compression points columns =
      before ++ (stored codec compression points column ++ (leBytes sizeofChecksum
            (codec.taosCalcChecksum (stored codec compression points column)).toNat ++ after)) ∧
      before.length = start codec compression points columns col := by
  have split := columns_split here
  refine ⟨taosCalcChecksumAppend codec
      ((fields codec compression points columns).flatMap SField.toBytes)
    ++ (columns.take col).flatMap fun column =>
      taosCalcChecksumAppend codec (stored codec compression points column),
    (columns.drop (col + 1)).flatMap fun column =>
      taosCalcChecksumAppend codec (stored codec compression points column), ?_, ?_⟩
  · rw [blockBytes_eq]
    conv_lhs => rhs; rw [split]
    rw [List.flatMap_append, flatMap_cons]
    simp only [taosCalcChecksumAppend, append_assoc]
  · rw [length_append, header_length, flatMap_take_length]
    rfl

structure Columns (codec : Codec) (compression points : Nat) (columns : List (SColumn × Bytes)) :
    Prop where
  sorted : columns.Pairwise fun column later => column.1.colId < later.1.colId
  ids : ∀ column ∈ columns, column.1.colId < 32768
  sizes : ∀ column ∈ columns, column.2.length = points * column.1.bytes
  nonempty : ∀ column ∈ columns, stored codec compression points column ≠ []
  small : ∀ column ∈ columns, (stored codec compression points column).length < 2147483648
  types : ∀ column ∈ columns, column.1.type < 128
  levels : compression ≤ 2

structure Written (codec : Codec) (compression points : Nat) (columns : List (SColumn × Bytes))
    (file : Bytes) (pBlock : SCompBlock) : Prop where
  lies : ∃ before after, before.length = pBlock.offset ∧
    file = before ++ (blockBytes codec compression points columns ++ after)
  algorithm : pBlock.algorithm = compression
  numOfPoints : pBlock.numOfPoints = points
  numOfCols : pBlock.numOfCols = columns.length

variable {file : Bytes} {pBlock : SCompBlock}

theorem readFields_written (written : Written codec compression points columns file pBlock)
    (pos : Nat) : ∃ pos', readFields codec ⟨file, pos⟩ pBlock none =
      (some (fields codec compression points columns), ⟨file, pos'⟩) := by
  obtain ⟨before, after, offset, lies⟩ := written.lies
  have whole : fieldsSize pBlock.numOfCols = (taosCalcChecksumAppend codec
      ((fields codec compression points columns).flatMap SField.toBytes)).length := by
    rw [header_length, written.numOfCols]
  have header : readFd (lseek ⟨file, pos⟩ pBlock.offset) (fieldsSize pBlock.numOfCols) =
      (taosCalcChecksumAppend codec
        ((fields codec compression points columns).flatMap SField.toBytes),
        fieldsSize pBlock.numOfCols, ⟨file, pBlock.offset + fieldsSize pBlock.numOfCols⟩) := by
    rw [lseek_nat]
    apply read_at _ _ offset.symm whole
    · exact (columns.flatMap fun column =>
        taosCalcChecksumAppend codec (stored codec compression points column)) ++ after
    · dsimp only
      rw [lies, blockBytes_eq, append_assoc]
  refine ⟨pBlock.offset + fieldsSize pBlock.numOfCols, ?_⟩
  unfold readFields
  rw [header]
  dsimp only
  rw [if_pos (taosCheckChecksumWhole_append _), written.numOfCols]
  have parsed := parseFields_flatMap (fields codec compression points columns)
    (leBytes sizeofChecksum (codec.taosCalcChecksum
      ((fields codec compression points columns).flatMap SField.toBytes)).toNat)
  rw [fields_length] at parsed
  unfold taosCalcChecksumAppend
  rw [parsed]

theorem offset_toInt_iff (offset : Nat) :
    (BitVec.ofNat 24 offset).toInt = offset ↔ offset < 8388608 := by
  rw [BitVec.toInt_ofNat']
  constructor
  · intro same
    have below := Int.bmod_lt (x := (offset : Int)) (m := 2 ^ 24) (by decide)
    omega
  · intro below
    exact Int.bmod_eq_of_le (by omega) (by omega)

theorem len_toInt {len : Nat} (small : len < 2147483648) : (BitVec.ofNat 32 len).toInt = len := by
  rw [BitVec.toInt_ofNat']
  exact Int.bmod_eq_of_le (by omega) (by omega)

theorem fieldOf_colId (codec : Codec) (compression points : Nat) (key : Bytes) (offset : Nat)
    (small : column.1.colId < 32768) :
    (fieldOf codec compression points key offset column).colId.toInt = column.1.colId := by
  unfold fieldOf
  dsimp only
  rw [BitVec.toInt_ofNat']
  exact Int.bmod_eq_of_le (by omega) (by omega)

theorem unpacked (good : Columns codec compression points columns)
    (mem : column ∈ columns) : (if compression ≠ 0 then
        codec.pDecompFunc column.1.type compression (stored codec compression points column) points
      else stored codec compression points column) = column.2 := by
  unfold stored
  split_ifs with raw
  · exact codec.lossless _ _ _ _ _ (by omega) good.levels (good.sizes column mem)
  · rfl

theorem fields_getElem? (codec : Codec) (compression points : Nat)
    (here : columns[col]? = some column) : (fields codec compression points columns)[col]? =
      some (fieldOf codec compression points ((columns.head?.map Prod.snd).getD [])
        (start codec compression points columns col) column) := by
  unfold fields
  rw [fieldsFrom_getElem?, here]
  rfl

theorem readColumn_written (good : Columns codec compression points columns)
    (written : Written codec compression points columns file pBlock)
      (here : columns[col]? = some column)
    (near : start codec compression points columns col < 8388608) (pos : Nat) :
    ∃ pos', vnodeReadColumnToMem codec ⟨file, pos⟩ pBlock
      (some (fields codec compression points columns)) col true =
      (some (fields codec compression points columns, column.2), ⟨file, pos'⟩) := by
  obtain ⟨front, behind, offset, lies⟩ := written.lies
  obtain ⟨before, after, block, starts⟩ := blockBytes_split codec compression points here
  have mem : column ∈ columns := List.mem_of_getElem? here
  have record := fields_getElem? codec compression points here
  have len : (BitVec.ofNat 32 (stored codec compression points column).length).toInt.toNat =
      (stored codec compression points column).length := by
    rw [len_toInt (good.small column mem), Int.toNat_natCast]
  have type : (BitVec.ofNat 8 column.1.type).toNat = column.1.type := by
    rw [BitVec.toNat_ofNat]
    have := good.types column mem
    omega
  have data : readFd ⟨file, pBlock.offset + start codec compression points columns col⟩
      (stored codec compression points column).length = (stored codec compression points column,
        (stored codec compression points column).length,
        ⟨file, pBlock.offset + start codec compression points columns col
          + (stored codec compression points column).length⟩) := by
    apply read_at (front ++ before) _ _ rfl
    · exact (leBytes sizeofChecksum (codec.taosCalcChecksum
        (stored codec compression points column)).toNat ++ after) ++ behind
    · dsimp only
      rw [lies, block]
      simp only [append_assoc]
    · dsimp only
      rw [length_append, offset, starts]
  have chksum : readFd ⟨file, pBlock.offset + start codec compression points columns col
        + (stored codec compression points column).length⟩ sizeofChecksum =
      (leBytes sizeofChecksum (codec.taosCalcChecksum
        (stored codec compression points column)).toNat, sizeofChecksum,
        ⟨file, pBlock.offset + start codec compression points columns col
          + (stored codec compression points column).length + sizeofChecksum⟩) := by
    apply read_at ((front ++ before) ++ stored codec compression points column) _ _
      (leBytes_length ..).symm
    · exact after ++ behind
    · dsimp only
      rw [lies, block]
      simp only [append_assoc]
    · dsimp only
      rw [length_append, length_append, offset, starts]
  refine ⟨pBlock.offset + start codec compression points columns col
    + (stored codec compression points column).length + sizeofChecksum, ?_⟩
  unfold vnodeReadColumnToMem readFields
  dsimp only
  rw [if_pos rfl, record]
  dsimp only [fieldOf]
  rw [(offset_toInt_iff _).mpr near, len, <- Nat.cast_add, lseek_nat]
  dsimp only
  rw [data]
  dsimp only
  rw [chksum]
  dsimp only
  have some' : (stored codec compression points column).length ≠ 0 :=
    mt List.eq_nil_of_length_eq_zero (good.nonempty column mem)
  have value := unpacked good mem
  rw [wordOf_leBytes _ (by decide), if_neg (not_not_intro rfl), if_neg some', type,
    written.algorithm, written.numOfPoints]
  split_ifs at value ⊢
  · rw [value]
  · rw [value]

def AllNull (type bytes : Nat) : Nat -> Bytes -> Prop
  | 0, _ => True
  | numOfElems + 1, val => nullMark type <+: val ∧
      AllNull type bytes numOfElems (val.drop (nullStep type bytes))

theorem setNullN_allNull {type bytes : Nat}
    (mark : (nullMark type).length ≤ nullStep type bytes) (numOfElems : Nat) (val : Bytes)
    (room : numOfElems * nullStep type bytes ≤ val.length) :
    AllNull type bytes numOfElems (setNullN type bytes numOfElems val) := by
  induction numOfElems generalizing val with
  | zero => trivial
  | succ numOfElems ih =>
    rw [Nat.succ_mul] at room
    have rest := ih (val.drop (nullStep type bytes)) (by rw [List.length_drop]; omega)
    have step : (nullMark type ++ (val.take (nullStep type bytes)).drop (nullMark type).length).length
        = nullStep type bytes := by
      rw [length_append, List.length_drop, List.length_take]
      omega
    refine ⟨List.prefix_append _ _, ?_⟩
    rw [setNullN, <- append_assoc, List.drop_left' step]
    exact rest

structure Requests (points : Nat) where
  colList : List (SColumnFilter × Bytes)
  sorted : colList.Pairwise fun request later => request.1.colId < later.1.colId
  timestamp : ∀ request ∈ colList.head?, request.1.colIdx = 0 ↔ request.1.colId = 0
  mark : ∀ request ∈ colList,
    (nullMark request.1.type).length ≤ nullStep request.1.type request.1.bytes
  room : ∀ request ∈ colList, points * nullStep request.1.type request.1.bytes ≤ request.2.length

/-- What a requested column gives: the values that were written, or missing values if the block
has no such column. -/
structure Returned (columns : List (SColumn × Bytes)) (points : Nat)
    (request : SColumnFilter × Bytes) (out : Bytes) : Prop where
  values : ∀ column ∈ columns, column.1.colId = request.1.colId -> column.2 <+: out
  nulls : (∀ column ∈ columns, column.1.colId ≠ request.1.colId) ->
    AllNull request.1.type request.1.bytes points out

variable {other : SColumn × Bytes}

theorem colId_cases (sorted : columns.Pairwise fun column later => column.1.colId < later.1.colId)
    (here : columns[col]? = some column) (mem : other ∈ columns) :
    other ∈ columns.take col ∨ other = column ∨ column.1.colId < other.1.colId := by
  rw [columns_split here] at mem sorted
  have later := (pairwise_cons.mp (List.pairwise_append.mp sorted).2.1).1
  rcases List.mem_append.mp mem with before | rest
  · exact Or.inl before
  · rcases mem_cons.mp rest with same | behind
    · exact Or.inr (Or.inl same)
    · exact Or.inr (Or.inr (later other behind))

theorem mem_take_succ (here : columns[col]? = some column) (mem : other ∈ columns.take (col + 1)) :
    other ∈ columns.take col ∨ other = column := by
  rw [List.take_add_one, here] at mem
  simpa using mem

theorem fields_drop (here : columns[col]? = some column) :
    (fields codec compression points columns).drop col =
      fieldOf codec compression points ((columns.head?.map Prod.snd).getD [])
        (start codec compression points columns col) column
      :: (fields codec compression points columns).drop (col + 1) := by
  obtain ⟨below, same⟩ := List.getElem?_eq_some_iff.mp (fields_getElem? _ _ _ here)
  rw [<- same, List.getElem_cons_drop]

theorem returned_nulls {request : SColumnFilter × Bytes}
    (mark : (nullMark request.1.type).length ≤ nullStep request.1.type request.1.bytes)
    (room : points * nullStep request.1.type request.1.bytes ≤ request.2.length)
    (absent : ∀ column ∈ columns, column.1.colId ≠ request.1.colId) :
    Returned columns points request (setNullN request.1.type request.1.bytes points request.2) :=
  ⟨fun column mem same => absurd same (absent column mem),
    fun _ => setNullN_allNull mark points request.2 room⟩

theorem readColumns_written (good : Columns codec compression points columns)
    (written : Written codec compression points columns file pBlock)
    (near : ∀ col < columns.length, start codec compression points columns col < 8388608)
    (left : Nat) : ∀ (col : Nat) (requests : List (SColumnFilter × Bytes)) (pos : Nat),
      columns.length - col + requests.length < left ->
      (requests.Pairwise fun request later => request.1.colId < later.1.colId) ->
      (∀ request ∈ requests,
        (nullMark request.1.type).length ≤ nullStep request.1.type request.1.bytes ∧
          points * nullStep request.1.type request.1.bytes ≤ request.2.length) ->
      (∀ column ∈ columns.take col, ∀ request ∈ requests, column.1.colId < request.1.colId) ->
      ∃ out, readColumns codec pBlock (fields codec compression points columns) col
          ((fields codec compression points columns).drop col) requests ⟨file, pos⟩ = some out ∧
        List.Forall₂ (Returned columns points) requests out := by
  induction left with
  | zero =>
    intro col requests pos least
    exact absurd least (Nat.not_lt_zero _)
  | succ left ih =>
    intro col requests pos least sorted rooms before
    cases here : columns[col]? with
    | none =>
      -- the columns of the block are used up
      have beyond : columns.length ≤ col := List.getElem?_eq_none_iff.mp here
      rw [List.drop_eq_nil_of_le (by rw [fields_length]; exact beyond), readColumns]
      refine ⟨_, rfl, List.forall₂_map_right_iff.mpr (List.forall₂_same.mpr ?_)⟩
      intro request mem
      rw [written.numOfPoints]
      apply returned_nulls (rooms request mem).1 (rooms request mem).2
      intro column member
      rw [<- List.take_of_length_le beyond] at member
      exact (before column member request mem).ne
    | some column =>
      have inside : col < columns.length := (List.getElem?_eq_some_iff.mp here).1
      have member : column ∈ columns := List.mem_of_getElem? here
      cases requests with
      | nil =>
        rw [fields_drop here, readColumns]
        exact ⟨_, rfl, .nil⟩
      | cons request requests =>
        have ids := fieldOf_colId codec compression points
          ((columns.head?.map Prod.snd).getD []) (start codec compression points columns col)
          (good.ids column member)
        obtain ⟨behind, sorted'⟩ := pairwise_cons.mp sorted
        have rooms' := (List.forall_mem_cons.mp rooms).2
        have room := rooms request mem_cons_self
        rw [fields_drop here, readColumns]
        rcases lt_trichotomy column.1.colId request.1.colId with less | same | greater
        · -- the column is not requested
          rw [if_pos (by rw [ids]; omega)]
          apply ih (col + 1) (request :: requests) pos (by omega) sorted rooms
          intro other mem later inside'
          rcases mem_take_succ here mem with mem' | rfl
          · exact before other mem' later inside'
          · rcases mem_cons.mp inside' with rfl | inside'
            · exact less
            · exact less.trans (behind later inside')
        · rw [if_neg (by rw [ids]; omega), if_pos (by rw [ids]; omega)]
          obtain ⟨pos', value⟩ := readColumn_written good written here (near col inside) pos
          rw [value]
          dsimp only
          rw [length_cons] at least
          obtain ⟨out, reads, returned⟩ := ih (col + 1) requests pos' (by omega) sorted' rooms' (by
            intro other mem later inside'
            rcases mem_take_succ here mem with mem' | rfl
            · exact before other mem' later (List.mem_cons_of_mem _ inside')
            · exact same.trans_lt (behind later inside'))
          rw [reads]
          refine ⟨_, rfl, .cons ⟨?_, ?_⟩ returned⟩
          · intro other mem equal
            rcases colId_cases good.sorted here mem with mem' | rfl | larger
            · have := before other mem' request mem_cons_self
              omega
            · exact List.prefix_append _ _
            · omega
          · intro absent
            exact absurd same (absent column member)
        · -- the block has no such column
          rw [if_neg (by rw [ids]; omega), if_neg (by rw [ids]; omega)]
          rw [length_cons] at least
          have rest := ih col requests pos (by omega) sorted' rooms'
            fun other mem later inside' => before other mem later (List.mem_cons_of_mem _ inside')
          rw [fields_drop here] at rest
          obtain ⟨out, reads, returned⟩ := rest
          rw [reads, written.numOfPoints]
          refine ⟨_, rfl, .cons (returned_nulls room.1 room.2 ?_) returned⟩
          intro other mem
          rcases colId_cases good.sorted here mem with mem' | rfl | larger
          · exact (before other mem' request mem_cons_self).ne
          · omega
          · omega

variable {tsFileBlockMinPercent : Rat} {pVnode : SVnodeObj} {pObj : SMeterObj} {last : Bool}

theorem columns_fst (block : Points pObj) : block.columns.map Prod.fst = pObj.schema :=
  List.map_fst_zip block.length.ge

theorem columns_good (codec : Codec) (pVnode : SVnodeObj) (block : Points pObj) :
    Columns codec pVnode.compression block.points block.columns := by
  have inSchema : ∀ column ∈ block.columns, column.1 ∈ pObj.schema :=
    fun column mem => (List.of_mem_zip mem).1
  have width : ∀ column ∈ block.columns, column.1.bytes ≤ 4096 := by
    intro column mem
    exact (List.le_sum_of_mem (List.mem_map_of_mem (inSchema column mem))).trans pObj.bytesPerPoint
  have length : ∀ column ∈ block.columns, column.2.length ≤ 500000 * 4096 := by
    intro column mem
    rw [block.sizes column mem]
    exact Nat.mul_le_mul (block.most.trans pObj.rowsInFileBlock) (width column mem)
  refine ⟨?_, ?_, block.sizes, ?_, ?_, ?_, pVnode.levels⟩
  · have sorted := pObj.sorted
    rw [<- columns_fst block, List.pairwise_map] at sorted
    exact sorted
  · exact fun column mem => pObj.ids column.1 (inSchema column mem)
  · intro column mem
    have some' : column.2 ≠ [] := by
      intro none'
      have size := block.sizes column mem
      rw [none', List.length_nil] at size
      have positive := Nat.mul_pos block.some' (pObj.sizes column.1 (inSchema column mem))
      omega
    unfold stored
    split_ifs with raw
    · exact codec.nonempty _ _ _ _ (Nat.pos_of_ne_zero raw) pVnode.levels some'
    · exact some'
  · intro column mem
    have most := length column mem
    unfold stored
    split_ifs with raw
    · have bound := codec.bounded column.1.type pVnode.compression column.2 block.points
        (Nat.pos_of_ne_zero raw) pVnode.levels
      unfold extraBytes at bound
      omega
    · omega
  · exact fun column mem => pObj.types column.1 (inSchema column mem)

/-- The file that a block is in; the temporary file has become the last file. -/
def fileOf (pVnode : SVnodeObj) (pBlock : SCompBlock) : Bytes :=
  if pBlock.last then pVnode.tfd.getD pVnode.lfd else pVnode.dfd

theorem vnodeWriteBlockToFile_written (codec : Codec) (tsFileBlockMinPercent : Rat)
    (pVnode : SVnodeObj) (last : Bool) (block : Points pObj) :
    Written codec pVnode.compression block.points block.columns
      (fileOf (vnodeWriteBlockToFile codec tsFileBlockMinPercent pVnode pObj last block.data
          block.points).2
        (vnodeWriteBlockToFile codec tsFileBlockMinPercent pVnode pObj last block.data
          block.points).1)
      (vnodeWriteBlockToFile codec tsFileBlockMinPercent pVnode pObj last block.data
        block.points).1 := by
  refine ⟨?_, rfl, rfl, ?_⟩
  · unfold vnodeWriteBlockToFile fileOf
    dsimp only
    generalize (last && decide
      ((block.points : Rat) < pObj.pointsPerFileBlock * tsFileBlockMinPercent)) = inLast
    cases inLast with
    | false => exact ⟨pVnode.dfd, [], rfl, by rw [List.append_nil]; rfl⟩
    | true =>
      cases tfd : pVnode.tfd with
      | none => exact ⟨pVnode.lfd, [], rfl, by simp; rfl⟩
      | some temp => exact ⟨temp, [], rfl, by simp; rfl⟩
  · have lengths := congrArg List.length (columns_fst block)
    rw [List.length_map] at lengths
    exact lengths.symm

/-- What is read of a block and the vnode it was written to: each requested column, and in the
records of the columns the position and the size of each. -/
structure RoundTrips (codec : Codec) (compression : Nat) (block : Points pObj)
    (requests : Requests block.points) (written : SCompBlock × SVnodeObj) : Prop where
  values : ∃ out, vnodeReadCompBlockToMem codec written.2.dfd
      (written.2.tfd.getD written.2.lfd) written.1 requests.colList = some out ∧
    List.Forall₂ (Returned block.columns block.points) requests.colList out
  positions : ∃ (records : List SField) (fd : Descriptor),
    vnodeReadColumnToMem codec ⟨fileOf written.2 written.1, 0⟩ written.1 none 0 false =
        (some (records, []), fd) ∧
      ∀ col column, block.columns[col]? = some column -> ∃ record, records[col]? = some record ∧
        record.offset.toInt = (start codec compression block.points block.columns col : Int) ∧
        record.len.toInt = ((stored codec compression block.points column).length : Int)

theorem vnodeReadColumnToMem_records
    (written : Written codec compression points columns file pBlock)
    (pos col : Nat) : ∃ pos', vnodeReadColumnToMem codec ⟨file, pos⟩ pBlock none col false =
      (some (fields codec compression points columns, []), ⟨file, pos'⟩) := by
  obtain ⟨pos', records⟩ := readFields_written written pos
  refine ⟨pos', ?_⟩
  unfold vnodeReadColumnToMem
  rw [records]
  rfl

theorem readColumn_first (good : Columns codec compression points columns)
    (written : Written codec compression points columns file pBlock)
      (here : columns[col]? = some column)
    (near : start codec compression points columns col < 8388608) (pos : Nat) :
    ∃ pos', vnodeReadColumnToMem codec ⟨file, pos⟩ pBlock none col true =
      (some (fields codec compression points columns, column.2), ⟨file, pos'⟩) := by
  obtain ⟨pos', records⟩ := readFields_written written pos
  obtain ⟨pos'', value⟩ := readColumn_written good written here near pos'
  refine ⟨pos'', ?_⟩
  rw [<- value]
  unfold vnodeReadColumnToMem
  rw [records]
  rfl

theorem timestamp_column (block : Points pObj) :
    ∃ column, block.columns[0]? = some column ∧ column.1.colId = 0 := by
  have first := pObj.timestamp
  rw [<- columns_fst block, List.head?_map, Option.map_map, List.head?_eq_getElem?] at first
  exact Option.map_eq_some_iff.mp first

theorem requests_positive (requests : Requests points)
    (extra : (requests.colList.head?.any fun request => decide (request.1.colIdx ≠ 0)) = true) :
    ∀ request ∈ requests.colList, 0 < request.1.colId := by
  intro request mem
  have sorted := requests.sorted
  have timestamp := requests.timestamp
  cases colList : requests.colList with
  | nil =>
    rw [colList] at mem
    exact absurd mem not_mem_nil
  | cons first rest =>
    rw [colList] at extra mem sorted timestamp
    have index : first.1.colIdx ≠ 0 := of_decide_eq_true extra
    have positive : 0 < first.1.colId :=
      Nat.pos_of_ne_zero (mt (timestamp first rfl).mpr index)
    rcases mem_cons.mp mem with rfl | later
    · exact positive
    · exact positive.trans ((pairwise_cons.mp sorted).1 request later)

/-- A query finds the columns it requests, where every record says where its column is. -/
theorem vnodeReadCompBlockToMem_written (block : Points pObj) (requests : Requests block.points)
    (good : Columns codec compression block.points block.columns) {dfd lfd : Bytes}
    (written : Written codec compression block.points block.columns
      (if pBlock.last then lfd else dfd) pBlock)
    (near : ∀ col < block.columns.length,
      start codec compression block.points block.columns col < 8388608) :
    ∃ out, vnodeReadCompBlockToMem codec dfd lfd pBlock requests.colList = some out ∧
      List.Forall₂ (Returned block.columns block.points) requests.colList out := by
  have rooms : ∀ request ∈ requests.colList,
      (nullMark request.1.type).length ≤ nullStep request.1.type request.1.bytes ∧
        block.points * nullStep request.1.type request.1.bytes ≤ request.2.length :=
    fun request mem => ⟨requests.mark request mem, requests.room request mem⟩
  have loop := fun col pos before => readColumns_written good written near _ col requests.colList
    pos (Nat.lt_succ_self _) requests.sorted rooms before
  unfold vnodeReadCompBlockToMem
  dsimp only
  cases extra : requests.colList.head?.any fun request => decide (request.1.colIdx ≠ 0) with
  | false =>
    obtain ⟨pos, records⟩ := vnodeReadColumnToMem_records written 0 0
    rw [records]
    exact loop 0 pos (by simp)
  | true =>
    -- the timestamp is not requested: it is read beside the requested columns
    obtain ⟨column, here, id⟩ := timestamp_column block
    obtain ⟨pos, records⟩ := readColumn_first good written here
      (near 0 (List.getElem?_eq_some_iff.mp here).1) 0
    rw [records]
    refine loop 1 pos ?_
    intro other mem request requested
    rcases mem_take_succ here mem with none' | rfl
    · rw [List.take_zero] at none'
      exact absurd none' not_mem_nil
    · rw [id]
      exact requests_positive requests extra request requested

theorem roundTrips_near {block : Points pObj}
    {requests : Requests block.points} {written : SCompBlock × SVnodeObj}
    (lies : Written codec compression block.points block.columns (fileOf written.2 written.1)
      written.1) (trips : RoundTrips codec compression block requests written)
    (below : col < block.columns.length) :
    start codec compression block.points block.columns col < 8388608 := by
  obtain ⟨-, found, fd, read, places⟩ := trips
  obtain ⟨pos, records⟩ := vnodeReadColumnToMem_records lies 0 0
  obtain ⟨rfl, -⟩ := Prod.mk.inj (Option.some.inj (Prod.mk.inj (records.symm.trans read)).1)
  have here : block.columns[col]? = some block.columns[col] := List.getElem?_eq_getElem below
  obtain ⟨field, found, offset, -⟩ := places col _ here
  rw [fields_getElem? _ _ _ here] at found
  cases found
  exact (offset_toInt_iff _).mp offset

/-- A block comes back exactly if each of its columns starts in its first 8 MB. -/
theorem roundTrips_iff (codec : Codec) (tsFileBlockMinPercent : Rat) (pVnode : SVnodeObj)
    (last : Bool) (block : Points pObj) (requests : Requests block.points) :
    RoundTrips codec pVnode.compression block requests
        (vnodeWriteBlockToFile codec tsFileBlockMinPercent pVnode pObj last block.data
          block.points) ↔ ∀ col < pObj.schema.length,
        start codec pVnode.compression block.points block.columns col < 8388608 := by
  have good := columns_good codec pVnode block
  have written := vnodeWriteBlockToFile_written codec tsFileBlockMinPercent pVnode last block
  have length : block.columns.length = pObj.schema.length := by
    rw [<- columns_fst block, List.length_map]
  rw [<- length]
  constructor
  · intro trips col below
    exact roundTrips_near written trips below
  · intro near
    obtain ⟨pos, records⟩ := vnodeReadColumnToMem_records written 0 0
    refine ⟨vnodeReadCompBlockToMem_written block requests good written near, _, _, records, ?_⟩
    intro col column here
    have below := (List.getElem?_eq_some_iff.mp here).1
    exact ⟨_, fields_getElem? _ _ _ here, (offset_toInt_iff _).mpr (near col below),
      len_toInt (good.small column (List.mem_of_getElem? here))⟩

def plainCodec : Codec where
  taosCalcChecksum _ := 0
  pCompFunc _ _ data _ := data
  pDecompFunc _ _ data _ := data
  getStatistics _ _ _ _ _ := ⟨0, 0, 0, 0, 0⟩
  lossless _ _ _ _ _ _ _ _ := rfl
  bounded _ _ _ _ _ _ := Nat.le_add_right ..
  nonempty _ _ _ _ _ _ := id

def wideMeter : SMeterObj where
  schema := [⟨0, 9, 8⟩, ⟨1, 8, 4000⟩, ⟨2, 4, 4⟩]
  sversion := 0
  pointsPerFileBlock := 4096
  timestamp := rfl
  sorted := by decide
  ids := by decide
  types := by decide
  sizes := by decide
  bytesPerPoint := by decide
  rowsInFileBlock := by decide

def wideBlock : Points wideMeter where
  points := 4096
  data := [List.replicate (4096 * 8) 1, List.replicate (4096 * 4000) 1, List.replicate (4096 * 4) 1]
  some' := by decide
  most := Nat.le_refl _
  length := rfl
  sizes := by
    intro pair mem
    rcases mem_cons.mp mem with rfl | mem
    · exact length_replicate
    rcases mem_cons.mp mem with rfl | mem
    · exact length_replicate
    rcases mem_cons.mp mem with rfl | mem
    · exact length_replicate
    · exact absurd mem not_mem_nil

def lastColumn : Requests wideBlock.points where
  colList := [(⟨2, 2, 4, 4⟩, List.replicate (4096 * 4) 0)]
  sorted := List.pairwise_singleton _ _
  timestamp := by
    rintro request same
    cases same
    decide
  mark := by
    intro request mem
    cases List.mem_singleton.mp mem
    decide
  room := by
    intro request mem
    cases List.mem_singleton.mp mem
    rw [length_replicate]
    decide

def emptyVnode : SVnodeObj := ⟨0, [], [], none, by decide⟩

theorem start_third (codec : Codec) (points : Nat) (first second third : SColumn × Bytes) :
    start codec emptyVnode.compression points [first, second, third] 2 =
      fieldsSize 3 + (first.2.length + 4 + (second.2.length + 4)) := by
  simp [start, sizeOf', stored, sizeofChecksum, emptyVnode]

theorem wideBlock_misplaced : ¬ RoundTrips plainCodec 0 wideBlock lastColumn
    (vnodeWriteBlockToFile plainCodec (1 / 20) emptyVnode wideMeter false wideBlock.data
      wideBlock.points) := by
  intro trips
  have near := roundTrips_near
    (vnodeWriteBlockToFile_written plainCodec (1 / 20) emptyVnode false wideBlock) trips
    (show 2 < 3 by decide)
  have columns : wideBlock.columns = [(⟨0, 9, 8⟩, List.replicate (4096 * 8) 1),
      (⟨1, 8, 4000⟩, List.replicate (4096 * 4000) 1), (⟨2, 4, 4⟩, List.replicate (4096 * 4) 1)] :=
    rfl
  rw [columns, start_third] at near
  simp only [length_replicate] at near
  exact absurd near (by decide)

end Luomi.Vnode.ColumnBlockReads
