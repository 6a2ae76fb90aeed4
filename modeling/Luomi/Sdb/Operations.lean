import Luomi.Sdb.Tally

/-!
# What an operation appends

An operation that is not refused appends its records and a mark, and what the
table holds afterwards is what these records leave of what it held before.
-/

namespace Luomi.Sdb.Operations

open HashIndex Engine Recovery Replay History OpenFile Tally
open List (append_assoc foldl_cons foldl_nil length_append length_take mem_cons)
open Option (bind_eq_some_iff some.inj)

section Operations

variable {Obj : Type} {args : TableArgs Obj}

def batchRecords (args : TableArgs Obj) : Int -> List Obj -> List Record
  | _, [] => []
  | id, obj :: later => ⟨id + 1, args.appTool.encode obj⟩ :: batchRecords args (id + 1) later

def opRecords (table : SdbTable Obj) : Op args -> List Record
  | .insert row =>
    if InsertRefused table row then []
    else [⟨table.id + 1, args.appTool.encode (insertedObj table row)⟩]
  | .delete row =>
    if (sdbGetIndex table.index (keyAt args.keyType row.bytes)).isNone then []
    else [⟨-(table.id + 1), row.bytes.take (keySize args.keyType row.bytes)⟩]
  | .update row =>
    if (sdbGetIndex table.index (keyAt args.keyType row.bytes)).isNone then []
    else [⟨table.id + 1, row.bytes⟩]
  | .batchUpdate first later =>
    if (sdbGetIndex table.index (objKey args first)).isNone then []
    else batchRecords args table.id (first :: later)

def TakesNewKey (table : SdbTable Obj) : Op args -> Prop
  | .insert row => ¬ InsertRefused table row ->
      sdbGetRow table (objKey args (insertedObj table row)) = none
  | _ => True

structure Holds (args : TableArgs Obj) (table : SdbTable Obj) (rows : Rows Obj) : Prop where
  sound : Sound args table
  rows : ∀ key, sdbGetRow table key = rows key
  size : table.file.length = table.size

structure Appends (args : TableArgs Obj) (table : SdbTable Obj) (group : List Record)
    (next : SdbTable Obj) : Prop where
  file : next.file = table.file ++ groupBytes args group
  header : next.header = table.header
  recordable : ∀ record ∈ group, Recordable args record ∧ record.id ≠ 0
  numbered : Numbered table.id group
  id : next.id = table.id + group.length

variable {table next : SdbTable Obj} {rows : Rows Obj}

section

variable (row : RowArg args)

theorem RowArg.keyed : Keyed args.keyType row.bytes := by
  cases row with
  | object obj => exact args.appTool.keyed obj
  | encoded row => exact row.keyed

theorem RowArg.fits : row.bytes.length ≤ args.maxRowSize := by
  cases row with
  | object obj => exact args.appTool.fits obj
  | encoded row => exact row.fits

theorem RowArg.decode_bytes : args.appTool.decode row.bytes = row.obj := by
  cases row with
  | object obj => exact args.appTool.decode_encode obj
  | encoded row => rfl

theorem RowArg.objKey_obj : objKey args row.obj = keyAt args.keyType row.bytes := by
  rw [<- RowArg.decode_bytes row]
  exact decoded_key (RowArg.keyed row) (RowArg.fits row)

end

theorem takesNewKey_of_notAuto (notAuto : args.keyType ≠ .auto) (table : SdbTable Obj)
    (op : Op args) : TakesNewKey table op := by
  cases op with
  | insert row =>
    intro accepted
    have own : insertedObj table row = row.obj := if_neg notAuto
    rw [own, RowArg.objKey_obj row]
    by_contra present
    exact accepted ⟨Or.inl notAuto, Option.isSome_iff_ne_none.mpr present⟩
  | delete row => trivial
  | update row => trivial
  | batchUpdate first later => trivial

theorem sdbGetIndex_isNone {key : Bytes} :
    (sdbGetIndex table.index key).isNone ↔ sdbGetRow table key = none := by
  rw [Option.isNone_iff_eq_none, sdbGetRow, Option.map_eq_none_iff]

theorem take_keySize {keyType : KeyType} {row : Bytes} (keyed : Keyed keyType row) :
    Keyed keyType (row.take (keySize keyType row)) ∧
      keyAt keyType (row.take (keySize keyType row)) = keyAt keyType row := by
  have whole : row.take (keySize keyType row) ++ row.drop (keySize keyType row) = row :=
    List.take_append_drop _ _
  have isKeyed : Keyed keyType (row.take (keySize keyType row)) := by
    cases keyType with
    | string =>
      have stops : 0 ∈ row := keyed
      change 0 ∈ row.take ((row.takeWhile fun byte => byte ≠ 0).length + 1)
      clear whole keyed
      induction row with
      | nil => cases stops
      | cons byte row ih =>
        by_cases zero : byte = 0
        · simp [zero]
        · have later : 0 ∈ row := (mem_cons.mp stops).resolve_left (Ne.symm zero)
          simp only [List.takeWhile_cons, ne_eq, zero, not_false_eq_true, decide_true, if_true,
            List.length_cons, List.take_succ_cons]
          exact List.mem_cons_of_mem _ (ih later)
    | uint32 =>
      have enough : 4 ≤ row.length := keyed
      change 4 ≤ (row.take 4).length
      rw [length_take]
      omega
    | auto =>
      have enough : 8 ≤ row.length := keyed
      change 8 ≤ (row.take 8).length
      rw [length_take]
      omega
  have same := keyAt_append isKeyed (row.drop (keySize keyType row))
  rw [whole] at same
  exact ⟨isKeyed, same.symm⟩

theorem keySize_le {keyType : KeyType} {encoded row : Bytes} (keyed : Keyed keyType encoded)
    (same : keyAt keyType encoded = keyAt keyType row) : keySize keyType row ≤ encoded.length := by
  cases keyType with
  | string =>
    have stops : 0 ∈ encoded := keyed
    change (row.takeWhile fun byte => byte ≠ 0).length + 1 ≤ encoded.length
    have sameKey : encoded.takeWhile (fun byte => byte ≠ 0) =
        row.takeWhile fun byte => byte ≠ 0 := same
    rw [<- sameKey]
    have isPrefix := List.takeWhile_prefix (fun byte : UInt8 => byte ≠ 0) (l := encoded)
    refine lt_of_le_of_ne isPrefix.length_le fun whole => ?_
    rw [<- isPrefix.eq_of_length whole] at stops
    have all : (encoded.takeWhile fun byte => byte ≠ 0).all (fun byte => byte ≠ 0) = true :=
      List.all_takeWhile
    exact absurd rfl (of_decide_eq_true (List.all_eq_true.mp all 0 stops))
  | uint32 => exact keyed
  | auto => exact keyed

theorem keySize_fits (sound : Sound args table) {row : Bytes}
    (present : sdbGetRow table (keyAt args.keyType row) ≠ none) :
    (row.take (keySize args.keyType row)).length ≤ args.maxRowSize := by
  obtain ⟨obj, found⟩ := Option.ne_none_iff_exists'.mp present
  obtain ⟨entry, entryFound, -⟩ := Option.map_eq_some_iff.mp found
  obtain ⟨member, own⟩ := sdbGetIndex_some entryFound
  rw [sound.keys entry member] at own
  have short := keySize_le (args.appTool.keyed entry.row) own
  have fits := args.appTool.fits entry.row
  rw [length_take]
  omega

theorem sdbFinishCommit_eq (size : table.file.length = table.size)
    (run : sdbFinishCommit table = some next) :
    next = { table with
      file := table.file ++ sdbEcommit, size := table.size + sdbEcommit.length } := by
  rw [sdbFinishCommit, if_pos size] at run
  exact (some.inj run).symm

theorem nextId_eq {id : Int} (run : nextId table = some id) :
    id = table.id + 1 ∧ table.id + 1 < 2 ^ 63 := by
  unfold nextId at run
  split at run
  · rename_i below
    exact ⟨(some.inj run).symm, below⟩
  · cases run

section

variable {id : Int} {data : Bytes} (positive : 0 < id)

include positive

theorem recordable_of_pos (below : id < 2 ^ 63) (fits : data.length ≤ args.maxRowSize)
    (keyed : Keyed args.keyType data) :
    Recordable args ⟨id, data⟩ ∧ Recordable args ⟨-id, data⟩ := by
  have low : -2 ^ 63 < id := by omega
  have negatedLow : -2 ^ 63 < -id := by omega
  have negatedHigh : -id < 2 ^ 63 := by omega
  exact ⟨⟨low, below, fits, keyed⟩, ⟨negatedLow, negatedHigh, fits, keyed⟩⟩

theorem stepRows_of_pos (rows : Rows Obj) (key : Bytes) : stepRows args rows ⟨id, data⟩ key =
      if key = keyAt args.keyType data then some (args.appTool.decode data) else rows key := by
  have notNegative : ¬ id < 0 := not_lt_of_gt positive
  simp only [stepRows, if_neg notNegative]

theorem stepRows_of_neg (rows : Rows Obj) (key : Bytes) : stepRows args rows ⟨-id, data⟩ key =
      if key = keyAt args.keyType data then none else rows key := by
  have negative : -id < 0 := by omega
  simp only [stepRows, if_pos negative]

end

theorem appends_single (nonneg : 0 ≤ table.id) {record : Record}
    (recordable : Recordable args record)
    (newest : record.id = table.id + 1 ∨ record.id = -(table.id + 1))
    (file : next.file = table.file ++ recordBytes args record ++ sdbEcommit)
    (header : next.header = table.header) (id : next.id = table.id + 1) :
    Appends args table [record] next where
  file := by
    rw [file, groupBytes, List.flatMap_singleton, append_assoc]
  header := header
  recordable := by
    intro other member
    rw [List.mem_singleton.mp member]
    exact ⟨recordable, by omega⟩
  numbered := by
    refine ⟨?_, trivial⟩
    rcases newest with same | same
    · rw [same]
      exact abs_of_pos (by omega)
    · rw [same, abs_neg]
      exact abs_of_pos (by omega)
  id := id

variable {code : Int} {row : RowArg args}

theorem sdbInsertRow_cases (size : table.file.length = table.size)
    (run : sdbInsertRow args table row = some (code, next)) :
    InsertRefused table row ∧ next = table ∨
      ¬ InsertRefused table row ∧ table.id + 1 < 2 ^ 63 ∧
        next = { table with
          index := sdbAddIndex table.index
            ⟨objKey args (insertedObj table row), table.id + 1, insertedObj table row⟩
          autoIndex := nextAutoIndex args table
          numOfRows := table.numOfRows + 1
          id := table.id + 1
          size := next.size
          file := table.file ++
            recordBytes args ⟨table.id + 1, args.appTool.encode (insertedObj table row)⟩ ++
            sdbEcommit } ∧ next.file.length = next.size := by
  unfold sdbInsertRow at run
  split at run
  · rename_i refused
    cases run
    exact Or.inl ⟨refused, rfl⟩
  · rename_i accepted
    obtain ⟨id, idRun, run⟩ := bind_eq_some_iff.mp run
    obtain ⟨rfl, below⟩ := nextId_eq idRun
    obtain ⟨middle, commit, run⟩ := bind_eq_some_iff.mp run
    have written := sdbFinishCommit_eq (by
      simp only [writeRow, length_append, rowBytes_length, size]) commit
    cases run
    subst written
    refine Or.inr ⟨accepted, below, rfl, ?_⟩
    simp only [writeRow, length_append, rowBytes_length, size]

theorem insert_appends (holds : Holds args table rows) (newKey : TakesNewKey table (.insert row))
    (run : sdbInsertRow args table row = some (code, next)) :
    opRecords table (.insert row) = [] ∧ next = table ∨
      Appends args table (opRecords table (.insert row)) next ∧
        Holds args next ((opRecords table (.insert row)).foldl (stepRows args) rows) := by
  have nonneg := holds.sound.idNonneg
  rcases sdbInsertRow_cases holds.size run with
    ⟨refused, same⟩ | ⟨accepted, below, nextEq, size⟩
  · exact Or.inl ⟨if_pos refused, same⟩
  · right
    have records : opRecords table (.insert row) =
        [⟨table.id + 1, args.appTool.encode (insertedObj table row)⟩] := if_neg accepted
    have recordable : Recordable args ⟨table.id + 1, args.appTool.encode (insertedObj table row)⟩ :=
      (recordable_of_pos (by omega) below (args.appTool.fits _) (args.appTool.keyed _)).1
    have id : next.id = table.id + 1 := by rw [nextEq]
    obtain ⟨sound, held⟩ := @Sound.add _ _ _ next holds.sound _ (table.id + 1)
      (newKey accepted) (by omega) (by rw [nextEq]) (by rw [nextEq]) (by rw [id]) (by omega)
    rw [records]
    refine ⟨appends_single nonneg recordable (Or.inl rfl) (by rw [nextEq]) (by rw [nextEq]) id,
      sound, ?_, size⟩
    intro key
    rw [held key, holds.rows, foldl_cons, foldl_nil, stepRows_of_pos (by omega),
      encoded_key, args.appTool.decode_encode]

theorem sdbDeleteRow_cases (size : table.file.length = table.size) {row : KeyedRow args}
    (run : sdbDeleteRow args table row = some (code, next)) :
    sdbGetRow table (keyAt args.keyType row.bytes) = none ∧ next = table ∨
      sdbGetRow table (keyAt args.keyType row.bytes) ≠ none ∧ table.id + 1 < 2 ^ 63 ∧
        next = { table with
          index := sdbDeleteIndex table.index (keyAt args.keyType row.bytes)
          numOfRows := table.numOfRows - 1
          id := table.id + 1
          size := next.size
          file := table.file ++ recordBytes args
            ⟨-(table.id + 1), row.bytes.take (keySize args.keyType row.bytes)⟩ ++ sdbEcommit } ∧
        next.file.length = next.size := by
  unfold sdbDeleteRow at run
  simp only at run
  split at run
  · rename_i absent
    cases run
    exact Or.inl ⟨sdbGetIndex_isNone.mp absent, rfl⟩
  · rename_i present
    rw [sdbGetIndex_isNone] at present
    obtain ⟨id, idRun, run⟩ := bind_eq_some_iff.mp run
    obtain ⟨rfl, below⟩ := nextId_eq idRun
    obtain ⟨middle, commit, run⟩ := bind_eq_some_iff.mp run
    have written := sdbFinishCommit_eq (by
      simp only [writeRow, length_append, rowBytes_length, size]) commit
    cases run
    subst written
    refine Or.inr ⟨present, below, rfl, ?_⟩
    simp only [writeRow, length_append, rowBytes_length, size]

theorem delete_appends (holds : Holds args table rows) {row : KeyedRow args}
    (run : sdbDeleteRow args table row = some (code, next)) :
    opRecords table (.delete row) = [] ∧ next = table ∨
      Appends args table (opRecords table (.delete row)) next ∧
        Holds args next ((opRecords table (.delete row)).foldl (stepRows args) rows) := by
  have nonneg := holds.sound.idNonneg
  rcases sdbDeleteRow_cases holds.size run with ⟨absent, same⟩ | ⟨present, below, nextEq, size⟩
  · exact Or.inl ⟨if_pos (sdbGetIndex_isNone.mpr absent), same⟩
  · right
    have records : opRecords table (.delete row) =
        [⟨-(table.id + 1), row.bytes.take (keySize args.keyType row.bytes)⟩] :=
      if_neg fun absent => present (sdbGetIndex_isNone.mp absent)
    obtain ⟨keyed, sameKey⟩ := take_keySize row.keyed
    have recordable : Recordable args
        ⟨-(table.id + 1), row.bytes.take (keySize args.keyType row.bytes)⟩ :=
      (recordable_of_pos (by omega) below (keySize_fits holds.sound present) keyed).2
    have id : next.id = table.id + 1 := by rw [nextEq]
    obtain ⟨sound, held⟩ := @Sound.delete _ _ _ next holds.sound _ present (by rw [nextEq])
      (by rw [nextEq]) (by omega)
    rw [records]
    refine ⟨appends_single nonneg recordable (Or.inr rfl) (by rw [nextEq]) (by rw [nextEq]) id,
      sound, ?_, size⟩
    intro key
    rw [held key, holds.rows, foldl_cons, foldl_nil, stepRows_of_neg (by omega), sameKey]

theorem sdbUpdateRow_cases (size : table.file.length = table.size)
    (run : sdbUpdateRow args table row = some (code, next)) :
    sdbGetRow table (keyAt args.keyType row.bytes) = none ∧ next = table ∨
      sdbGetRow table (keyAt args.keyType row.bytes) ≠ none ∧ table.id + 1 < 2 ^ 63 ∧
        next = { table with
          index := setIndex table.index (keyAt args.keyType row.bytes) fun entry =>
            { entry with id := table.id + 1, row := row.obj }
          id := table.id + 1
          size := next.size
          file := table.file ++ recordBytes args ⟨table.id + 1, row.bytes⟩ ++ sdbEcommit } ∧
        next.file.length = next.size := by
  unfold sdbUpdateRow at run
  simp only at run
  split at run
  · rename_i absent
    cases run
    exact Or.inl ⟨sdbGetIndex_isNone.mp absent, rfl⟩
  · rename_i present
    rw [sdbGetIndex_isNone] at present
    obtain ⟨id, idRun, run⟩ := bind_eq_some_iff.mp run
    obtain ⟨rfl, below⟩ := nextId_eq idRun
    obtain ⟨middle, commit, run⟩ := bind_eq_some_iff.mp run
    have written := sdbFinishCommit_eq (by
      simp only [writeRow, length_append, rowBytes_length, size]) commit
    cases run
    subst written
    refine Or.inr ⟨present, below, rfl, ?_⟩
    simp only [writeRow, length_append, rowBytes_length, size]

theorem update_appends (holds : Holds args table rows)
    (run : sdbUpdateRow args table row = some (code, next)) :
    opRecords table (.update row) = [] ∧ next = table ∨
      Appends args table (opRecords table (.update row)) next ∧
        Holds args next ((opRecords table (.update row)).foldl (stepRows args) rows) := by
  have nonneg := holds.sound.idNonneg
  rcases sdbUpdateRow_cases holds.size run with ⟨absent, same⟩ | ⟨present, below, nextEq, size⟩
  · exact Or.inl ⟨if_pos (sdbGetIndex_isNone.mpr absent), same⟩
  · right
    have records : opRecords table (.update row) = [⟨table.id + 1, row.bytes⟩] :=
      if_neg fun absent => present (sdbGetIndex_isNone.mp absent)
    have recordable : Recordable args ⟨table.id + 1, row.bytes⟩ :=
      (recordable_of_pos (by omega) below (RowArg.fits row) (RowArg.keyed row)).1
    have id : next.id = table.id + 1 := by rw [nextEq]
    have ownKey := RowArg.objKey_obj row
    rw [<- ownKey] at present
    obtain ⟨sound, held⟩ := @Sound.set _ _ _ next holds.sound row.obj present
      (fun entry => { entry with id := table.id + 1, row := row.obj })
      (fun entry => ⟨rfl, rfl, Or.inr ⟨Int.lt_add_one_of_le nonneg, le_of_eq id.symm⟩⟩)
      (by rw [nextEq, ownKey]) (by rw [nextEq]) (by omega)
    rw [records]
    refine ⟨appends_single nonneg recordable (Or.inl rfl) (by rw [nextEq]) (by rw [nextEq]) id,
      sound, ?_, size⟩
    intro key
    rw [held key, holds.rows, foldl_cons, foldl_nil, stepRows_of_pos (by omega), ownKey,
      RowArg.decode_bytes]

theorem batchStep_holds (holds : Holds args table rows) {obj : Obj}
    (present : sdbGetRow table (objKey args obj) ≠ none) :
    Holds args (writeRowAtSize args { table with
        id := table.id + 1
        index := setIndex table.index (objKey args obj) fun entry =>
          { entry with id := table.id + 1, row := obj } }
      (table.id + 1) (args.appTool.encode obj))
      (stepRows args rows ⟨table.id + 1, args.appTool.encode obj⟩) := by
  have nonneg := holds.sound.idNonneg
  obtain ⟨sound, held⟩ := @Sound.set _ _ _ (writeRowAtSize args { table with
        id := table.id + 1
        index := setIndex table.index (objKey args obj) fun entry =>
          { entry with id := table.id + 1, row := obj } }
      (table.id + 1) (args.appTool.encode obj)) holds.sound obj present
    (fun entry => { entry with id := table.id + 1, row := obj })
    (fun entry => ⟨rfl, rfl, Or.inr ⟨Int.lt_add_one_of_le nonneg, le_rfl⟩⟩) rfl rfl
    (Int.le_add_one le_rfl)
  refine ⟨sound, ?_, ?_⟩
  · intro key
    rw [held key, holds.rows, stepRows_of_pos (by omega), encoded_key, args.appTool.decode_encode]
  · have size := holds.size
    simp only [writeRowAtSize, length_append, length_take, List.length_drop, rowBytes_length, size]
    omega

theorem batchRows_holds (objs : List Obj) : ∀ {table next : SdbTable Obj} {rows : Rows Obj},
    Holds args table rows -> batchRows args table objs = some next ->
      next.file = table.file ++ (batchRecords args table.id objs).flatMap (recordBytes args) ∧
        next.header = table.header ∧ next.autoIndex = table.autoIndex ∧
        (∀ record ∈ batchRecords args table.id objs, Recordable args record ∧ record.id ≠ 0) ∧
        Numbered table.id (batchRecords args table.id objs) ∧
        next.id = table.id + (batchRecords args table.id objs).length ∧
        Holds args next ((batchRecords args table.id objs).foldl (stepRows args) rows) := by
  induction objs with
  | nil =>
    intro table next rows holds run
    cases run
    refine ⟨?_, rfl, rfl, ?_, trivial, ?_, holds⟩
    all_goals simp [batchRecords]
  | cons obj later ih =>
    intro table next rows holds run
    have nonneg := holds.sound.idNonneg
    unfold batchRows at run
    split at run
    · cases run
    · rename_i present
      rw [sdbGetIndex_isNone] at present
      obtain ⟨id, idRun, run⟩ := bind_eq_some_iff.mp run
      obtain ⟨rfl, below⟩ := nextId_eq idRun
      have stepHolds := batchStep_holds holds present
      obtain ⟨file, header, auto, recordable, numbered, lastId, last⟩ := ih stepHolds run
      have stepFile : (writeRowAtSize args { table with
            id := table.id + 1
            index := setIndex table.index (objKey args obj) fun entry =>
              { entry with id := table.id + 1, row := obj } }
          (table.id + 1) (args.appTool.encode obj)).file =
            table.file ++ recordBytes args ⟨table.id + 1, args.appTool.encode obj⟩ := by
        simp only [writeRowAtSize, recordBytes]
        rw [<- holds.size, List.take_length, List.drop_eq_nil_of_le (Nat.le_add_right _ _),
          List.append_nil]
      rw [stepFile] at file
      have positive : 0 < table.id + 1 := by omega
      refine ⟨?_, header, auto, ?_, ⟨abs_of_pos positive, numbered⟩, ?_, last⟩
      · rw [file, batchRecords, List.flatMap_cons, append_assoc]
        rfl
      · intro record member
        rcases mem_cons.mp member with rfl | more
        · have ok := recordable_of_pos positive below
            (args.appTool.fits obj) (args.appTool.keyed obj)
          exact ⟨ok.1, by simp only [ne_eq]; omega⟩
        · exact recordable record more
      · rw [lastId, batchRecords, List.length_cons]
        push_cast
        exact (add_right_comm _ _ _).trans (add_assoc _ _ _)

theorem batchUpdate_appends (holds : Holds args table rows) {first : Obj} {later : List Obj}
    (run : sdbBatchUpdateRow args table first later = some (code, next)) :
    opRecords table (.batchUpdate first later : Op args) = [] ∧ next = table ∨
      Appends args table (opRecords table (.batchUpdate first later : Op args)) next ∧
        Holds args next
          ((opRecords table (.batchUpdate first later : Op args)).foldl (stepRows args) rows) := by
  unfold sdbBatchUpdateRow at run
  split at run
  · rename_i absent
    cases run
    exact Or.inl ⟨if_pos absent, rfl⟩
  · rename_i present
    right
    have records : opRecords table (.batchUpdate first later : Op args) =
        batchRecords args table.id (first :: later) := if_neg present
    obtain ⟨middle, walked, run⟩ := bind_eq_some_iff.mp run
    obtain ⟨last, commit, run⟩ := bind_eq_some_iff.mp run
    cases run
    obtain ⟨file, header, -, recordable, numbered, lastId, middleHolds⟩ := batchRows_holds _ holds
      walked
    have written := sdbFinishCommit_eq middleHolds.size commit
    subst written
    rw [records]
    refine ⟨⟨?_, header, recordable, numbered, lastId⟩, ?_⟩
    · simp only [groupBytes]
      rw [file, append_assoc]
    · refine ⟨middleHolds.sound.keep rfl rfl le_rfl, middleHolds.rows, ?_⟩
      simp only [length_append, middleHolds.size]

theorem runOp_refused {op : Op args} (refused : opRecords table op = []) :
    runOp args table op = some (-1, table) := by
  cases op
  all_goals
    refine if_pos ?_
    by_contra accepted
    rw [opRecords, if_neg accepted] at refused
    cases refused

theorem runOp_appends (holds : Holds args table rows) {op : Op args} (newKey : TakesNewKey table op)
    (run : runOp args table op = some (code, next)) :
    opRecords table op = [] ∧ next = table ∨ Appends args table (opRecords table op) next ∧
        Holds args next ((opRecords table op).foldl (stepRows args) rows) := by
  cases op with
  | insert row => exact insert_appends holds newKey run
  | delete row => exact delete_appends holds run
  | update row => exact update_appends holds run
  | batchUpdate first later => exact batchUpdate_appends holds run

end Operations

end Luomi.Sdb.Operations
