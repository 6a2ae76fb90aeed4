import Luomi.Edb.CursorFrame
import Luomi.Edb.Segment

/-!
# Where the searches of a query land

`firstHit` finds the first block of a list that passes.  The search of a file
lands on the first hit among the entries it has left, in the order of the query,
and one that fails leaves the descriptor behind the last entry it read.
-/

namespace Luomi.Edb.Landing

open Database Cursor CursorFrame Segment BlockSearch

section Landing

variable {α : Type}

/-- The first block of a list that passes, its window, and the blocks behind
it. -/
def firstHit (uninit : Int) (range : Range) :
    List (Block α) -> Option (Block α × (Int × Int) × List (Block α))
  | [] => none
  | block :: later =>
    match window uninit range block with
    | some indexes => some (block, indexes, later)
    | none => firstHit uninit range later

structure Seeks (range : Range) (order : Order) (query : Query α) : Prop where
  start : query.startTimestamp = range.start
  finish : query.endTimestamp = range.finish
  order : query.order = order

def landed (query : Query α) (buf : List (Row α)) (count : Nat) (indexes : Int × Int) : Query α :=
  let entry := if query.order = .asc then indexes.1 else indexes.2
  { query with
    buf := buf
    rowCount := count
    startDataIndex := entry
    endDataIndex := if query.order = .asc then indexes.2 else indexes.1
    curDataIndex := entry }

variable {indexes : Int × Int} {block : Block α}

theorem setDataIndex_window {uninit : Int} {range : Range} {order : Order} {query : Query α}
    (seeks : Seeks range order query)
    (count : query.rowCount = block.rowCount) (same : ∀ index < block.rowCount,
      (timestamps query.buf).getD index 0 = (timestamps block.rows).getD index 0)
    (passes : window uninit range block = some indexes) :
    setDataIndex uninit query (getBlockType block.startTimestamp block.endTimestamp
        query.startTimestamp query.endTimestamp) =
      landed query query.buf block.rowCount indexes := by
  have search : ∀ key isStart, binarySearch uninit (timestamps query.buf) key block.rowCount
      isStart = binarySearch uninit (timestamps block.rows) key block.rowCount isStart :=
    fun key isStart => binarySearch_congr uninit isStart same
  suffices indexesEq : dataWindow uninit query (getBlockType block.startTimestamp
      block.endTimestamp range.start range.finish) = indexes by
    rw [seeks.start, seeks.finish, setDataIndex, indexesEq, landed, <- count]
  unfold window at passes
  unfold dataWindow
  simp only [search, seeks.start, seeks.finish, count]
  simp only at passes
  cases type : getBlockType block.startTimestamp block.endTimestamp range.start range.finish with
  | none | left | right =>
    rw [type] at passes
    cases passes
  | equal | leftCross | contained | containing | rightCross =>
    rw [type] at passes
    exact Option.some.inj passes

def entriesFrom {β : Type} (order : Order) (entries : List β) (index : Int) : List β :=
  match order with
  | .asc => entries.drop index.toNat
  | .desc => (entries.take (index + 1).toNat).reverse

def readPos {β : Type} (entries : List β) (position : Nat) : Nat :=
  if position < entries.length then position + 1 else position

theorem entriesFrom_step {β : Type} (order : Order) (entries : List β) (index : Nat) :
    entriesFrom order entries index =
      entries[index]?.toList ++ entriesFrom order entries (index + order.step) := by
  cases order with
  | asc =>
    have next : ((index : Int) + Order.step .asc).toNat = index + 1 := by
      simp only [Order.step]
      omega
    simp only [entriesFrom, next, Int.toNat_natCast]
    by_cases inside : index < entries.length
    · rw [List.getElem?_eq_getElem inside, Option.toList_some, List.drop_eq_getElem_cons inside,
        List.singleton_append]
    · rw [List.getElem?_eq_none (by omega), List.drop_eq_nil_of_le (by omega),
        List.drop_eq_nil_of_le (by omega), Option.toList_none, List.nil_append]
  | desc =>
    have here : ((index : Int) + 1).toNat = index + 1 := by omega
    have next : ((index : Int) + Order.step .desc + 1).toNat = index := by
      simp only [Order.step]
      omega
    simp only [entriesFrom, here, next]
    rw [List.take_add_one, List.reverse_append]
    cases entries[index]? <;> rfl

variable {uninit : Int} {codec : Codec α} {range : Range} {order : Order} {db : Db α}
  {query : Query α}

/-- Decompression gives back the rows of the blocks of this database. -/
def Lossless (codec : Codec α) (db : Db α) : Prop :=
  ∀ rows, codec.restored db.head.compressType rows = rows

theorem checkBlock_open {file : Int} (opened : query.indexFd = some file) :
    checkBlock uninit codec db query =
      match (indexFile db file)[readAt query]? with
      | none =>
        (if (getBlockType 0 0 query.startTimestamp query.endTimestamp).toNat <
          BlockType.equal.toNat then -1 else -3, { query with indexPos := readAt query })
      | some block =>
        let type := getBlockType block.startTimestamp block.endTimestamp
          query.startTimestamp query.endTimestamp
        if type.toNat < BlockType.equal.toNat then
          (-1, { query with indexPos := readAt query + 1 })
        else
          let rows := codec.restored db.head.compressType block.rows
          (0, setDataIndex uninit { query with
            indexPos := readAt query + 1
            buf := rows ++ query.buf.drop rows.length
            rowCount := block.rowCount } type) := by
  unfold checkBlock
  split
  · rename_i closed
    cases opened.symm.trans closed
  · rename_i other otherEq
    cases opened.symm.trans otherEq
    rfl

def movedTo (query : Query α) (position : Nat) : Query α :=
  { query with indexPos := position }

theorem passing_iff (seeks : Seeks range order query) (block : Block α) :
    (getBlockType block.startTimestamp block.endTimestamp query.startTimestamp
        query.endTimestamp).toNat < BlockType.equal.toNat ↔ window uninit range block = none := by
  rw [seeks.start, seeks.finish, window]
  simp only
  split
  · exact iff_of_true (by assumption) rfl
  · refine iff_of_false (by assumption) ?_
    split <;> simp

section

variable {file : Int} (opened : query.indexFd = some file)

include opened

theorem checkBlock_of_absent (absent : (indexFile db file)[readAt query]? = none) :
    (checkBlock uninit codec db query).1 ≠ 0 ∧ (checkBlock uninit codec db query).2 =
        movedTo query (readPos (indexFile db file) (readAt query)) := by
  have outside : ¬ readAt query < (indexFile db file).length :=
    not_lt_of_ge (List.getElem?_eq_none_iff.mp absent)
  rw [checkBlock_open opened, absent]
  simp only [movedTo, readPos, if_neg outside, and_true]
  split <;> simp

theorem checkBlock_of_skipped (seeks : Seeks range order query)
    (entry : (indexFile db file)[readAt query]? = some block)
    (skipped : window uninit range block = none) : (checkBlock uninit codec db query).1 ≠ 0 ∧
      (checkBlock uninit codec db query).2 =
        movedTo query (readPos (indexFile db file) (readAt query)) := by
  have inside := (List.getElem?_eq_some_iff.mp entry).1
  rw [checkBlock_open opened, entry]
  simp only [movedTo, readPos, if_pos inside]
  rw [if_pos ((passing_iff seeks block).mpr skipped)]
  exact ⟨by simp, rfl⟩

theorem checkBlock_of_passes (lossless : Lossless codec db) (seeks : Seeks range order query) (count : block.rows.length = block.rowCount)
    (entry : (indexFile db file)[readAt query]? = some block)
    (passes : window uninit range block = some indexes) :
    ∃ buf, (∀ index < block.rowCount, buf[index]? = block.rows[index]?) ∧
      checkBlock uninit codec db query = (0, landed
        (movedTo query (readPos (indexFile db file) (readAt query))) buf block.rowCount indexes) := by
  have inside := (List.getElem?_eq_some_iff.mp entry).1
  let buf := block.rows ++ query.buf.drop block.rows.length
  have rows : ∀ index < block.rowCount, buf[index]? = block.rows[index]? := by
    intro index below
    exact List.getElem?_append_left (by omega)
  let read : Query α := { movedTo query (readAt query + 1) with
    buf := buf
    rowCount := block.rowCount }
  have same : ∀ index < block.rowCount,
      (timestamps read.buf).getD index 0 = (timestamps block.rows).getD index 0 := by
    intro index below
    simp only [timestamps, List.getD_eq_getElem?_getD, List.getElem?_map]
    rw [show read.buf[index]? = block.rows[index]? from rows index below]
  have readSeeks : Seeks range order read := ⟨seeks.start, seeks.finish, seeks.order⟩
  have set := setDataIndex_window readSeeks rfl same passes
  refine ⟨buf, rows, ?_⟩
  have notBelow : ¬ (getBlockType block.startTimestamp block.endTimestamp query.startTimestamp
      query.endTimestamp).toNat < BlockType.equal.toNat := by
    rw [passing_iff seeks block, passes]
    simp
  rw [checkBlock_open opened, entry]
  simp only [if_neg notBelow, lossless block.rows, readPos, if_pos inside]
  exact congrArg (Prod.mk 0) set

end

theorem checkLog_of_skipped (seeks : Seeks range order query)
    (skipped : window uninit range (logBlock db) = none) :
    checkLog uninit db query = (-1, { query with logChecked := true }) := by
  unfold checkLog
  exact if_pos ((passing_iff seeks (logBlock db)).mpr skipped)

theorem checkLog_of_passes (seeks : Seeks range order query)
    (passes : window uninit range (logBlock db) = some indexes) :
    checkLog uninit db query =
      (0, landed { query with logChecked := true } db.logData db.head.curRowCount indexes) := by
  let read : Query α := { query with
    logChecked := true
    buf := db.logData
    rowCount := db.head.curRowCount }
  have same : ∀ index < (logBlock db).rowCount,
      (timestamps read.buf).getD index 0 = (timestamps (logBlock db).rows).getD index 0 := by
    intro index below
    have short : index < db.head.curRowCount := below
    simp only [timestamps, List.getD_eq_getElem?_getD, List.getElem?_map, logBlock, logRows]
    rw [List.getElem?_take_of_lt short]
  have readSeeks : Seeks range order read := ⟨seeks.start, seeks.finish, seeks.order⟩
  have set := setDataIndex_window readSeeks rfl same passes
  unfold checkLog
  have notBelow : ¬ (getBlockType db.head.startTimestamp db.head.endTimestamp
      query.startTimestamp query.endTimestamp).toNat < BlockType.equal.toNat := by
    intro below
    rw [(passing_iff seeks (logBlock db)).mp below] at passes
    cases passes
  simp only [if_neg notBelow]
  exact congrArg (Prod.mk 0) set

def onEntry (query : Query α) (entry : Nat) : Query α :=
  movedTo { query with curBlockIndex := entry } (entry + 1)

def doneAt (query : Query α) (position : Nat) : Query α :=
  movedTo (resetBlocks query) position

/-- A query among the entries of an open file, with the last one it will look
at. -/
structure InFile (entries : List (Block α)) (order : Order) (file : Int) (final : Nat)
    (query : Query α) : Prop where
  opened : query.indexFd = some file
  ends : query.endBlockIndex = final
  counts : ∀ block ∈ entries, block.rows.length = block.rowCount
  covers : order = .asc -> entries.length ≤ final + 1
  reaches : order = .desc -> final = 0

/-- Where a search among the entries of a file lands: nowhere, or on the first
hit. -/
def LandsInFile (uninit : Int) (range : Range) (order : Order) (entries : List (Block α))
    (index : Int) (final : Nat) (query : Query α) (result : Int × Query α) : Prop :=
  match firstHit uninit range (entriesFrom order entries index) with
  | none => result = (-1, doneAt query (readPos entries final))
  | some (block, indexes, later) =>
    ∃ (entry : Nat) (buf : List (Row α)),
      result = (0, landed (onEntry query entry) buf block.rowCount indexes) ∧
        (∀ index < block.rowCount, buf[index]? = block.rows[index]?) ∧
        order.past entry final = false ∧ entry < entries.length ∧
        later = entriesFrom order entries (entry + order.step)

theorem past_entriesFrom {entries : List (Block α)} {file : Int} {final : Nat}
    (inFile : InFile entries order file final query) {index : Int}
    (bound : 0 ≤ index ∨ order = .desc ∧ index = -1) (past : order.past index final = true) :
    entriesFrom order entries index = [] := by
  cases order with
  | asc =>
    have covers := inFile.covers rfl
    simp only [Order.past, decide_eq_true_eq] at past
    exact List.drop_eq_nil_of_le (by omega)
  | desc =>
    have reaches := inFile.reaches rfl
    simp only [Order.past, decide_eq_true_eq] at past
    have none' : (index + 1).toNat = 0 := by omega
    simp only [entriesFrom, none', List.take_zero, List.reverse_nil]

theorem searchBlocks_lands (lossless : Lossless codec db) {file : Int} {final : Nat} (fuel : Nat) :
    ∀ {query : Query α}, Seeks range order query -> InFile (indexFile db file) order file final query ->
      (0 ≤ query.curBlockIndex ∨ order = .desc ∧ query.curBlockIndex = -1) ->
      distance order query.curBlockIndex final ≤ fuel ->
      (order.past query.curBlockIndex final = true ->
        query.indexPos = readPos (indexFile db file) final) ->
      LandsInFile uninit range order (indexFile db file) query.curBlockIndex final query
        (searchBlocks uninit codec db fuel query) := by
  have atEnd : ∀ {query : Query α}, InFile (indexFile db file) order file final query ->
      (0 ≤ query.curBlockIndex ∨ order = .desc ∧ query.curBlockIndex = -1) ->
      order.past query.curBlockIndex final = true ->
      query.indexPos = readPos (indexFile db file) final ->
      LandsInFile uninit range order (indexFile db file) query.curBlockIndex final query
        (-1, resetBlocks query) := by
    intro query inFile bound past spent
    rw [LandsInFile, past_entriesFrom inFile bound past, <- spent]
    rfl
  induction fuel with
  | zero =>
    intro query seeks inFile bound enough spent
    have past := (distance_eq_zero_iff _ _ _).mp (Nat.le_zero.mp enough)
    exact atEnd inFile bound past (spent past)
  | succ fuel ih =>
    intro query seeks inFile bound enough spent
    unfold searchBlocks
    rw [seeks.order, inFile.ends]
    split
    · rename_i past
      exact atEnd inFile bound past (spent past)
    · rename_i notPast
      rw [Bool.not_eq_true] at notPast
      obtain ⟨index, indexEq⟩ : ∃ index : Nat, query.curBlockIndex = index := by
        rcases bound with nonneg | ⟨rfl, below⟩
        · exact ⟨query.curBlockIndex.toNat, by omega⟩
        · simp only [Order.past, below, decide_eq_false_iff_not] at notPast
          omega
      have here : readAt query = index := by
        rw [readAt, indexEq, if_pos (by omega), Int.toNat_natCast]
      have step := entriesFrom_step order (indexFile db file) index
      -- behind an entry that is no hit the loop goes on with the next one
      have onward : firstHit uninit range (entriesFrom order (indexFile db file) index) =
            firstHit uninit range (entriesFrom order (indexFile db file) (index + order.step)) ->
          (checkBlock uninit codec db query).1 ≠ 0 ∧
            (checkBlock uninit codec db query).2 =
              movedTo query (readPos (indexFile db file) (readAt query)) ->
          LandsInFile uninit range order (indexFile db file) query.curBlockIndex final query
            (if (checkBlock uninit codec db query).1 = 0 then
              (0, (checkBlock uninit codec db query).2)
            else searchBlocks uninit codec db fuel
              (stepBlock (checkBlock uninit codec db query).2)) := by
        intro sameHit missed
        rw [if_neg missed.1, missed.2, here, indexEq]
        have nextIndex : (stepBlock (movedTo query (readPos (indexFile db file) index))).curBlockIndex =
            (index : Int) + order.step := by
          rw [<- seeks.order, <- indexEq]
          rfl
        have lands := @ih (stepBlock (movedTo query (readPos (indexFile db file) index)))
          ⟨seeks.start, seeks.finish, seeks.order⟩
          ⟨inFile.opened, inFile.ends, inFile.counts, inFile.covers, inFile.reaches⟩
          (by rw [nextIndex]; cases order <;> simp [Order.step] <;> omega)
          (by
            rw [nextIndex]
            rw [indexEq] at enough
            cases order <;> simp only [distance, Order.step] at enough ⊢ <;> omega)
          (by
            rw [nextIndex]
            intro past
            rw [indexEq] at notPast
            have last := Nat.cast_injective (eq_of_past_step notPast past)
            rw [<- last]
            rfl)
        rw [nextIndex] at lands
        rw [LandsInFile, sameHit]
        exact lands
      simp only
      cases entry : (indexFile db file)[index]? with
      | none =>
        rw [entry, Option.toList_none, List.nil_append] at step
        exact onward (by rw [step]) (checkBlock_of_absent inFile.opened (by rw [here]; exact entry))
      | some block =>
        rw [entry, Option.toList_some, List.singleton_append] at step
        have readEntry : (indexFile db file)[readAt query]? = some block := by
          rw [here]
          exact entry
        cases passes : window uninit range block with
        | none =>
          refine onward ?_ (checkBlock_of_skipped inFile.opened seeks readEntry passes)
          rw [step, firstHit, passes]
        | some indexes =>
          obtain ⟨inside, blockEq⟩ := List.getElem?_eq_some_iff.mp entry
          have count := inFile.counts block (blockEq ▸ List.getElem_mem inside)
          obtain ⟨buf, rows, result⟩ := checkBlock_of_passes inFile.opened lossless seeks count
            readEntry passes
          rw [result, if_pos rfl, LandsInFile, indexEq, step, firstHit, passes]
          refine ⟨index, buf, ?_, rows, ?_, inside, rfl⟩
          · rw [here, readPos, if_pos inside, onEntry, movedTo, movedTo, <- indexEq]
          · rw [<- indexEq]
            exact notPast

end Landing

end Luomi.Edb.Landing
