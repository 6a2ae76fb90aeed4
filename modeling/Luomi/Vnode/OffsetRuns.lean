import Luomi.Vnode.QueryOffset

/-!
# Where the offset takes the start of a query

By induction on the blocks that are left: the start gets to the row of the offset,
or the data end before it.
-/

namespace Luomi.Vnode.OffsetRuns

open QueryBlocks QueryCursor QueryMoves
  Luomi.Vnode.QuerySteps Luomi.Vnode.QueryScan 
  Luomi.Vnode.ScanProgress Luomi.Vnode.ScanRun Luomi.Vnode.ScanResume Luomi.Vnode.QueryOffset
open List (flatten_cons length_append length_eq_zero_iff length_nil length_reverse
  mem_append_right mem_cons_self)

/-- The query is marked as completed when the change of sides shows that its range
is at its end. -/
structure Side (meter : SMeterData) (query query' : SQuery) (passed : List Int) : Prop where
  onward : Onward query.order query.cursor query'.cursor
  status : query'.status = {} ∨ query'.status = setCompleted {}
  completed : query'.status.completed = true ↔
    Crossed query query' ∧ (rangeRows meter query).length ≤ sideRows meter query
  whole : Crossed query query' -> sideRows meter query ≤ passed.length

def SkipState (query query' : SQuery) : Prop :=
  ∃ cursor lastKey loaded keysLoaded status, query' = { query with
    cursor := cursor, lastKey := lastKey, loaded := loaded, keysLoaded := keysLoaded
    status := status }

structure Skipping (meter : SMeterObj) (query query' : SQuery) (block : List Int)
    (later : List (List Int)) (passed : List Int) : Prop where
  stands : StandsAt meter query.order query'.cursor block later
  rows : rowsFromStart meter.toSMeterData query =
    passed ++ later.flatMap (inOrder query.order)
  same : SkipState query query'
  reached : UpTo query.order query.skey query'.lastKey
  behind : ∀ k ∈ later.flatten, UpTo query.order query'.lastKey k
  firstKey : query.order = .desc -> keyFirst block ∈ passed
  side : Side meter.toSMeterData query query' passed

/-- From new to old: where the first row of a file is skipped, the first and the last
block of the next file are equally long. -/
def EvenSkips (meter : SMeterObj) (query : SQuery) (k : Nat) : Prop :=
  query.order = .desc -> ∀ (cursor : SPositionInfo) (front : List (List Int)) (block : List Int)
    (back : List (List Int)), Here meter cursor front block back -> 0 ≤ cursor.fileId ->
    cursor.slot = 0 -> keyFirst block ∈ (rowsFromStart meter.toSMeterData query).take k ->
    ∀ fileId, nextFile meter.toSMeterData .desc cursor.fileId = some fileId ->
      EvenFile meter.toSMeterData fileId

/-- From new to old: where all rows of the cache are skipped and the files have rows,
the start of a scan was kept, and it was in the cache. -/
def StartKept (meter : SMeterData) (query : SQuery) (k : Nat) : Prop :=
  query.order = .desc -> query.cursor.fileId < 0 -> blocksIn meter.pHeaderFiles ≠ [] ->
    sideRows meter query ≤ k -> query.startPos.fileId < 0

theorem rowsFromStart_ordered (meter : SMeterObj) (query : SQuery) :
    (rowsFromStart meter.toSMeterData query).Pairwise (Before query.order) :=
  (scanRows_ordered meter query.order).filter _

variable {block passed : List Int} {later : List (List Int)} {meter : SMeterObj}
  {query query' : SQuery}

theorem Skipping.length (skipping : Skipping meter query query' block later passed) :
    (rowsFromStart meter.toSMeterData query).length = passed.length + later.flatten.length := by
  rw [skipping.rows, length_append, flatMap_length]

section

variable {next : List Int} (skipping : Skipping meter query query' block (next :: later) passed)

include skipping

theorem beyond_iff :
    Beyond query next ↔ (rangeRows meter.toSMeterData query).length ≤ passed.length := by
  have ordered := rowsFromStart_ordered meter query
  have inMeter := later_mem skipping.stands mem_cons_self
  have someNext := meter.some_ next inMeter
  rw [rangeRows_eq, skipping.rows, upToEnd_append, length_append]
  rw [skipping.rows, List.pairwise_append] at ordered
  have fewer : (upToEnd query.order query.ekey passed).length ≤ passed.length :=
    List.length_filter_le _ _
  constructor
  · intro beyond
    rw [beyond_later skipping.stands beyond, length_nil]
    exact fewer
  · intro enough
    by_contra within
    -- The first row of the next block is in the range, and so are all rows before it.
    obtain ⟨row, isRow, inRange⟩ : ∃ row ∈ inOrder query.order next,
        UpTo query.order row query.ekey := by
      rcases order_cases query.order with order | order
      · rw [Beyond, order] at within
        rw [order]
        exact ⟨_, mem_inOrder.mpr (keyFirst_mem someNext), not_lt.mp within⟩
      · rw [Beyond, order] at within
        rw [order]
        exact ⟨_, mem_inOrder.mpr (keyLast_mem someNext), not_lt.mp within⟩
    have isLater : row ∈ (next :: later).flatMap (inOrder query.order) :=
      List.mem_flatMap.mpr ⟨next, mem_cons_self, isRow⟩
    have all : upToEnd query.order query.ekey passed = passed :=
      upToEnd_all fun k isPassed =>
        upTo_trans (upTo_of_before (ordered.2.2 k isPassed row isLater)) inRange
    have positive : 0 < (upToEnd query.order query.ekey
        ((next :: later).flatMap (inOrder query.order))).length :=
      List.length_pos_of_mem (List.mem_filter.mpr ⟨isLater, decide_eq_true inRange⟩)
    rw [all] at enough
    omega

theorem side_moves {moved : SQuery} (there : StandsAt meter query.order moved.cursor next later)
    (onward : Onward query.order query'.cursor moved.cursor) (status : NextStatus query' moved next)
    :
    Side meter.toSMeterData query moved passed := by
  have length := skipping.length
  have side := skipping.side
  have beyond := beyond_iff skipping
  have sameBeyond : Beyond query' next ↔ Beyond query next := by
    obtain ⟨_, _, _, _, _, rfl⟩ := skipping.same
    exact Iff.rfl
  rcases crossed_cases side.onward onward with ⟨stays, sameSide⟩ | ⟨crosses, isCrossed, notYet⟩
  · have sameStatus := status.stays stays
    refine ⟨onward_trans side.onward onward, ?_, ?_, ?_⟩
    · rw [sameStatus]
      exact side.status
    · rw [sameStatus, sameSide]
      exact side.completed
    · rw [sameSide]
      exact side.whole
  · have isOther := crossing_later skipping.stands there onward crosses
    have rowsThere : sideRows meter.toSMeterData query = passed.length := by
      rw [sideRows, length, isOther]
      omega
    have open_ : query'.status = {} := by
      rcases side.status with fresh | completed
      · exact fresh
      · have isCompleted := side.completed.mp (by rw [completed]; rfl)
        exact absurd isCompleted.1 notYet
    obtain ⟨ends, goesOn⟩ := status.crosses crosses
    refine ⟨onward_trans side.onward onward, ?_, ?_, fun _ => rowsThere.le⟩
    · by_cases isBeyond : Beyond query' next
      · rw [ends isBeyond, open_]
        exact Or.inr rfl
      · rw [goesOn isBeyond, open_]
        exact Or.inl rfl
    · rw [rowsThere, <- beyond, <- sameBeyond]
      by_cases isBeyond : Beyond query' next
      · rw [ends isBeyond]
        exact ⟨fun _ => ⟨isCrossed, isBeyond⟩, fun _ => rfl⟩
      · rw [goesOn isBeyond, open_]
        exact ⟨fun completed => (by cases completed), fun both => absurd both.2 isBeyond⟩

end

theorem firstFileNext {cursor : SPositionInfo} (stands : StandsAt meter .desc cursor block later)
    (cached : cursor.fileId < 0) : later.length = (blocksIn meter.pHeaderFiles).length ↔
      later.flatten.length = (blocksIn meter.pHeaderFiles).flatten.length := by
  obtain ⟨front, back, here, -, -, rfl⟩ := stands
  cases here with
  | file pos files blocks => exact absurd cached (not_lt.mpr (fileID_nonneg files))
  | @cache front _ _ pos blocks =>
    have someFront : ∀ other ∈ front, other ≠ [] := fun other isIn =>
      meter.some_ other (mem_append_right _ (by rw [blocks]; simp [isIn]))
    simp only [blocksAfter]
    rw [reverse_flatten_length, length_reverse, length_append, List.flatten_append, length_append]
    constructor
    · intro same
      rw [length_eq_zero_iff.mp (show front.length = 0 by omega)]
      rfl
    · intro same
      cases front with
      | nil => rfl
      | cons other rest =>
        have positive := List.length_pos_iff.mpr (someFront other mem_cons_self)
        rw [flatten_cons, length_append] at same
        omega

/-- What is known of the block that a move has got to. -/
structure SkippedTo (meter : SMeterObj) (query query' moved : SQuery) (next : List Int)
    (later : List (List Int)) (passed : List Int) : Prop where
  stands : StandsAt meter query.order moved.cursor next later
  atStart : moved.cursor.pos = firstPos query.order next
  same : SkipState query moved
  lastKey : moved.lastKey = query'.lastKey
  cached : moved.cursor.fileId < 0 -> moved.loaded = true ∧ moved.keysLoaded = true
  side : Side meter.toSMeterData query moved passed

theorem skip_move {meter : SMeterObj} {functions : Functions} {query query' : SQuery}
    {block : List Int} {later : List (List Int)} {passed : List Int}
    (skipping : Skipping meter query query' block later passed)
    (even : EvenMove meter.toSMeterData query')
    (kept : query.order = .desc -> query'.cursor.fileId < 0 ->
      later.length = (blocksIn meter.pHeaderFiles).length -> later ≠ [] ->
        query.startPos.fileId < 0) :
    ∃ moved blockLoadStatus, moveToNextBlock meter.toSMeterData functions false query' =
        some (moved, blockLoadStatus) ∧ ((later = [] ∧ moved.status.noDataToCheck = true) ∨
        ∃ next later', later = next :: later' ∧ moved.status.noDataToCheck = false ∧
          SkippedTo meter query query' moved next later' passed) := by
  have sameOrder : query'.order = query.order ∧ query'.skey = query.skey ∧
      query'.startPos = query.startPos := by
    obtain ⟨_, _, _, _, _, rfl⟩ := skipping.same
    exact ⟨rfl, rfl, rfl⟩
  obtain ⟨moved, blockLoadStatus, runs, isMoved, -, ends⟩ :=
    @move_spec meter functions false query' block later (by rw [sameOrder.1]; exact skipping.stands)
      (by rw [sameOrder.1, sameOrder.2.1]; exact skipping.reached)
      (by rw [sameOrder.1, sameOrder.2.2]; exact kept)
      (fun isLoad => by cases isLoad)
      (by rw [sameOrder.1]; exact skipping.behind)
  rw [sameOrder.1] at ends
  refine ⟨moved, blockLoadStatus, runs, ?_⟩
  rcases ends with ⟨none_, status⟩ | ⟨next, later', rfl, status, there, -, cached, onward⟩
  · exact Or.inl ⟨none_, by rw [status]; rfl⟩
  · obtain ⟨atStart, stands⟩ := there (Or.inr even)
    have side := side_moves skipping stands onward status
    refine Or.inr ⟨next, later', rfl, ?_, stands, atStart, ?_, ?_, cached, side⟩
    · rcases side.status with fresh | completed
      · rw [fresh]
      · rw [completed]
        rfl
    · obtain ⟨_, _, _, _, _, rfl⟩ := skipping.same
      obtain ⟨_, _, _, _, rfl⟩ := isMoved
      exact ⟨_, _, _, _, _, rfl⟩
    · obtain ⟨_, _, _, _, rfl⟩ := isMoved
      rfl

variable {moved : SQuery} {k : Nat}

theorem landed_finished {rows : List Int}
    (stands : StandsAt meter query.order moved.cursor block later)
    (side : Side meter.toSMeterData query moved passed)
    (isAll : rowsFromStart meter.toSMeterData query =
      passed ++ (rows ++ later.flatMap (inOrder query.order)))
    (fresh : moved.status.noDataToCheck = false) (reached : passed.length ≤ k)
    (within : k < passed.length + rows.length) :
    Finished moved ↔ CanCross query.order query.cursor ∧ sideRows meter.toSMeterData query ≤ k ∧
      (rangeRows meter.toSMeterData query).length ≤ sideRows meter.toSMeterData query := by
  have length : (rowsFromStart meter.toSMeterData query).length =
      passed.length + (rows.length + later.flatten.length) := by
    rw [isAll, length_append, length_append, flatMap_length]
  rw [Finished, fresh, side.completed]
  simp only [Bool.false_eq_true, false_or]
  constructor
  · rintro ⟨crossed, enough⟩
    exact ⟨crossed_canCross side.onward crossed, le_trans (side.whole crossed) reached, enough⟩
  · rintro ⟨canCross, passes, enough⟩
    refine ⟨fun sameSide => ?_, enough⟩
    have before : CanCross query.order moved.cursor := by
      rcases order_cases query.order with order | order
      · simp only [order, CanCross] at canCross ⊢
        omega
      · simp only [order, CanCross] at canCross ⊢
        omega
    have isLeft := otherSide_later stands before
    rw [sideRows] at passes
    omega

/-- How far the start has got: to the row of the offset, or to the end of the data. -/
def Skipped (meter : SMeterObj) (query : SQuery) (k : Nat) (query' : SQuery) : Prop :=
  ((rowsFromStart meter.toSMeterData query).length ≤ k ∧ query'.status.noDataToCheck = true) ∨
    (k < (rowsFromStart meter.toSMeterData query).length ∧
      Landed meter query query' ((rowsFromStart meter.toSMeterData query).drop k) ∧
      (Finished query' ↔ CanCross query.order query.cursor ∧ sideRows meter.toSMeterData query ≤ k ∧
        (rangeRows meter.toSMeterData query).length ≤ sideRows meter.toSMeterData query))

theorem landed_at {rest : List Int}
    (same : SkipState query moved) (landed : Landed meter moved query' rest) :
    Landed meter query query' rest := by
  obtain ⟨_, _, _, _, _, rfl⟩ := same
  obtain ⟨_, _, _, rfl⟩ := landed.result
  exact ⟨landed.stands, landed.row, ⟨_, _, _, rfl⟩⟩

theorem lastRow_mem {order : QueryOrder} {block : List Int} (some_ : block ≠ []) :
    (match order with
      | .asc => keyLast block
      | .desc => keyFirst block) ∈ inOrder order block := by
  cases order with
  | asc => exact mem_inOrder.mpr (keyLast_mem some_)
  | desc => exact mem_inOrder.mpr (keyFirst_mem some_)

theorem skipping_next {next : List Int}
    (skipping : Skipping meter query query' block (next :: later) passed)
    (skippedTo : SkippedTo meter query query' moved next later passed) :
    Skipping meter query { moved with lastKey := (match moved.order with
        | .asc => keyLast next
        | .desc => keyFirst next) + step moved.order } next later
      (passed ++ inOrder query.order next) := by
  have someNext := meter.some_ next (later_mem skipping.stands mem_cons_self)
  have ordered := rowsFromStart_ordered meter query
  have rows := skipping.rows
  rw [List.flatMap_cons, <- List.append_assoc] at rows
  rw [rows, List.pairwise_append] at ordered
  have isLast := @lastRow_mem query.order next someNext
  have fromStart : UpTo query.order query.skey (match query.order with
      | .asc => keyLast next
      | .desc => keyFirst next) := by
    have member : (match query.order with
        | .asc => keyLast next
        | .desc => keyFirst next) ∈ rowsFromStart meter.toSMeterData query := by
      rw [rows]
      exact List.mem_append_left _ (mem_append_right _ isLast)
    exact of_decide_eq_true (List.mem_filter.mp member).2
  obtain ⟨cursor, lastKey, loaded, keysLoaded, status, rfl⟩ := skippedTo.same
  refine ⟨skippedTo.stands, rows, ⟨_, _, _, _, _, rfl⟩, ?_, fun k isLater => ?_, fun desc => ?_, ?_⟩
  · have beforeNext : Before query.order (match query.order with
        | .asc => keyLast next
        | .desc => keyFirst next) ((match query.order with
        | .asc => keyLast next
        | .desc => keyFirst next) + step query.order) := by
      rcases order_cases query.order with order | order
      · simp only [order, Before, step]
        omega
      · simp only [order, Before, step]
        omega
    exact upTo_trans fromStart (upTo_of_before beforeNext)
  · exact behind_step (ordered.2.2 _ (mem_append_right _ isLast) k (mem_later.mpr isLater))
  · rw [desc] at isLast
    rw [desc]
    exact mem_append_right _ isLast
  · obtain ⟨onward, isStatus, completed, whole⟩ := skippedTo.side
    refine ⟨onward, isStatus, completed, fun crossed => ?_⟩
    rw [length_append]
    exact le_trans (whole crossed) (Nat.le_add_right _ _)

variable {functions : Functions} {offset : Nat}

theorem doSkip_spec
    (even : EvenSkips meter query k) (kept : StartKept meter.toSMeterData query k) (fuel : Nat) (skipping : Skipping meter query query' block later passed)
    (isK : k = passed.length + offset) (enough : later.length < fuel) :
    ∃ found left, doSkipDataBlock meter.toSMeterData functions fuel query' offset =
        some (found, left) ∧ Skipped meter query k found := by
  induction fuel generalizing query' block later passed offset with
  | zero => exact absurd enough (Nat.not_lt_zero _)
  | succ fuel ih =>
    have length := skipping.length
    have sameOrder : query'.order = query.order := by
      obtain ⟨_, _, _, _, _, rfl⟩ := skipping.same
      rfl
    have evenMove : EvenMove meter.toSMeterData query' := by
      intro desc inFile isFirst fileId isNext
      rw [sameOrder] at desc
      obtain ⟨front, back, here, -⟩ := skipping.stands
      refine even desc _ front block back here inFile isFirst ?_ fileId isNext
      rw [skipping.rows, List.take_append, List.take_of_length_le (by omega)]
      exact List.mem_append_left _ (skipping.firstKey desc)
    have startKept : query.order = .desc -> query'.cursor.fileId < 0 ->
        later.length = (blocksIn meter.pHeaderFiles).length -> later ≠ [] ->
          query.startPos.fileId < 0 := by
      intro desc cached isFiles some_
      have stands := skipping.stands
      rw [desc] at stands
      have onward := skipping.side.onward
      rw [desc] at onward
      have isLeft := (firstFileNext stands cached).mp isFiles
      refine kept desc (onward cached) ?_ ?_
      · rintro none_
        rw [none_, length_nil] at isFiles
        exact some_ (length_eq_zero_iff.mp isFiles)
      · rw [sideRows, desc, otherSide]
        omega
    obtain ⟨moved, blockLoadStatus, runs, ends⟩ := skip_move skipping evenMove startKept
    rw [doSkipDataBlock, runs]
    simp only
    rcases ends with ⟨rfl, noData⟩ | ⟨next, later', rfl, fresh, skippedTo⟩
    · rw [if_pos noData]
      rw [List.flatten_nil, length_nil] at length
      exact ⟨moved, offset, rfl, Or.inl ⟨by omega, noData⟩⟩
    · have movedOrder : moved.order = query.order := by
        obtain ⟨_, _, _, _, _, rfl⟩ := skippedTo.same
        rfl
      have stands : StandsAt meter moved.order moved.cursor next later' := by
        rw [movedOrder]
        exact skippedTo.stands
      have ⟨_, _, _, inside, small, _⟩ := stands
      have reads := maxReads_eq inside small
      have rowsThere : rowsFrom moved.order next moved.cursor.pos = inOrder query.order next := by
        rw [movedOrder, skippedTo.atStart, rowsFrom_firstPos]
      have sameLength : (inOrder query.order next).length = next.length := by
        cases query.order with
        | asc => rfl
        | desc => exact length_reverse
      rw [rowsThere] at reads
      rw [fresh, if_neg Bool.false_ne_true, stands.found]
      simp only
      rw [reads]
      by_cases within : offset < (inOrder query.order next).length
      · rw [if_pos (by exact_mod_cast within)]
        obtain ⟨found, updates, landed, status, sameFile⟩ := updateOffsetVal_spec stands
          skippedTo.cached (by rw [rowsThere]; exact within)
        rw [updates]
        have isRest : (rowsFromStart meter.toSMeterData query).drop k =
            (remaining moved.order next moved.cursor.pos later').drop offset := by
          rw [skipping.rows, isK, <- List.drop_drop, List.drop_left, movedOrder,
            skippedTo.atStart, remaining_firstPos]
        rw [flatten_cons, length_append] at length
        refine ⟨found, 0, rfl, Or.inr ⟨by omega, ?_, ?_⟩⟩
        · rw [isRest]
          exact landed_at skippedTo.same landed
        · rw [Finished, status, <- Finished]
          exact landed_finished skippedTo.stands skippedTo.side
            (by rw [skipping.rows, List.flatMap_cons]) fresh (by omega) (by omega)
      · rw [if_neg (by exact_mod_cast within)]
        have left : (offset : Int) - ((inOrder query.order next).length : Int) =
            ((offset - (inOrder query.order next).length : Nat) : Int) := by omega
        rw [left]
        refine ih (skipping_next skipping skippedTo) ?_ ?_
        · rw [length_append]
          omega
        · rw [List.length_cons] at enough
          omega

theorem move_fails
    (stands : StandsAt meter .desc query.cursor block later) (desc : query.order = .desc)
    (cached : query.cursor.fileId < 0)
    (isFiles : later.length = (blocksIn meter.pHeaderFiles).length) (some_ : later ≠ [])
    (behind : ∀ k ∈ later.flatten, k ≤ query.lastKey) (unknown : 0 ≤ query.startPos.fileId) :
    moveToNextBlock meter.toSMeterData functions false query = none := by
  obtain ⟨front, back, here, inside, small, isLater⟩ := stands
  obtain ⟨older, rfl, blocks, -, slot⟩ := cache_here here cached
  obtain ⟨insideRing, -⟩ := cache_split blocks
  simp only [blocksAfter] at isLater
  have none_ : older = [] := by
    rw [<- isLater, length_reverse, length_append] at isFiles
    exact length_eq_zero_iff.mp (by omega)
  subst none_
  rw [List.append_nil] at isLater
  have isFirst := (ringSlot_first meter insideRing).mpr rfl
  have high : ∀ k ∈ (blocksIn meter.pHeaderFiles).flatten, k ≤ query.lastKey := by
    intro k member
    obtain ⟨other, isIn, isKey⟩ := List.mem_flatten.mp member
    refine behind k (List.mem_flatten.mpr ⟨other, ?_, isKey⟩)
    rw [<- isLater]
    exact List.mem_reverse.mpr isIn
  obtain ⟨moved, found, runs, isMoved, -, ends⟩ := @getQualifiedDataBlock_last meter
    { query with loaded := false, keysLoaded := false } desc high
  have sameStart : moved.startPos = query.startPos := by
    obtain ⟨_, _, _, _, rfl⟩ := isMoved
    rfl
  have ringMove : moveToNextBlockInCache meter.toSMeterData
      { query with loaded := false, keysLoaded := false } = none := by
    unfold moveToNextBlockInCache
    rw [if_neg (by rw [desc]; simp), if_pos ⟨desc, by rw [slot, isFirst]⟩, runs]
    rcases ends with ⟨-, none_, -⟩ | ⟨rfl, inFile, rest, next, isLast, there, atStart, -⟩
    · rw [none_, List.reverse_nil] at isLater
      exact absurd isLater.symm some_
    · have onDisk : getDiskDataBlock meter.toSMeterData moved.cursor.fileId moved.cursor.slot =
          some next := by
        have generic := getGenericDataBlock_here there
        rwa [getGenericDataBlock, if_pos inFile] at generic
      have keyThere : keyAt next moved.cursor.pos = some (keyLast next) := by
        rw [atStart]
        exact keyAt_firstPos .desc (block_ne_nil there.split)
      simp only [getTimestampInDiskBlock, onDisk, keyThere]
      rw [if_neg (by rw [sameStart]; omega)]
  unfold moveToNextBlock
  simp only
  rw [if_neg (by omega), ringMove]
  rfl

theorem skip_fails (desc : query.order = .desc) (inFiles : blocksIn meter.pHeaderFiles ≠ [])
    (passes : sideRows meter.toSMeterData query ≤ k) (unknown : 0 ≤ query.startPos.fileId)
    (fuel : Nat) (skipping : Skipping meter query query' block later passed)
    (cached : query'.cursor.fileId < 0) (isK : k = passed.length + offset) :
    doSkipDataBlock meter.toSMeterData functions fuel query' offset = none := by
  induction fuel generalizing query' block later passed offset with
  | zero => rfl
  | succ fuel ih =>
    have length := skipping.length
    have stands := skipping.stands
    rw [desc] at stands
    have sameOrder : query'.order = .desc ∧ query'.startPos = query.startPos := by
      obtain ⟨_, _, _, _, _, rfl⟩ := skipping.same
      exact ⟨desc, rfl⟩
    rw [doSkipDataBlock]
    by_cases isFiles : later.length = (blocksIn meter.pHeaderFiles).length
    · have some_ : later ≠ [] := by
        rintro rfl
        exact inFiles (length_eq_zero_iff.mp isFiles.symm)
      have behind := skipping.behind
      rw [desc] at behind
      rw [move_fails stands sameOrder.1 cached isFiles some_ behind
        (by rw [sameOrder.2]; exact unknown)]
    · obtain ⟨moved, blockLoadStatus, runs, ends⟩ := @skip_move meter functions query query'
        block later passed skipping (fun _ inFile => absurd cached (not_lt.mpr inFile))
        (fun _ _ same => absurd same isFiles)
      have other := otherSide_later stands cached
      rw [runs]
      simp only
      rcases ends with ⟨rfl, -⟩ | ⟨next, later', rfl, fresh, skippedTo⟩
      · -- There is a block of the files still to come.
        exfalso
        have some_ : (blocksIn meter.pHeaderFiles).flatten ≠ [] := by
          obtain ⟨first, rest, isBlocks⟩ := List.exists_cons_of_ne_nil inFiles
          have someFirst := meter.some_ first
            (List.mem_append_left _ (by rw [isBlocks]; exact mem_cons_self))
          rw [isBlocks, flatten_cons]
          exact List.append_ne_nil_of_left_ne_nil someFirst _
        have positive := List.length_pos_iff.mpr some_
        simp only [otherSide, List.flatten_nil, length_nil] at other
        omega
      · have movedOrder : moved.order = query.order := by
          obtain ⟨_, _, _, _, _, rfl⟩ := skippedTo.same
          rfl
        have nextStands := skippedTo.stands
        rw [desc] at nextStands
        have stillCached : moved.cursor.fileId < 0 := by
          obtain ⟨front, back, here, -, -, isLater⟩ := stands
          obtain ⟨front', back', there, -, -, isLater'⟩ := nextStands
          have side := (blocksIn_length_le here).mp cached
          rw [blocksIn_length_le there]
          have lengths := congrArg List.length isLater
          have lengths' := congrArg List.length isLater'
          rw [List.length_cons] at lengths isFiles
          simp only [blocksAfter, length_reverse] at lengths lengths'
          omega
        have isOther := otherSide_later nextStands stillCached
        have stands' : StandsAt meter moved.order moved.cursor next later' := by
          rw [movedOrder]
          exact skippedTo.stands
        obtain ⟨-, -, -, inside, small, -⟩ := skippedTo.stands
        have reads := maxReads_eq inside small
        rw [movedOrder, skippedTo.atStart, rowsFrom_firstPos, desc] at reads
        rw [fresh, if_neg Bool.false_ne_true, stands'.found]
        simp only
        rw [flatten_cons, length_append] at length
        have sameLength : (inOrder .desc next).length = next.length := length_reverse
        rw [sideRows, desc] at passes
        rw [reads, if_neg (by omega), show (offset : Int) - ((inOrder .desc next).length : Int) =
          ((offset - (inOrder .desc next).length : Nat) : Int) by omega]
        refine ih (skipping_next skipping skippedTo) stillCached ?_
        rw [length_append, desc]
        omega

end Luomi.Vnode.OffsetRuns
