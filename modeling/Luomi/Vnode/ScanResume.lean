import Luomi.Vnode.ScanRun

/-!
# A scan, suspended and resumed

Each time the buffer for the results is full the scan is suspended, and later it
is resumed at the position that was kept.  All the scans of a query together
handle the rows of its range, each of them once.
-/

namespace Luomi.Vnode.ScanResume

open QueryBlocks QueryCursor QueryMoves
  Luomi.Vnode.QuerySteps Luomi.Vnode.QueryScan Luomi.Vnode.QueryBlockSteps Luomi.Vnode.QueryApply
  Luomi.Vnode.ScanProgress Luomi.Vnode.ScanRun

/-- A scan that was to handle `rows` has ended. -/
structure Scanned (meter : SMeterObj) (query : SQuery) (rows : List Int) (query' : SQuery) :
    Prop where
  same : SameQuery query query'
  reached : UpTo query.order query.skey query'.lastKey
  accesses : ∃ accesses left, query'.accessed = query.accessed ++ accesses ∧
    accesses.flatMap Access.rows ≠ [] ∧
    (∀ access ∈ accesses, Inside meter.toSMeterData query.order access) ∧
    rows = accesses.flatMap Access.rows ++ left ∧ Ended meter query' left

variable {functions : Functions} {query : SQuery} {block : List Int} {later : List (List Int)}
  {meter : SMeterObj}
  {query' : SQuery}

theorem same_consistent (same : SameQuery query query') (consistent : Consistent functions query) :
    Consistent functions query' := by
  obtain ⟨_, _, _, _, _, _, _, _, _, _, rfl⟩ := same
  exact ⟨consistent.keys, consistent.data, consistent.plain⟩

theorem same_onePerRow (same : SameQuery query query') (onePerRow : OnePerRow functions query) :
    OnePerRow functions query' := by
  obtain ⟨_, _, _, _, _, _, _, _, _, _, rfl⟩ := same
  exact onePerRow

theorem scanLoop_spec (fuel : Nat) {blockLoadStatus : LoadStatus}
    (reading : Reading meter functions query blockLoadStatus block later)
    (consistent : Consistent functions query) (onePerRow : OnePerRow functions query)
    (enough : later.length < fuel) :
    ∃ query', scanLoop meter.toSMeterData functions fuel query blockLoadStatus = some query' ∧
      Scanned meter query (upToEnd query.order query.ekey
        (remaining query.order block query.cursor.pos later)) query' := by
  induction fuel generalizing query blockLoadStatus block later with
  | zero => exact absurd enough (Nat.not_lt_zero _)
  | succ fuel ih =>
    obtain ⟨round, next, access, left, runs, same, accessed, some_, inside, reached, splits,
      outcome⟩ := scanBlock_spec reading consistent onePerRow
    rw [scanLoop, runs]
    cases outcome with
    | ends ended =>
      refine ⟨round, rfl, same, reached, [access], left, accessed, by simpa using some_,
        by simpa using inside, by simpa using splits, ended⟩
    | @goesOn blockLoadStatus next later' isLater reading' =>
      rw [isLater, List.length_cons] at enough
      obtain ⟨query', goes, scanned⟩ := ih reading' (same_consistent same consistent)
        (same_onePerRow same onePerRow) (by omega)
      obtain ⟨accesses, left, accessed', some', inside', splits', ended⟩ := scanned.accesses
      have sameOrder : round.order = query.order ∧ round.skey = query.skey := by
        obtain ⟨_, _, _, _, _, _, _, _, _, _, rfl⟩ := same
        exact ⟨rfl, rfl⟩
      have reached' := scanned.reached
      rw [sameOrder.1, sameOrder.2] at reached'
      refine ⟨query', goes, same.trans scanned.same, reached', access :: accesses, left, ?_, ?_,
        ?_, ?_, ended⟩
      · rw [accessed', accessed, List.append_assoc]
        rfl
      · rw [List.flatMap_cons]
        exact List.append_ne_nil_of_left_ne_nil some_ _
      · intro other isIn
        rcases List.mem_cons.mp isIn with rfl | isLater
        · exact inside
        · rw [<- sameOrder.1]
          exact inside' other isLater
      · rw [splits, splits', List.flatMap_cons, List.append_assoc]

/-- The scan is about to begin, or to go on, at the cursor. -/
structure Poised (meter : SMeterObj) (query : SQuery) (block : List Int)
    (later : List (List Int)) : Prop where
  stands : StandsAt meter query.order query.cursor block later
  inRange : ∀ k, keyAt block query.cursor.pos = some k -> UpTo query.order k query.ekey
  behind : ∀ k ∈ remaining query.order block query.cursor.pos later,
    UpTo query.order query.lastKey k
  reached : UpTo query.order query.skey query.lastKey
  room : 0 < query.pointsOffset
  loaded : query.loaded = true
  keysLoaded : query.keysLoaded = true

theorem keyAt_remaining {order : QueryOrder} {block : List Int} {pos : Int} (inside : 0 ≤ pos)
    (small : pos < block.length) (later : List (List Int)) :
    keyAt block pos = (remaining order block pos later).head? := by
  have length := @rowsFrom_length order block pos inside small
  have reached : 0 < (rowsFrom order block pos).length := by
    cases order with
    | asc =>
      simp only at length
      omega
    | desc =>
      simp only at length
      omega
  have at_ := keyAt_step inside small reached
  rw [Nat.cast_zero, Int.zero_mul, Int.add_zero] at at_
  obtain ⟨row, rest, isRows⟩ := List.exists_cons_of_length_pos reached
  rw [at_, remaining]
  simp [isRows]

variable {cursor : SPositionInfo}

theorem later_length {order : QueryOrder}
    (stands : StandsAt meter order cursor block later) : later.length < meter.blocks.length := by
  obtain ⟨front, back, here, -, -, rfl⟩ := stands
  have length := congrArg List.length here.split
  rw [List.length_append, List.length_cons] at length
  cases order with
  | asc =>
    rw [blocksAfter]
    omega
  | desc =>
    rw [blocksAfter, List.length_reverse]
    omega

theorem vnodeScanAllData_spec {meter : SMeterObj} {functions : Functions} {query : SQuery}
    {block : List Int} {later : List (List Int)} (poised : Poised meter query block later)
    (consistent : Consistent functions query) (onePerRow : OnePerRow functions query) :
    ∃ query', vnodeScanAllData meter.toSMeterData functions query = some query' ∧
      Scanned meter query (upToEnd query.order query.ekey
        (remaining query.order block query.cursor.pos later)) query' := by
  obtain ⟨front, back, here, inside, small, isLater⟩ := poised.stands
  have inQuery : InQuery query := by
    have reached := poised.reached
    rcases order_cases query.order with order | order
    · rw [order] at reached
      rw [InQuery, order]
      exact reached
    · rw [InQuery, order]
      rw [order] at reached
      obtain ⟨key, isKey⟩ : ∃ key, keyAt block query.cursor.pos = some key := by
        have reaches : query.cursor.pos.toNat < block.length := by omega
        exact ⟨block[query.cursor.pos.toNat], by
          rw [keyAt, if_pos inside, List.getElem?_eq_getElem reaches]⟩
      have inRange := poised.inRange key isKey
      rw [keyAt_remaining inside small later] at isKey
      have behind := poised.behind key (List.mem_of_mem_head? isKey)
      rw [order] at inRange behind
      exact ⟨reached, le_trans inRange behind⟩
  have reading : Reading meter functions { query with status := {}, startPos := query.cursor }
      .loaded block later :=
    { stands := poised.stands
      inRange := poised.inRange
      behind := poised.behind
      inQuery := inQuery
      status := rfl
      room := poised.room
      ready := ready_loaded functions block poised.loaded poised.keysLoaded
      whole := fun isDiscarded => by cases isDiscarded
      started := fun _ cached => cached }
  unfold vnodeScanAllData doScanAllDataBlocks
  rw [if_pos rfl]
  obtain ⟨query', runs, scanned⟩ := scanLoop_spec meter.blocks.length reading
    ⟨consistent.keys, consistent.data, consistent.plain⟩ onePerRow (later_length poised.stands)
  obtain ⟨_, _, _, _, _, _, _, _, _, _, rfl⟩ := scanned.same
  exact ⟨_, runs, ⟨_, _, _, _, _, _, _, _, _, _, rfl⟩, scanned.reached, scanned.accesses⟩

theorem headerFile_here {older newer : List SQueryFileInfo}
    {file : SQueryFileInfo} (files : meter.pHeaderFiles = older ++ file :: newer)
    (order : QueryOrder) :
    vnodeGetVnodeHeaderFileIdx meter.pHeaderFiles file.fileID order = some older.length := by
  have ordered := meter.ordered
  rw [files, List.pairwise_append, List.pairwise_cons] at ordered
  cases order with
  | asc =>
    rw [headerFile_asc files (fun other isOlder => ordered.2.2 other isOlder file
      List.mem_cons_self) (fun other isNewer => ?_)]
    · rfl
    · rcases List.mem_cons.mp isNewer with rfl | isLater
      · exact le_rfl
      · exact (ordered.2.1.1 other isLater).le
  | desc =>
    have splits : meter.pHeaderFiles = (older ++ [file]) ++ newer := by simp [files]
    have down := @headerFileDown_eq _ _ _ file.fileID splits (fun other isOlder => ?_)
      ordered.2.1.1 meter.pHeaderFiles.length (by simp [files]) le_rfl
    · simpa [vnodeGetVnodeHeaderFileIdx] using down
    · rcases List.mem_append.mp isOlder with isIn | same
      · exact (ordered.2.2 other isIn file List.mem_cons_self).le
      · rw [List.mem_singleton.mp same]

theorem prepareNextScan_spec (stands : StandsAt meter query.order query.nextPos block later) :
    prepareNextScan meter.toSMeterData query = some { query with
      cursor := query.nextPos
      loaded := true
      keysLoaded := true
      pointsOffset := query.pointsToRead } := by
  obtain ⟨front, back, here, inside, small, -⟩ := stands
  have reaches : query.nextPos.pos.toNat < block.length := by omega
  have keyThere : keyAt block query.nextPos.pos = some block[query.nextPos.pos.toNat] := by
    rw [keyAt, if_pos inside, List.getElem?_eq_getElem reaches]
  have positive : 0 < block[query.nextPos.pos.toNat] := by
    refine meter.positive _ (List.mem_flatten.mpr ⟨block, ?_, List.getElem_mem _⟩)
    rw [here.split]
    simp
  generalize block[query.nextPos.pos.toNat] = key at keyThere positive
  unfold prepareNextScan loadRequiredBlockIntoMem
  generalize query.nextPos = position at *
  cases here with
  | @file older newer file front back _ pos files blocks =>
    have nonneg := fileID_nonneg files
    have found : meter.pHeaderFiles[older.length]? = some file := by simp [files]
    rw [if_neg (by simp only; omega)]
    simp only [headerFile_here files query.order, found, getTimestampInDiskBlock,
      getDiskDataBlock_file files blocks]
    simp only at keyThere
    rw [keyThere]
    simp only [positive, true_or, if_true]
  | @cache front _ _ pos blocks =>
    obtain ⟨some_, -⟩ := cache_split blocks
    rw [if_pos rfl, if_neg (by omega)]
    simp only [getCacheDataBlock_ring blocks]
    simp only at keyThere
    rw [keyThere, Option.getD_some]
    simp only [positive, true_or, if_true]

def rowsFromStart (meter : SMeterData) (query : SQuery) : List Int :=
  (scanRows meter query.order).filter fun k => decide (UpTo query.order query.skey k)

def rangeRows (meter : SMeterData) (query : SQuery) : List Int :=
  (scanRows meter query.order).filter fun k =>
    decide (UpTo query.order query.skey k ∧ UpTo query.order k query.ekey)

def handledRows (query : SQuery) : List Int := query.accessed.flatMap Access.rows

structure Start (meter : SMeterObj) (query : SQuery) : Prop where
  first : ∃ front block back key, Here meter query.cursor front block back ∧
    keyAt block query.cursor.pos = some key ∧ UpTo query.order query.skey key ∧
    UpTo query.order key query.ekey ∧
    ∀ k ∈ meter.blocks.flatten, UpTo query.order query.skey k -> UpTo query.order key k
  lastKey : query.lastKey = query.skey
  unread : query.accessed = []
  loaded : query.loaded = true
  keysLoaded : query.keysLoaded = true
  room : 0 < query.pointsToRead
  empty : query.pointsOffset = query.pointsToRead

/-- The scans of a query one after the other; a suspended one is resumed where
`resumable` holds. -/
inductive Run (meter : SMeterData) (functions : Functions) (query : SQuery)
    (resumable : SQuery -> Prop) : Nat -> Option SQuery -> Prop where
  | first : Run meter functions query resumable 1 (vnodeScanAllData meter functions query)
  | resumed {n : Nat} {stopped : SQuery}
      (run : Run meter functions query resumable n (some stopped)) (suspended : Suspended stopped)
      (goesOn : resumable stopped) : Run meter functions query resumable (n + 1)
        ((prepareNextScan meter stopped).bind (vnodeScanAllData meter functions))

/-- The next position has been kept, and there is a row of the range to go on with. -/
def Resumable (meter : SMeterData) (query stopped : SQuery) : Prop :=
  EvenEnd meter stopped ∧ handledRows stopped ≠ rangeRows meter query

theorem keyAt_some {pos key : Int} (isKey : keyAt block pos = some key) :
    0 ≤ pos ∧ pos < block.length := by
  unfold keyAt at isKey
  split at isKey
  · obtain ⟨small, -⟩ := List.getElem?_eq_some_iff.mp isKey
    omega
  · cases isKey

theorem rangeRows_eq (meter : SMeterData) (query : SQuery) : rangeRows meter query =
    upToEnd query.order query.ekey (rowsFromStart meter query) := by
  rw [upToEnd, rowsFromStart, List.filter_filter]
  refine List.filter_congr fun k _ => ?_
  simp [and_comm]

theorem rows_behind {order : QueryOrder}
    (stands : StandsAt meter order cursor block later) {skey key : Int}
    (isKey : keyAt block cursor.pos = some key) (reached : UpTo order skey key)
    (isFirst : ∀ k ∈ meter.blocks.flatten, UpTo order skey k -> UpTo order key k) :
    (scanRows meter.toSMeterData order).filter (fun k => decide (UpTo order skey k)) =
      remaining order block cursor.pos later := by
  have ⟨_, _, _, inside, small, _⟩ := stands
  rw [@keyAt_remaining order block _ inside small later] at isKey
  obtain ⟨rest, isRest⟩ := List.head?_eq_some_iff.mp isKey
  obtain ⟨passed, splits⟩ := scanRows_split stands
  have ordered := scanRows_ordered meter order
  rw [splits, isRest, List.pairwise_append, List.pairwise_cons] at ordered
  have behind : ∀ k ∈ key :: rest, UpTo order skey k := by
    intro k member
    rcases List.mem_cons.mp member with rfl | isLater
    · exact reached
    · exact upTo_trans reached (upTo_of_before (ordered.2.1.1 k isLater))
  have none_ : passed.filter (fun k => decide (UpTo order skey k)) = [] := by
    refine List.filter_eq_nil_iff.mpr fun k isPassed => ?_
    rw [decide_eq_true_eq]
    intro isReached
    have member : k ∈ meter.blocks.flatten := mem_inOrder.mp (splits ▸ List.mem_append_left _ isPassed)
    exact not_upTo.mpr (ordered.2.2 k isPassed key List.mem_cons_self) (isFirst k member isReached)
  rw [splits, List.filter_append, none_, List.nil_append, isRest]
  exact List.filter_eq_self.mpr fun k member => decide_eq_true (behind k member)

theorem start_poised (start : Start meter query) :
    ∃ block later, Poised meter query block later ∧ rowsFromStart meter.toSMeterData query =
      remaining query.order block query.cursor.pos later := by
  obtain ⟨front, block, back, key, here, isKey, reached, inRange, isFirst⟩ := start.first
  obtain ⟨inside, small⟩ := keyAt_some isKey
  have stands : StandsAt meter query.order query.cursor block
      (blocksAfter query.order front back) := ⟨front, back, here, inside, small, rfl⟩
  have rows := rows_behind stands isKey reached isFirst
  refine ⟨block, _, ⟨stands, ?_, ?_, ?_, ?_, start.loaded, start.keysLoaded⟩, rows⟩
  · intro k isK
    rw [isKey, Option.some.injEq] at isK
    rw [<- isK]
    exact inRange
  · intro k member
    rw [<- rows] at member
    rw [start.lastKey]
    exact of_decide_eq_true (List.mem_filter.mp member).2
  · rw [start.lastKey]
    cases query.order <;> exact le_rfl
  · rw [start.empty]
    exact start.room

structure Progress (meter : SMeterObj) (query : SQuery) (n : Nat) (stopped : SQuery) : Prop where
  same : SameQuery query stopped
  reached : UpTo query.order query.skey stopped.lastKey
  inside : ∀ access ∈ stopped.accessed, Inside meter.toSMeterData query.order access
  grows : n ≤ (handledRows stopped).length
  left : ∃ left, rangeRows meter.toSMeterData query = handledRows stopped ++ left ∧
    Ended meter stopped left

theorem handledRows_append {accesses : List Access}
    (accessed : query'.accessed = query.accessed ++ accesses) :
    handledRows query' = handledRows query ++ accesses.flatMap Access.rows := by
  rw [handledRows, accessed, List.flatMap_append]
  rfl

section

variable (start : Start meter query) (consistent : Consistent functions query)
  (onePerRow : OnePerRow functions query)

include start consistent onePerRow

theorem progress_first :
    ∃ stopped, vnodeScanAllData meter.toSMeterData functions query = some stopped ∧
      Progress meter query 1 stopped := by
  obtain ⟨block, later, poised, rows⟩ := start_poised start
  obtain ⟨stopped, runs, same, reached, accesses, left, accessed, some_, inside, splits, ended⟩ :=
    vnodeScanAllData_spec poised consistent onePerRow
  have handled := handledRows_append accessed
  have none_ : handledRows query = [] := by
    rw [handledRows, start.unread]
    rfl
  rw [none_, List.nil_append] at handled
  refine ⟨stopped, runs, same, reached, ?_, ?_, left, ?_, ended⟩
  · rw [accessed, start.unread, List.nil_append]
    exact inside
  · rw [handled]
    exact List.length_pos_iff.mpr some_
  · rw [rangeRows_eq, rows, splits, handled]

theorem progress_resumed {stopped : SQuery} {n : Nat} (progress : Progress meter query n stopped)
    (suspended : Suspended stopped) (goesOn : Resumable meter.toSMeterData query stopped) :
    ∃ stopped', (prepareNextScan meter.toSMeterData stopped).bind
        (vnodeScanAllData meter.toSMeterData functions) = some stopped' ∧
      Progress meter query (n + 1) stopped' := by
  obtain ⟨left, rows, ended⟩ := progress.left
  obtain ⟨block, later, stands, isLeft, behind⟩ := ended.next suspended goesOn.1
  have more : left ≠ [] := by
    rintro rfl
    rw [List.append_nil] at rows
    exact goesOn.2 rows.symm
  obtain ⟨same, reached, inside, grows, -⟩ := progress
  obtain ⟨lastKey, cursor, status, pointsOffset, loaded, keysLoaded, startPos, endPos, nextPos,
    handled, rfl⟩ := same
  rw [prepareNextScan_spec stands, Option.bind_some]
  simp only at stands isLeft behind reached
  have inFront : ∀ k, keyAt block nextPos.pos = some k -> UpTo query.order k query.ekey := by
    intro k isKey
    obtain ⟨posInside, small⟩ := keyAt_some isKey
    rw [keyAt_remaining posInside small later] at isKey
    by_contra notInRange
    refine more (isLeft.trans ?_)
    rw [upToEnd_takeWhile (remaining_ordered stands)]
    cases isRows : remaining query.order block nextPos.pos later with
    | nil => rfl
    | cons row rest =>
      rw [isRows] at isKey
      cases isKey
      rw [List.takeWhile_cons, if_neg (by simpa using notInRange)]
  obtain ⟨stopped', runs, same', reached', accesses, left', accessed, some_, inside', splits,
    ended'⟩ := @vnodeScanAllData_spec meter functions
      { query with
        lastKey := lastKey, cursor := nextPos, status := status
        pointsOffset := query.pointsToRead, loaded := true, keysLoaded := true
        startPos := startPos, endPos := endPos, nextPos := nextPos, accessed := handled }
      block later ⟨stands, inFront, behind, reached, start.room, rfl, rfl⟩
      ⟨consistent.keys, consistent.data, consistent.plain⟩ onePerRow
  have isHandled := handledRows_append accessed
  refine ⟨stopped', runs, ?_, reached', ?_, ?_, left', ?_, ended'⟩
  · exact SameQuery.trans ⟨_, _, _, _, _, _, _, _, _, _, rfl⟩ same'
  · intro access isIn
    rw [accessed] at isIn
    rcases List.mem_append.mp isIn with isOld | isNew
    · exact inside access isOld
    · exact inside' access isNew
  · have positive := List.length_pos_iff.mpr some_
    rw [isHandled, List.length_append]
    simp only [handledRows] at grows ⊢
    omega
  · rw [rows, isHandled, List.append_assoc, <- splits, isLeft]
    rfl

end

/-- Whatever scan of the query has come to its end: the rows that have been handled
are the first ones of the range, and they are all of them where it is not suspended. -/
structure Complete (meter : SMeterObj) (query : SQuery) (n : Nat) (stopped : SQuery) : Prop where
  inOrder_ : handledRows stopped <+: rangeRows meter.toSMeterData query
  grows : n ≤ (handledRows stopped).length
  whole : ¬ Suspended stopped -> handledRows stopped = rangeRows meter.toSMeterData query
  inside : ∀ access ∈ stopped.accessed, Inside meter.toSMeterData query.order access

theorem Progress.complete {stopped : SQuery} {n : Nat}
    (progress : Progress meter query n stopped) : Complete meter query n stopped := by
  obtain ⟨left, rows, ended⟩ := progress.left
  refine ⟨⟨left, rows.symm⟩, progress.grows, fun notSuspended => ?_, progress.inside⟩
  rw [rows, ended.whole notSuspended, List.append_nil]

theorem run_progress (start : Start meter query) (consistent : Consistent functions query)
    (onePerRow : OnePerRow functions query) {n : Nat} {result : Option SQuery}
    (run : Run meter.toSMeterData functions query (Resumable meter.toSMeterData query) n result) :
    ∃ stopped, result = some stopped ∧ Progress meter query n stopped := by
  induction run with
  | first => exact progress_first start consistent onePerRow
  | resumed run suspended goesOn ih =>
    obtain ⟨stopped, isStopped, progress⟩ := ih
    obtain rfl := Option.some.inj isStopped
    exact progress_resumed start consistent onePerRow progress suspended goesOn

/-- The scans of a query handle the rows of its range in their order, each of them
once, and none of them fails. -/
theorem scans_complete {meter : SMeterObj} {functions : Functions} {query : SQuery}
    (start : Start meter query) (consistent : Consistent functions query)
    (onePerRow : OnePerRow functions query) {n : Nat} {result : Option SQuery}
    (run : Run meter.toSMeterData functions query (Resumable meter.toSMeterData query) n result) :
    ∃ stopped, result = some stopped ∧ Complete meter query n stopped := by
  obtain ⟨stopped, isStopped, progress⟩ := run_progress start consistent onePerRow run
  exact ⟨stopped, isStopped, progress.complete⟩

/-- The older file has a short block in front of a longer one. -/
def twoFiles : SMeterObj where
  pHeaderFiles := [⟨0, [[1], [2, 3]]⟩, ⟨2, [[10]]⟩]
  pCache := ⟨1, 0, 0, fun _ => []⟩
  delta := 5
  ordered := by decide
  numbered := by decide
  deltaPos := by decide
  inFile := by decide
  room := by decide
  inRing := by decide
  some_ := by decide
  increasing := by decide
  positive := by decide

def project : Functions where
  demand := fun _ _ => .needed
  passes := fun _ => true
  numOfRes := fun _ rows => rows.length

section

variable (order : QueryOrder)

/-- A projection of all rows of `twoFiles`, with room for some rows in the buffer. -/
def projection (room : Int) : SQuery where
  order := order
  skey := match order with | .asc => 1 | .desc => 10
  ekey := match order with | .asc => 10 | .desc => 1
  lastKey := match order with | .asc => 1 | .desc => 10
  cursor := match order with | .asc => ⟨0, 0, 0⟩ | .desc => ⟨2, 0, 0⟩
  hasFilters := false
  isTopBottomQuery := false
  requireTimestamp := true
  isIntervalQuery := false
  checkBufferInLoop := true
  pointsToRead := room
  pointsOffset := room
  startPos := ⟨-1, -1, -1⟩
  endPos := ⟨-1, -1, -1⟩
  nextPos := ⟨-1, -1, -1⟩

theorem projection_start {room : Int} (positive : 0 < room) :
    Start twoFiles (projection order room) where
  first := by
    cases order with
    | asc =>
      refine ⟨[], [1], [[2, 3], [10]], 1, ?_, rfl, le_rfl, ?_, fun _ _ reached => reached⟩
      swap
      · exact (by decide : (1 : Int) ≤ 10)
      exact @Here.file twoFiles [] [⟨2, [[10]]⟩] ⟨0, [[1], [2, 3]]⟩ [] [[2, 3]] [1] 0 rfl rfl
    | desc =>
      refine ⟨[[1], [2, 3]], [10], [], 10, ?_, rfl, le_rfl, ?_, fun _ _ reached => reached⟩
      swap
      · exact (by decide : (1 : Int) ≤ 10)
      exact @Here.file twoFiles [⟨0, [[1], [2, 3]]⟩] [] ⟨2, [[10]]⟩ [] [] [10] 0 rfl rfl
  lastKey := by cases order <;> rfl
  unread := rfl
  loaded := rfl
  keysLoaded := rfl
  room := positive
  empty := rfl

theorem projection_consistent (room : Int) : Consistent project (projection order room) :=
  ⟨fun _ => rfl, fun _ _ _ => by simp [project], fun _ => ⟨rfl, rfl⟩⟩

theorem projection_onePerRow (room : Int) :
    OnePerRow project (projection order room) := fun _ _ _ => rfl

end

/-- The buffer is full in the middle of the second block. -/
def suspendedInside : SQuery := { projection .asc 2 with
  lastKey := 3
  cursor := ⟨0, 1, 0⟩
  status := setFull {}
  pointsOffset := 0
  startPos := ⟨0, 0, 0⟩
  endPos := ⟨0, 1, 0⟩
  nextPos := ⟨0, 1, 1⟩
  accessed := [⟨⟨0, 0, 0⟩, [1], true⟩, ⟨⟨0, 1, 0⟩, [2], true⟩] }

/-- The buffer is full with the only row of the newer file. -/
def suspendedBetween : SQuery := { projection .desc 1 with
  lastKey := 9
  cursor := ⟨0, 1, 0⟩
  status := setFull {}
  pointsOffset := 0
  loaded := false
  keysLoaded := false
  startPos := ⟨2, 0, 0⟩
  endPos := ⟨2, 0, 0⟩
  nextPos := ⟨0, 1, 0⟩
  accessed := [⟨⟨2, 0, 0⟩, [10], true⟩] }

theorem scans_resumed : ∃ stopped, (prepareNextScan twoFiles.toSMeterData suspendedInside).bind
      (vnodeScanAllData twoFiles.toSMeterData project) = some stopped ∧
    Complete twoFiles (projection .asc 2) 2 stopped := by
  have isSuspended : vnodeScanAllData twoFiles.toSMeterData project (projection .asc 2) =
      some suspendedInside := by decide +kernel
  have firstScan := @Run.first twoFiles.toSMeterData project (projection .asc 2)
    (Resumable twoFiles.toSMeterData (projection .asc 2))
  rw [isSuspended] at firstScan
  exact scans_complete (projection_start .asc (by decide)) (projection_consistent .asc 2)
    (projection_onePerRow .asc 2) (.resumed firstScan (by decide)
      ⟨fun desc => (by cases desc), by decide +kernel⟩)

/-- From new to old, the scan that is resumed in the older file begins with row 2:
the position comes from the short block, and row 3 is left out. -/
theorem row_left_out : ¬ ∀ (meter : SMeterObj) (functions : Functions) (query : SQuery),
    Start meter query -> Consistent functions query -> OnePerRow functions query ->
    ∀ (n : Nat) (result : Option SQuery),
      Run meter.toSMeterData functions query (fun _ => True) n result ->
      ∃ stopped, result = some stopped ∧
        handledRows stopped <+: rangeRows meter.toSMeterData query := by
  intro holds
  have isSuspended : vnodeScanAllData twoFiles.toSMeterData project (projection .desc 1) =
      some suspendedBetween := by decide +kernel
  have firstScan := @Run.first twoFiles.toSMeterData project (projection .desc 1) (fun _ => True)
  rw [isSuspended] at firstScan
  obtain ⟨stopped, isStopped, rows⟩ := holds twoFiles project (projection .desc 1)
    (projection_start .desc (by decide)) (projection_consistent .desc 1)
    (projection_onePerRow .desc 1) 2 _ (.resumed firstScan (by decide) trivial)
  have handled : ((prepareNextScan twoFiles.toSMeterData suspendedBetween).bind
      (vnodeScanAllData twoFiles.toSMeterData project)).map handledRows = some [10, 2] := by
    decide +kernel
  rw [isStopped, Option.map_some, Option.some.injEq] at handled
  rw [handled] at rows
  exact absurd rows (by decide +kernel)

end Luomi.Vnode.ScanResume
