import Luomi.Vnode.ScanProgress

/-!
# One round of a scan

A round handles some rows of the current block.  Then the scan goes on with the
first row of the next block, or it ends: the range is at its end, or the buffer
is full and the next position is kept.
-/

namespace Luomi.Vnode.ScanRun

open QueryBlocks QueryCursor QueryMoves
  Luomi.Vnode.QuerySteps Luomi.Vnode.QueryScan Luomi.Vnode.QueryBlockSteps Luomi.Vnode.QueryApply
  Luomi.Vnode.ScanProgress

variable {block : List Int} {later : List (List Int)} {meter : SMeterObj} {query : SQuery}
  {cursor : SPositionInfo} {order : QueryOrder} {next : List Int}

theorem later_mem (stands : StandsAt meter order cursor block later)
    (isLater : next ∈ later) : next ∈ meter.blocks := by
  obtain ⟨front, back, here, -, -, rfl⟩ := stands
  rw [here.split]
  cases order with
  | asc => exact List.mem_append_right _ (List.mem_cons_of_mem _ isLater)
  | desc => exact List.mem_append_left _ (List.mem_reverse.mp isLater)

theorem mem_inOrder {k : Int} : k ∈ inOrder order block ↔ k ∈ block := by
  cases order <;> simp [inOrder]

theorem beyond_later
    (stands : StandsAt meter query.order cursor block (next :: later)) (beyond : Beyond query next) :
    upToEnd query.order query.ekey ((next :: later).flatMap (inOrder query.order)) = [] := by
  have inMeter := later_mem stands List.mem_cons_self
  have someNext := meter.some_ next inMeter
  have increasing := (List.pairwise_flatten.mp meter.increasing).1 next inMeter
  have ordered := (List.pairwise_append.mp (remaining_ordered stands)).2.1
  rw [List.flatMap_cons, List.pairwise_append] at ordered
  rw [List.flatMap_cons]
  refine upToEnd_nil fun k member => ?_
  rcases order_cases query.order with order | order
  · rw [Beyond, order] at beyond
    rw [order] at ordered member ⊢
    simp only [Before] at beyond ordered ⊢
    rcases List.mem_append.mp member with isNext | isLater
    · exact lt_of_lt_of_le beyond (keyFirst_le increasing (mem_inOrder.mp isNext))
    · exact lt_trans beyond (ordered.2.2 _ (mem_inOrder.mpr (keyFirst_mem someNext)) k isLater)
  · rw [Beyond, order] at beyond
    rw [order] at ordered member ⊢
    simp only [Before] at beyond ordered ⊢
    rcases List.mem_append.mp member with isNext | isLater
    · exact lt_of_le_of_lt (le_keyLast increasing (mem_inOrder.mp isNext)) beyond
    · exact lt_trans (ordered.2.2 _ (mem_inOrder.mpr (keyLast_mem someNext)) k isLater) beyond

def EndsHere (query : SQuery) (block : List Int) : Prop :=
  match query.order with
  | .asc => query.ekey ≤ keyLast block
  | .desc => keyFirst block ≤ query.ekey

theorem upToEnd_drop (increasing : block.Pairwise (· < ·)) :
    upToEnd query.order query.ekey ((rowsFrom query.order block query.cursor.pos).drop
      (rowsInRange query block)) = [] := by
  have ordered := @rowsFrom_ordered query.order block increasing query.cursor.pos
  have whole := @upToEnd_takeWhile query.order query.ekey _ ordered
  rw [<- List.take_append_drop (rowsInRange query block)
    (rowsFrom query.order block query.cursor.pos), upToEnd_append,
    upToEnd_all fun k member => take_inRange le_rfl member, List.take_append_drop] at whole
  have lengths := congrArg List.length whole
  have most := rowsInRange_le query block
  rw [List.length_append, List.length_take] at lengths
  change min (rowsInRange query block) _ + _ = rowsInRange query block at lengths
  exact List.length_eq_zero_iff.mp (by omega)

theorem ended_here (stands : StandsAt meter query.order query.cursor block later)
    (atRow : AtRow query block) (ends : EndsHere query block) : upToEnd query.order query.ekey
      (restOf query block later (rowsInRange query block)) = [] := by
  rw [restOf, upToEnd_append, upToEnd_drop atRow.increasing, List.nil_append]
  refine upToEnd_nil fun k isLater => ?_
  have lastIs := @last_rowsFrom query.order block _ atRow.inside atRow.small
  have before := (List.pairwise_append.mp (remaining_ordered stands)).2.2 _
    (List.mem_of_getElem? lastIs) k isLater
  rcases order_cases query.order with order | order
  · rw [EndsHere, order] at ends
    simp only [order, Before] at before ⊢
    exact lt_of_le_of_lt ends before
  · rw [EndsHere, order] at ends
    simp only [order, Before] at before ⊢
    exact lt_of_lt_of_le before ends

def Kept (query query' : SQuery) : Prop :=
  ∃ cursor loaded keysLoaded status nextPos, query' = { query with
    cursor := cursor, loaded := loaded, keysLoaded := keysLoaded, status := status
    nextPos := nextPos }

/-- In the order from new to old, a scan that stopped with the first row of a file
goes on in a file whose first block is as long as its last one. -/
def EvenEnd (meter : SMeterData) (query : SQuery) : Prop :=
  query.order = .desc -> 0 ≤ query.endPos.fileId -> query.endPos.slot = 0 -> query.endPos.pos = 0 ->
    ∀ fileId, nextFile meter .desc query.endPos.fileId = some fileId -> EvenFile meter fileId

/-- The scan has ended, with these rows of the range left. -/
structure Ended (meter : SMeterObj) (query : SQuery) (left : List Int) : Prop where
  whole : ¬ Suspended query -> left = []
  next : Suspended query -> EvenEnd meter.toSMeterData query ->
    ∃ block later, StandsAt meter query.order query.nextPos block later ∧
      left = upToEnd query.order query.ekey
        (remaining query.order block query.nextPos.pos later) ∧
      ∀ k ∈ remaining query.order block query.nextPos.pos later,
        UpTo query.order query.lastKey k

theorem ended_completed (completed : query.status.completed = true) : Ended meter query [] where
  whole := fun _ => rfl
  next := fun suspended => by
    have notCompleted := suspended.2.1
    rw [completed] at notCompleted
    cases notCompleted

section

variable {meter : SMeterObj} {functions : Functions} {query : SQuery} {block : List Int}
  {later : List (List Int)} (passed : Passed meter query block later)

include passed

theorem save_completed (completed : query.status.completed = true) (accessPos : Int) :
    ∃ query', saveNextPosition meter.toSMeterData functions query block accessPos = some query' ∧
      Kept query query' ∧ Ended meter query' [] := by
  obtain ⟨query', runs, ends⟩ := @saveNextPosition_spec meter functions query block later passed
    accessPos
  refine ⟨query', runs, ?_⟩
  rcases ends with ⟨rfl, -⟩ | ⟨-, -, rfl⟩ | ⟨-, moved, ⟨_, _, _, _, rfl⟩, rfl, ends⟩
  · exact ⟨⟨_, _, _, _, _, rfl⟩, ended_completed completed⟩
  · exact ⟨⟨_, _, _, _, _, rfl⟩, ended_completed completed⟩
  · refine ⟨⟨_, _, _, _, _, rfl⟩, ended_completed ?_⟩
    rcases ends with ⟨-, status⟩ | ⟨next, later', -, status | ⟨status, -⟩, -⟩
    · simp only at status ⊢
      rw [status]
      exact completed
    · simp only at status ⊢
      rw [status]
      exact completed
    · simp only at status ⊢
      rw [status]
      rfl

theorem save_full (checked : query.checkBufferInLoop = true) (full : query.status = setFull {})
    {accessPos : Int} (inside : 0 ≤ accessPos) (small : accessPos < block.length)
    (endPos : query.endPos = ⟨query.cursor.fileId, query.cursor.slot, accessPos⟩) {rest : List Int}
    (behind : ∀ k ∈ rest, UpTo query.order query.lastKey k)
    (within : 0 ≤ accessPos + step query.order -> accessPos + step query.order < block.length ->
      rest = remaining query.order block (accessPos + step query.order) later)
    (outside : (block.length : Int) ≤ accessPos + step query.order ∨ accessPos + step query.order <
      0 -> rest = later.flatMap (inOrder query.order))
    :
    ∃ query', saveNextPosition meter.toSMeterData functions query block accessPos = some query' ∧
      Kept query query' ∧ Ended meter query' (upToEnd query.order query.ekey rest) := by
  obtain ⟨query', runs, ends⟩ := @saveNextPosition_spec meter functions query block later passed
    accessPos
  refine ⟨query', runs, ?_⟩
  have suspended : Suspended query := by
    rw [Suspended, full]
    exact ⟨rfl, rfl, rfl⟩
  rcases ends with ⟨rfl, notKept⟩ | ⟨low, high, rfl⟩ | ⟨out, moved, ⟨cursor, _, _, status, rfl⟩, rfl,
    ends⟩
  · exact absurd (Or.inr ⟨suspended.1, checked⟩) notKept
  · refine ⟨⟨_, _, _, _, _, rfl⟩, fun notSuspended => absurd suspended notSuspended, fun _ _ => ?_⟩
    have isRest := within low high
    obtain ⟨front, back, here, -, -, isLater⟩ := passed.stands
    refine ⟨block, later, ⟨front, back, ?_, low, high, isLater⟩, by rw [isRest], ?_⟩
    · generalize query.cursor = cursor at here
      cases here with
      | file pos files blocks => exact .file _ files blocks
      | cache pos blocks => exact .cache _ blocks
    · rw [<- isRest]
      exact behind
  · refine ⟨⟨_, _, _, _, _, rfl⟩, ?_⟩
    rw [outside out]
    rw [outside out] at behind
    simp only at ends
    rcases ends with ⟨rfl, isStatus⟩ | ⟨next, later', rfl, isStatus | ⟨isStatus, beyond⟩, there⟩
    · refine ⟨fun _ => rfl, fun isSuspended => ?_⟩
      have notEmpty := isSuspended.2.2
      simp only [isStatus, setNoData] at notEmpty
      cases notEmpty
    · refine ⟨fun notSuspended => absurd ?_ notSuspended, fun _ even => ?_⟩
      · rw [Suspended]
        simp only [isStatus]
        exact suspended
      · obtain ⟨atStart, stands⟩ := there (by
          intro desc inFile isFirst fileId isNext
          refine even desc ?_ ?_ ?_ fileId ?_
          · simp only [endPos]
            exact inFile
          · simp only [endPos]
            exact isFirst
          · simp only [endPos]
            rw [desc] at out
            simp only [step] at out
            omega
          · simp only [endPos]
            exact isNext)
        refine ⟨next, later', stands, ?_, ?_⟩
        · simp only [atStart]
          rw [remaining_firstPos]
        · simp only [atStart]
          rw [remaining_firstPos]
          exact behind
    · rw [beyond_later passed.stands beyond]
      exact ended_completed (by simp only [isStatus, setCompleted])

end

def Inside (meter : SMeterData) (order : QueryOrder) (access : Access) : Prop :=
  ∃ block, getGenericDataBlock meter access.position = some block ∧ 0 ≤ access.position.pos ∧
    access.position.pos < block.length ∧
    access.rows <+: rowsFrom order block access.position.pos

def SameQuery (query query' : SQuery) : Prop :=
  ∃ lastKey cursor status pointsOffset loaded keysLoaded startPos endPos nextPos accessed,
    query' = { query with
      lastKey := lastKey, cursor := cursor, status := status, pointsOffset := pointsOffset
      loaded := loaded, keysLoaded := keysLoaded, startPos := startPos, endPos := endPos
      nextPos := nextPos, accessed := accessed }

theorem SameQuery.trans {a b c : SQuery} (first : SameQuery a b) (second : SameQuery b c) :
    SameQuery a c := by
  obtain ⟨_, _, _, _, _, _, _, _, _, _, rfl⟩ := first
  obtain ⟨_, _, _, _, _, _, _, _, _, _, rfl⟩ := second
  exact ⟨_, _, _, _, _, _, _, _, _, _, rfl⟩

/-- The scan is about to handle the rows of a block from the cursor on. -/
structure Reading (meter : SMeterObj) (functions : Functions) (query : SQuery)
    (blockLoadStatus : LoadStatus) (block : List Int) (later : List (List Int)) : Prop where
  stands : StandsAt meter query.order query.cursor block later
  inRange : ∀ k, keyAt block query.cursor.pos = some k -> UpTo query.order k query.ekey
  behind : ∀ k ∈ remaining query.order block query.cursor.pos later,
    UpTo query.order query.lastKey k
  inQuery : InQuery query
  status : query.status = {}
  room : 0 < query.pointsOffset
  ready : Ready functions query block blockLoadStatus
  whole : blockLoadStatus = .discarded -> query.cursor.pos = firstPos query.order block
  started : query.order = .desc -> query.cursor.fileId < 0 -> query.startPos.fileId < 0

inductive Outcome (meter : SMeterObj) (functions : Functions) (later : List (List Int)) :
    SQuery -> Option LoadStatus -> List Int -> Prop where
  | ends {query : SQuery} {left : List Int} (ended : Ended meter query left) :
      Outcome meter functions later query none left
  | goesOn {query : SQuery} {blockLoadStatus : LoadStatus} {next : List Int}
      {later' : List (List Int)} (isLater : later = next :: later')
      (reading : Reading meter functions query blockLoadStatus next later') :
      Outcome meter functions later query (some blockLoadStatus)
        (upToEnd query.order query.ekey
          (remaining query.order next query.cursor.pos later'))

theorem reached_of_inQuery (inQuery : InQuery query) :
    UpTo query.order query.skey query.lastKey := by
  rcases order_cases query.order with order | order
  · rw [InQuery, order] at inQuery
    rw [order]
    exact inQuery
  · rw [InQuery, order] at inQuery
    rw [order]
    exact inQuery.1

variable {blockLoadStatus : LoadStatus}

theorem Reading.atRow {functions : Functions}
    (reading : Reading meter functions query blockLoadStatus block later) : AtRow query block where
  inside := by
    obtain ⟨-, -, -, inside, -⟩ := reading.stands
    exact inside
  small := by
    obtain ⟨-, -, -, -, small, -⟩ := reading.stands
    exact small
  increasing := reading.stands.increasing
  inRange := reading.inRange
  behind := fun k member => reading.behind k (List.mem_append_left _ member)
  inQuery := reading.inQuery

theorem checkRange_beyond (beyond : Beyond query block) :
    checkQueryRangeAgainstNextBlock query block =
      (savePointPosition query.cursor.fileId query.cursor.slot (firstPos query.order block)).map
        fun position =>
          ({ query with nextPos := position, status := setCompleted query.status }, false) := by
  unfold checkQueryRangeAgainstNextBlock
  rcases order_cases query.order with order | order
  all_goals
    rw [Beyond, order] at beyond
    simp only [order] at beyond ⊢
    rw [if_pos (by simpa using beyond)]

theorem checkRange_within (within : ¬ Beyond query block) :
    checkQueryRangeAgainstNextBlock query block = some (query, true) := by
  unfold checkQueryRangeAgainstNextBlock
  rcases order_cases query.order with order | order
  all_goals
    rw [Beyond, order] at within
    simp only [order] at within ⊢
    rw [if_neg (by simpa using within)]

theorem scanNextBlock_spec {functions : Functions} (passed : Passed meter query block later)
    (inQuery : InQuery query) (status : query.status = {}) (room : 0 < query.pointsOffset) :
    ∃ query' next left, scanNextBlock meter.toSMeterData functions query = some (query', next) ∧
      Kept query query' ∧
      left = upToEnd query.order query.ekey (later.flatMap (inOrder query.order)) ∧
      Outcome meter functions later query' next left := by
  obtain ⟨moved, blockLoadStatus, runs, ⟨cursor, _, _, newStatus, rfl⟩, savable, ends⟩ :=
    @move_spec meter functions true query block later passed.stands passed.reached
      (fun desc cached _ _ => passed.started desc cached) (fun _ => inQuery) passed.behind
  unfold scanNextBlock
  rw [runs]
  simp only at savable ends ⊢
  rcases ends with ⟨rfl, isStatus⟩ | ⟨next, later', rfl, isStatus, there, ready, -, onward⟩
  · rw [if_pos (Or.inl (by rw [isStatus]; rfl)), savePointPosition_savable savable]
    exact ⟨_, _, _, rfl, ⟨_, _, _, _, _, rfl⟩, rfl, .ends (ended_completed rfl)⟩
  · rcases isStatus.cases with isStatus | ⟨isStatus, beyond⟩
    · simp only at isStatus
      rw [status] at isStatus
      subst isStatus
      rw [if_neg (by simp)]
      obtain ⟨atStart, stands⟩ := there (Or.inl trivial)
      have someNext := meter.some_ next (later_mem passed.stands List.mem_cons_self)
      rw [stands.found]
      simp only
      by_cases beyond : Beyond query next
      · rw [checkRange_beyond]
        swap
        · exact beyond
        simp only [<- atStart, savePointPosition_savable savable, Option.map_some]
        exact ⟨_, _, _, rfl, ⟨_, _, _, _, _, rfl⟩, (beyond_later passed.stands beyond).symm,
          .ends (ended_completed rfl)⟩
      · rw [checkRange_within]
        swap
        · exact beyond
        refine ⟨_, _, _, rfl, ⟨_, _, _, _, _, rfl⟩, ?_, .goesOn rfl
          { stands := stands
            inRange := ?_
            behind := ?_
            inQuery := inQuery
            status := rfl
            room := room
            ready := ready trivial
            whole := fun _ => atStart
            started := fun desc cached => passed.started desc (by
              rw [desc] at onward
              exact onward cached) }⟩
        · simp only [atStart]
          rw [remaining_firstPos]
        · intro k isFirst
          simp only [atStart] at isFirst
          rw [keyAt_firstPos query.order someNext, Option.some.injEq] at isFirst
          subst isFirst
          rcases order_cases query.order with order | order
          · rw [Beyond, order] at beyond
            simp only [order, UpTo]
            exact not_lt.mp beyond
          · rw [Beyond, order] at beyond
            simp only [order, UpTo]
            exact not_lt.mp beyond
        · simp only [atStart]
          rw [remaining_firstPos]
          exact fun k member => passed.behind k (mem_later.mp member)
    · simp only at isStatus
      rw [if_pos (Or.inr (by rw [isStatus]; rfl)), savePointPosition_savable savable]
      exact ⟨_, _, _, rfl, ⟨_, _, _, _, _, rfl⟩, (beyond_later passed.stands beyond).symm,
        .ends (ended_completed rfl)⟩

theorem complete_ends (notFull : query.status.resbufFull = false)
    (ends : EndsHere query block) (forwardStep : Int) :
    queryCompleteInBlock query block forwardStep =
      some ({ query with status := setCompleted query.status }, true) := by
  unfold queryCompleteInBlock
  rw [if_neg (by simp [notFull])]
  rcases order_cases query.order with order | order
  all_goals
    rw [EndsHere, order] at ends
    simp only [order, ends, decide_true, if_true]

theorem complete_goesOn
    (notFull : query.status.resbufFull = false) (goesOn : ¬ EndsHere query block)
    (forwardStep : Int) : queryCompleteInBlock query block forwardStep = some (query, false) := by
  unfold queryCompleteInBlock
  rw [if_neg (by simp [notFull])]
  rcases order_cases query.order with order | order
  all_goals
    rw [EndsHere, order] at goesOn
    simp [order, goesOn]

theorem complete_full (checked : query.checkBufferInLoop = true)
    (full : query.status = setFull {}) (empty : query.pointsOffset = 0) {forwardStep : Int}
    (room : match query.order with
      | .asc => forwardStep + query.cursor.pos ≤ numOfPoints block
      | .desc => 0 ≤ query.cursor.pos - forwardStep + 1) :
    ∃ query', queryCompleteInBlock query block forwardStep = some (query', true) ∧
      ((Before query.order query.ekey query.lastKey ∧
          query' = { query with status := setCompleted query.status }) ∨
        query' = query) := by
  have isFull : query.status.resbufFull = true := by
    rw [full]
    rfl
  unfold queryCompleteInBlock
  rw [if_pos isFull]
  rcases order_cases query.order with order | order
  · simp only [order] at room ⊢
    rw [if_pos ⟨checked, full, empty, by simpa using room⟩]
    refine ⟨_, rfl, ?_⟩
    by_cases complete : query.ekey < query.lastKey
    · exact Or.inl ⟨complete, if_pos (by simpa using complete)⟩
    · exact Or.inr (if_neg (by simpa using complete))
  · simp only [order] at room ⊢
    rw [if_pos ⟨checked, full, empty, by simpa using room⟩]
    refine ⟨_, rfl, ?_⟩
    by_cases complete : query.lastKey < query.ekey
    · exact Or.inl ⟨complete, if_pos (by simpa using complete)⟩
    · exact Or.inr (if_neg (by simpa using complete))

variable {steps : Nat}

theorem accessPos_inside (atRow : AtRow query block) (positive : 0 < steps)
    (most : steps ≤ (rowsFrom query.order block query.cursor.pos).length) :
    0 ≤ query.cursor.pos + ((steps : Int) - 1) * step query.order ∧
      query.cursor.pos + ((steps : Int) - 1) * step query.order < block.length ∧
      query.cursor.pos + ((steps : Int) - 1) * step query.order + step query.order =
        query.cursor.pos + steps * step query.order := by
  have length := @rowsFrom_length query.order block _ atRow.inside atRow.small
  have inside := atRow.inside
  have small := atRow.small
  rcases order_cases query.order with order | order
  all_goals
    simp only [order, step] at length most ⊢
    omega

theorem round_rest {meter : SMeterObj} {functions : Functions} {query : SQuery}
    {block : List Int} {later : List (List Int)} (passed : Passed meter query block later)
    {accessPos forwardStep : Int} (inside : 0 ≤ accessPos) (small : accessPos < block.length)
    (endPos : query.endPos = ⟨query.cursor.fileId, query.cursor.slot, accessPos⟩)
    {rest : List Int} (behind : ∀ k ∈ rest, UpTo query.order query.lastKey k)
    (within : 0 ≤ accessPos + step query.order -> accessPos + step query.order < block.length ->
      rest = remaining query.order block (accessPos + step query.order) later)
    (outside : (block.length : Int) ≤ accessPos + step query.order ∨
      accessPos + step query.order < 0 -> rest = later.flatMap (inOrder query.order))
    (stopped : (query.status = {} ∧ 0 < query.pointsOffset ∧
        (EndsHere query block -> upToEnd query.order query.ekey rest = []) ∧
        (¬ EndsHere query block -> rest = later.flatMap (inOrder query.order) ∧ InQuery query)) ∨
      (query.checkBufferInLoop = true ∧ query.status = setFull {} ∧ query.pointsOffset = 0 ∧
        match query.order with
        | .asc => forwardStep + query.cursor.pos ≤ numOfPoints block
        | .desc => 0 ≤ query.cursor.pos - forwardStep + 1)) :
    ∃ query' next left,
      (match queryCompleteInBlock query block forwardStep with
        | none => none
        | some (query, true) =>
          (saveNextPosition meter.toSMeterData functions query block accessPos).map
            fun query => (query, none)
        | some (query, false) => scanNextBlock meter.toSMeterData functions query) =
        some (query', next) ∧ Kept query query' ∧
      left = upToEnd query.order query.ekey rest ∧
      Outcome meter functions later query' next left := by
  rcases stopped with ⟨status, room, none_, goesOn⟩ | ⟨checked, full, empty, room⟩
  · have notFull : query.status.resbufFull = false := by rw [status]
    by_cases ends : EndsHere query block
    · rw [complete_ends notFull ends]
      obtain ⟨query', runs, kept, ended⟩ := @save_completed meter functions
        { query with status := setCompleted query.status } block later
        ⟨passed.stands, passed.reached, passed.started, passed.behind⟩ rfl accessPos
      simp only [runs, Option.map_some]
      obtain ⟨_, _, _, _, _, rfl⟩ := kept
      exact ⟨_, _, _, rfl, ⟨_, _, _, _, _, rfl⟩, (none_ ends).symm, .ends ended⟩
    · rw [complete_goesOn notFull ends]
      obtain ⟨isRest, inQuery⟩ := goesOn ends
      rw [isRest]
      exact scanNextBlock_spec passed inQuery status room
  · obtain ⟨completed, complete, isComplete⟩ := complete_full checked full empty room
    rw [complete]
    rcases isComplete with ⟨beyond, rfl⟩ | rfl
    · obtain ⟨query', runs, kept, ended⟩ := @save_completed meter functions
        { query with status := setCompleted query.status } block later
        ⟨passed.stands, passed.reached, passed.started, passed.behind⟩ rfl accessPos
      simp only [runs, Option.map_some]
      obtain ⟨_, _, _, _, _, rfl⟩ := kept
      refine ⟨_, _, _, rfl, ⟨_, _, _, _, _, rfl⟩, (upToEnd_nil fun k isRest => ?_).symm,
        .ends ended⟩
      exact before_of_upTo beyond (behind k isRest)
    · obtain ⟨query', runs, kept, ended⟩ := @save_full meter functions _ block later passed checked
        full accessPos inside small endPos rest behind within outside
      simp only [runs, Option.map_some]
      refine ⟨_, _, _, rfl, kept, ?_, .ends ended⟩
      obtain ⟨_, _, _, _, _, rfl⟩ := kept
      rfl

theorem endsHere_of_inside (inside : EndsInside query block) : EndsHere query block := by
  rcases order_cases query.order with order | order
  all_goals
    rw [EndsInside, order] at inside
    rw [EndsHere, order]
    exact inside.le

theorem inQuery_on {query' : SQuery}
    (atRow : AtRow query block) (handled : Handled query block query' steps)
    (goesOn : ¬ EndsHere query block)
    (reached : UpTo query.order query.skey query'.lastKey) : InQuery query' := by
  have lastKey := handled.lastKey
  have inQuery := atRow.inQuery
  obtain ⟨_, _, _, _, rfl⟩ := handled.result
  rcases order_cases query.order with order | order
  · rw [order] at reached
    simp only [InQuery, order]
    exact reached
  · rw [order] at reached
    rw [EndsHere, order] at goesOn
    rw [InQuery, order] at inQuery
    simp only [InQuery, order]
    refine ⟨reached, ?_⟩
    rcases lastKey with same | last
    · simp only at same
      rw [same]
      exact inQuery.2
    · have row := (atRow.mem_le (rowsFrom_subset (List.mem_of_getElem? last))).1
      simp only [order, step] at row goesOn
      omega

theorem scanBlock_spec {functions : Functions}
    (reading : Reading meter functions query blockLoadStatus block later)
    (consistent : Consistent functions query) (onePerRow : OnePerRow functions query) :
    ∃ query' next access left,
      scanBlock meter.toSMeterData functions query blockLoadStatus = some (query', next) ∧
      SameQuery query query' ∧ query'.accessed = query.accessed ++ [access] ∧ access.rows ≠ [] ∧
      Inside meter.toSMeterData query.order access ∧ UpTo query.order query.skey query'.lastKey ∧
      upToEnd query.order query.ekey (remaining query.order block query.cursor.pos later) =
        access.rows ++ left ∧ Outcome meter functions later query' next left := by
  have atRow := reading.atRow
  obtain ⟨query₁, steps, handles, handled⟩ := handleBlock_spec atRow reading.ready consistent
    onePerRow reading.room reading.whole
  have most := le_trans handled.inRange (rowsInRange_le query block)
  have positive := handled.some_
  obtain ⟨accessInside, accessSmall, nextAccess⟩ := accessPos_inside atRow positive most
  have reached := lastKey_reached reading.behind (reached_of_inQuery reading.inQuery) handled
  have behind := rest_behind reading.stands reading.behind handled
  have splits := @upToEnd_split query block later steps handled.inRange
  obtain ⟨lastKey, pointsOffset, status, applied, rfl⟩ := handled.result
  obtain ⟨front, back, here, -⟩ := reading.stands
  obtain ⟨fileId, slot, -⟩ := savable_here here atRow.inside
  -- The access that this round adds.
  have inside : Inside meter.toSMeterData query.order
      ⟨query.cursor, (rowsFrom query.order block query.cursor.pos).take steps, applied⟩ :=
    ⟨block, reading.stands.found, atRow.inside, atRow.small, List.take_prefix _ _⟩
  have some_ : (rowsFrom query.order block query.cursor.pos).take steps ≠ [] := by
    rw [ne_eq, List.take_eq_nil_iff]
    rintro (none_ | none_)
    · omega
    · have := atRow.rows_pos
      rw [none_, List.length_nil] at this
      omega
  have saved : savePointPosition query.cursor.fileId query.cursor.slot
      (query.cursor.pos + ((steps : Int) - 1) * step query.order) =
      some ⟨query.cursor.fileId, query.cursor.slot,
        query.cursor.pos + ((steps : Int) - 1) * step query.order⟩ :=
    if_pos ⟨fileId, slot, by omega⟩
  unfold scanBlock
  rw [reading.stands.found]
  simp only [handles, saved]
  have isWithin := @restOf_inside query block later steps atRow.inside atRow.small
  have isOutside := @restOf_outside query block later steps atRow.inside atRow.small
  rw [<- nextAccess] at isWithin isOutside
  have stopped := handled.stopped
  simp only at stopped
  have ends : (status = {} ∧ 0 < pointsOffset ∧
        (EndsHere query block ->
          upToEnd query.order query.ekey (restOf query block later steps) = []) ∧
        (¬ EndsHere query block ->
          restOf query block later steps = later.flatMap (inOrder query.order) ∧
            InQuery { query with lastKey := lastKey })) ∨
      (query.checkBufferInLoop = true ∧ status = setFull {} ∧ pointsOffset = 0 ∧
        match query.order with
        | .asc => (steps : Int) + query.cursor.pos ≤ numOfPoints block
        | .desc => 0 ≤ query.cursor.pos - (steps : Int) + 1) := by
    rcases stopped with ⟨rfl, rfl, room⟩ | ⟨checked, rfl, empty, last⟩
    · refine Or.inl ⟨reading.status, room, fun ends => ?_, fun goesOn => ⟨?_, ?_⟩⟩
      · exact ended_here reading.stands atRow ends
      · rw [restOf, rowsInRange_all atRow (mt endsHere_of_inside goesOn), List.drop_length,
          List.nil_append]
      · have inQuery := inQuery_on atRow handled goesOn reached
        exact inQuery
    · rw [reading.status]
      refine Or.inr ⟨checked, rfl, empty, ?_⟩
      have length := @rowsFrom_length query.order block _ atRow.inside atRow.small
      rcases order_cases query.order with order | order
      · simp only [order, numOfPoints] at length most ⊢
        omega
      · simp only [order] at length most ⊢
        omega
  obtain ⟨query', next, left, runs, ⟨_, _, _, _, _, rfl⟩, rfl, outcome⟩ :=
    @round_rest meter functions
      { query with
        lastKey := lastKey
        pointsOffset := pointsOffset
        status := status
        endPos := ⟨query.cursor.fileId, query.cursor.slot,
          query.cursor.pos + ((steps : Int) - 1) * step query.order⟩
        accessed := query.accessed ++ [{
          position := query.cursor
          rows := (rowsFrom query.order block query.cursor.pos).take steps
          applied := applied }] } block later
      { stands := reading.stands
        reached := reached
        started := reading.started
        behind := fun k isLater => behind k (List.mem_append_right _ (mem_later.mpr isLater)) }
      _ steps accessInside accessSmall rfl (restOf query block later steps) behind
      (fun low _ => isWithin low) isOutside ends
  exact ⟨_, _, _, _, runs, ⟨_, _, _, _, _, _, _, _, _, _, rfl⟩, rfl, some_, inside, reached,
    splits, outcome⟩

end Luomi.Vnode.ScanRun
