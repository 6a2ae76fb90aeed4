import Luomi.Vnode.ScanResume

/-!
# The offset of a query

A query without filters with `limit.offset` skips the first rows of its range:
whole blocks by the number of their rows, and the rest inside a block.  The range
of the query then begins with the row the start position has got to.
-/

namespace Luomi.Vnode.QueryOffset

open QueryBlocks QueryCursor QueryMoves
  Luomi.Vnode.QuerySteps Luomi.Vnode.QueryScan Luomi.Vnode.QueryBlockSteps
  Luomi.Vnode.ScanProgress Luomi.Vnode.ScanResume

def maxReads (query : SQuery) (block : List Int) : Int :=
  match query.order with
  | .asc => numOfPoints block - query.cursor.pos
  | .desc => query.cursor.pos + 1

def updateOffsetVal (meter : SMeterData) (query : SQuery) (block : List Int) (offset : Int) :
    Option SQuery :=
  let pos :=
    match query.order with
    | .asc => query.cursor.pos + offset
    | .desc => query.cursor.pos - offset
  let query := { query with cursor := { query.cursor with pos := pos } }
  let found :=
    if IS_DISK_DATA_BLOCK query then getTimestampInDiskBlock meter query
    else (keyAt block pos).map fun key => (query, key)
  found.map fun (query, skey) => { query with skey := skey, lastKey := skey }

def doSkipDataBlock (meter : SMeterData) (functions : Functions) :
    Nat -> SQuery -> Int -> Option (SQuery × Int)
  | 0, _, _ => none
  | fuel + 1, query, offset =>
    match moveToNextBlock meter functions false query with
    | none => none
    | some (query, _) =>
      if query.status.noDataToCheck then some (query, offset)
      else
        match getGenericDataBlock meter query.cursor with
        | none => none
        | some block =>
          if offset < maxReads query block then
            (updateOffsetVal meter query block offset).map fun query => (query, 0)
          else
            let lastKey :=
              match query.order with
              | .asc => keyLast block
              | .desc => keyFirst block
            doSkipDataBlock meter functions fuel
              { query with lastKey := lastKey + step query.order }
              (offset - maxReads query block)

def forwardQueryStartPosition (meter : SMeterData) (functions : Functions) (query : SQuery)
    (offset : Int) : Option (SQuery × Int) :=
  if offset ≤ 0 then some (query, offset)
  else
    match getGenericDataBlock meter query.cursor with
    | none => none
    | some block =>
      if offset < maxReads query block then
        (updateOffsetVal meter query block offset).map fun query => (query, 0)
      else
        doSkipDataBlock meter functions meter.blocks.length query
          (offset - maxReads query block)

def Finished (query : SQuery) : Prop :=
  query.status.noDataToCheck = true ∨ query.status.completed = true

instance (query : SQuery) : Decidable (Finished query) :=
  inferInstanceAs (Decidable (_ ∨ _))

variable {block : List Int} {order : QueryOrder}
  {query : SQuery}

theorem maxReads_eq (inside : 0 ≤ query.cursor.pos) (small : query.cursor.pos < block.length) :
    maxReads query block = (rowsFrom query.order block query.cursor.pos).length := by
  rw [rowsFrom_length inside small]
  rfl

/-- The start has got to a row, and all the rows from there on are left. -/
structure Landed (meter : SMeterObj) (query query' : SQuery) (rest : List Int) : Prop where
  stands : ∃ block later, StandsAt meter query.order query'.cursor block later ∧
    rest = remaining query.order block query'.cursor.pos later
  row : rest.head? = some query'.skey
  result : ∃ cursor skey status, query' = { query with
    cursor := cursor, skey := skey, lastKey := skey, status := status
    loaded := true, keysLoaded := true }

variable {later : List (List Int)} {meter : SMeterObj}

theorem updateOffsetVal_spec (stands : StandsAt meter query.order query.cursor block later)
    (cached : query.cursor.fileId < 0 -> query.loaded = true ∧ query.keysLoaded = true)
    {offset : Nat} (within : offset < (rowsFrom query.order block query.cursor.pos).length) :
    ∃ query', updateOffsetVal meter.toSMeterData query block offset = some query' ∧
      Landed meter query query' ((remaining query.order block query.cursor.pos later).drop offset) ∧
      query'.status = query.status ∧ query'.cursor.fileId = query.cursor.fileId := by
  obtain ⟨front, back, here, inside, small, isLater⟩ := stands
  have isRow := keyAt_step inside small within
  have posIs : (match query.order with
      | .asc => query.cursor.pos + (offset : Int)
      | .desc => query.cursor.pos - (offset : Int)) =
      query.cursor.pos + offset * step query.order := by
    rcases order_cases query.order with order | order
    · simp only [order, step]
      omega
    · simp only [order, step]
      omega
  obtain ⟨newInside, newSmall⟩ := keyAt_some isRow
  have thereNow : ∀ pos : Int, Here meter { query.cursor with pos := pos } front block back := by
    intro pos
    generalize query.cursor = cursor at here
    cases here with
    | file _ files blocks => exact .file pos files blocks
    | cache _ blocks => exact .cache pos blocks
  have rest : (remaining query.order block query.cursor.pos later).drop offset =
      remaining query.order block (query.cursor.pos + offset * step query.order) later := by
    have inBlock := @restOf_inside query block later offset inside small newInside
    rw [<- inBlock, remaining_split query block later offset, List.drop_append,
      List.length_take, min_eq_left within.le, Nat.sub_self, List.drop_zero,
      List.drop_eq_nil_of_le (by rw [List.length_take]; omega), List.nil_append]
  have head : ((remaining query.order block query.cursor.pos later).drop offset).head? =
      some (rowsFrom query.order block query.cursor.pos)[offset] := by
    rw [rest, <- keyAt_remaining newInside newSmall, isRow]
  unfold updateOffsetVal
  simp only [posIs]
  by_cases inFile : 0 ≤ query.cursor.fileId
  · have onDisk : getDiskDataBlock meter.toSMeterData query.cursor.fileId query.cursor.slot =
        some block := by
      have generic := getGenericDataBlock_here here
      rwa [getGenericDataBlock, if_pos inFile] at generic
    rw [if_pos (by simpa [IS_DISK_DATA_BLOCK] using inFile)]
    simp only [getTimestampInDiskBlock, onDisk, isRow, Option.map_some]
    exact ⟨_, rfl, ⟨⟨block, later, ⟨front, back, thereNow _, newInside, newSmall, isLater⟩, rest⟩,
      head, ⟨_, _, _, rfl⟩⟩, rfl, rfl⟩
  · obtain ⟨isLoaded, keysLoaded⟩ := cached (not_le.mp inFile)
    rw [if_neg (by simpa [IS_DISK_DATA_BLOCK] using inFile)]
    simp only [isRow, Option.map_some]
    refine ⟨_, rfl, ⟨⟨block, later, ⟨front, back, thereNow _, newInside, newSmall, isLater⟩, rest⟩,
      head, ?_⟩, rfl, rfl⟩
    rw [isLoaded, keysLoaded]
    exact ⟨_, _, _, rfl⟩

/-- The blocks that a scan from this start gets to after it has changed sides. -/
def otherSide (meter : SMeterData) (order : QueryOrder) : List (List Int) :=
  match order with
  | .asc => meter.pCache.blocks
  | .desc => blocksIn meter.pHeaderFiles

def sideRows (meter : SMeterData) (query : SQuery) : Nat :=
  (rowsFromStart meter query).length - (otherSide meter query.order).flatten.length

def CanCross (order : QueryOrder) (cursor : SPositionInfo) : Prop :=
  match order with
  | .asc => 0 ≤ cursor.fileId
  | .desc => cursor.fileId < 0

def Crossed (query query' : SQuery) : Prop :=
  ¬ (query'.cursor.fileId < 0 ↔ query.cursor.fileId < 0)

theorem flatMap_length (order : QueryOrder) (blocks : List (List Int)) :
    (blocks.flatMap (inOrder order)).length = blocks.flatten.length := by
  rw [List.length_flatMap, List.length_flatten]
  congr 2
  funext block
  cases order with
  | asc => rfl
  | desc => exact List.length_reverse

theorem reverse_flatten_length (blocks : List (List Int)) :
    blocks.reverse.flatten.length = blocks.flatten.length := by
  rw [List.length_flatten, List.map_reverse, List.sum_reverse, <- List.length_flatten]

theorem onward_trans {a b c : SPositionInfo} (first : Onward order a b)
    (second : Onward order b c) : Onward order a c := by
  cases order with
  | asc => exact fun cached => second (first cached)
  | desc => exact fun cached => first (second cached)

theorem crossed_cases {query' moved : SQuery} (onward : Onward order query.cursor query'.cursor)
    (moves : Onward order query'.cursor moved.cursor) :
    ((moved.cursor.fileId < 0 ↔ query'.cursor.fileId < 0) ∧
        (Crossed query moved ↔ Crossed query query')) ∨
      (¬ (moved.cursor.fileId < 0 ↔ query'.cursor.fileId < 0) ∧ Crossed query moved ∧
        ¬ Crossed query query') := by
  unfold Crossed
  cases order with
  | asc =>
    simp only [Onward] at onward moves
    omega
  | desc =>
    simp only [Onward] at onward moves
    omega

theorem crossed_canCross {query' : SQuery}
    (onward : Onward query.order query.cursor query'.cursor) (crossed : Crossed query query') :
    CanCross query.order query.cursor := by
  unfold Crossed at crossed
  rcases order_cases query.order with order | order
  all_goals
    rw [order, Onward] at onward
    simp only [order, CanCross]
    omega

variable {cursor : SPositionInfo}

theorem crossing_later {cursor' : SPositionInfo} {next : List Int}
    (stands : StandsAt meter order cursor block (next :: later))
    (there : StandsAt meter order cursor' next later) (onward : Onward order cursor cursor')
    (crosses : ¬ (cursor'.fileId < 0 ↔ cursor.fileId < 0)) : (next :: later).flatten.length =
      (otherSide meter.toSMeterData order).flatten.length := by
  obtain ⟨front, back, here, -, -, isLater⟩ := stands
  obtain ⟨front', back', hereNext, -, -, isLater'⟩ := there
  have splits := here.split
  have splitsNext := hereNext.split
  have side := blocksIn_length_le here
  have sideNext := blocksIn_length_le hereNext
  rw [SMeterData.blocks] at splits splitsNext
  cases order with
  | asc =>
    simp only [blocksAfter] at isLater isLater'
    subst isLater isLater'
    have sum : blocksIn meter.pHeaderFiles ++ meter.pCache.blocks =
        (front ++ [block]) ++ next :: back' := by simp [splits]
    have lengths := congrArg List.length splitsNext
    rw [sum] at lengths
    simp only [List.length_append, List.length_cons, List.length_nil] at lengths
    simp only [Onward] at onward
    have equal : (blocksIn meter.pHeaderFiles).length = (front ++ [block]).length := by
      rw [List.length_append, List.length_singleton]
      omega
    rw [<- (List.append_inj sum equal).2]
    rfl
  | desc =>
    simp only [blocksAfter] at isLater isLater'
    have isFront : front = front' ++ [next] := by
      rw [<- List.reverse_inj, isLater, List.reverse_append, isLater']
      rfl
    simp only [Onward] at onward
    have equal : (blocksIn meter.pHeaderFiles).length = front.length := by
      rw [isFront, List.length_append, List.length_singleton] at side ⊢
      omega
    rw [<- isLater, reverse_flatten_length, <- (List.append_inj splits equal).1]
    rfl

theorem otherSide_later
    (stands : StandsAt meter order cursor block later) (before : CanCross order cursor) :
    (otherSide meter.toSMeterData order).flatten.length ≤ later.flatten.length := by
  obtain ⟨front, back, here, -, -, rfl⟩ := stands
  cases order with
  | asc =>
    simp only [CanCross] at before
    cases here with
    | file pos files blocks =>
      rw [blocksAfter, List.flatten_append, List.length_append]
      exact Nat.le_add_left _ _
    | cache pos blocks => simp at before
  | desc =>
    simp only [CanCross] at before
    cases here with
    | file pos files blocks => exact absurd before (not_lt.mpr (fileID_nonneg files))
    | cache pos blocks =>
      rw [blocksAfter, reverse_flatten_length, List.flatten_append, List.length_append]
      exact Nat.le_add_right _ _

end Luomi.Vnode.QueryOffset
