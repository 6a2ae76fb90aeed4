import Luomi.Edb.Stops

/-!
# Draining a query

A query drained by `move_next` returns the rows of its stops one stop after the
other, provided no stop has a window that ends before it starts: an ascending
query then never stops, and a descending one returns a row outside the range.
-/

namespace Luomi.Edb.Drain

open Database Cursor CursorFrame Segment Landing Stops

section Drain

variable {α : Type}

/-- The rows fetched behind each successful call of `move_next` until one fails. -/
inductive Drains (uninit : Int) (codec : Codec α) : Db α -> Query α -> List (Option (Row α)) -> Prop
  where
  | done {db : Db α} {query : Query α} :
      (moveNext uninit codec db query).1 = -1 -> Drains uninit codec db query []
  | row {db : Db α} {query : Query α} {later : List (Option (Row α))} :
      (moveNext uninit codec db query).1 = 0 ->
        Drains uninit codec (moveNext uninit codec db query).2.1
          (moveNext uninit codec db query).2.2 later ->
        Drains uninit codec db query (fetch (moveNext uninit codec db query).2.2 :: later)

inductive Behind (db : Db α) (query : Query α) : List (Block α) -> Prop where
  /-- An ascending query in a file has the log still before it. -/
  | ascFile (later : List (Block α)) : query.order = .asc -> query.logChecked = false ->
      Ahead db .asc query later -> query.endFileIndex + 1 ≠ -1 ->
      Behind db query (later ++ [logBlock db])
  | descFile (later : List (Block α)) : query.order = .desc -> query.logChecked = true ->
      Ahead db .desc query later -> Behind db query later
  | ascLog : query.order = .asc -> query.logChecked = true -> query.curBlockIndex = -1 ->
      query.endBlockIndex = -1 -> query.curFileIndex = query.endFileIndex + 1 ->
      query.endFileIndex + 1 ≠ -1 -> Behind db query []
  | descLog : query.order = .desc -> query.logChecked = true -> query.curFileIndex = -1 ->
      query.endFileIndex ≤ query.startFileIndex ->
      Behind db query
        (stopsTo db .desc (trailOf query) query.startFileIndex query.endFileIndex)

/-- Where a call of `move_next` lands that leaves the rows of a stop. -/
def LandsNext (uninit : Int) (range : Range) (order : Order) (db : Db α) (stops : List (Block α))
    (code : Int) (result : Query α) : Prop :=
  match firstHit uninit range stops with
  | none => code = -1
  | some (block, indexes, later) =>
    code = 0 ∧ ∃ base buf, result = landed base buf block.rowCount indexes ∧
      (∀ index < block.rowCount, buf[index]? = block.rows[index]?) ∧
      Seeks range order base ∧ Behind db base later

variable {uninit : Int} {codec : Codec α} {range : Range} {order : Order} {db : Db α}
  {query : Query α}

theorem blocksAhead_lands (readable : Readable codec db) (seeks : Seeks range order query)
    {blocks : List (Block α)} {trail : Trail} (ahead : BlocksAhead db order query blocks trail) :
    LandsAtFile uninit range order db blocks trail query
      (searchBlockIndex uninit codec db (stepBlock query)).1
      (searchBlockIndex uninit codec db (stepBlock query)).2 := by
  have nextSeeks : Seeks range order (stepBlock query) :=
    ⟨seeks.start, seeks.finish, seeks.order⟩
  have nextIndex : (stepBlock query).curBlockIndex = query.curBlockIndex + order.step := by
    rw [<- seeks.order]
    rfl
  unfold searchBlockIndex
  rw [nextSeeks.order, nextIndex]
  rcases ahead with ⟨file, entry, final, inFile, current, position, notPast, inside, rfl, rfl⟩ |
      ⟨past, rfl, rfl⟩
  · have nextInFile : InFile (indexFile db file) order file final (stepBlock query) :=
      ⟨inFile.opened, inFile.ends, inFile.counts, inFile.covers, inFile.reaches⟩
    refine landsAtFile_of_landsInFile nextInFile ⟨_, _, _, _, _, rfl⟩ ?_
    have lands := @searchBlocks_lands _ uninit _ _ _ _ readable.lossless _ _
      (distance order (query.curBlockIndex + order.step) (stepBlock query).endBlockIndex)
      (stepBlock query) nextSeeks nextInFile
    rw [nextIndex, current, nextInFile.ends] at lands
    rw [current, nextInFile.ends]
    refine lands ?_ le_rfl ?_
    · cases order with
      | asc =>
        left
        simp only [Order.step]
        omega
      | desc =>
        simp only [Order.step, true_and]
        omega
    · intro past
      have last : entry = final := Nat.cast_injective (eq_of_past_step notPast past)
      change query.indexPos = readPos (indexFile db file) final
      rw [position, <- last, readPos, if_pos inside]
  · have none' : distance order (query.curBlockIndex + order.step) (stepBlock query).endBlockIndex
        = 0 := (distance_eq_zero_iff _ _ _).mpr past
    rw [none']
    exact ⟨by simp [searchBlocks], ⟨_, _, _, _, _, rfl⟩, rfl, rfl, rfl⟩

theorem searchFileIndex_lands (readable : Readable codec db) (seeks : Seeks range order query)
    (spent : Spent order query) : LandsInFiles uninit range order db
      (stopsTo db order (trailOf query) query.curFileIndex query.endFileIndex)
      query (searchFileIndex uninit codec db query).1
      (searchFileIndex uninit codec db query).2.2 := by
  unfold searchFileIndex
  rw [seeks.order]
  exact searchFiles_lands _ readable seeks rfl spent

variable {later stops : List (Block α)} {next : Int × Db α × Query α}

/-- Behind the last row of a stop in a file the search lands on the first hit of
the stops ahead. -/
theorem nextBlock_lands (readable : Readable codec db) (seeks : Seeks range order query)
    (ahead : Ahead db order query later)
    (lastRow : query.curDataIndex ≠ -1 ∧ query.curDataIndex = query.endDataIndex) :
    LandsInFiles uninit range order db later (leaveRows query)
      (nextBlock uninit codec db query).1 (nextBlock uninit codec db query).2.2 := by
  obtain ⟨file, notPast, blocks, trail, blocksAhead, rfl⟩ := ahead
  have left : Seeks range order (leaveRows query) := ⟨seeks.start, seeks.finish, seeks.order⟩
  have leftBlocks : BlocksAhead db order (leaveRows query) blocks trail := by
    rcases blocksAhead with ⟨file, entry, final, inFile, rest⟩ | done
    · exact Or.inl ⟨file, entry, final, ⟨inFile.opened, inFile.ends, inFile.counts, inFile.covers,
        inFile.reaches⟩, rest⟩
    · exact Or.inr done
  have here := @blocksAhead_lands _ uninit _ _ _ _ _ readable left _ _ leftBlocks
  have lands := here.thenFiles left notPast (fun _ _ => file)
    (fun _ nextSeeks nextSpent => searchFileIndex_lands readable nextSeeks nextSpent)
  unfold nextBlock
  rw [if_pos lastRow]
  simp only
  rw [if_neg (show ¬ (leaveRows query).curFileIndex = -1 from file)]
  split
  · rename_i found
    rw [if_pos found, if_pos found] at lands
    exact lands
  · rename_i missed
    rw [if_neg missed, if_neg missed] at lands
    exact lands

/-- The end of `move_next` behind a search for blocks. -/
def finish (uninit : Int) (next : Int × Db α × Query α) : Int × Db α × Query α :=
  if next.1 = 0 then (0, next.2)
  else ((nextRow uninit next.2.1 next.2.2).1, next.2.1, (nextRow uninit next.2.1 next.2.2).2)

theorem dueLog_due (ordered : query.order = order) (unchecked : query.logChecked = false) :
    dueLog uninit order db query = checkLog uninit db query :=
  if_pos ⟨ordered, unchecked⟩

theorem dueLog_other (ordered : query.order ≠ order) : dueLog uninit order db query = (-1, query) :=
  if_neg fun due => ordered due.1

theorem dueLog_checked (checked : query.logChecked = true) :
    dueLog uninit order db query = (-1, query) := by
  refine if_neg fun due => ?_
  rw [checked] at due
  cases due.2

theorem nextRow_noRow (noRow : query.curDataIndex = -1) : nextRow uninit db query =
      if (dueLog uninit .asc db query).1 = 0 then (0, (dueLog uninit .asc db query).2)
      else (-1, (dueLog uninit .asc db query).2) :=
  if_neg (not_not_intro noRow)

section

variable (noLog : dueLog uninit .desc db query = (-1, query)) (rows : query.curDataIndex ≠ -1)

include noLog rows

theorem moveNext_of_noLog :
    moveNext uninit codec db query = finish uninit (nextBlock uninit codec db query) := by
  have noFirst : firstFile uninit codec db query = (-1, db, query) :=
    if_neg fun start => rows start.1
  unfold moveNext
  simp only [noLog, noFirst]
  rw [if_neg (by simp), if_neg (by simp)]
  rfl

theorem moveNext_inside (notLast : query.curDataIndex ≠ query.endDataIndex) :
    moveNext uninit codec db query =
      (0, db, toRow query (query.curDataIndex + query.order.step)) := by
  have stay : nextBlock uninit codec db query = (-1, db, query) :=
    if_neg fun last => notLast last.2
  rw [moveNext_of_noLog noLog rows, stay, finish, if_neg (by simp)]
  simp only [nextRow, if_pos rows]

end

theorem nextRow_asc {result : Query α} (seeks : Seeks range .asc result)
    (noRow : result.curDataIndex = -1) (unchecked : result.logChecked = false)
    (block : result.curBlockIndex = -1) (final : result.endBlockIndex = -1)
    (file : result.curFileIndex = result.endFileIndex + 1)
    (files : firstHit uninit range [logBlock db] ≠ none -> result.endFileIndex + 1 ≠ -1) :
    LandsNext uninit range .asc db [logBlock db] (nextRow uninit db result).1
      (nextRow uninit db result).2 := by
  rw [nextRow_noRow noRow, dueLog_due seeks.order unchecked, LandsNext, firstHit]
  cases passes : window uninit range (logBlock db) with
  | none =>
    rw [checkLog_of_skipped seeks passes]
    rfl
  | some indexes =>
    rw [checkLog_of_passes seeks passes]
    refine ⟨rfl, { result with logChecked := true }, db.logData, rfl, ?_,
      ⟨seeks.start, seeks.finish, seeks.order⟩,
      Behind.ascLog seeks.order rfl block final file (files (by simp [firstHit, passes]))⟩
    intro index below
    have short : index < db.head.curRowCount := below
    rw [logBlock, logRows, List.getElem?_take_of_lt short]

theorem finish_asc {before : Query α}
    (lands : LandsInFiles uninit range .asc db later before next.1 next.2.2)
    (seeks : Seeks range .asc before) (noRow : before.curDataIndex = -1)
    (unchecked : before.logChecked = false)
    (files : firstHit uninit range (later ++ [logBlock db]) ≠ none -> before.endFileIndex + 1 ≠ -1)
    (sameLog : next.2.1 = db ∨ next.2.1 = visited db) :
    LandsNext uninit range .asc db (later ++ [logBlock db]) (finish uninit next).1
      (finish uninit next).2.2 := by
  unfold LandsInFiles at lands
  rw [firstHit_append] at files
  rw [LandsNext, firstHit_append]
  cases hit : firstHit uninit range later with
  | none =>
    rw [hit] at lands files
    obtain ⟨missed, place, block, final, file⟩ := lands
    obtain ⟨_, _, _, _, _, _, fields⟩ := place
    have sameRow : nextRow uninit next.2.1 next.2.2 = nextRow uninit db next.2.2 := by
      rcases sameLog with same | same <;> rw [same]
      rfl
    rw [finish, if_neg missed, sameRow]
    refine nextRow_asc ?_ ?_ ?_ block final ?_ ?_
    · rw [fields]
      exact ⟨seeks.start, seeks.finish, seeks.order⟩
    · rw [fields]
      exact noRow
    · rw [fields]
      exact unchecked
    · rw [file, fields]
      rfl
    · rw [fields]
      exact files
  | some found =>
    rw [hit] at lands files
    obtain ⟨block, indexes, further⟩ := found
    obtain ⟨code, base, buf, landedEq, rows, place, ahead⟩ := lands
    obtain ⟨_, _, _, _, _, _, fields⟩ := place
    rw [finish, if_pos code]
    refine ⟨rfl, base, buf, landedEq, rows, ?_, Behind.ascFile further ?_ ?_ ahead ?_⟩ <;>
      rw [fields]
    · exact ⟨seeks.start, seeks.finish, seeks.order⟩
    · exact seeks.order
    · exact unchecked
    · exact files (by simp)

theorem finish_end (missed : next.1 ≠ 0)
    (noRow : next.2.2.curDataIndex = -1) (checked : next.2.2.logChecked = true) :
    (finish uninit next).1 = -1 := by
  rw [finish, if_neg missed, nextRow_noRow noRow, dueLog_checked checked]
  rfl

theorem finish_desc {before : Query α}
    (lands : LandsInFiles uninit range .desc db later before next.1 next.2.2)
    (seeks : Seeks range .desc before) (noRow : before.curDataIndex = -1)
    (checked : before.logChecked = true) :
    LandsNext uninit range .desc db later (finish uninit next).1 (finish uninit next).2.2 := by
  unfold LandsInFiles at lands
  rw [LandsNext]
  cases hit : firstHit uninit range later with
  | none =>
    rw [hit] at lands
    obtain ⟨missed, place, -⟩ := lands
    obtain ⟨_, _, _, _, _, _, fields⟩ := place
    refine finish_end missed ?_ ?_ <;> rw [fields]
    · exact noRow
    · exact checked
  | some found =>
    rw [hit] at lands
    obtain ⟨block, indexes, further⟩ := found
    obtain ⟨code, base, buf, landedEq, rows, place, ahead⟩ := lands
    obtain ⟨_, _, _, _, _, _, fields⟩ := place
    rw [finish, if_pos code]
    refine ⟨rfl, base, buf, landedEq, rows, ?_, Behind.descFile further ?_ ?_ ahead⟩ <;>
      rw [fields]
    · exact ⟨seeks.start, seeks.finish, seeks.order⟩
    · exact seeks.order
    · exact checked

theorem nextBlock_db_cases (rows : query.curDataIndex ≠ -1) :
    (nextBlock uninit codec db query).2.1 = db ∨
      (nextBlock uninit codec db query).2.1 = visited db := by
  rw [nextBlock_db (fun start => rows start.1)]
  split
  · exact Or.inr rfl
  · exact Or.inl rfl

theorem Behind.noLog (behind : Behind db query stops) :
    dueLog uninit .desc db query = (-1, query) := by
  cases behind with
  | ascFile later ordered unchecked ahead files => exact dueLog_other (by rw [ordered]; simp)
  | descFile later ordered checked ahead => exact dueLog_checked checked
  | ascLog ordered checked block final file files => exact dueLog_checked checked
  | descLog ordered checked noFile files => exact dueLog_checked checked

theorem nextBlock_ascLog (ordered : query.order = .asc) (block : query.curBlockIndex = -1)
    (final : query.endBlockIndex = -1) (file : query.curFileIndex = query.endFileIndex + 1)
    (files : query.endFileIndex + 1 ≠ -1)
    (lastRow : query.curDataIndex ≠ -1 ∧ query.curDataIndex = query.endDataIndex) :
    nextBlock uninit codec db query =
      (-1, db, stepFile (resetBlocks (stepBlock (leaveRows query)))) := by
  have noBlock : (stepBlock (leaveRows query)).order.past
      (stepBlock (leaveRows query)).curBlockIndex
      (stepBlock (leaveRows query)).endBlockIndex = true := by
    simp only [stepBlock, leaveRows, ordered, block, final, past_asc_iff, Order.step]
    omega
  have noFile : (stepFile (resetBlocks (stepBlock (leaveRows query)))).order.past
      (stepFile (resetBlocks (stepBlock (leaveRows query)))).curFileIndex
      (stepFile (resetBlocks (stepBlock (leaveRows query)))).endFileIndex = true := by
    simp only [stepFile, resetBlocks, stepBlock, leaveRows, ordered, file, past_asc_iff, Order.step]
    omega
  unfold nextBlock
  rw [if_pos lastRow]
  simp only [searchBlockIndex_past noBlock, searchFileIndex_past noFile]
  rw [if_neg (by rw [show (leaveRows query).curFileIndex = _ from file]; exact files),
    if_neg (by simp)]

theorem nextBlock_descLog (readable : Readable codec db) (seeks : Seeks range .desc query)
    (noFile : query.curFileIndex = -1) (files : query.endFileIndex ≤ query.startFileIndex)
    (lastRow : query.curDataIndex ≠ -1 ∧ query.curDataIndex = query.endDataIndex) :
    LandsInFiles uninit range .desc db
      (stopsTo db .desc (trailOf query) query.startFileIndex query.endFileIndex)
      (atFirstFile (leaveRows query)) (nextBlock uninit codec db query).1
      (nextBlock uninit codec db query).2.2 := by
  have first : nextBlock uninit codec db query =
      searchFileIndex uninit codec db (atFirstFile (leaveRows query)) := by
    unfold nextBlock
    rw [if_pos lastRow]
    exact if_pos noFile
  have firstSeeks : Seeks range .desc (atFirstFile (leaveRows query)) :=
    ⟨seeks.start, seeks.finish, seeks.order⟩
  have spent : Spent .desc (atFirstFile (leaveRows query)) := by
    intro past
    rw [past_desc_iff] at past
    exact absurd past (not_lt_of_ge files)
  rw [first]
  exact searchFileIndex_lands readable firstSeeks spent

theorem moveNext_last (readable : Readable codec db) (seeks : Seeks range order query)
    {stops : List (Block α)} (behind : Behind db query stops)
    (lastRow : query.curDataIndex ≠ -1 ∧ query.curDataIndex = query.endDataIndex) :
    LandsNext uninit range order db stops (moveNext uninit codec db query).1
      (moveNext uninit codec db query).2.2 := by
  rw [moveNext_of_noLog behind.noLog lastRow.1]
  have left : Seeks range order (leaveRows query) := ⟨seeks.start, seeks.finish, seeks.order⟩
  have handle := @nextBlock_db_cases _ uninit codec db _ lastRow.1
  have direction := seeks.order
  cases behind with
  | ascFile later ordered unchecked ahead files =>
    rw [ordered] at direction
    subst direction
    exact finish_asc (nextBlock_lands readable seeks ahead lastRow) left rfl unchecked
      (fun _ => files) handle
  | descFile later ordered checked ahead =>
    rw [ordered] at direction
    subst direction
    exact finish_desc (nextBlock_lands readable seeks ahead lastRow) left rfl checked
  | ascLog ordered checked block final file files =>
    rw [ordered] at direction
    subst direction
    rw [nextBlock_ascLog ordered block final file files lastRow]
    exact finish_end (by simp) rfl checked
  | descLog ordered checked noFile files =>
    rw [ordered] at direction
    subst direction
    have lands := @nextBlock_descLog _ uninit _ _ _ _ readable seeks noFile files lastRow
    exact finish_desc lands ⟨seeks.start, seeks.finish, seeks.order⟩ rfl checked

/-- A query as `open_query` leaves it. -/
structure Opened (range : Range) (order : Order) (query : Query α) : Prop where
  seeks : Seeks range order query
  unchecked : query.logChecked = false
  closed : query.indexFd = none
  noRow : query.curDataIndex = -1
  noFile : query.curFileIndex = -1
  files : order.past query.startFileIndex query.endFileIndex = false

def stopsOf (db : Db α) (order : Order) (query : Query α) : List (Block α) :=
  match order with
  | .asc => stopsTo db .asc none query.startFileIndex query.endFileIndex ++ [logBlock db]
  | .desc => logBlock db :: stopsTo db .desc none query.startFileIndex query.endFileIndex

theorem firstFile_lands (readable : Readable codec db) (seeks : Seeks range order query)
    (closed : query.indexFd = none) (noRow : query.curDataIndex = -1)
    (noFile : query.curFileIndex = -1)
    (files : order.past query.startFileIndex query.endFileIndex = false) :
    LandsInFiles uninit range order db
      (stopsTo db order none query.startFileIndex query.endFileIndex) (atFirstFile query)
      (firstFile uninit codec db query).1 (firstFile uninit codec db query).2.2 := by
  have firstSeeks : Seeks range order (atFirstFile query) := ⟨seeks.start, seeks.finish, seeks.order⟩
  have noTrail : trailOf (atFirstFile query) = none := by
    rw [trailOf, show (atFirstFile query).indexFd = none from closed, Option.map_none]
  have lands := @searchFileIndex_lands _ uninit _ _ _ _ _ readable firstSeeks (fun past => by
    rw [show (atFirstFile query).curFileIndex = query.startFileIndex from rfl,
      show (atFirstFile query).endFileIndex = query.endFileIndex from rfl, files] at past
    cases past)
  rw [noTrail] at lands
  rw [firstFile, if_pos ⟨noRow, noFile⟩]
  exact lands

theorem moveNext_first {log : Query α} (noLog : dueLog uninit .desc db query = (-1, log))
    (noRow : log.curDataIndex = -1) (noFile : log.curFileIndex = -1) :
    moveNext uninit codec db query = finish uninit (firstFile uninit codec db log) := by
  unfold moveNext
  simp only [noLog]
  rw [if_neg (by simp)]
  split
  · rename_i found
    rw [finish, if_pos found]
  · rename_i missed
    rw [nextBlock_of_firstFile ⟨noRow, noFile⟩ missed, finish, if_neg missed]
    rfl

theorem moveNext_opened (readable : Readable codec db) (opened : Opened range order query)
    (finishes : order = .asc -> firstHit uninit range (stopsOf db order query) ≠ none ->
      query.endFileIndex + 1 ≠ -1) :
    LandsNext uninit range order db (stopsOf db order query) (moveNext uninit codec db query).1
      (moveNext uninit codec db query).2.2 := by
  have seeks := opened.seeks
  cases order with
  | asc =>
    have noLog : dueLog uninit .desc db query = (-1, query) :=
      dueLog_other (by rw [seeks.order]; simp)
    have lands := @firstFile_lands _ uninit _ _ _ _ _ readable seeks opened.closed opened.noRow
      opened.noFile opened.files
    rw [moveNext_first noLog opened.noRow opened.noFile]
    refine finish_asc lands ⟨seeks.start, seeks.finish, seeks.order⟩ opened.noRow opened.unchecked
      (finishes rfl) ?_
    rw [firstFile_db ⟨opened.noRow, opened.noFile⟩]
    split
    · exact Or.inr rfl
    · exact Or.inl rfl
  | desc =>
    have log := @dueLog_due _ uninit _ db _ seeks.order opened.unchecked
    cases passes : window uninit range (logBlock db) with
    | none =>
      rw [checkLog_of_skipped seeks passes] at log
      have logSeeks : Seeks range .desc { query with logChecked := true } :=
        ⟨seeks.start, seeks.finish, seeks.order⟩
      have lands := @firstFile_lands _ uninit _ _ _ _ _ readable logSeeks opened.closed opened.noRow
        opened.noFile opened.files
      rw [moveNext_first log opened.noRow opened.noFile, LandsNext, stopsOf, firstHit, passes]
      exact finish_desc lands ⟨seeks.start, seeks.finish, seeks.order⟩ opened.noRow rfl
    | some indexes =>
      rw [checkLog_of_passes seeks passes] at log
      have result : moveNext uninit codec db query =
          (0, db, landed { query with logChecked := true } db.logData db.head.curRowCount
            indexes) := by
        unfold moveNext
        simp only [log]
        rfl
      rw [result, LandsNext, stopsOf, firstHit, passes]
      refine ⟨rfl, { query with logChecked := true }, db.logData, rfl, ?_,
        ⟨seeks.start, seeks.finish, seeks.order⟩, ?_⟩
      · intro index below
        have short : index < db.head.curRowCount := below
        rw [logBlock, logRows, List.getElem?_take_of_lt short]
      · have within : ¬ Order.past .desc query.startFileIndex query.endFileIndex = true := by
          rw [opened.files]
          simp
        rw [past_desc_iff] at within
        have noTrail : trailOf { query with logChecked := true } = none := by
          rw [trailOf, show ({ query with logChecked := true } : Query α).indexFd = none
            from opened.closed, Option.map_none]
        rw [<- noTrail]
        exact Behind.descLog seeks.order rfl opened.noFile (le_of_not_gt within)

def withRows (query : Query α) (buf : List (Row α)) (count : Nat) (first last current : Int) :
    Query α :=
  { query with
    buf := buf
    rowCount := count
    startDataIndex := first
    endDataIndex := last
    curDataIndex := current }

theorem Behind.withRows (behind : Behind db query stops)
    (buf : List (Row α)) (count : Nat) (first last current : Int) :
    Behind db (withRows query buf count first last current) stops := by
  have blocks : ∀ {order : Order} {later : List (Block α)} {trail : Trail},
      BlocksAhead db order query later trail ->
      BlocksAhead db order (Drain.withRows query buf count first last current) later trail := by
    intro order later trail ahead
    rcases ahead with ⟨file, entry, final, inFile, rest⟩ | done
    · exact Or.inl ⟨file, entry, final, ⟨inFile.opened, inFile.ends, inFile.counts, inFile.covers,
        inFile.reaches⟩, rest⟩
    · exact Or.inr done
  cases behind with
  | ascFile later ordered unchecked ahead files =>
    obtain ⟨file, notPast, entries, trail, blocksAhead, rfl⟩ := ahead
    exact Behind.ascFile _ ordered unchecked ⟨file, notPast, entries, trail, blocks blocksAhead, rfl⟩
      files
  | descFile later ordered checked ahead =>
    obtain ⟨file, notPast, entries, trail, blocksAhead, laterEq⟩ := ahead
    exact Behind.descFile stops ordered checked
      ⟨file, notPast, entries, trail, blocks blocksAhead, laterEq⟩
  | ascLog ordered checked block final file files =>
    exact Behind.ascLog ordered checked block final file files
  | descLog ordered checked noFile files => exact Behind.descLog ordered checked noFile files

theorem Behind.visited (behind : Behind db query stops) : Behind (visited db) query stops := by
  have ahead_visited : ∀ {order : Order} {later : List (Block α)}, Ahead db order query later ->
      Ahead (Cursor.visited db) order query later := by
    intro order later ahead
    obtain ⟨file, notPast, entries, trail, blocksAhead, rfl⟩ := ahead
    refine ⟨file, notPast, entries, trail, blocksAhead, ?_⟩
    rw [stopsTo, stopsTo, fileStops_visited]
  cases behind with
  | ascFile later ordered unchecked ahead files =>
    exact Behind.ascFile later ordered unchecked (ahead_visited ahead) files
  | descFile later ordered checked ahead =>
    exact Behind.descFile stops ordered checked (ahead_visited ahead)
  | ascLog ordered checked block final file files =>
    exact Behind.ascLog ordered checked block final file files
  | descLog ordered checked noFile files =>
    have same : stopsTo db .desc (trailOf query) query.startFileIndex query.endFileIndex =
        stopsTo (Cursor.visited db) .desc (trailOf query) query.startFileIndex
          query.endFileIndex := (fileStops_visited _ _ _).symm
    rw [same]
    exact Behind.descLog ordered checked noFile files

theorem readable_moveNext (readable : Readable codec db) :
    Readable codec (moveNext uninit codec db query).2.1 := by
  rw [moveNext_db]
  split
  · exact readable.visited
  · exact readable

theorem Behind.moveNext {base : Query α} (behind : Behind db base stops) :
    Behind (moveNext uninit codec db query).2.1 base stops := by
  rw [moveNext_db]
  split
  · exact behind.visited
  · exact behind

theorem drains_iff {rows : List (Option (Row α))} : Drains uninit codec db query rows ↔
      ((moveNext uninit codec db query).1 = -1 ∧ rows = []) ∨
        ((moveNext uninit codec db query).1 = 0 ∧ ∃ later,
          rows = fetch (moveNext uninit codec db query).2.2 :: later ∧
            Drains uninit codec (moveNext uninit codec db query).2.1
              (moveNext uninit codec db query).2.2 later) := by
  constructor
  · intro drains
    cases drains with
    | done ends => exact Or.inl ⟨ends, rfl⟩
    | row found later => exact Or.inr ⟨found, _, rfl, later⟩
  · rintro (⟨ends, rfl⟩ | ⟨found, later, rfl, drains⟩)
    · exact Drains.done ends
    · exact Drains.row found drains

/-- What `fetch_col` finds at an index. -/
def rowAt (rows : List (Row α)) (index : Int) : Option (Row α) :=
  if 0 ≤ index then rows[index.toNat]? else none

def walk (rows : List (Row α)) (order : Order) : Nat -> Int -> List (Option (Row α))
  | 0, _ => []
  | steps + 1, index => rowAt rows index :: walk rows order steps (index + order.step)

theorem Behind.toRow (behind : Behind db query stops) (index : Int) :
    Behind db (toRow query index) stops :=
  behind.withRows query.buf query.rowCount query.startDataIndex query.endDataIndex index

theorem drains_walk {stops : List (Block α)} (steps : Nat) :
    ∀ {query : Query α} {rows : List (Option (Row α))}, Behind db query stops ->
      query.order = order -> (∀ count < steps, query.curDataIndex + count * order.step ≠ -1) ->
      query.endDataIndex = query.curDataIndex + steps * order.step ->
        (Drains uninit codec db query rows ↔ ∃ later,
          rows = walk query.buf order steps (query.curDataIndex + order.step) ++ later ∧
            Drains uninit codec db (Cursor.toRow query query.endDataIndex) later) := by
  induction steps with
  | zero =>
    intro query rows behind ordered inside finish
    have here : query.endDataIndex = query.curDataIndex := by simpa using finish
    have same : Cursor.toRow query query.endDataIndex = query := by
      rw [here]
      rfl
    simp [walk, same]
  | succ steps ih =>
    intro query rows behind ordered inside finish
    have current : query.curDataIndex ≠ -1 := by simpa using inside 0 (Nat.succ_pos _)
    have notLast : query.curDataIndex ≠ query.endDataIndex := by
      rw [finish]
      cases order <;> simp only [Order.step] <;> push_cast <;> omega
    have next := @moveNext_inside _ uninit codec _ _ behind.noLog current notLast
    rw [ordered] at next
    have onward := fun later => @ih (Cursor.toRow query (query.curDataIndex + order.step)) later
      (behind.toRow _) ordered
      (fun count below => by
        have := inside (count + 1) (by omega)
        push_cast at this
        rwa [add_mul, one_mul, add_comm ((count : Int) * _), <- add_assoc] at this)
      (by
        change query.endDataIndex = query.curDataIndex + order.step + _
        rw [finish]
        push_cast
        ring)
    rw [drains_iff, next, walk]
    constructor
    · rintro (⟨failed, -⟩ | ⟨-, later, rowsEq, drains⟩)
      · cases failed
      · obtain ⟨rest, laterEq, drains⟩ := (onward later).mp drains
        exact ⟨rest, by rw [rowsEq, laterEq]; rfl, drains⟩
    · rintro ⟨rest, rowsEq, drains⟩
      exact Or.inr ⟨rfl, _, rowsEq, (onward _).mpr ⟨rest, rfl, drains⟩⟩

theorem rowAt_natCast (rows : List (Row α)) (index : Nat) : rowAt rows index = rows[index]? := by
  rw [rowAt, if_pos (by omega), Int.toNat_natCast]

section

variable {buf rows : List (Row α)} (same : ∀ index < rows.length, buf[index]? = rows[index]?)

include same

theorem walk_asc (steps : Nat) : ∀ {low : Nat}, low + steps ≤ rows.length ->
      walk buf .asc steps low = ((rows.drop low).take steps).map some := by
  induction steps with
  | zero =>
    intro low _
    simp [walk]
  | succ steps ih =>
    intro low inside
    have below : low < rows.length := by omega
    have next : (low : Int) + Order.step .asc = ((low + 1 : Nat) : Int) := by
      simp [Order.step]
    rw [walk, rowAt_natCast, same low below, next, ih (by omega), List.getElem?_eq_getElem below,
      List.drop_eq_getElem_cons below, List.take_succ_cons, List.map_cons]

theorem walk_desc (steps : Nat) : ∀ {place : Nat}, steps ≤ place -> place ≤ rows.length ->
      walk buf .desc steps ((place : Int) - 1) =
        ((rows.take place).drop (place - steps)).reverse.map some := by
  induction steps with
  | zero =>
    intro place _ inside
    simp [walk]
  | succ steps ih =>
    intro place enough inside
    obtain ⟨before, rfl⟩ : ∃ before, place = before + 1 := ⟨place - 1, by omega⟩
    have below : before < rows.length := by omega
    have here : ((before + 1 : Nat) : Int) - 1 = (before : Int) := by omega
    have next : (before : Int) + Order.step .desc = (before : Int) - 1 := rfl
    have drop : ((rows.take before) ++ [rows[before]]).drop (before - steps) =
        (rows.take before).drop (before - steps) ++ [rows[before]] :=
      List.drop_append_of_le_length (by rw [List.length_take]; omega)
    rw [here, walk, rowAt_natCast, same before below, next, ih (by omega) (by omega),
      List.getElem?_eq_getElem below, List.take_add_one, List.getElem?_eq_getElem below,
      Option.toList_some, Nat.add_sub_add_right, drop, List.reverse_append, List.map_append]
    rfl

theorem walk_window {low high : Nat} (ordered : low ≤ high) (inside : high < rows.length) :
    walk buf order (high - low + 1) (if order = .asc then (low : Int) else high) =
      (directed order (slice rows low high)).map some := by
  have length : ((high : Int) + 1 - low).toNat = high - low + 1 := by omega
  cases order with
  | asc =>
    rw [if_pos rfl, walk_asc same _ (by omega), directed, if_pos rfl, slice, length,
      Int.toNat_natCast]
  | desc =>
    have place : (high : Int) = ((high + 1 : Nat) : Int) - 1 := by omega
    have first : high + 1 - (high - low + 1) = low := by omega
    have count : high + 1 - low = high - low + 1 := by omega
    rw [if_neg (by simp), place, walk_desc same _ (by omega) (by omega), directed,
      if_neg (by simp), <- place, slice, length, first, List.drop_take, count, Int.toNat_natCast]

end

/-- What the window of a block may be: inside the block, or empty with a last row
outside the range. -/
structure Sound (uninit : Int) (range : Range) (block : Block α) : Prop where
  count : block.rows.length = block.rowCount
  window : ∀ low high, window uninit range block = some (low, high) ->
    0 ≤ low ∧ -1 ≤ high ∧ high < block.rowCount ∧
      (high < low -> ∀ row, rowAt block.rows high = some row ->
        ¬ (range.start ≤ row.timestamp ∧ row.timestamp ≤ range.finish))

/-- The rows of all stops; `none` if one of them misses the end of its window. -/
def emissions (uninit : Int) (range : Range) (order : Order) : List (Block α) -> Option
    (List (Row α))
  | [] => some []
  | block :: later => do
      let here <- emission uninit range order block
      let rest <- emissions uninit range order later
      return here ++ rest

theorem emissions_of_firstHit (stops : List (Block α)) : emissions uninit range order stops =
      match firstHit uninit range stops with
      | none => some []
      | some (block, _, later) => do
          let here <- emission uninit range order block
          let rest <- emissions uninit range order later
          return here ++ rest := by
  induction stops with
  | nil => rfl
  | cons block later ih =>
    rw [emissions, firstHit]
    cases passes : window uninit range block with
    | none =>
      have nothing : emission uninit range order block = some [] := by
        rw [emission, passes]
      rw [nothing, ih]
      simp only [Option.bind_eq_bind, Option.bind_some, List.nil_append]
      exact Option.bind_fun_some _
    | some indexes => rfl

/-- An ascending query past the end of its window never comes to an end. -/
theorem not_drains_of_crossed {rows : List (Option (Row α))} (ascending : query.order = .asc)
    (beyond : query.endDataIndex < query.curDataIndex) (nonneg : 0 ≤ query.curDataIndex) :
    ¬ Drains uninit codec db query rows := by
  intro drains
  induction drains with
  | done ends =>
    rw [moveNext_inside (dueLog_other (by rw [ascending]; simp)) (by omega) (by omega)] at ends
    cases ends
  | @row db query later found _ ih =>
    rw [moveNext_inside (dueLog_other (by rw [ascending]; simp)) (by omega) (by omega)] at ih
    have next : (toRow query (query.curDataIndex + query.order.step)).curDataIndex =
        query.curDataIndex + 1 := by
      rw [ascending]
      rfl
    refine ih ascending ?_ ?_
    · rw [next]
      exact lt_trans beyond (lt_add_one _)
    · rw [next]
      omega

theorem firstHit_split {block : Block α} {indexes : Int × Int}
    (hit : firstHit uninit range stops = some (block, indexes, later)) :
    window uninit range block = some indexes ∧ ∃ before, stops = before ++ block :: later := by
  induction stops with
  | nil => cases hit
  | cons first rest ih =>
    rw [firstHit] at hit
    split at hit
    · rename_i passes
      cases hit
      exact ⟨passes, [], rfl⟩
    · obtain ⟨passes, before, rfl⟩ := ih hit
      exact ⟨passes, first :: before, rfl⟩

theorem drains_landed {base : Query α} {buf : List (Row α)} {block : Block α} {low high : Nat}
    {later : List (Block α)} (count : block.rows.length = block.rowCount)
    (same : ∀ index < block.rowCount, buf[index]? = block.rows[index]?)
    (seeks : Seeks range order base) (behind : Behind db base later) (ordered : low ≤ high)
    (inside : high < block.rowCount) :
    let query := landed base buf block.rowCount ((low : Int), (high : Int))
    ∃ tail, (directed order (slice block.rows low high)).map some = fetch query :: tail ∧
      ∀ rows, Drains uninit codec db query rows ↔ ∃ rest, rows = tail ++ rest ∧
        Drains uninit codec db (toRow query query.endDataIndex) rest := by
  intro query
  have entry : query.curDataIndex = if order = .asc then (low : Int) else high := by
    rw [<- seeks.order]
    rfl
  have exit : query.endDataIndex = if order = .asc then (high : Int) else low := by
    rw [<- seeks.order]
    rfl
  have queryBehind : Behind db query later := behind.withRows _ _ _ _ _
  have first : fetch query = rowAt buf (if order = .asc then (low : Int) else high) := by
    rw [<- entry]
    rfl
  have steps := fun rows => @drains_walk _ uninit codec order db later (high - low) query rows
    queryBehind seeks.order
    (by
      intro steps below
      rw [entry]
      cases order with
      | asc =>
        rw [if_pos rfl]
        simp only [Order.step]
        omega
      | desc =>
        rw [if_neg (by simp)]
        simp only [Order.step]
        omega)
    (by
      rw [entry, exit]
      cases order with
      | asc =>
        rw [if_pos rfl, if_pos rfl]
        simp only [Order.step]
        omega
      | desc =>
        rw [if_neg (by simp), if_neg (by simp)]
        simp only [Order.step]
        omega)
  have window := @walk_window _ order buf block.rows (by rw [count]; exact same) low high ordered
    (by rw [count]; exact inside)
  rw [walk, <- first, <- entry] at window
  exact ⟨_, window.symm, steps⟩

/-- From where its first call lands a query returns the rows of its stops, and it
returns rows of the range only if no stop misses the end of its window. -/
theorem drains_iff_emissions (length : Nat) :
    ∀ {db : Db α} {query : Query α} {stops : List (Block α)}, stops.length ≤ length ->
      Readable codec db -> (∀ block ∈ stops, Sound uninit range block) ->
      LandsNext uninit range order db stops (moveNext uninit codec db query).1
        (moveNext uninit codec db query).2.2 -> ∀ rows : List (Row α),
        (∀ row ∈ rows, range.start ≤ row.timestamp ∧ row.timestamp ≤ range.finish) ->
        (Drains uninit codec db query (rows.map some) ↔
          emissions uninit range order stops = some rows) := by
  induction length with
  | zero =>
    intro db query stops short readable sound lands rows inRange
    have none' : stops = [] := List.eq_nil_of_length_eq_zero (Nat.le_zero.mp short)
    subst none'
    have ends : (moveNext uninit codec db query).1 = -1 := lands
    rw [drains_iff, ends, emissions, List.map_eq_nil_iff, Option.some.injEq]
    constructor
    · rintro (⟨-, rfl⟩ | ⟨found, -⟩)
      · rfl
      · cases found
    · rintro rfl
      exact Or.inl ⟨rfl, rfl⟩
  | succ length ih =>
    intro db query stops short readable sound lands rows inRange
    rw [emissions_of_firstHit]
    unfold LandsNext at lands
    cases hit : firstHit uninit range stops with
    | none =>
      rw [hit] at lands
      rw [drains_iff, lands, List.map_eq_nil_iff, Option.some.injEq]
      constructor
      · rintro (⟨-, rfl⟩ | ⟨found, -⟩)
        · rfl
        · cases found
      · rintro rfl
        exact Or.inl ⟨rfl, rfl⟩
    | some found =>
      rw [hit] at lands
      obtain ⟨block, ⟨low, high⟩, later⟩ := found
      obtain ⟨code, base, buf, result, same, seeks, behind⟩ := lands
      obtain ⟨passes, before, stopsEq⟩ := firstHit_split hit
      have blockSound : Sound uninit range block := sound block (by rw [stopsEq]; simp)
      obtain ⟨lowNonneg, highBound, highInside, crossing⟩ := blockSound.window low high passes
      have next : Readable codec (moveNext uninit codec db query).2.1 ∧
          Behind (moveNext uninit codec db query).2.1 base later :=
        ⟨readable_moveNext readable, Behind.moveNext behind⟩
      by_cases ordered : low ≤ high
      · obtain ⟨first, rfl⟩ := Int.eq_ofNat_of_zero_le lowNonneg
        obtain ⟨last, rfl⟩ := Int.eq_ofNat_of_zero_le (le_trans lowNonneg ordered)
        have emits : emission uninit range order block =
            some (directed order (slice block.rows first last)) := by
          rw [emission, passes]
          exact if_pos ordered
        obtain ⟨tail, windowEq, window⟩ := @drains_landed _ uninit codec range order
          (moveNext uninit codec db query).2.1 base buf block first last later blockSound.count
          same seeks next.2 (by omega) (by omega)
        rw [<- result] at windowEq window
        have lastRow : LandsNext uninit range order (moveNext uninit codec db query).2.1 later _ _ :=
          @moveNext_last _ uninit codec range order _
            (toRow (moveNext uninit codec db query).2.2
              (moveNext uninit codec db query).2.2.endDataIndex) next.1
            (by rw [result]; exact ⟨seeks.start, seeks.finish, seeks.order⟩) _
            (by rw [result]; exact (next.2.withRows _ _ _ _ _).toRow _)
            ⟨by
              rw [result]
              change (if base.order = .asc then _ else _) ≠ _
              split <;> simp, rfl⟩
        have rest := ih (by
          rw [stopsEq, List.length_append, List.length_cons] at short
          omega) next.1 (fun other member => sound other (by
            rw [stopsEq]
            exact List.mem_append_right _ (List.mem_cons_of_mem _ member))) lastRow
        simp only [emits, Option.bind_eq_bind, Option.bind_some]
        constructor
        · intro drains
          rcases drains_iff.mp drains with ⟨ends, -⟩ | ⟨-, left, rowsEq, drains⟩
          · rw [code] at ends
            cases ends
          · obtain ⟨further, rfl, restDrains⟩ := (window left).mp drains
            rw [<- List.cons_append, <- windowEq] at rowsEq
            obtain ⟨here, others, rfl, hereEq, rfl⟩ := List.map_eq_append_iff.mp rowsEq
            have sameHere := List.map_injective_iff.mpr (Option.some_injective _) hereEq
            have emitted := (rest others fun row member =>
              inRange row (List.mem_append_right _ member)).mp restDrains
            rw [emitted, sameHere]
            rfl
        · intro emitted
          obtain ⟨others, othersEq, rowsEq⟩ := Option.bind_eq_some_iff.mp emitted
          cases rowsEq
          have drains := (rest others fun row member =>
            inRange row (List.mem_append_right _ member)).mpr othersEq
          rw [drains_iff, List.map_append, windowEq]
          exact Or.inr ⟨code, _, rfl, (window _).mpr ⟨_, rfl, drains⟩⟩
      · have crossed : high < low := lt_of_not_ge ordered
        have nothing : emission uninit range order block = none := by
          rw [emission, passes]
          exact if_neg ordered
        simp only [nothing, Option.bind_eq_bind, Option.bind_none]
        refine iff_of_false (fun drains => ?_) (by simp)
        rcases drains_iff.mp drains with ⟨ends, -⟩ | ⟨-, tail, rowsEq, drains⟩
        · rw [code] at ends
          cases ends
        · rw [result] at rowsEq drains
          cases order with
          | asc =>
            have ascending : (landed base buf block.rowCount (low, high)).order = .asc :=
              seeks.order
            refine not_drains_of_crossed ascending ?_ ?_ drains
            · simp only [landed, seeks.order, if_true]
              exact crossed
            · simp only [landed, seeks.order, if_true]
              exact lowNonneg
          | desc =>
            obtain ⟨row, others, rfl, firstEq, -⟩ := List.map_eq_cons_iff.mp rowsEq
            have fetched : fetch (landed base buf block.rowCount (low, high)) = rowAt buf high := by
              simp only [fetch, landed, seeks.order, reduceCtorEq, if_false]
              rfl
            rw [fetched] at firstEq
            refine crossing crossed row ?_ (inRange row List.mem_cons_self)
            rw [firstEq]
            unfold rowAt
            split
            · exact (same _ (by omega)).symm
            · rfl

end Drain

end Luomi.Edb.Drain
