import Luomi.Edb.Landing

/-!
# The stops of a query

The blocks a query meets, in its order: the entries of every file of its range
that exists, and at the file of the log, if that file does not exist, the entry
at which the descriptor of the file before was left.  The searches of a query
land on the first of the stops it has left.
-/

namespace Luomi.Edb.Stops

open Database Cursor CursorFrame Segment Landing

section Stops

variable {α : Type}

def finalEntry (db : Db α) (order : Order) (file : Int) : Nat :=
  match order with
  | .asc => (lastEntry db file).toNat
  | .desc => 0

abbrev Trail := Option (Int × Nat)

def trailOf (query : Query α) : Trail := query.indexFd.map fun file => (file, query.indexPos)

def staleBlock (db : Db α) (trail : Trail) : List (Block α) :=
  match trail with
  | none => []
  | some (file, position) => (indexFile db file)[position]?.toList

def blocksHere (db : Db α) (order : Order) (trail : Trail) (file : Int) : List (Block α) :=
  if file ∈ db.opened then directed order (indexFile db file)
  else if file = logFile db then staleBlock db trail
  else []

def trailBehind (db : Db α) (order : Order) (trail : Trail) (file : Int) : Trail :=
  if file ∈ db.opened then
    some (file, readPos (indexFile db file) (finalEntry db order file))
  else if file = logFile db then
    trail.map fun left => (left.1, readPos (indexFile db left.1) left.2)
  else trail

def fileStops (db : Db α) (order : Order) : Nat -> Trail -> Int -> List (Block α)
  | 0, _, _ => []
  | fuel + 1, trail, file =>
    blocksHere db order trail file ++
      fileStops db order fuel (trailBehind db order trail file) (file + order.step)

def stopsTo (db : Db α) (order : Order) (trail : Trail) (file finish : Int) : List (Block α) :=
  fileStops db order (distance order file finish) trail file

structure Readable (codec : Codec α) (db : Db α) : Prop where
  lossless : Lossless codec db
  counts : ∀ entry ∈ db.written, entry.2.rows.length = entry.2.rowCount
  filled : ∀ file ∈ db.opened, indexFile db file ≠ []
  files : ∀ file ∈ db.opened, file ≠ -1
  logFile : logFile db ≠ -1

variable {uninit : Int} {codec : Codec α} {range : Range} {order : Order} {db : Db α}
  {query : Query α}

theorem Readable.visited (readable : Readable codec db) : Readable codec (visited db) :=
  ⟨readable.lossless, readable.counts, readable.filled, readable.files, readable.logFile⟩

theorem Readable.indexFile_counts (readable : Readable codec db) (file : Int) :
    ∀ block ∈ indexFile db file, block.rows.length = block.rowCount := by
  intro block member
  obtain ⟨entry, entryMember, rfl⟩ := List.mem_map.mp member
  exact readable.counts entry (List.mem_of_mem_filter entryMember)

theorem fileStops_visited (fuel : Nat) : ∀ (trail : Trail) (file : Int),
    fileStops (visited db) order fuel trail file = fileStops db order fuel trail file := by
  induction fuel with
  | zero =>
    intro trail file
    rfl
  | succ fuel ih =>
    intro trail file
    simp only [fileStops, ih]
    rfl

def BlocksAhead (db : Db α) (order : Order) (query : Query α) (blocks : List (Block α))
    (trail : Trail) : Prop :=
  (∃ (file : Int) (entry final : Nat), InFile (indexFile db file) order file final query ∧
    query.curBlockIndex = entry ∧ query.indexPos = entry + 1 ∧ order.past entry final = false ∧
    entry < (indexFile db file).length ∧
    blocks = entriesFrom order (indexFile db file) (entry + order.step) ∧
    trail = some (file, readPos (indexFile db file) final)) ∨
  (order.past (query.curBlockIndex + order.step) query.endBlockIndex = true ∧ blocks = [] ∧
    trail = trailOf query)

def Ahead (db : Db α) (order : Order) (query : Query α) (later : List (Block α)) : Prop :=
  query.curFileIndex ≠ -1 ∧ order.past query.curFileIndex query.endFileIndex = false ∧
    ∃ blocks trail, BlocksAhead db order query blocks trail ∧
      later = blocks ++ stopsTo db order trail (query.curFileIndex + order.step) query.endFileIndex

/-- Where a search over files lands: nowhere, or on the first hit. -/
def LandsInFiles (uninit : Int) (range : Range) (order : Order) (db : Db α)
    (stops : List (Block α)) (query : Query α) (code : Int) (result : Query α) : Prop :=
  match firstHit uninit range stops with
  | none => code ≠ 0 ∧ SamePlace query result ∧ result.curBlockIndex = -1 ∧
      result.endBlockIndex = -1 ∧ result.curFileIndex = query.endFileIndex + order.step
  | some (block, indexes, later) =>
    code = 0 ∧ ∃ base buf, result = landed base buf block.rowCount indexes ∧
      (∀ index < block.rowCount, buf[index]? = block.rows[index]?) ∧
      SamePlace query base ∧ Ahead db order base later

theorem firstHit_append (left right : List (Block α)) : firstHit uninit range (left ++ right) =
      match firstHit uninit range left with
      | none => firstHit uninit range right
      | some (block, indexes, later) => some (block, indexes, later ++ right) := by
  induction left with
  | nil => rfl
  | cons block left ih =>
    rw [List.cons_append, firstHit, firstHit]
    cases window uninit range block with
    | none => exact ih
    | some indexes => rfl

def LandsAtFile (uninit : Int) (range : Range) (order : Order) (db : Db α)
    (blocks : List (Block α)) (trail : Trail) (query : Query α) (code : Int)
    (result : Query α) : Prop :=
  match firstHit uninit range blocks with
  | none => code ≠ 0 ∧ SameFile query result ∧ result.curBlockIndex = -1 ∧
      result.endBlockIndex = -1 ∧ trailOf result = trail
  | some (block, indexes, later) =>
    code = 0 ∧ ∃ base buf, result = landed base buf block.rowCount indexes ∧
      (∀ index < block.rowCount, buf[index]? = block.rows[index]?) ∧
      SameFile query base ∧ BlocksAhead db order base later trail

theorem lastEntry_bounds (db : Db α) (file : Int) :
    ((indexFile db file).length : Int) - 1 ≤ lastEntry db file := by
  have : (indexFile db file).length ≤
      (indexFile db file).length * (sizeofIndex + 4 * db.head.colCount) / sizeofIndex := by
    rw [Nat.le_div_iff_mul_le (by decide)]
    exact Nat.mul_le_mul_left _ (by omega)
  unfold lastEntry
  omega

variable {file : Int}

theorem landsAtFile_of_landsInFile {final : Nat} {before : Query α} {index : Int}
    {result : Int × Query α} (inFile : InFile (indexFile db file) order file final query)
    (same : SameFile before query)
    (lands : LandsInFile uninit range order (indexFile db file) index final query result) :
    LandsAtFile uninit range order db (entriesFrom order (indexFile db file) index)
      (some (file, readPos (indexFile db file) final)) before result.1 result.2 := by
  unfold LandsInFile at lands
  unfold LandsAtFile
  cases hit : firstHit uninit range (entriesFrom order (indexFile db file) index) with
  | none =>
    simp only [hit] at lands ⊢
    rw [lands]
    refine ⟨by simp, same.trans ⟨_, _, _, _, _, rfl⟩, rfl, rfl, ?_⟩
    have opened := inFile.opened
    simp only [trailOf, doneAt, movedTo, resetBlocks, opened, Option.map_some]
  | some found =>
    obtain ⟨block, indexes, later⟩ := found
    simp only [hit] at lands ⊢
    obtain ⟨entry, buf, landedEq, rows, notPast, inside, laterEq⟩ := lands
    rw [landedEq]
    refine ⟨rfl, onEntry query entry, buf, rfl, rows, same.trans ⟨_, _, _, _, _, rfl⟩,
      Or.inl ⟨file, entry, final, ?_, rfl, rfl, notPast, inside, laterEq, rfl⟩⟩
    exact ⟨inFile.opened, inFile.ends, inFile.counts, inFile.covers, inFile.reaches⟩

theorem entriesFrom_start (order : Order) (entries : List (Block α)) {last : Int}
    (covers : (entries.length : Int) - 1 ≤ last) :
    entriesFrom order entries (if order = .asc then 0 else last) = directed order entries := by
  cases order with
  | asc => rfl
  | desc =>
    have all : entries.take (last + 1).toNat = entries := List.take_of_length_le (by omega)
    simp only [entriesFrom, directed, if_neg (show ¬ Order.desc = Order.asc by simp), all]

variable {trail : Trail} {result : Query α} {blocks : List (Block α)} {code : Int}

theorem LandsAtFile.report (lands : LandsAtFile uninit range order db blocks trail query code result) :
    LandsAtFile uninit range order db blocks trail query (if code = 0 then 0 else -1) result := by
  unfold LandsAtFile at lands ⊢
  split
  · rename_i nothing
    rw [nothing] at lands
    rw [if_neg lands.1]
    exact ⟨by simp, lands.2⟩
  · rename_i hit
    rw [hit] at lands
    rw [if_pos lands.1]
    exact ⟨rfl, lands.2⟩

theorem enterFile_inFile (readable : Readable codec db) (ordered : query.order = order)
    (opened : query.curFileIndex ∈ db.opened) :
    InFile (indexFile db query.curFileIndex) order query.curFileIndex
      (finalEntry db order query.curFileIndex) (enterFile db query) := by
  have filled := List.length_pos_of_ne_nil (readable.filled _ opened)
  have covers := lastEntry_bounds db query.curFileIndex
  refine ⟨rfl, ?_, readable.indexFile_counts _, ?_, ?_⟩
  · cases order with
    | asc =>
      simp only [enterFile, ordered, if_true, finalEntry]
      omega
    | desc => simp only [enterFile, ordered, finalEntry, reduceCtorEq, if_false, Nat.cast_zero]
  · rintro rfl
    simp only [finalEntry]
    omega
  · rintro rfl
    rfl

theorem enterFile_lands (readable : Readable codec db) (seeks : Seeks range order query)
    (opened : query.curFileIndex ∈ db.opened) :
    LandsAtFile uninit range order db (directed order (indexFile db query.curFileIndex))
      (some (query.curFileIndex, readPos (indexFile db query.curFileIndex)
        (finalEntry db order query.curFileIndex))) query
      (searchBlockIndex uninit codec db (enterFile db query)).1
      (searchBlockIndex uninit codec db (enterFile db query)).2 := by
  have inFile := enterFile_inFile readable seeks.order opened
  have filled := List.length_pos_of_ne_nil (readable.filled _ opened)
  have covers := lastEntry_bounds db query.curFileIndex
  have start : (enterFile db query).curBlockIndex =
      if order = .asc then 0 else lastEntry db query.curFileIndex := by
    rw [<- seeks.order]
    rfl
  have entries := entriesFrom_start order (indexFile db query.curFileIndex) covers
  rw [<- start] at entries
  rw [<- entries]
  refine landsAtFile_of_landsInFile inFile ⟨_, _, _, _, _, rfl⟩ ?_
  have inFileEnds := inFile.ends
  have enteredSeeks : Seeks range order (enterFile db query) :=
    ⟨seeks.start, seeks.finish, seeks.order⟩
  unfold searchBlockIndex
  rw [enteredSeeks.order, inFileEnds]
  refine searchBlocks_lands readable.lossless _ enteredSeeks inFile ?_ le_rfl ?_
  · rw [start]
    left
    split <;> omega
  · rw [start]
    intro past
    cases order with
    | asc =>
      rw [if_pos rfl, past_asc_iff] at past
      omega
    | desc =>
      rw [if_neg (by simp), past_desc_iff] at past
      simp only [finalEntry] at past
      omega

theorem searchBlockIndex_reset (ordered : query.order = order) :
    let result := checkBlock uninit codec db (resetBlocks query)
    searchBlockIndex uninit codec db (resetBlocks query) =
      if result.1 = 0 then (0, result.2) else (-1, resetBlocks (stepBlock result.2)) := by
  intro result
  have once : distance (resetBlocks query).order (resetBlocks query).curBlockIndex
      (resetBlocks query).endBlockIndex = 1 := by
    rw [show (resetBlocks query).order = order from ordered]
    cases order <;> rfl
  have notPast : ¬ (resetBlocks query).order.past (resetBlocks query).curBlockIndex
      (resetBlocks query).endBlockIndex = true := by
    rw [<- distance_eq_zero_iff, once]
    exact Nat.one_ne_zero
  rw [searchBlockIndex, once]
  unfold searchBlocks
  rw [if_neg notPast]
  rfl

/-- A file that does not exist but would be that of the log gives the entry the
descriptor was left at. -/
theorem stale_lands (readable : Readable codec db) (seeks : Seeks range order query) :
    LandsAtFile uninit range order db (staleBlock db (trailOf query))
      ((trailOf query).map fun left => (left.1, readPos (indexFile db left.1) left.2)) query
      (searchBlockIndex uninit codec db (resetBlocks query)).1
      (searchBlockIndex uninit codec db (resetBlocks query)).2 := by
  have resetSeeks : Seeks range order (resetBlocks query) :=
    ⟨seeks.start, seeks.finish, seeks.order⟩
  rw [searchBlockIndex_reset seeks.order]
  cases opened : query.indexFd with
  | none =>
    have closed : checkBlock uninit codec db (resetBlocks query) = (-1, resetBlocks query) := by
      unfold checkBlock
      rw [show (resetBlocks query).indexFd = none from opened]
    have noTrail : trailOf query = none := by rw [trailOf, opened, Option.map_none]
    rw [closed, if_neg (by simp), noTrail]
    exact ⟨by simp, ⟨_, _, _, _, _, rfl⟩, rfl, rfl, noTrail⟩
  | some file =>
    have resetOpened : (resetBlocks query).indexFd = some file := opened
    have trail : trailOf query = some (file, query.indexPos) := by
      rw [trailOf, opened, Option.map_some]
    have here : readAt (resetBlocks query) = query.indexPos := rfl
    have missed : firstHit uninit range (staleBlock db (trailOf query)) = none ->
        (checkBlock uninit codec db (resetBlocks query)).1 ≠ 0 ∧
          (checkBlock uninit codec db (resetBlocks query)).2 = movedTo (resetBlocks query)
            (readPos (indexFile db file) (readAt (resetBlocks query))) ->
        LandsAtFile uninit range order db (staleBlock db (trailOf query))
          ((trailOf query).map fun left => (left.1, readPos (indexFile db left.1) left.2)) query
          (if (checkBlock uninit codec db (resetBlocks query)).1 = 0 then
            (0, (checkBlock uninit codec db (resetBlocks query)).2)
          else (-1, resetBlocks (stepBlock (checkBlock uninit codec db (resetBlocks query)).2))).1
          (if (checkBlock uninit codec db (resetBlocks query)).1 = 0 then
            (0, (checkBlock uninit codec db (resetBlocks query)).2)
          else (-1, resetBlocks (stepBlock (checkBlock uninit codec db (resetBlocks query)).2))).2 := by
      intro nothing failed
      rw [if_neg failed.1, LandsAtFile, nothing, failed.2, here, trail]
      refine ⟨by simp, ⟨_, _, _, _, _, rfl⟩, rfl, rfl, ?_⟩
      simp only [trailOf, resetBlocks, stepBlock, movedTo, opened, Option.map_some]
    cases entry : (indexFile db file)[query.indexPos]? with
    | none =>
      have stale : staleBlock db (trailOf query) = [] := by
        rw [trail]
        simp only [staleBlock, entry, Option.toList_none]
      exact missed (by rw [stale]; rfl) (checkBlock_of_absent resetOpened entry)
    | some block =>
      have stale : staleBlock db (trailOf query) = [block] := by
        rw [trail]
        simp only [staleBlock, entry, Option.toList_some]
      obtain ⟨inside, blockEq⟩ := List.getElem?_eq_some_iff.mp entry
      cases passes : window uninit range block with
      | none =>
        refine missed (by rw [stale, firstHit, passes]; rfl)
          (checkBlock_of_skipped resetOpened resetSeeks entry passes)
      | some indexes =>
        have count := readable.indexFile_counts file block (blockEq ▸ List.getElem_mem inside)
        obtain ⟨buf, rows, result⟩ := checkBlock_of_passes resetOpened readable.lossless
          resetSeeks count entry passes
        rw [result, if_pos rfl, stale, LandsAtFile, firstHit, passes, here, trail]
        refine ⟨rfl, _, buf, rfl, rows, ⟨_, _, _, _, _, rfl⟩, Or.inr ⟨?_, rfl, ?_⟩⟩
        · cases order <;> rfl
        · simp only [trailOf, movedTo, resetBlocks, opened, Option.map_some]

theorem checkFile_of_opened (opened : query.curFileIndex ∈ db.opened) :
    let result := searchBlockIndex uninit codec (visited db) (enterFile (visited db) query)
    checkFile uninit codec db query =
      (if result.1 = 0 then 0 else -1, visited db, result.2) := by
  intro result
  have present : query.curFileIndex ∈ (visited db).opened := opened
  unfold checkFile
  simp only
  rw [if_neg (fun absent => absent.1 present), if_pos present]

theorem checkFile_of_own (absent : query.curFileIndex ∉ db.opened)
    (own : query.curFileIndex = logFile db) :
    let result := searchBlockIndex uninit codec (visited db) (resetBlocks query)
    checkFile uninit codec db query =
      (if result.1 = 0 then 0 else -1, visited db, result.2) := by
  intro result
  have missing : query.curFileIndex ∉ (visited db).opened := absent
  have same : query.curFileIndex = (visited db).curFileIndex := own
  unfold checkFile
  simp only
  rw [if_neg (fun other => other.2 same), if_neg missing]

theorem checkFile_of_other (absent : query.curFileIndex ∉ db.opened)
    (other : query.curFileIndex ≠ logFile db) :
    checkFile uninit codec db query = (-1, visited db, resetBlocks query) :=
  if_pos ⟨absent, other⟩

theorem checkFile_lands (readable : Readable codec db) (seeks : Seeks range order query) :
    LandsAtFile uninit range order db (blocksHere db order (trailOf query) query.curFileIndex)
      (trailBehind db order (trailOf query) query.curFileIndex) query
      (checkFile uninit codec db query).1 (checkFile uninit codec db query).2.2 := by
  unfold blocksHere trailBehind
  by_cases opened : query.curFileIndex ∈ db.opened
  · rw [if_pos opened, if_pos opened, checkFile_of_opened opened]
    exact (enterFile_lands readable.visited seeks opened).report
  · rw [if_neg opened, if_neg opened]
    by_cases own : query.curFileIndex = logFile db
    · rw [if_pos own, if_pos own, checkFile_of_own opened own]
      exact (stale_lands readable.visited seeks).report
    · rw [if_neg own, if_neg own, checkFile_of_other opened own]
      exact ⟨by simp, ⟨_, _, _, _, _, rfl⟩, rfl, rfl, rfl⟩

theorem distance_succ {index finish : Int} (notPast : order.past index finish = false) :
    distance order index finish = distance order (index + order.step) finish + 1 := by
  have within : ¬ order.past index finish = true := by rw [notPast]; simp
  cases order with
  | asc =>
    rw [past_asc_iff] at within
    simp only [distance, Order.step]
    omega
  | desc =>
    rw [past_desc_iff] at within
    simp only [distance, Order.step]
    omega

theorem ahead_visited {later : List (Block α)} (ahead : Ahead (visited db) order query later) :
    Ahead db order query later := by
  obtain ⟨index, within, blocks, trail, blocksAhead, laterEq⟩ := ahead
  refine ⟨index, within, blocks, trail, blocksAhead, ?_⟩
  rw [laterEq, stopsTo, stopsTo, fileStops_visited]

theorem file_ne_of_hit (readable : Readable codec db) {hit : Block α × (Int × Int) × List (Block α)}
    (found : firstHit uninit range (blocksHere db order trail file) = some hit) : file ≠ -1 := by
  unfold blocksHere at found
  split at found
  · exact readable.files file (by assumption)
  · split at found
    · rename_i own
      rw [own]
      exact readable.logFile
    · cases found

def Spent (order : Order) (query : Query α) : Prop :=
  order.past query.curFileIndex query.endFileIndex = true -> query.curBlockIndex = -1 ∧
    query.endBlockIndex = -1 ∧ query.curFileIndex = query.endFileIndex + order.step

theorem LandsAtFile.thenFiles (here : LandsAtFile uninit range order db blocks trail query code result)
    (seeks : Seeks range order query)
    (notPast : order.past query.curFileIndex query.endFileIndex = false)
    (file : ∀ hit, firstHit uninit range blocks = some hit -> query.curFileIndex ≠ -1)
    {laterCode : Int} {laterResult : Query α}
    (later : code ≠ 0 -> Seeks range order (stepFile result) -> Spent order (stepFile result) ->
      LandsInFiles uninit range order db (stopsTo db order (trailOf (stepFile result))
        (stepFile result).curFileIndex (stepFile result).endFileIndex) (stepFile result)
        laterCode laterResult) :
    LandsInFiles uninit range order db
      (blocks ++ stopsTo db order trail (query.curFileIndex + order.step) query.endFileIndex)
      query (if code = 0 then 0 else laterCode) (if code = 0 then result else laterResult) := by
  unfold LandsAtFile at here
  rw [LandsInFiles, firstHit_append]
  cases hit : firstHit uninit range blocks with
  | none =>
    rw [hit] at here
    obtain ⟨missed, same, block, final, trailEq⟩ := here
    rw [if_neg missed, if_neg missed]
    have fields := same
    obtain ⟨_, _, _, _, _, resultEq⟩ := fields
    have nextSeeks : Seeks range order (stepFile result) := by
      refine ⟨?_, ?_, ?_⟩ <;> rw [resultEq]
      · exact seeks.start
      · exact seeks.finish
      · exact seeks.order
    have nextFile : (stepFile result).curFileIndex = query.curFileIndex + order.step := by
      rw [<- seeks.order, resultEq]
      rfl
    have finish : (stepFile result).endFileIndex = query.endFileIndex := by
      rw [resultEq]
      rfl
    have spent : Spent order (stepFile result) := by
      intro past
      rw [nextFile, finish] at past ⊢
      exact ⟨block, final, by rw [eq_of_past_step notPast past]⟩
    have onward : SamePlace query (stepFile result) :=
      same.samePlace.trans ⟨_, SameFile.refl _⟩
    have lands := later missed nextSeeks spent
    have sameTrail : trailOf (stepFile result) = trail := trailEq
    rw [sameTrail, nextFile, finish, LandsInFiles, finish] at lands
    simp only
    cases further : firstHit uninit range
        (stopsTo db order trail (query.curFileIndex + order.step) query.endFileIndex) with
    | none =>
      rw [further] at lands
      obtain ⟨laterMissed, place, rest⟩ := lands
      exact ⟨laterMissed, onward.trans place, rest⟩
    | some found =>
      rw [further] at lands
      obtain ⟨block, indexes, stops⟩ := found
      obtain ⟨found, base, buf, landedEq, rows, place, ahead⟩ := lands
      exact ⟨found, base, buf, landedEq, rows, onward.trans place, ahead⟩
  | some found =>
    rw [hit] at here
    have fileNe := file _ hit
    obtain ⟨block, indexes, stops⟩ := found
    obtain ⟨found, base, buf, landedEq, rows, same, ahead⟩ := here
    rw [if_pos found, if_pos found]
    refine ⟨rfl, base, buf, landedEq, rows, same.samePlace, ?_⟩
    obtain ⟨_, _, _, _, _, rfl⟩ := same
    exact ⟨fileNe, notPast, stops, trail, ahead, rfl⟩

theorem LandsInFiles.ofVisited {finish : Int} (lands : LandsInFiles uninit range order (visited db)
      (stopsTo (visited db) order trail file finish) query code result) :
    LandsInFiles uninit range order db (stopsTo db order trail file finish) query code result := by
  have sameStops : stopsTo (visited db) order trail file finish =
      stopsTo db order trail file finish := fileStops_visited _ _ _
  rw [sameStops, LandsInFiles] at lands
  rw [LandsInFiles]
  cases hit : firstHit uninit range (stopsTo db order trail file finish) with
  | none =>
    rw [hit] at lands
    exact lands
  | some found =>
    rw [hit] at lands
    obtain ⟨block, indexes, later⟩ := found
    obtain ⟨found, base, buf, landedEq, rows, place, ahead⟩ := lands
    exact ⟨found, base, buf, landedEq, rows, place, ahead_visited ahead⟩

theorem searchFiles_lands (fuel : Nat) : ∀ {db : Db α} {query : Query α}, Readable codec db ->
    Seeks range order query -> distance order query.curFileIndex query.endFileIndex = fuel ->
    Spent order query -> LandsInFiles uninit range order db
      (stopsTo db order (trailOf query) query.curFileIndex query.endFileIndex)
      query (searchFiles uninit codec fuel db query).1
      (searchFiles uninit codec fuel db query).2.2 := by
  induction fuel with
  | zero =>
    intro db query readable seeks steps spent
    obtain ⟨block, final, file⟩ := spent ((distance_eq_zero_iff _ _ _).mp steps)
    rw [stopsTo, steps]
    exact ⟨by simp [searchFiles], (SameFile.refl query).samePlace, block, final, file⟩
  | succ fuel ih =>
    intro db query readable seeks steps spent
    have notPast : order.past query.curFileIndex query.endFileIndex = false := by
      rw [<- Bool.not_eq_true, <- distance_eq_zero_iff, steps]
      exact Nat.succ_ne_zero fuel
    have nextSteps := steps
    rw [distance_succ notPast, Nat.add_right_cancel_iff] at nextSteps
    have here := @checkFile_lands _ uninit _ _ _ _ _ readable seeks
    have lands := here.thenFiles seeks notPast (fun hit found => file_ne_of_hit readable found)
      (fun missed nextSeeks nextSpent => by
        refine (ih readable.visited nextSeeks ?_ nextSpent).ofVisited
        have same := checkFile_sameFile missed
        obtain ⟨_, _, _, _, _, fields⟩ := same
        rw [fields, <- nextSteps, <- seeks.order]
        rfl)
    rw [stopsTo, nextSteps] at lands
    rw [stopsTo, steps, fileStops]
    unfold searchFiles
    rw [seeks.order, notPast, if_neg (by simp)]
    simp only
    have handle : (checkFile uninit codec db query).2.1 = visited db := checkFile_db
    rw [<- handle] at lands
    split
    · rename_i found
      rw [if_pos found, if_pos found] at lands
      exact lands
    · rename_i missed
      rw [if_neg missed, if_neg missed] at lands
      exact lands

end Stops

end Luomi.Edb.Stops
