import Luomi.Edb.Catalogue
import Luomi.Edb.Exhaustion
import Luomi.Edb.QueryAnswer

/-!
# How a query comes to its end

Behind its last row a query is past its files.  The calls from there on fail too,
except where the file index of a descending query has come to -1: there the query
starts over.  So repeated calls come to an end within the stored rows, and stay
there, exactly if the windows of the query are bounded.
-/

namespace Luomi.Edb.QueryEnd

open Database Bookkeeping Cursor CursorFrame Segment Landing Stops Drain FileLayout Catalogue Visits
open QueryAnswer Exhaustion

section QueryEnd

variable {α : Type} {uninit : Int} {codec : Codec α} {range : Range} {order : Order} {db : Db α}
  {query : Query α} {rows : List (Row α)}

structure Ended (query : Query α) : Prop where
  noRow : query.curDataIndex = -1
  checked : query.logChecked = true
  beyond : query.order = .asc -> query.endFileIndex < query.curFileIndex
  exactly : query.order = .desc -> query.curFileIndex = query.endFileIndex - 1

theorem dueLog_fails (fails : (dueLog uninit .asc db query).1 ≠ 0) :
    (dueLog uninit .asc db query).2 =
      { query with logChecked := if query.order = .asc then true else query.logChecked } := by
  by_cases due : query.order = .asc ∧ query.logChecked = false
  · rw [dueLog_due due.1 due.2] at fails ⊢
    unfold checkLog at fails ⊢
    simp only at fails ⊢
    split at fails
    · rename_i below
      rw [if_pos below, if_pos due.1]
    · exact absurd rfl fails
  · rw [dueLog, if_neg due]
    by_cases ascending : query.order = .asc
    · have checked : query.logChecked = true := by
        cases checked : query.logChecked with
        | true => rfl
        | false => exact absurd ⟨ascending, checked⟩ due
      simp only [if_pos ascending, <- checked]
    · simp only [if_neg ascending]

variable {next : Int × Db α × Query α}

theorem finish_fails (fails : (finish uninit next).1 = -1) :
    next.1 ≠ 0 ∧ next.2.2.curDataIndex = -1 ∧
      (finish uninit next).2.2 = { next.2.2 with
        logChecked := if next.2.2.order = .asc then true else next.2.2.logChecked } := by
  by_cases found : next.1 = 0
  · rw [finish, if_pos found] at fails
    cases fails
  · rw [finish, if_neg found] at fails ⊢
    by_cases noRow : next.2.2.curDataIndex = -1
    · simp only [nextRow_noRow noRow] at fails ⊢
      by_cases logFound : (dueLog uninit .asc next.2.1 next.2.2).1 = 0
      · rw [if_pos logFound] at fails
        cases fails
      · rw [if_neg logFound]
        exact ⟨found, noRow, dueLog_fails logFound⟩
    · simp only [nextRow, if_pos noRow] at fails
      cases fails

theorem ended_of_files {before : Query α} {later : List (Block α)}
    (lands : LandsInFiles uninit range order db later before next.1 next.2.2)
    (ordered : before.order = order) (checked : order = .desc -> before.logChecked = true)
    (fails : (finish uninit next).1 = -1) : Ended (finish uninit next).2.2 := by
  obtain ⟨missed, noRow, result⟩ := finish_fails fails
  unfold LandsInFiles at lands
  split at lands
  · obtain ⟨-, place, -, -, file⟩ := lands
    obtain ⟨_, _, _, _, _, _, fields⟩ := place
    have direction : next.2.2.order = order := by
      rw [fields]
      exact ordered
    have finish' : next.2.2.endFileIndex = before.endFileIndex := by
      rw [fields]
    rw [result]
    refine ⟨noRow, ?_, ?_, ?_⟩
    · cases order with
      | asc => exact if_pos direction
      | desc =>
        simp only [direction, reduceCtorEq, if_false]
        rw [fields]
        exact checked rfl
    · intro ascending
      change next.2.2.order = .asc at ascending
      rw [direction] at ascending
      change next.2.2.endFileIndex < next.2.2.curFileIndex
      rw [file, finish', ascending]
      exact lt_add_one _
    · intro descending
      change next.2.2.order = .desc at descending
      rw [direction] at descending
      change next.2.2.curFileIndex = next.2.2.endFileIndex - 1
      rw [file, finish', descending]
      rfl
  · exact absurd lands.1 missed

variable {stops : List (Block α)}

theorem ended_of_last (readable : Readable codec db) (seeks : Seeks range order query) (behind : Behind db query stops)
    (lastRow : query.curDataIndex ≠ -1 ∧ query.curDataIndex = query.endDataIndex)
    (fails : (moveNext uninit codec db query).1 = -1) :
    Ended (moveNext uninit codec db query).2.2 := by
  rw [moveNext_of_noLog behind.noLog lastRow.1] at fails ⊢
  have direction := seeks.order
  cases behind with
  | ascFile later ordered unchecked ahead files =>
    rw [ordered] at direction
    subst direction
    exact ended_of_files (nextBlock_lands readable seeks ahead lastRow) ordered
      (fun descending => by cases descending) fails
  | descFile later ordered checked ahead =>
    rw [ordered] at direction
    subst direction
    exact ended_of_files (nextBlock_lands readable seeks ahead lastRow) ordered
      (fun _ => checked) fails
  | ascLog ordered checked block final file files =>
    have next := @nextBlock_ascLog _ uninit codec db _ ordered block final file files lastRow
    rw [next] at fails ⊢
    obtain ⟨-, noRow, result⟩ := finish_fails fails
    rw [result]
    refine ⟨noRow, if_pos ordered, ?_, ?_⟩
    · intro _
      change query.endFileIndex < query.curFileIndex + query.order.step
      rw [file, ordered]
      simp only [Order.step]
      omega
    · intro descending
      change query.order = .desc at descending
      rw [ordered] at descending
      cases descending
  | descLog ordered checked noFile files =>
    rw [ordered] at direction
    subst direction
    exact ended_of_files (nextBlock_descLog readable seeks noFile files lastRow) ordered
      (fun _ => checked) fails

theorem ended_of_opened (readable : Readable codec db) (opened : Opened range order query)
    (fails : (moveNext uninit codec db query).1 = -1) :
    Ended (moveNext uninit codec db query).2.2 := by
  have seeks := opened.seeks
  cases order with
  | asc =>
    have noLog : dueLog uninit .desc db query = (-1, query) :=
      dueLog_other (by rw [seeks.order]; simp)
    rw [moveNext_first noLog opened.noRow opened.noFile] at fails ⊢
    exact ended_of_files (firstFile_lands readable seeks opened.closed opened.noRow
      opened.noFile opened.files) seeks.order (fun descending => by cases descending) fails
  | desc =>
    have log := @dueLog_due _ uninit _ db _ seeks.order opened.unchecked
    cases passes : window uninit range (logBlock db) with
    | none =>
      rw [checkLog_of_skipped seeks passes] at log
      have logSeeks : Seeks range .desc { query with logChecked := true } :=
        ⟨seeks.start, seeks.finish, seeks.order⟩
      rw [moveNext_first log opened.noRow opened.noFile] at fails ⊢
      exact ended_of_files (firstFile_lands readable logSeeks opened.closed opened.noRow
        opened.noFile opened.files) seeks.order (fun _ => rfl) fails
    | some indexes =>
      rw [checkLog_of_passes seeks passes] at log
      unfold moveNext at fails
      simp only [log] at fails
      cases fails

theorem behind_of_lands {code : Int} {result : Query α}
    (lands : LandsNext uninit range order db stops code result) (found : code = 0) :
    Seeks range order result ∧ ∃ later, Behind db result later := by
  unfold LandsNext at lands
  split at lands
  · rw [lands] at found
    cases found
  · obtain ⟨-, base, buf, rfl, -, seeks, behind⟩ := lands
    exact ⟨⟨seeks.start, seeks.finish, seeks.order⟩, _, behind.withRows _ _ _ _ _⟩

theorem ended_of_comes_behind (count : Nat) : ∀ {db : Db α} {query : Query α}
    {stops : List (Block α)}, Readable codec db -> Seeks range order query ->
      Behind db query stops -> 0 ≤ query.curDataIndex -> Comes uninit codec rows count db query ->
      Ended (call uninit codec db query count).2.2 := by
  have inside : ∀ {db : Db α} {query : Query α} {stops : List (Block α)},
      Behind db query stops -> 0 ≤ query.curDataIndex -> query.curDataIndex ≠ query.endDataIndex ->
        moveNext uninit codec db query =
          (0, db, toRow query (query.curDataIndex + query.order.step)) :=
    fun behind nonneg notLast => moveNext_inside behind.noLog (by omega) notLast
  induction count with
  | zero =>
    intro db query stops readable seeks behind nonneg fails
    by_cases last : query.curDataIndex = query.endDataIndex
    · exact ended_of_last readable seeks behind ⟨by omega, last⟩ fails
    · rw [Comes, inside behind nonneg last] at fails
      cases fails
  | succ count ih =>
    intro db query stops readable seeks behind nonneg comes
    rw [call_succ]
    obtain ⟨found, onRow, later⟩ := comes
    by_cases last : query.curDataIndex = query.endDataIndex
    · have lands := @moveNext_last _ uninit _ _ _ _ _ readable seeks _ behind ⟨by omega, last⟩
      obtain ⟨nextSeeks, stops, nextBehind⟩ := behind_of_lands lands found
      exact ih (readable_moveNext readable) nextSeeks (Behind.moveNext nextBehind) onRow.1 later
    · rw [inside behind nonneg last] at onRow later ⊢
      exact ih readable ⟨seeks.start, seeks.finish, seeks.order⟩ (behind.toRow _) onRow.1 later

theorem ended_of_comes (readable : Readable codec db) (opened : Opened range order query)
    (finishes : order = .asc -> firstHit uninit range (stopsOf db order query) ≠ none ->
      query.endFileIndex + 1 ≠ -1) {count : Nat} (comes : Comes uninit codec rows count db query) :
    Ended (call uninit codec db query count).2.2 := by
  cases count with
  | zero => exact ended_of_opened readable opened comes
  | succ count =>
    rw [call_succ]
    obtain ⟨found, onRow, later⟩ := comes
    obtain ⟨seeks, stops, behind⟩ := behind_of_lands
      (moveNext_opened readable opened finishes) found
    exact ended_of_comes_behind count (readable_moveNext readable) seeks
      (Behind.moveNext behind) onRow.1 later

theorem moveNext_ended (ended : Ended query) (file : query.curFileIndex ≠ -1) :
    moveNext uninit codec db query = (-1, db, query) := by
  have noFirst : firstFile uninit codec db query = (-1, db, query) :=
    if_neg fun start => file start.2
  have noNext : nextBlock uninit codec db query = (-1, db, query) :=
    if_neg fun last => last.1 ended.noRow
  have noLog : ∀ order, dueLog uninit order db query = (-1, query) :=
    fun order => dueLog_checked ended.checked
  unfold moveNext
  simp only [noLog, noFirst, noNext, nextRow_noRow ended.noRow]
  rfl

section

variable (readable : Readable codec db) (seeks : Seeks range order query) (ended : Ended query)
  (noFile : query.curFileIndex = -1)
  (files : order.past query.startFileIndex query.endFileIndex = false)

include readable seeks ended noFile files

theorem moveNext_restarts : LandsInFiles uninit range order db
        (stopsTo db order (trailOf query) query.startFileIndex query.endFileIndex)
        (atFirstFile query) (firstFile uninit codec db query).1
        (firstFile uninit codec db query).2.2 ∧
      moveNext uninit codec db query = finish uninit (firstFile uninit codec db query) := by
  have firstSeeks : Seeks range order (atFirstFile query) :=
    ⟨seeks.start, seeks.finish, seeks.order⟩
  refine ⟨?_, moveNext_first (dueLog_checked ended.checked) ended.noRow noFile⟩
  rw [firstFile, if_pos ⟨ended.noRow, noFile⟩]
  refine searchFileIndex_lands readable firstSeeks fun past => ?_
  change order.past query.startFileIndex query.endFileIndex = true at past
  rw [files] at past
  cases past

theorem moveNext_restarts_fails_iff :
    (moveNext uninit codec db query).1 = -1 ↔ firstHit uninit range
        (stopsTo db order (trailOf query) query.startFileIndex query.endFileIndex) = none := by
  obtain ⟨lands, restart⟩ :=
    @moveNext_restarts _ uninit _ _ _ _ _ readable seeks ended noFile files
  rw [restart]
  constructor
  · intro fails
    have missed := (finish_fails fails).1
    unfold LandsInFiles at lands
    split at lands
    · assumption
    · exact absurd lands.1 missed
  · intro nothing
    unfold LandsInFiles at lands
    rw [nothing] at lands
    obtain ⟨missed, place, -⟩ := lands
    obtain ⟨_, _, _, _, _, _, fields⟩ := place
    refine finish_end missed ?_ ?_ <;> rw [fields]
    · exact ended.noRow
    · exact ended.checked

end

def Silent (uninit : Int) (range : Range) (db : Db α) : Prop :=
  ∀ entry ∈ db.written, entry.1 ≠ none -> window uninit range entry.2 = none

variable {block : Block α}
  {file : Int}

theorem indexFile_mem (member : block ∈ indexFile db file) :
    ∃ entry ∈ db.written, entry.1 = some file ∧ entry.2 = block := by
  obtain ⟨entry, inside, rfl⟩ := List.mem_map.mp member
  obtain ⟨written, own⟩ := List.mem_filter.mp inside
  exact ⟨entry, written, of_decide_eq_true own, rfl⟩

theorem fileStops_mem (steps : Nat) : ∀ {trail : Trail} {file : Int},
    block ∈ fileStops db order steps trail file ->
      ∃ entry ∈ db.written, entry.1 ≠ none ∧ entry.2 = block := by
  have stored : ∀ {file : Int}, block ∈ indexFile db file ->
      ∃ entry ∈ db.written, entry.1 ≠ none ∧ entry.2 = block := by
    intro file member
    obtain ⟨entry, written, own, same⟩ := indexFile_mem member
    exact ⟨entry, written, by rw [own]; simp, same⟩
  induction steps with
  | zero =>
    intro trail file member
    cases member
  | succ steps ih =>
    intro trail file member
    rcases List.mem_append.mp member with here | later
    · unfold blocksHere at here
      split at here
      · exact stored (mem_directed.mp here)
      · split at here
        · unfold staleBlock at here
          split at here
          · cases here
          · exact stored (List.mem_of_getElem? (Option.mem_toList.mp here))
        · cases here
    · exact ih later

theorem mem_fileStops (opened : file ∈ db.opened)
    (member : block ∈ indexFile db file) (steps : Nat) : ∀ {trail : Trail} {first : Int},
      OnWay order first steps file -> block ∈ fileStops db order steps trail first := by
  induction steps with
  | zero =>
    intro trail first onWay
    cases order <;> simp only [OnWay] at onWay <;> omega
  | succ steps ih =>
    intro trail first onWay
    rw [fileStops, List.mem_append]
    by_cases here : first = file
    · left
      rw [here, blocksHere, if_pos opened]
      exact mem_directed.mpr member
    · right
      apply ih
      cases order <;> simp only [OnWay, Order.step] at onWay ⊢ <;> omega

theorem firstHit_of_silent (silent : Silent uninit range db) (trail : Trail) (first final : Int) :
    firstHit uninit range (stopsTo db order trail first final) = none := by
  rw [firstHit_eq_none_iff]
  intro block member
  obtain ⟨entry, written, stored, rfl⟩ := fileStops_mem _ member
  exact silent entry written stored

theorem fails_of_ended (number : Nat) : ∀ {db : Db α} {query : Query α}, Readable codec db ->
    Seeks range order query -> Ended query ->
    order.past query.startFileIndex query.endFileIndex = false ->
    (query.curFileIndex = -1 -> Silent uninit range db) ->
      (call uninit codec db query number).1 = -1 := by
  induction number with
  | zero =>
    intro db query readable seeks ended files silent
    by_cases noFile : query.curFileIndex = -1
    · exact (moveNext_restarts_fails_iff readable seeks ended noFile files).mpr
        (firstHit_of_silent (silent noFile) _ _ _)
    · rw [call, moveNext_ended ended noFile]
  | succ number ih =>
    intro db query readable seeks ended files silent
    rw [call_succ]
    by_cases noFile : query.curFileIndex = -1
    · have fails := (@moveNext_restarts_fails_iff _ uninit _ _ _ _ _ readable seeks ended noFile
        files).mpr (firstHit_of_silent (silent noFile) _ _ _)
      have same := @fixed_moveNext _ uninit codec db query
      have nextSeeks := seeks_of_fixed seeks same
      obtain ⟨lands, restart⟩ :=
        @moveNext_restarts _ uninit _ _ _ _ _ readable seeks ended noFile files
      refine ih (readable_moveNext readable) nextSeeks ?_ ?_ fun _ => ?_
      · rw [restart] at fails ⊢
        exact ended_of_files lands seeks.order (fun _ => ended.checked) fails
      · simp only [fixed, Prod.mk.injEq] at same
        rw [same.2.2.2.1, same.2.2.2.2]
        exact files
      · rw [moveNext_db]
        split
        · exact silent noFile
        · exact silent noFile
    · rw [moveNext_ended ended noFile]
      exact ih readable seeks ended files silent

variable (stored : Stored α)

def stopsBetween (settings : Settings) (db : Db α) (range : Range) (order : Order) :
    List (Block α) :=
  match order with
  | .asc =>
    stopsTo db .asc none (fileOf settings.hours range.start) (fileOf settings.hours range.finish) ++
      [logBlock db]
  | .desc =>
    logBlock db :: stopsTo db .desc none (fileOf settings.hours range.finish)
      (fileOf settings.hours range.start)

/-- Repeated calls of `move_next` come to one that fails, after at most as many
successful ones as there are rows, each on one of the rows, and from there on all
calls fail. -/
def Exhausts (uninit startTime endTime : Int) (order : Order) : Prop :=
  ∃ query, openQuery stored.db startTime endTime order = some query ∧
    ∃ count ≤ stored.puts.length,
      (∀ number < count, (call uninit stored.codec stored.db query number).1 = 0 ∧
        OnRow stored.puts (call uninit stored.codec stored.db query number).2.2) ∧
      ∀ number, count ≤ number -> (call uninit stored.codec stored.db query number).1 = -1

/-- Every window that is met lies inside its block and ends behind its start, the
windows have at most as many rows as there are, and a descending query whose
range starts in file 0 meets no block of a file that passes. -/
structure Bounded (uninit : Int) (range : Range) (order : Order) : Prop where
  inside : ∀ block ∈ stopsBetween stored.new.settings stored.db range order,
    Inside uninit range block
  total : sizes uninit range (stopsBetween stored.new.settings stored.db range order) ≤
    stored.puts.length
  noRestart : order = .desc -> fileOf stored.new.settings.hours range.start = 0 ->
    Silent uninit range stored.db

variable {stored}

theorem skipped_of_outside (outside : Outside range block) : window uninit range block = none := by
  unfold Outside at outside
  by_cases ordered : block.startTimestamp ≤ block.endTimestamp
  · rw [window_eq uninit range ordered, if_pos (by omega)]
  · have type : getBlockType block.startTimestamp block.endTimestamp range.start range.finish =
        .none := if_pos (Or.inl (not_le.mp ordered))
    rw [window, type]
    rfl

theorem Stored.holds {entry : Option Int × Block α} (member : entry ∈ stored.db.written) :
    Holds stored.puts entry.2 :=
  ⟨(stored.accounts.blocks entry member).1, Stored.block_mem member⟩

theorem Stored.stops_holds
    (member : block ∈ stopsBetween stored.new.settings stored.db range order) :
    Holds stored.puts block := by
  have log : Holds stored.puts (logBlock stored.db) :=
    ⟨stored.accounts.logRows_length, Stored.log_mem⟩
  have inFiles : ∀ {first final : Int}, block ∈ stopsTo stored.db order none first final ->
      Holds stored.puts block := by
    intro first final inside
    obtain ⟨entry, written, -, rfl⟩ := fileStops_mem _ inside
    exact Stored.holds written
  cases order with
  | asc =>
    rcases List.mem_append.mp member with inside | isLog
    · exact inFiles inside
    · rw [List.mem_singleton.mp isLog]
      exact log
  | desc =>
    rcases List.mem_cons.mp member with rfl | inside
    · exact log
    · exact inFiles inside

theorem Stored.silent_of_negative (before : range.finish < 0) : Silent uninit range stored.db := by
  intro entry written _
  have nonneg := Stored.start_nonneg written
  exact skipped_of_outside (Or.inr (by omega))

/-- A search over all files of a range that finds nothing leaves no block that
passes. -/
theorem Stored.silent_of_missed {trail : Trail}
    (nothing : firstHit uninit range (stopsTo stored.db .desc trail
      (fileOf stored.new.settings.hours range.finish)
      (fileOf stored.new.settings.hours range.start)) = none) : Silent uninit range stored.db := by
  intro entry written inFile
  by_cases inside : InInterval stored.new.settings.hours range
      (fileOfEntry stored.new.settings.hours entry)
  · obtain ⟨file, own⟩ := Option.ne_none_iff_exists'.mp inFile
    obtain ⟨opened, same⟩ := stored.catalogued.entries entry written file own
    rw [same] at inside
    have listed : entry.2 ∈ indexFile stored.db file :=
      List.mem_map_of_mem (List.mem_filter.mpr ⟨written, decide_eq_true own⟩)
    refine firstHit_eq_none_iff.mp nothing _ (mem_fileStops opened listed _ ?_)
    obtain ⟨low, high⟩ := inside
    simp only [OnWay, distance, Order.step]
    omega
  · exact skipped_of_outside (outside_of_file stored.accounts written inside)

theorem Stored.finishes
    (stops : stopsOf stored.db order query = stopsBetween stored.new.settings stored.db range order)
    (finish : query.endFileIndex =
      if order = .asc then fileOf stored.new.settings.hours range.finish
      else fileOf stored.new.settings.hours range.start)
    (ascending : order = .asc) (hit : firstHit uninit range (stopsOf stored.db order query) ≠ none) :
    query.endFileIndex + 1 ≠ -1 := by
  intro before
  rw [if_pos ascending] at finish
  have negative : range.finish < 0 := by
    by_contra nonneg
    have := fileOf_nonneg stored.new.settings (not_lt.mp nonneg)
    omega
  subst ascending
  apply hit
  have log : window uninit range (logBlock stored.db) = none := by
    refine skipped_of_outside (Or.inr ?_)
    have nonneg := @Stored.logStart_nonneg _ stored
    change range.finish < stored.db.head.startTimestamp
    omega
  rw [stops, stopsBetween, firstHit_append, firstHit_of_silent (Stored.silent_of_negative negative)]
  simp only [firstHit, log]

theorem Stored.later_fail_iff (opened : Opened range order query) (start : query.startFileIndex =
      if order = .asc then fileOf stored.new.settings.hours range.start
      else fileOf stored.new.settings.hours range.finish)
    (finish : query.endFileIndex =
      if order = .asc then fileOf stored.new.settings.hours range.finish
      else fileOf stored.new.settings.hours range.start)
    (count : Nat)
    (stops : stopsOf stored.db order query = stopsBetween stored.new.settings stored.db range order)
    (reached : Comes uninit stored.codec stored.puts count stored.db query) :
    (∀ number, (call uninit stored.codec stored.db query (count + 1 + number)).1 = -1) ↔
      (order = .desc -> fileOf stored.new.settings.hours range.start = 0 ->
        Silent uninit range stored.db) := by
  have finishes := @Stored.finishes _ uninit _ _ _ stored stops finish
  have ended := ended_of_comes Stored.readable opened finishes reached
  have same := @fixed_call _ uninit stored.codec stored.db query count
  have seeks := seeks_of_fixed opened.seeks same
  simp only [fixed, Prod.mk.injEq] at same
  obtain ⟨-, -, sameOrder, sameStart, sameEnd⟩ := same
  have handle := @call_db _ uninit stored.codec stored.db query count
  have readable : Readable stored.codec (call uninit stored.codec stored.db query count).2.1 := by
    rcases handle with stays | moves
    · rw [stays]
      exact Stored.readable
    · rw [moves]
      exact Stored.readable.visited
  have files : order.past (call uninit stored.codec stored.db query count).2.2.startFileIndex
      (call uninit stored.codec stored.db query count).2.2.endFileIndex = false := by
    rw [sameStart, sameEnd]
    exact opened.files
  simp only [call_add]
  constructor
  · intro fails descending zero
    subst descending
    rw [if_neg (by simp)] at start finish
    have noFile := ended.exactly seeks.order
    rw [sameEnd, finish, zero] at noFile
    have missed := (moveNext_restarts_fails_iff readable seeks ended noFile files).mp (fails 0)
    rw [sameStart, sameEnd, start, finish] at missed
    have sameStops : ∀ {trail : Trail} {first final : Int},
        stopsTo (call uninit stored.codec stored.db query count).2.1 .desc trail first final =
          stopsTo stored.db .desc trail first final := by
      intro trail first final
      rcases handle with stays | moves
      · rw [stays]
      · rw [moves]
        exact fileStops_visited _ _ _
    rw [sameStops] at missed
    exact Stored.silent_of_missed missed
  · intro noRestart number
    refine fails_of_ended number readable seeks ended files fun noFile => ?_
    have silent : Silent uninit range stored.db := by
      cases order with
      | asc =>
        rw [if_pos rfl] at finish
        have beyond := ended.beyond seeks.order
        rw [noFile, sameEnd, finish] at beyond
        refine Stored.silent_of_negative ?_
        by_contra nonneg
        have := fileOf_nonneg stored.new.settings (not_lt.mp nonneg)
        omega
      | desc =>
        rw [if_neg (by simp)] at finish
        have exactly := ended.exactly seeks.order
        rw [noFile, sameEnd, finish] at exactly
        exact noRestart rfl (by omega)
    rcases handle with stays | moves
    · rw [stays]
      exact silent
    · rw [moves]
      exact silent

/-- Two rows of one hour with a gap, flushed together. -/
def apart : Stored Nat where
  new := QueryAnswer.oneHour.new
  byCol := QueryAnswer.oneHour.byCol
  codec := copyCodec
  writes := QueryAnswer.oneHour.writes
  lossless := fun _ => rfl
  puts := [⟨3600000, 7⟩, ⟨3600002, 8⟩]
  nonneg := by simp
  db :=
    { head := Interleaving.hourDb.head
      logData := [⟨3600000, 7⟩, ⟨3600002, 8⟩]
      curFileIndex := 1
      fd := some 1
      opened := [1]
      written := [(some 1, ⟨2, 3600000, 3600002, [⟨3600000, 7⟩, ⟨3600002, 8⟩]⟩)] }
  run := rfl

end QueryEnd

end Luomi.Edb.QueryEnd
