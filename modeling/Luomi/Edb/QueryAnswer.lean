import Luomi.Edb.Interleaving
import Luomi.Edb.Visits

/-!
# What a query returns

A drained query returns the rows its stops give.  These are the rows of its
range exactly if no block of file 0 has one, every stored block and the log
answer the range, an empty log lies outside it, and no block is read twice.
-/

namespace Luomi.Edb.QueryAnswer

open SortedWindow Database Bookkeeping Cursor CursorFrame Segment Landing Stops Drain FileLayout
open Visits Conservation

section Lists

variable {ι β : Type}

theorem length_flatMap_filter (list : List ι) (keep : ι -> Bool) (items : ι -> List β) :
    ((list.filter keep).flatMap items).length =
      (list.map fun item => if keep item then (items item).length else 0).sum := by
  induction list with
  | nil => rfl
  | cons item list ih =>
    cases kept : keep item with
    | true => simp [kept, ih]
    | false => simp [kept, ih]

variable {list : List ι}

theorem flatMap_filter_of_nil {keep : ι -> Bool} {items : ι -> List β}
    (nothing : ∀ item ∈ list, keep item = false -> items item = []) :
    (list.filter keep).flatMap items = list.flatMap items := by
  induction list with
  | nil => rfl
  | cons item list ih =>
    have rest := ih fun other member => nothing other (List.mem_cons_of_mem _ member)
    cases kept : keep item with
    | true => simp [kept, rest]
    | false =>
      have none' := nothing item List.mem_cons_self kept
      simp [kept, rest, none']

theorem eq_of_sum_ge {small large : ι -> Nat} (bounded : ∀ item ∈ list, small item ≤ large item)
    (enough : (list.map large).sum ≤ (list.map small).sum) :
    ∀ item ∈ list, small item = large item := by
  intro item member
  by_contra different
  have less : small item < large item := lt_of_le_of_ne (bounded item member) different
  have strict := List.sum_lt_sum small large bounded ⟨item, member, less⟩
  omega

theorem directed_flatMap (order : Order) (list : List ι) (items : ι -> List β) :
    (directed order list).flatMap (fun item => directed order (items item)) =
      directed order (list.flatMap items) := by
  cases order with
  | asc => rfl
  | desc =>
    simp only [directed, reduceCtorEq, if_false, List.reverse_flatMap]
    rfl

theorem length_directed_flatMap (order : Order) (list : List ι) (items : ι -> List β) :
    ((directed order list).flatMap items).length = (list.flatMap items).length := by
  rw [List.length_flatMap, List.length_flatMap]
  cases order with
  | asc => rfl
  | desc =>
    simp only [directed, reduceCtorEq, if_false, List.map_reverse]
    exact List.sum_reverse _

theorem mem_directed {order : Order} {item : ι} : item ∈ directed order list ↔ item ∈ list := by
  cases order with
  | asc => rfl
  | desc => exact List.mem_reverse

end Lists

section Answer

variable {α : Type} {uninit : Int} {range : Range} {order : Order} {settings : Settings}
  {codec : Codec α} {db : Db α} {rows : List (Row α)}

def given (uninit : Int) (range : Range) (order : Order) (block : Block α) : List (Row α) :=
  (emission uninit range order block).getD []

theorem emissions_eq_some_iff (stops : List (Block α)) (rows : List (Row α)) :
    emissions uninit range order stops = some rows ↔
      (∀ block ∈ stops, emission uninit range order block ≠ none) ∧
        rows = stops.flatMap (given uninit range order) := by
  induction stops generalizing rows with
  | nil => simp [emissions, eq_comm]
  | cons block stops ih =>
    rw [emissions]
    cases emits : emission uninit range order block with
    | none => simp [emits]
    | some here =>
      have own : given uninit range order block = here := by rw [given, emits]; rfl
      simp only [Option.bind_eq_bind, Option.bind_some, Option.bind_eq_some_iff, ih,
        List.forall_mem_cons, emits, List.flatMap_cons, own]
      constructor
      · rintro ⟨rest, ⟨all, restEq⟩, whole⟩
        rw [<- restEq]
        exact ⟨⟨Option.some_ne_none _, all⟩, (Option.some.inj whole).symm⟩
      · rintro ⟨⟨-, all⟩, rowsEq⟩
        exact ⟨_, ⟨all, rfl⟩, congrArg some rowsEq.symm⟩

theorem Recorded.given_of_answers {block : Block α} (recorded : Recorded block)
    (answers : Answers uninit range block) : emission uninit range order block ≠ none ∧
      given uninit range order block = directed order (rowsIn range block.rows) := by
  have emits := recorded.emission_of_answers order answers
  rw [given, emits]
  exact ⟨Option.some_ne_none _, rfl⟩

theorem Recorded.given_length {block : Block α} (recorded : Recorded block)
    (emits : emission uninit range order block ≠ none) :
    (given uninit range order block).length ≤ (rowsIn range block.rows).length ∧
      ((rowsIn range block.rows).length ≤ (given uninit range order block).length ->
        Answers uninit range block) := by
  obtain ⟨here, hereEq⟩ := Option.ne_none_iff_exists'.mp emits
  have own : given uninit range order block = here := by rw [given, hereEq]; rfl
  rw [own]
  exact recorded.emission_length hereEq

theorem Kept.rowsIn_eq (kept : Kept settings db rows) :
    rowsIn range rows = (db.written.flatMap fun entry => rowsIn range entry.2.rows) ++
      rowsIn range (logRows db) := by
  rw [<- kept.accounts.placed, rowsIn, between_append, between_flatMap]
  rfl

theorem regularStops_flatMap {β : Type} (settings : Settings) (range : Range) (db : Db α)
    (items : Block α -> List β) :
    (regularStops settings range db).flatMap items =
      (db.written.filter fun entry => entry.1 ≠ none ∧
        InInterval settings.hours range (fileOfEntry settings.hours entry)).flatMap
          fun entry => items entry.2 := by
  unfold regularStops blocksOf storedEntries
  rw [List.filter_filter, List.flatMap_map]
  congr 1
  refine List.filter_congr fun entry _ => ?_
  rw [Bool.eq_iff_iff]
  simp only [Bool.and_eq_true, decide_eq_true_eq]
  exact and_comm

structure Answerable (uninit : Int) (settings : Settings) (db : Db α) (range : Range)
    (order : Order) : Prop where
  notLost : ∀ entry ∈ db.written, entry.1 = none -> rowsIn range entry.2.rows = []
  blocks : ∀ entry ∈ db.written, entry.1 ≠ none -> Answers uninit range entry.2
  log : 0 < db.head.curRowCount -> Answers uninit range (logBlock db)
  emptyLog : db.head.curRowCount = 0 -> ¬ (range.start < 0 ∧ 0 < range.finish)
  onceRead : order = .desc -> db.head.curRowCount = 0 -> fileOf settings.hours range.start ≤ 0 ->
    ∀ block ∈ rereadBlock db, Outside range block

section

variable (kept : Kept settings db rows)
include kept

theorem Kept.logRows_of_empty (empty : db.head.curRowCount = 0) : logRows db = [] := by
  apply List.eq_nil_of_length_eq_zero
  rw [kept.accounts.logRows_length, empty]

theorem Kept.emptyLog_emission (empty : db.head.curRowCount = 0) :
    emission uninit range order (logBlock db) =
      if range.start < 0 ∧ 0 < range.finish then none else some [] := by
  rw [emission, kept.emptyLog_window empty]
  by_cases passes : range.start < 0 ∧ 0 < range.finish
  · simp only [if_pos passes]
    rfl
  · simp only [if_neg passes]

theorem Kept.log_given (answerable : Answerable uninit settings db range order) :
    emission uninit range order (logBlock db) ≠ none ∧
      given uninit range order (logBlock db) = directed order (rowsIn range (logRows db)) := by
  by_cases some' : 0 < db.head.curRowCount
  · exact Recorded.given_of_answers (kept.log_recorded some') (answerable.log some')
  · have empty : db.head.curRowCount = 0 := by omega
    have emits := @Kept.emptyLog_emission _ uninit range order _ _ _ kept empty
    rw [if_neg (answerable.emptyLog empty)] at emits
    rw [given, emits, Kept.logRows_of_empty kept empty]
    refine ⟨Option.some_ne_none _, ?_⟩
    cases order <;> rfl

theorem emissions_of_answerable
    (answerable : Answerable uninit settings db range order) {stops again : List (Block α)}
    (stopsEq : stops = directed order (regularStops settings range db ++ [logBlock db]) ++ again)
    (againMember : ∀ block ∈ again, order = .desc ∧ db.head.curRowCount = 0 ∧
      fileOf settings.hours range.start ≤ 0 ∧ block ∈ rereadBlock db ∧
      block ∈ regularStops settings range db) :
    emissions uninit range order stops = some (directed order (rowsIn range rows)) := by
  have regular : ∀ block ∈ regularStops settings range db,
      emission uninit range order block ≠ none ∧
        given uninit range order block = directed order (rowsIn range block.rows) := by
    intro block member
    obtain ⟨entry, written, stored, -, rfl⟩ := blocksOf_mem.mp member
    exact Recorded.given_of_answers (kept.recorded written) (answerable.blocks entry written stored)
  have visited : ∀ block ∈ regularStops settings range db ++ [logBlock db],
      emission uninit range order block ≠ none ∧
        given uninit range order block = directed order (rowsIn range block.rows) := by
    intro block member
    rcases List.mem_append.mp member with inFile | log
    · exact regular block inFile
    · rw [List.mem_singleton.mp log]
      exact Kept.log_given kept answerable
  have nothing : again.flatMap (given uninit range order) = [] := by
    rw [List.flatMap_eq_nil_iff]
    intro block member
    obtain ⟨descending, empty, low, reread, inFile⟩ := againMember block member
    obtain ⟨entry, written, -, -, rfl⟩ := blocksOf_mem.mp inFile
    rw [(regular _ inFile).2, (kept.recorded written).rowsIn_eq_nil_of_outside
      (answerable.onceRead descending empty low _ reread)]
    cases order <;> rfl
  rw [emissions_eq_some_iff, stopsEq, List.flatMap_append, nothing, List.append_nil]
  refine ⟨?_, ?_⟩
  · intro block member
    rcases List.mem_append.mp member with first | more
    · exact (visited block (mem_directed.mp first)).1
    · exact (regular block (againMember block more).2.2.2.2).1
  · have sameGiven : (directed order (regularStops settings range db ++ [logBlock db])).flatMap
        (given uninit range order) =
        (directed order (regularStops settings range db ++ [logBlock db])).flatMap
          fun block => directed order (rowsIn range block.rows) :=
      List.flatMap_congr fun block member => (visited block (mem_directed.mp member)).2
    rw [sameGiven, directed_flatMap, List.flatMap_append, regularStops_flatMap, Kept.rowsIn_eq kept,
      flatMap_filter_of_nil]
    · simp [logBlock]
    · intro entry written elsewhere
      rw [decide_eq_false_iff_not] at elsewhere
      by_cases stored : entry.1 = none
      · exact answerable.notLost entry written stored
      · exact (kept.recorded written).rowsIn_eq_nil_of_outside
          (kept.outside_of_file written fun inside => elsewhere ⟨stored, inside⟩)

/-- Stops that give the rows of the range, each of them once, leave no room for a
block that does not answer. -/
theorem answerable_of_emissions (distinct : rows.Nodup) {stops again : List (Block α)}
    (stopsEq : stops = directed order (regularStops settings range db ++ [logBlock db]) ++ again)
    (againMember : ∀ block ∈ again, order = .desc ∧ db.head.curRowCount = 0 ∧
      fileOf settings.hours range.start ≤ 0 ∧ block ∈ rereadBlock db ∧
      block ∈ regularStops settings range db)
    (againAll : order = .desc -> db.head.curRowCount = 0 -> fileOf settings.hours range.start ≤ 0 ->
        ∀ block ∈ rereadBlock db, ¬ Outside range block -> block ∈ again)
    (emits : emissions uninit range order stops = some (directed order (rowsIn range rows))) :
    Answerable uninit settings db range order := by
  obtain ⟨all, rowsEq⟩ := (emissions_eq_some_iff _ _).mp emits
  rw [stopsEq, List.flatMap_append] at rowsEq
  have regularEmits : ∀ block ∈ regularStops settings range db ++ [logBlock db],
      emission uninit range order block ≠ none := by
    intro block member
    refine all block ?_
    rw [stopsEq]
    exact List.mem_append_left _ (mem_directed.mpr member)
  -- no row is returned twice, so a block that is read again gives nothing
  have once : (directed order (rowsIn range rows)).Nodup := by
    have inRange : (rowsIn range rows).Nodup := distinct.filter _
    cases order with
    | asc => exact inRange
    | desc => exact List.nodup_reverse.mpr inRange
  rw [rowsEq, List.nodup_append] at once
  have silent : ∀ block ∈ again, given uninit range order block = [] := by
    intro block member
    rw [List.eq_nil_iff_forall_not_mem]
    intro row inside
    have regular := (againMember block member).2.2.2.2
    have first : row ∈ (directed order (regularStops settings range db ++ [logBlock db])).flatMap
        (given uninit range order) :=
      List.mem_flatMap.mpr ⟨block, mem_directed.mpr (List.mem_append_left _ regular), inside⟩
    exact once.2.2 row first row (List.mem_flatMap.mpr ⟨block, member, inside⟩) rfl
  rw [(List.flatMap_eq_nil_iff.mpr silent), List.append_nil] at rowsEq
  -- the rows that are given are as many as the rows in the range
  have count := congrArg List.length rowsEq
  rw [directed_length, Kept.rowsIn_eq kept, length_directed_flatMap, List.flatMap_append,
    regularStops_flatMap,
    List.length_append, List.length_append, length_flatMap_filter, List.length_flatMap,
    List.flatMap_singleton] at count
  have logCount : (given uninit range order (logBlock db)).length ≤
      (rowsIn range (logRows db)).length := by
    by_cases some' : 0 < db.head.curRowCount
    · exact (Recorded.given_length (kept.log_recorded some') (regularEmits _ (by simp))).1
    · have emitsLog := @Kept.emptyLog_emission _ uninit range order _ _ _ kept (by omega)
      rw [given, emitsLog]
      split <;> exact Nat.zero_le _
  have bounded : ∀ entry ∈ db.written,
      (if decide (entry.1 ≠ none ∧
          InInterval settings.hours range (fileOfEntry settings.hours entry)) = true
        then (given uninit range order entry.2).length else 0) ≤
        (rowsIn range entry.2.rows).length := by
    intro entry written
    split
    · rename_i visited
      rw [decide_eq_true_eq] at visited
      refine (Recorded.given_length (kept.recorded written) (regularEmits _ ?_)).1
      exact List.mem_append_left _ (blocksOf_mem.mpr ⟨entry, written, visited.1, visited.2, rfl⟩)
    · exact Nat.zero_le _
  have total := List.sum_le_sum bounded
  have same := eq_of_sum_ge bounded (by omega)
  have blocks : ∀ entry ∈ db.written, entry.1 ≠ none -> Answers uninit range entry.2 := by
    intro entry written stored
    by_cases inside : InInterval settings.hours range (fileOfEntry settings.hours entry)
    · have equal := same entry written
      rw [if_pos (decide_eq_true ⟨stored, inside⟩)] at equal
      refine (Recorded.given_length (kept.recorded written) (regularEmits _ ?_)).2
        (le_of_eq equal.symm)
      exact List.mem_append_left _ (blocksOf_mem.mpr ⟨entry, written, stored, inside, rfl⟩)
    · exact Or.inl (kept.outside_of_file written inside)
  refine ⟨?_, blocks, ?_, ?_, ?_⟩
  · intro entry written lost
    have equal := same entry written
    rw [if_neg (by simp [lost])] at equal
    exact List.eq_nil_of_length_eq_zero equal.symm
  · intro some'
    refine (Recorded.given_length (kept.log_recorded some') (regularEmits _ (by simp))).2 ?_
    change (rowsIn range (logRows db)).length ≤ _
    omega
  · intro empty passes
    have emitsLog := @Kept.emptyLog_emission _ uninit range order _ _ _ kept empty
    rw [if_pos passes] at emitsLog
    exact regularEmits (logBlock db) (by simp) emitsLog
  · intro descending empty low block reread
    by_contra inside
    have member := againAll descending empty low block reread inside
    obtain ⟨entry, written, stored, -, rfl⟩ :=
      blocksOf_mem.mp (againMember block member).2.2.2.2
    have answers := blocks entry written stored
    have rowsEq := (@Recorded.given_of_answers _ _ _ order _ (kept.recorded written) answers).2
    rw [silent _ member] at rowsEq
    have none' : rowsIn range entry.2.rows = [] := by
      apply List.eq_nil_of_length_eq_zero
      rw [<- directed_length order, <- rowsEq, List.length_nil]
    rcases answers with outside | ⟨-, -, some', -⟩
    · exact inside outside
    · exact some' none'

end

/-- Rows marked with the number of their put, so that equal rows can be told
apart. -/
def numbered (puts : List (Row α)) : List (Row (Nat × α)) :=
  puts.mapIdx fun number row => ⟨row.timestamp, (number, row.data)⟩

/-- A database in column layout after a run of `put_db` under a clock that does
not run backwards, with a lossless codec. -/
structure Recording (α : Type) where
  new : NewDb
  byCol : new.head.storeType = .byCol
  codec : Codec (Nat × α)
  writes : new.args.compressType ≠ .taosTwoStep
  lossless : ∀ rows, codec.restored new.args.compressType rows = rows
  puts : List (Row α)
  clocked : Clocked (numbered puts)
  db : Db (Nat × α)
  run : putAll codec (openDb new.head) (numbered puts) = some db

/-- A query drained by `move_next` returns exactly the rows of its range in its
order. -/
def Answered (recording : Recording α) (uninit : Int) (range : Range) (order : Order) : Prop :=
  ∃ query, openQuery recording.db range.start range.finish order = some query ∧
    Drains uninit recording.codec recording.db query
      ((directed order (rowsIn range (numbered recording.puts))).map some)

theorem numbered_nodup (puts : List (Row α)) : (numbered puts).Nodup := by
  rw [List.nodup_iff_injective_getElem]
  intro left right same
  have numbers := congrArg (fun row => row.data.1) same
  simp only [numbered, List.getElem_mapIdx] at numbers
  exact Fin.ext numbers

theorem Recording.kept (recording : Recording α) :
    Kept recording.new.settings recording.db (numbered recording.puts) := by
  have writes : recording.new.settings.compressType ≠ .taosTwoStep := recording.writes
  have settled := putAll_settled writes _ recording.new.settled recording.run
  have laid := putAll_laid writes _ recording.new.settled recording.clocked
    ⟨rfl, Or.inl rfl, by simp [openDb], by simp [openDb]⟩ recording.run
  exact ⟨settled.accounts, recording.clocked, laid⟩

theorem Recording.readable (recording : Recording α) : Readable recording.codec recording.db := by
  have kept := recording.kept
  have type : recording.db.head.compressType = recording.new.args.compressType :=
    kept.accounts.uses.compressType
  refine kept.readable fun rows => ?_
  rw [type]
  exact recording.lossless rows

theorem Kept.finishes (kept : Kept settings db rows) {query : Query α} (ascending : order = .asc)
    (finish : query.endFileIndex = (if order = .asc then fileOf settings.hours range.finish
        else fileOf settings.hours range.start))
    {again : List (Block α)} (stopsEq : stopsOf db order query =
      directed order (regularStops settings range db ++ [logBlock db]) ++ again)
    (noAgain : again = []) (hit : firstHit uninit range (stopsOf db order query) ≠ none) :
    query.endFileIndex + 1 ≠ -1 := by
  intro before
  subst ascending
  rw [if_pos rfl] at finish
  have negative : range.finish < 0 := by
    by_contra nonneg
    have := fileOf_nonneg settings (not_lt.mp nonneg)
    omega
  have nothing : regularStops settings range db = [] := by
    rw [List.eq_nil_iff_forall_not_mem]
    intro block member
    obtain ⟨entry, written, -, inside, -⟩ := blocksOf_mem.mp member
    have nonneg := Accounts.file_nonneg kept.accounts kept.clocked written
    have high := inside.2
    omega
  have skipped : window uninit range (logBlock db) = none := by
    by_cases some' : 0 < db.head.curRowCount
    · obtain ⟨row, logged, time⟩ := Framed.start_mem (kept.accounts.fullLog some')
      have nonneg := Accounts.log_nonneg kept.accounts kept.clocked row logged
      have start : (logBlock db).startTimestamp = db.head.startTimestamp := rfl
      rw [window_eq uninit range (kept.log_recorded some').ordered, if_pos]
      omega
    · rw [kept.emptyLog_window (by omega), if_neg]
      omega
  apply hit
  rw [stopsEq, nothing, noAgain]
  simp [directed, firstHit, skipped]

def oneHour : Recording Nat where
  new := { Interleaving.hourDb with cachePos := by decide }
  byCol := rfl
  codec := copyCodec
  writes := by simp [Interleaving.hourDb]
  lossless := fun _ => rfl
  puts := [⟨3600000, 7⟩, ⟨3600001, 8⟩]
  clocked := by
    refine ⟨?_, ?_⟩ <;> simp [numbered, Ascending]
  db :=
    { head := Interleaving.hourDb.head
      logData := [⟨3600000, 0, 7⟩, ⟨3600001, 1, 8⟩]
      curFileIndex := 1
      fd := some 1
      opened := [1]
      written := [(some 1, ⟨2, 3600000, 3600001, [⟨3600000, 0, 7⟩, ⟨3600001, 1, 8⟩]⟩)] }
  run := rfl

end Answer

end Luomi.Edb.QueryAnswer
