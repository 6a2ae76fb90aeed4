import Luomi.Edb.FileLayout

/-!
# The stops of a query in a laid out database

The stops are the stored blocks of the file interval in the order of the query.
A descending query of an empty log has one more: behind the file interval above
0 it reads the second block of the last file it was in once again.
-/

namespace Luomi.Edb.Visits

open SortedWindow Database Bookkeeping Cursor CursorFrame Segment Landing Stops Drain FileLayout

section Visits

variable {α : Type}

def storedEntries (db : Db α) : List (Option Int × Block α) :=
  db.written.filter fun entry => entry.1 ≠ none

def blocksOf (hours : Nat) (db : Db α) (files : Int -> Prop) [DecidablePred files] :
    List (Block α) :=
  ((storedEntries db).filter fun entry => files (fileOfEntry hours entry)).map Prod.snd

def OnWay (order : Order) (file : Int) (steps : Nat) (other : Int) : Prop :=
  match order with
  | .asc => file ≤ other ∧ other < file + steps
  | .desc => file - steps < other ∧ other ≤ file

instance (order : Order) (file : Int) (steps : Nat) : DecidablePred (OnWay order file steps) := by
  intro other
  unfold OnWay
  cases order <;> infer_instance

def firstStored (db : Db α) : Option Int := (storedEntries db).head?.bind Prod.fst

/-- The block a descending query reads again: the second one of the first file. -/
def rereadBlock (db : Db α) : List (Block α) :=
  match firstStored db with
  | none => []
  | some file => (indexFile db file)[1]?.toList

variable {settings : Settings} {codec : Codec α} {db : Db α} {rows : List (Row α)}

/-- A database whose blocks are in their files in the order of their puts. -/
structure Kept (settings : Settings) (db : Db α) (rows : List (Row α)) : Prop where
  accounts : Accounts settings db rows
  clocked : Clocked rows
  laid : Laid settings db

variable {entry : Option Int × Block α}

section

variable (kept : Kept settings db rows)
include kept

variable {file : Int}

theorem Kept.entry_eq_some (member : entry ∈ db.written) :
    entry.1 = some file ↔ fileOfEntry settings.hours entry = file ∧ file ≠ 0 := by
  rw [kept.laid.entries entry member, descriptorOf_eq_some]

theorem Kept.entry_ne_none (member : entry ∈ db.written) :
    entry.1 ≠ none ↔ fileOfEntry settings.hours entry ≠ 0 := by
  rw [kept.laid.entries entry member]
  unfold descriptorOf
  split <;> simp_all

theorem Kept.sorted : Ascending (fileOfEntry settings.hours) (storedEntries db) := by
  refine List.Pairwise.filter _ ?_
  refine (inOrder_of_clocked kept.accounts kept.clocked).apart.imp_of_mem ?_
  intro early late earlyMember lateMember apart
  obtain ⟨row, inside, time⟩ := Framed.start_mem (kept.accounts.blocks early earlyMember).2.2
  obtain ⟨other, lateInside, lateTime⟩ :=
    Framed.start_mem (kept.accounts.blocks late lateMember).2.2
  refine fileOf_mono settings ?_
  rw [<- time, <- lateTime]
  exact apart row inside other lateInside

theorem Kept.indexFile_eq (file : Int) :
    indexFile db file = blocksOf settings.hours db fun other => other = file := by
  unfold indexFile blocksOf storedEntries
  rw [List.filter_filter]
  congr 1
  refine List.filter_congr fun entry member => ?_
  rw [Bool.eq_iff_iff]
  simp only [decide_eq_true_eq, Bool.and_eq_true, kept.entry_ne_none member,
    kept.entry_eq_some member]
  constructor
  · rintro ⟨same, notZero⟩
    exact ⟨same, by rw [same]; exact notZero⟩
  · rintro ⟨same, notZero⟩
    exact ⟨same, by rw [<- same]; exact notZero⟩

theorem Kept.opened_pos (opened : file ∈ db.opened) : 0 < file := by
  obtain ⟨entry, member, own⟩ := (kept.laid.opened file).mp opened
  obtain ⟨same, notZero⟩ := (kept.entry_eq_some member).mp own
  have nonneg := Accounts.file_nonneg kept.accounts kept.clocked member
  omega

theorem Kept.indexFile_eq_nil_iff (file : Int) : indexFile db file = [] ↔ file ∉ db.opened := by
  unfold indexFile
  rw [kept.laid.opened file, List.map_eq_nil_iff, List.filter_eq_nil_iff]
  constructor
  · rintro none' ⟨entry, member, own⟩
    exact none' entry member (decide_eq_true own)
  · intro closed entry member own
    exact closed ⟨entry, member, of_decide_eq_true own⟩

end

theorem logFile_eq (accounts : Accounts settings db rows) :
    logFile db = fileOf settings.hours db.head.startTimestamp := by
  rw [logFile, accounts.uses.hours]
  rfl

variable {file : Int}

theorem Kept.log_above (kept : Kept settings db rows) (some' : 0 < db.head.curRowCount) (opened : file ∈ db.opened) : file ≤ logFile db := by
  obtain ⟨entry, member, own⟩ := (kept.laid.opened file).mp opened
  rw [<- ((kept.entry_eq_some member).mp own).1, logFile_eq kept.accounts]
  exact Accounts.file_le_log kept.accounts kept.clocked some' member

theorem Kept.logFile_nonneg (kept : Kept settings db rows) : 0 ≤ logFile db := by
  rw [logFile_eq kept.accounts]
  refine fileOf_nonneg settings ?_
  by_cases some' : 0 < db.head.curRowCount
  · obtain ⟨row, logged, time⟩ := Framed.start_mem (kept.accounts.fullLog some')
    rw [<- time]
    exact Accounts.log_nonneg kept.accounts kept.clocked row logged
  · rw [(kept.accounts.emptyLog (by omega)).1]

theorem Kept.readable (kept : Kept settings db rows) (lossless : Lossless codec db) :
    Readable codec db where
  lossless := lossless
  counts := fun entry member => (kept.accounts.blocks entry member).1
  filled := fun file opened empty => (kept.indexFile_eq_nil_iff file).mp empty opened
  files := fun file opened => by
    have := kept.opened_pos opened
    omega
  logFile := by
    have := kept.logFile_nonneg
    omega

theorem directed_append {β : Type} (left right : List β) :
    directed .asc (left ++ right) = directed .asc left ++ directed .asc right ∧
      directed .desc (left ++ right) = directed .desc right ++ directed .desc left :=
  ⟨rfl, List.reverse_append⟩

variable {files : Int -> Prop}

theorem blocksOf_congr (hours : Nat) (db : Db α) {others : Int -> Prop}
    [DecidablePred files] [DecidablePred others] (same : ∀ file, files file ↔ others file) :
    blocksOf hours db files = blocksOf hours db others := by
  unfold blocksOf
  congr 1
  refine List.filter_congr fun entry _ => ?_
  rw [Bool.eq_iff_iff, decide_eq_true_eq, decide_eq_true_eq]
  exact same _

theorem Kept.blocksOf_append (kept : Kept settings db rows) (early late : Int -> Prop)
    [DecidablePred early] [DecidablePred late]
    (apart : ∀ left right, early left -> late right -> left < right) :
    blocksOf settings.hours db early ++ blocksOf settings.hours db late =
      blocksOf settings.hours db fun file => early file ∨ late file := by
  unfold blocksOf
  rw [<- List.map_append, filter_append_filter kept.sorted early late apart]

theorem Kept.directed_step (kept : Kept settings db rows) (order : Order) (file : Int)
    (steps : Nat) : directed order (indexFile db file) ++
        directed order (blocksOf settings.hours db (OnWay order (file + order.step) steps)) =
      directed order (blocksOf settings.hours db (OnWay order file (steps + 1))) := by
  rw [kept.indexFile_eq]
  cases order with
  | asc =>
    rw [<- (directed_append _ _).1, kept.blocksOf_append]
    · refine congrArg _ (blocksOf_congr _ _ fun other => ?_)
      simp only [OnWay, Order.step]
      omega
    · intro left right same onWay
      simp only [OnWay, Order.step] at onWay
      omega
  | desc =>
    rw [<- (directed_append _ _).2, kept.blocksOf_append]
    · refine congrArg _ (blocksOf_congr _ _ fun other => ?_)
      simp only [OnWay, Order.step]
      omega
    · intro left right onWay same
      simp only [OnWay, Order.step] at onWay
      omega

theorem blocksOf_none (hours : Nat) (db : Db α) (order : Order) (file : Int) :
    blocksOf hours db (OnWay order file 0) = [] := by
  unfold blocksOf
  rw [List.map_eq_nil_iff, List.filter_eq_nil_iff]
  intro entry _
  rw [decide_eq_true_eq]
  cases order <;> simp only [OnWay] <;> omega

/-- A search that never reads at a trail meets the blocks of the files on its
way. -/
theorem Kept.fileStops_quiet (kept : Kept settings db rows) {order : Order}
    (quiet : Trail -> Int -> Prop)
    (here : ∀ trail file, quiet trail file -> file ∉ db.opened -> file = logFile db ->
      staleBlock db trail = []) (next : ∀ trail file, quiet trail file ->
      quiet (trailBehind db order trail file) (file + order.step)) (steps : Nat) :
    ∀ {trail : Trail} {file : Int}, quiet trail file -> fileStops db order steps trail file =
      directed order (blocksOf settings.hours db (OnWay order file steps)) := by
  induction steps with
  | zero =>
    intro trail file _
    rw [blocksOf_none]
    cases order <;> rfl
  | succ steps ih =>
    intro trail file isQuiet
    have own : blocksHere db order trail file = directed order (indexFile db file) := by
      unfold blocksHere
      split
      · rfl
      · rename_i closed
        rw [(kept.indexFile_eq_nil_iff file).mpr closed]
        have nothing : directed order ([] : List (Block α)) = [] := by cases order <;> rfl
        rw [nothing]
        split
        · rename_i isLog
          exact here trail file isQuiet closed isLog
        · rfl
    rw [fileStops, own, ih (next trail file isQuiet), kept.directed_step]

theorem staleBlock_readPos (db : Db α) {position : Nat}
    (beyond : (indexFile db file).length ≤ position + 1) :
    staleBlock db (some (file, readPos (indexFile db file) position)) = [] := by
  have none' : (indexFile db file)[readPos (indexFile db file) position]? = none := by
    rw [List.getElem?_eq_none_iff]
    unfold readPos
    split <;> omega
  simp only [staleBlock, none', Option.toList_none]

theorem Kept.fileStops_asc (kept : Kept settings db rows) (file : Int) (steps : Nat) :
    fileStops db .asc steps none file = blocksOf settings.hours db (OnWay .asc file steps) := by
  refine kept.fileStops_quiet (fun trail _ => staleBlock db trail = [])
    (fun _ _ quiet _ _ => quiet) ?_ steps rfl
  intro trail other quiet
  unfold trailBehind
  split
  · have last := lastEntry_bounds db other
    refine staleBlock_readPos db ?_
    simp only [finalEntry]
    omega
  · split
    · cases trail with
      | none => rfl
      | some left =>
        refine staleBlock_readPos db ?_
        simp only [staleBlock, Option.toList_eq_nil_iff, List.getElem?_eq_none_iff] at quiet
        omega
    · exact quiet

/-- A descending query of a log with rows passes the file of the log before any
other. -/
theorem Kept.fileStops_desc_log (kept : Kept settings db rows) (some' : 0 < db.head.curRowCount)
    (file : Int) (steps : Nat) : fileStops db .desc steps none file =
      (blocksOf settings.hours db (OnWay .desc file steps)).reverse := by
  refine kept.fileStops_quiet
    (fun trail other => logFile db ∈ db.opened ∨ other < logFile db ∨ trail = none) ?_ ?_ steps
    (Or.inr (Or.inr rfl))
  · rintro trail other (opened | below | none') closed isLog
    · exact absurd (isLog ▸ opened) closed
    · omega
    · rw [none']
      rfl
  · rintro trail other (opened | below | none')
    · exact Or.inl opened
    · right
      left
      simp only [Order.step]
      omega
    · subst none'
      unfold trailBehind
      split
      · rename_i opened
        rcases lt_or_eq_of_le (kept.log_above some' opened) with below | same
        · right
          left
          simp only [Order.step]
          omega
        · left
          rw [<- same]
          exact opened
      · split <;> exact Or.inr (Or.inr rfl)

/-- The trail with which a descending query comes to file 0. -/
def trailAtZero (db : Db α) (trail : Trail) (file : Int) : Trail :=
  match firstStored db with
  | none => trail
  | some first => if first ≤ file then some (first, 1) else trail

theorem Kept.firstStored_le (kept : Kept settings db rows) (opened : file ∈ db.opened)
    : ∃ first, firstStored db = some first ∧ first ≤ file ∧ first ∈ db.opened := by
  obtain ⟨entry, member, own⟩ := (kept.laid.opened file).mp opened
  have stored : entry ∈ storedEntries db := by
    rw [storedEntries, List.mem_filter, decide_eq_true_eq, own]
    exact ⟨member, by simp⟩
  have sorted := kept.sorted
  unfold firstStored
  cases entries : storedEntries db with
  | nil =>
    rw [entries] at stored
    cases stored
  | cons head later =>
    rw [entries] at stored sorted
    have headMember : head ∈ storedEntries db := by
      rw [entries]
      exact List.mem_cons_self
    obtain ⟨written, notNone⟩ := List.mem_filter.mp headMember
    rw [decide_eq_true_eq] at notNone
    obtain ⟨first, firstEq⟩ := Option.ne_none_iff_exists'.mp notNone
    refine ⟨first, firstEq, ?_, (kept.laid.opened first).mpr ⟨head, written, firstEq⟩⟩
    rw [<- ((kept.entry_eq_some written).mp firstEq).1, <- ((kept.entry_eq_some member).mp own).1]
    rcases List.mem_cons.mp stored with rfl | later
    · exact le_rfl
    · exact (List.pairwise_cons.mp sorted).1 entry later

/-- A descending query of an empty log reads once more where it is at file 0. -/
theorem Kept.fileStops_desc_empty (kept : Kept settings db rows) (empty : db.head.curRowCount = 0)
    (steps : Nat) : ∀ {trail : Trail} {file : Int},
    fileStops db .desc steps trail file =
      (blocksOf settings.hours db (OnWay .desc file steps)).reverse ++
        if file < steps ∧ 0 ≤ file then staleBlock db (trailAtZero db trail file) else [] := by
  have logFileEq : logFile db = 0 := by
    rw [logFile_eq kept.accounts, (kept.accounts.emptyLog empty).1]
    simp [fileOf]
  induction steps with
  | zero =>
    intro trail file
    rw [blocksOf_none, if_neg (by omega)]
    rfl
  | succ steps ih =>
    intro trail file
    have step := kept.directed_step .desc file steps
    simp only [directed, reduceCtorEq, if_false] at step
    rw [fileStops, ih, <- step, <- List.append_assoc]
    unfold blocksHere trailBehind
    have nextFile : file + Order.step .desc = file - 1 := rfl
    rw [nextFile]
    by_cases opened : file ∈ db.opened
    · have positive := kept.opened_pos opened
      obtain ⟨first, firstEq, below, -⟩ := kept.firstStored_le opened
      have filled := List.length_pos_of_ne_nil
        (fun none' => (kept.indexFile_eq_nil_iff file).mp none' opened)
      have sameTrail : trailAtZero db (some (file, readPos (indexFile db file)
          (finalEntry db .desc file))) (file - 1) = trailAtZero db trail file := by
        have position : readPos (indexFile db file) (finalEntry db .desc file) = 1 :=
          if_pos filled
        simp only [trailAtZero, firstEq, if_pos below, position]
        split
        · rfl
        · rw [show first = file by omega]
      rw [if_pos opened, if_pos opened, sameTrail]
      simp only [directed, reduceCtorEq, if_false]
      congr 1
      by_cases within : file < ((steps + 1 : Nat) : Int) ∧ 0 ≤ file
      · rw [if_pos within, if_pos (by omega)]
      · rw [if_neg within, if_neg (by omega)]
    · have nothing := (kept.indexFile_eq_nil_iff file).mpr opened
      rw [if_neg opened, if_neg opened, logFileEq, nothing, List.reverse_nil, List.nil_append]
      by_cases zero : file = 0
      · subst zero
        have below : blocksOf settings.hours db (OnWay .desc (0 - 1) steps) = [] := by
          unfold blocksOf
          rw [List.map_eq_nil_iff, List.filter_eq_nil_iff]
          intro entry member
          have nonneg := Accounts.file_nonneg kept.accounts kept.clocked
            (List.mem_of_mem_filter member)
          rw [decide_eq_true_eq]
          simp only [OnWay]
          omega
        have sameTrail : trailAtZero db trail 0 = trail := by
          unfold trailAtZero
          cases first : firstStored db with
          | none => rfl
          | some file =>
            refine if_neg (not_le_of_gt ?_)
            obtain ⟨entry, head, own⟩ := Option.bind_eq_some_iff.mp first
            have member := List.mem_of_mem_filter (List.mem_of_mem_head? head)
            exact kept.opened_pos ((kept.laid.opened file).mpr ⟨entry, member, own⟩)
        rw [if_pos rfl, if_pos rfl, below, sameTrail, if_neg (by omega), if_pos (by omega)]
        simp
      · have sameTrail : trailAtZero db trail (file - 1) = trailAtZero db trail file := by
          unfold trailAtZero
          cases first : firstStored db with
          | none => rfl
          | some other =>
            obtain ⟨entry, head, own⟩ := Option.bind_eq_some_iff.mp first
            have member := List.mem_of_mem_filter (List.mem_of_mem_head? head)
            have isOpened := (kept.laid.opened other).mpr ⟨entry, member, own⟩
            have different : other ≠ file := fun same => opened (same ▸ isOpened)
            have equivalent : other ≤ file - 1 ↔ other ≤ file := by omega
            simp only [equivalent]
        rw [if_neg zero, if_neg zero, sameTrail, List.nil_append]
        congr 1
        by_cases within : file < ((steps + 1 : Nat) : Int) ∧ 0 ≤ file
        · rw [if_pos within, if_pos (by omega)]
        · rw [if_neg within, if_neg (by omega)]

variable {uninit : Int} {range : Range} {order : Order}
  {block : Block α}

theorem sound_of_recorded (recorded : Recorded block) : Sound uninit range block where
  count := recorded.count
  window := by
    intro low high passes
    obtain ⟨first, last, rfl, rfl, ends⟩ := recorded.ends passes
    have inside := ends.highInside
    refine ⟨by omega, by omega, by omega, ?_⟩
    intro crossed row found within
    have nothing := recorded.rowsIn_eq_nil_of_apart ends (by omega)
    rw [rowAt_natCast] at found
    rw [rowsIn, between_eq_nil_iff] at nothing
    exact nothing row (List.mem_of_getElem? found) within

section

variable (kept : Kept settings db rows)
include kept

theorem Kept.recorded (member : entry ∈ db.written) : Recorded entry.2 := by
  obtain ⟨count, -, framed⟩ := kept.accounts.blocks entry member
  exact ⟨count, framed.first, framed.last,
    (inOrder_of_clocked kept.accounts kept.clocked).blocks entry member⟩

theorem Kept.log_recorded (some' : 0 < db.head.curRowCount) : Recorded (logBlock db) := by
  have framed := kept.accounts.fullLog some'
  exact ⟨kept.accounts.logRows_length, framed.first, framed.last,
    (inOrder_of_clocked kept.accounts kept.clocked).log⟩

theorem Kept.emptyLog_window (empty : db.head.curRowCount = 0) : window uninit range (logBlock db) =
      if range.start < 0 ∧ 0 < range.finish then some (0, -1) else none := by
  obtain ⟨start, finish⟩ := kept.accounts.emptyLog empty
  have startEq : (logBlock db).startTimestamp = 0 := start
  have finishEq : (logBlock db).endTimestamp = 0 := finish
  have countEq : (logBlock db).rowCount = 0 := empty
  rw [window_eq uninit range (by rw [startEq, finishEq]), startEq, finishEq, countEq]
  split_ifs <;> first | rfl | omega

theorem Kept.log_sound : Sound uninit range (logBlock db) := by
  by_cases some' : 0 < db.head.curRowCount
  · exact sound_of_recorded (kept.log_recorded some')
  · have empty : db.head.curRowCount = 0 := by omega
    refine ⟨kept.accounts.logRows_length, ?_⟩
    intro low high passes
    rw [kept.emptyLog_window empty] at passes
    split at passes
    · cases passes
      have count : (logBlock db).rowCount = 0 := empty
      rw [count]
      refine ⟨le_rfl, le_rfl, by decide, fun _ row found => ?_⟩
      cases found
    · cases passes

end

def Outside (range : Range) (block : Block α) : Prop :=
  block.endTimestamp < range.start ∨ range.finish < block.startTimestamp

def InInterval (hours : Nat) (range : Range) (file : Int) : Prop :=
  fileOf hours range.start ≤ file ∧ file ≤ fileOf hours range.finish

instance (hours : Nat) (range : Range) : DecidablePred (InInterval hours range) := by
  intro file
  unfold InInterval
  infer_instance

def regularStops (settings : Settings) (range : Range) (db : Db α) : List (Block α) :=
  blocksOf settings.hours db (InInterval settings.hours range)

def rangeOf (startTime endTime : Int) : Range :=
  ⟨min startTime endTime, max startTime endTime, min_le_max⟩

theorem openQuery_opened (accounts : Accounts settings db rows) (startTime endTime : Int)
    (order : Order) :
    ∃ query, openQuery db startTime endTime order = some query ∧
      Opened (rangeOf startTime endTime) order query ∧
      query.startFileIndex =
        (if order = .asc then fileOf settings.hours (rangeOf startTime endTime).start
          else fileOf settings.hours (rangeOf startTime endTime).finish) ∧
      query.endFileIndex =
        (if order = .asc then fileOf settings.hours (rangeOf startTime endTime).finish
          else fileOf settings.hours (rangeOf startTime endTime).start) := by
  have finish : (if endTime > startTime then endTime else startTime) =
      (rangeOf startTime endTime).finish := by
    simp only [rangeOf]
    split <;> omega
  have start : (if startTime < endTime then startTime else endTime) =
      (rangeOf startTime endTime).start := by
    simp only [rangeOf]
    split <;> omega
  have files := fileOf_mono settings (rangeOf startTime endTime).ordered
  unfold openQuery
  simp only [finish, start, accounts.uses.fileIndex, Option.bind_eq_bind, Option.bind_some]
  refine ⟨_, rfl, ⟨⟨rfl, rfl, rfl⟩, rfl, rfl, rfl, rfl, ?_⟩, rfl, rfl⟩
  cases order with
  | asc => simp only [Order.past, if_true]; exact decide_eq_false (not_lt_of_ge files)
  | desc => simp only [Order.past, reduceCtorEq, if_false]; exact decide_eq_false (not_lt_of_ge files)

theorem Kept.opened (kept : Kept settings db rows) (range : Range) (order : Order) :
    ∃ query, openQuery db range.start range.finish order = some query ∧ Opened range order query ∧
      query.startFileIndex =
        (if order = .asc then fileOf settings.hours range.start
          else fileOf settings.hours range.finish) ∧
      query.endFileIndex =
        (if order = .asc then fileOf settings.hours range.finish
          else fileOf settings.hours range.start) := by
  have same : rangeOf range.start range.finish = range := by
    obtain ⟨start, finish, ordered⟩ := range
    simp only [rangeOf, min_eq_left ordered, max_eq_right ordered]
  have opened := openQuery_opened kept.accounts range.start range.finish order
  rwa [same] at opened

theorem stale_eq (db : Db α) (file : Int) : staleBlock db (trailAtZero db none file) =
      match firstStored db with
      | none => []
      | some first => if first ≤ file then rereadBlock db else [] := by
  unfold trailAtZero rereadBlock
  cases first : firstStored db with
  | none => rfl
  | some first =>
    simp only
    split <;> rfl

theorem blocksOf_mem {hours : Nat} [DecidablePred files] : block ∈ blocksOf hours db files ↔
      ∃ entry ∈ db.written, entry.1 ≠ none ∧ files (fileOfEntry hours entry) ∧ entry.2 = block := by
  unfold blocksOf storedEntries
  simp only [List.mem_map, List.mem_filter, decide_eq_true_eq]
  constructor
  · rintro ⟨entry, ⟨⟨member, stored⟩, inside⟩, same⟩
    exact ⟨entry, member, stored, inside, same⟩
  · rintro ⟨entry, member, stored, inside, same⟩
    exact ⟨entry, ⟨⟨member, stored⟩, inside⟩, same⟩

theorem outside_of_file (accounts : Accounts settings db rows) (member : entry ∈ db.written)
    (elsewhere : ¬ InInterval settings.hours range (fileOfEntry settings.hours entry)) :
    Outside range entry.2 := by
  by_contra inside
  unfold Outside at inside
  obtain ⟨-, -, framed⟩ := accounts.blocks entry member
  obtain ⟨row, last, time⟩ := Framed.last_mem framed
  have sameFile := framed.oneFile row last
  rw [time] at sameFile
  apply elsewhere
  constructor
  · rw [fileOfEntry, <- sameFile]
    exact fileOf_mono settings (by omega)
  · exact fileOf_mono settings (by omega)

theorem Kept.outside_of_file (kept : Kept settings db rows) (member : entry ∈ db.written)
    (elsewhere : ¬ InInterval settings.hours range (fileOfEntry settings.hours entry)) :
    Outside range entry.2 :=
  Visits.outside_of_file kept.accounts member elsewhere

theorem Kept.rereadBlock_mem (kept : Kept settings db rows)
    (member : block ∈ rereadBlock db) : ∃ first, firstStored db = some first ∧
      ∃ entry ∈ db.written, entry.1 ≠ none ∧ fileOfEntry settings.hours entry = first ∧
        entry.2 = block := by
  unfold rereadBlock at member
  split at member
  · cases member
  · rename_i first firstEq
    refine ⟨first, firstEq, ?_⟩
    have inFile : block ∈ indexFile db first :=
      List.mem_of_getElem? (Option.mem_toList.mp member)
    rw [kept.indexFile_eq] at inFile
    exact blocksOf_mem.mp inFile

/-- The stops of an opened query: the blocks of its file interval and the log, and
the block read again. -/
theorem Kept.stopsOf_eq (kept : Kept settings db rows) {query : Query α}
    (start : query.startFileIndex = (if order = .asc then fileOf settings.hours range.start
        else fileOf settings.hours range.finish))
    (finish : query.endFileIndex = (if order = .asc then fileOf settings.hours range.finish
        else fileOf settings.hours range.start)) :
    ∃ again, stopsOf db order query =
        directed order (regularStops settings range db ++ [logBlock db]) ++ again ∧
      (∀ block ∈ again, order = .desc ∧ db.head.curRowCount = 0 ∧
        fileOf settings.hours range.start ≤ 0 ∧ block ∈ rereadBlock db ∧
        block ∈ regularStops settings range db) ∧
      (order = .desc -> db.head.curRowCount = 0 -> fileOf settings.hours range.start ≤ 0 ->
        ∀ block ∈ rereadBlock db, ¬ Outside range block -> block ∈ again) := by
  have files := fileOf_mono settings range.ordered
  cases order with
  | asc =>
    rw [if_pos rfl] at start finish
    refine ⟨[], ?_, by simp, by simp⟩
    rw [stopsOf, stopsTo, kept.fileStops_asc, start, finish, List.append_nil, directed,
      if_pos rfl, regularStops]
    refine congrArg (· ++ [logBlock db]) (blocksOf_congr _ _ fun file => ?_)
    simp only [OnWay, InInterval, distance, Order.step]
    omega
  | desc =>
    rw [if_neg (by simp)] at start finish
    have sameBlocks : blocksOf settings.hours db (OnWay .desc query.startFileIndex
        (distance .desc query.startFileIndex query.endFileIndex)) =
          regularStops settings range db := by
      refine blocksOf_congr _ _ fun file => ?_
      rw [start, finish]
      simp only [OnWay, InInterval, distance, Order.step]
      omega
    by_cases some' : 0 < db.head.curRowCount
    · refine ⟨[], ?_, by simp, fun _ empty => by omega⟩
      rw [stopsOf, stopsTo, kept.fileStops_desc_log some', sameBlocks]
      simp [directed]
    · have empty : db.head.curRowCount = 0 := by omega
      have atZero : (query.startFileIndex <
          (distance .desc query.startFileIndex query.endFileIndex : Int) ∧
            0 ≤ query.startFileIndex) ↔
          fileOf settings.hours range.start ≤ 0 ∧ 0 ≤ fileOf settings.hours range.finish := by
        rw [start, finish]
        simp only [distance, Order.step]
        omega
      have stops := @Kept.fileStops_desc_empty _ _ _ _ kept empty
        (distance .desc query.startFileIndex query.endFileIndex) none query.startFileIndex
      refine ⟨if fileOf settings.hours range.start ≤ 0 ∧ 0 ≤ fileOf settings.hours range.finish
        then staleBlock db (trailAtZero db none query.startFileIndex) else [], ?_, ?_, ?_⟩
      · rw [stopsOf, stopsTo, stops, sameBlocks, if_congr atZero rfl rfl]
        simp [directed]
      · intro block member
        split at member
        · rename_i low
          rw [stale_eq, start] at member
          split at member
          · cases member
          · rename_i first firstEq
            split at member
            · rename_i reached
              refine ⟨rfl, empty, low.1, member, ?_⟩
              obtain ⟨other, otherEq, entry, written, stored, file, same⟩ :=
                kept.rereadBlock_mem member
              rw [firstEq] at otherEq
              cases otherEq
              have nonneg := Accounts.file_nonneg kept.accounts kept.clocked written
              refine blocksOf_mem.mpr ⟨entry, written, stored, ?_, same⟩
              rw [file] at nonneg ⊢
              exact ⟨by omega, reached⟩
            · cases member
        · cases member
      · intro _ _ low block member inside
        obtain ⟨first, firstEq, entry, written, stored, file, same⟩ := kept.rereadBlock_mem member
        have nonneg := Accounts.file_nonneg kept.accounts kept.clocked written
        have reached : InInterval settings.hours range first := by
          by_contra elsewhere
          rw [<- file] at elsewhere
          have outside := kept.outside_of_file written elsewhere
          rw [same] at outside
          exact inside outside
        rw [file] at nonneg
        have high := reached.2
        rw [start, if_pos ⟨low, le_trans nonneg high⟩, stale_eq, firstEq]
        simp only
        rw [if_pos high]
        exact member

end Visits

end Luomi.Edb.Visits
