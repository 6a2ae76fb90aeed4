import Luomi.Sdb.History

/-!
# Opening a file that was cut off

The file of a table is a header and groups of records, each behind its mark.
When the bytes of one more group are cut off, opening keeps them up to the last
place that looks like a mark.  The records that are whole by then are replayed;
what is left of the next one is skipped if it is shorter than a head and ends the
replay otherwise.
-/

namespace Luomi.Sdb.OpenFile

open StreamScan HashIndex Engine Recovery Replay History
open List (append_assoc length_append)

section OpenFile

variable {Obj : Type} {args : TableArgs Obj}

def newFile (args : TableArgs Obj) : Bytes := headerBytes args.crc32c args.version ++ sdbEcommit

def fileOf (args : TableArgs Obj) (groups : List (List Record)) : Bytes :=
  newFile args ++ groups.flatMap (groupBytes args)

def MarkAt (file : Bytes) (offset : Nat) : Prop :=
  (file.drop offset).take sdbEcommit.length = sdbEcommit

/-- What is kept of bytes behind a mark: all up to the last place that looks like
one. -/
def kept (bytes : Bytes) : Bytes :=
  match lastCommit bytes (bytes.length - sdbEcommit.length) with
  | some offset => bytes.take (offset + sdbEcommit.length)
  | none => []

/-- The records that are whole in the first bytes of a group, and how many bytes
stand behind them. -/
def wholeRecords (args : TableArgs Obj) : List Record -> Nat -> List Record × Nat
  | [], size => ([], size)
  | record :: later, size =>
    if (recordBytes args record).length ≤ size then
      let rest := wholeRecords args later (size - (recordBytes args record).length)
      (record :: rest.1, rest.2)
    else ([], size)

variable {file : Bytes} {bound : Nat}

theorem lastCommit_mark (mark : MarkAt file (bound + 1)) :
    lastCommit file (bound + 1) = some (bound + 1) :=
  if_pos mark

theorem lastCommit_noMark (noMark : ¬ MarkAt file (bound + 1)) :
    lastCommit file (bound + 1) = lastCommit file bound :=
  if_neg noMark

theorem lastCommit_eq_some {offset : Nat} (positive : 0 < offset)
    (below : offset ≤ bound) (mark : MarkAt file offset)
    (last : ∀ later, offset < later -> later ≤ bound -> ¬ MarkAt file later) :
    lastCommit file bound = some offset := by
  induction bound with
  | zero => omega
  | succ bound ih =>
    by_cases same : offset = bound + 1
    · rw [same] at mark
      rw [lastCommit_mark mark, same]
    · have noMark : ¬ MarkAt file (bound + 1) := last (bound + 1) (by omega) le_rfl
      rw [lastCommit_noMark noMark]
      exact ih (by omega) fun later above inside => last later above (by omega)

theorem lastCommit_spec {file : Bytes} {bound : Nat} :
    match lastCommit file bound with
    | none => ∀ offset, 0 < offset -> offset ≤ bound -> ¬ MarkAt file offset
    | some offset => 0 < offset ∧ offset ≤ bound ∧ MarkAt file offset ∧
        ∀ later, offset < later -> later ≤ bound -> ¬ MarkAt file later := by
  induction bound with
  | zero => exact fun offset positive below => absurd positive (not_lt_of_ge below)
  | succ bound ih =>
    by_cases mark : MarkAt file (bound + 1)
    · rw [lastCommit_mark mark]
      exact ⟨Nat.succ_pos _, le_rfl, mark, fun later above inside => by omega⟩
    · have atMost : ∀ later, later ≤ bound + 1 -> later ≤ bound ∨ later = bound + 1 :=
        fun later inside => Nat.le_succ_iff.mp inside
      rw [lastCommit_noMark mark]
      cases found : lastCommit file bound with
      | none =>
        rw [found] at ih
        intro offset positive below
        rcases atMost offset below with less | rfl
        · exact ih offset positive less
        · exact mark
      | some offset =>
        rw [found] at ih
        obtain ⟨positive, below, own, last⟩ := ih
        refine ⟨positive, Nat.le_succ_of_le below, own, fun later above inside => ?_⟩
        rcases atMost later inside with less | rfl
        · exact last later above less
        · exact mark

theorem markAt_append_right (front tail : Bytes) (offset : Nat) :
    MarkAt (front ++ tail) (front.length + offset) ↔ MarkAt tail offset := by
  rw [MarkAt, MarkAt, List.drop_append, List.drop_eq_nil_of_le (by omega), List.nil_append,
    Nat.add_sub_cancel_left]

def StartsRecord (tail : Bytes) : Prop := ∀ byte, tail.head? = some byte -> byte = 0x00

variable {tail : Bytes}

/-- There is no mark that starts in the last mark but at its start, and none behind
it at once. -/
theorem not_markAt_overlap (start : StartsRecord tail) (front : Bytes)
    {offset : Nat} (above : front.length < offset)
    (below : offset ≤ front.length + sdbEcommit.length) :
    ¬ MarkAt (front ++ sdbEcommit ++ tail) offset := by
  obtain ⟨inside, rfl⟩ : ∃ inside, offset = front.length + inside := ⟨offset - front.length, by omega⟩
  rw [append_assoc, markAt_append_right, MarkAt]
  have size : sdbEcommit.length = 4 := rfl
  rw [size] at below ⊢
  intro mark
  have places : inside = 1 ∨ inside = 2 ∨ inside = 3 ∨ inside = 4 := by omega
  cases tail with
  | nil => rcases places with rfl | rfl | rfl | rfl <;> simp [sdbEcommit] at mark
  | cons byte tail =>
    have zero : byte = 0x00 := start byte rfl
    subst zero
    rcases places with rfl | rfl | rfl | rfl <;> simp [sdbEcommit] at mark

theorem truncated_eq {front : Bytes} (some' : front ≠ []) (start : StartsRecord tail) :
    truncated (front ++ sdbEcommit ++ tail) = front ++ sdbEcommit ++ kept tail := by
  have size : sdbEcommit.length = 4 := rfl
  have positive := List.length_pos_of_ne_nil some'
  have length : (front ++ sdbEcommit ++ tail).length = front.length + 4 + tail.length := by
    rw [length_append, length_append, size]
  have behind : ∀ offset, MarkAt (front ++ sdbEcommit ++ tail) (front.length + 4 + offset) ↔
      MarkAt tail offset := by
    intro offset
    have same := markAt_append_right (front ++ sdbEcommit) tail offset
    rwa [length_append, size] at same
  have own : MarkAt (front ++ sdbEcommit ++ tail) front.length := by
    rw [append_assoc]
    have same := markAt_append_right front (sdbEcommit ++ tail) 0
    rw [Nat.add_zero] at same
    rw [same, MarkAt, List.drop_zero]
    exact List.take_left
  have spec := @lastCommit_spec tail (tail.length - sdbEcommit.length)
  unfold truncated kept
  rw [size] at spec ⊢
  rw [length]
  cases found : lastCommit tail (tail.length - 4) with
  | none =>
    rw [found] at spec
    have result : lastCommit (front ++ sdbEcommit ++ tail) (front.length + 4 + tail.length - 4) =
        some front.length := by
      refine lastCommit_eq_some positive (by omega) own fun later above inside => ?_
      by_cases overlap : later ≤ front.length + 4
      · exact not_markAt_overlap start front above overlap
      · obtain ⟨offset, rfl⟩ : ∃ offset, later = front.length + 4 + offset :=
          ⟨later - (front.length + 4), by omega⟩
        rw [behind]
        exact spec offset (by omega) (by omega)
    have cut : (front ++ sdbEcommit).length = front.length + 4 := by
      rw [length_append, size]
    rw [result, List.append_nil]
    simp only
    rw [<- cut, List.take_left]
  | some offset =>
    rw [found] at spec
    obtain ⟨offsetPos, below, mark, last⟩ := spec
    have result : lastCommit (front ++ sdbEcommit ++ tail) (front.length + 4 + tail.length - 4) =
        some (front.length + 4 + offset) := by
      refine lastCommit_eq_some (by omega) (by omega) ((behind offset).mpr mark)
        fun later above inside => ?_
      obtain ⟨other, rfl⟩ : ∃ other, later = front.length + 4 + other :=
        ⟨later - (front.length + 4), by omega⟩
      rw [behind]
      exact last other (by omega) (by omega)
    have cut : front.length + 4 + offset + 4 = (front ++ sdbEcommit).length + (offset + 4) := by
      rw [length_append, size]
      omega
    rw [result]
    simp only
    rw [cut, List.take_length_add_append]

theorem prefix_kept (bytes : Bytes) : kept bytes <+: bytes := by
  unfold kept
  split
  · exact List.take_prefix _ _
  · exact List.nil_prefix

theorem wholeRecords_size (records : List Record) (size : Nat) :
    (wholeRecords args records size).2 ≤ size := by
  induction records generalizing size with
  | nil => exact le_rfl
  | cons record later ih =>
    rw [wholeRecords]
    split
    · exact le_trans (ih _) (Nat.sub_le _ _)
    · exact le_rfl

theorem prefix_wholeRecords (records : List Record) (size : Nat) :
    (wholeRecords args records size).1 <+: records := by
  induction records generalizing size with
  | nil => exact List.prefix_refl _
  | cons record later ih =>
    rw [wholeRecords]
    split
    · exact (List.prefix_cons_inj _).mpr (ih _)
    · exact List.nil_prefix

variable {group : List Record}

theorem scan_cut (recordable : ∀ record ∈ group, Recordable args record)
    {size : Nat} (inside : size ≤ (groupBytes args group).length) (replay : Replay Obj) :
    scan (readRow args) (advance args) ((groupBytes args group).take size) replay =
      grow ((wholeRecords args group size).1.foldl (applyRecord args) replay)
        (if (wholeRecords args group size).2 < sizeofRowHead then size
          else size - (wholeRecords args group size).2) := by
  induction group generalizing size replay with
  | nil =>
    have markSize : (groupBytes args []).length = 4 := rfl
    have headSize : sizeofRowHead = 16 := rfl
    have short : size < sizeofRowHead := by omega
    have length : ((groupBytes args []).take size).length = size := by
      rw [List.length_take]
      exact Nat.min_eq_left inside
    rw [wholeRecords, if_pos short, scan_short (by rw [length]; exact short), length]
    rfl
  | cons record later ih =>
    have own := recordable record List.mem_cons_self
    have bytes : groupBytes args (record :: later) =
        recordBytes args record ++ groupBytes args later := by
      rw [groupBytes, groupBytes, List.flatMap_cons, append_assoc]
    rw [bytes, length_append] at inside
    rw [bytes, wholeRecords]
    by_cases whole : (recordBytes args record).length ≤ size
    · have room : size - (recordBytes args record).length ≤ (groupBytes args later).length := by
        omega
      have rest := ih (fun other member => recordable other (List.mem_cons_of_mem _ member)) room
      have left := @wholeRecords_size _ args later (size - (recordBytes args record).length)
      rw [if_pos whole, List.take_append, List.take_of_length_le whole,
        scan_frame (readRow_progresses args) (readRow_record own), advance_record own, rest,
        foldl_applyRecord_grow, grow_grow]
      simp only [List.foldl_cons]
      congr 1
      split <;> omega
    · rw [if_neg whole, List.take_append_of_le_length (by omega), List.foldl_nil]
      by_cases short : size < sizeofRowHead
      · have length : ((recordBytes args record).take size).length = size := by
          rw [List.length_take]
          omega
        rw [if_pos short, scan_short (by rw [length]; exact short), length]
      · rw [if_neg short, Nat.sub_self, grow_zero]
        exact scan_torn own (by omega) (by omega) replay

theorem headerBytes_length : (headerBytes args.crc32c args.version).length = sizeofHeader := by
  simp [headerBytes, taosCalcChecksumAppend, args.versionSize, sizeofTsCksum, sizeofHeader]

theorem newFile_length : (newFile args).length = sizeofHeader + sdbEcommit.length := by
  rw [newFile, length_append, headerBytes_length]

theorem fileOf_append (groups : List (List Record)) (group : List Record) :
    fileOf args (groups ++ [group]) = fileOf args groups ++ groupBytes args group := by
  rw [fileOf, fileOf, List.flatMap_append, List.flatMap_singleton, append_assoc]

theorem fileOf_ends (args : TableArgs Obj) (groups : List (List Record)) :
    ∃ front, front ≠ [] ∧ fileOf args groups = front ++ sdbEcommit := by
  have header : headerBytes args.crc32c args.version ≠ [] := by
    intro empty
    have length := @headerBytes_length _ args
    rw [empty] at length
    exact absurd length (by decide)
  induction groups using List.reverseRecOn with
  | nil =>
    refine ⟨headerBytes args.crc32c args.version, header, ?_⟩
    rw [fileOf, newFile, List.flatMap_nil, List.append_nil]
  | append_singleton groups group _ =>
    refine ⟨fileOf args groups ++ group.flatMap (recordBytes args), ?_, ?_⟩
    · rw [fileOf, newFile]
      simp [header]
    · rw [fileOf_append, groupBytes, append_assoc]

theorem fileOf_ne_nil (args : TableArgs Obj) (groups : List (List Record)) :
    fileOf args groups ≠ [] := by
  obtain ⟨front, -, bytes⟩ := fileOf_ends args groups
  rw [bytes]
  simp [sdbEcommit]

theorem groupBytes_startsRecord (some' : group ≠ []) (size : Nat) :
    StartsRecord ((groupBytes args group).take size) := by
  intro byte first
  cases group with
  | nil => exact absurd rfl some'
  | cons record later =>
    have bytes : ∃ rest, groupBytes args (record :: later) = 0x00 :: rest := by
      refine ⟨(groupBytes args (record :: later)).tail, ?_⟩
      rw [groupBytes, List.flatMap_cons, recordBytes, rowBytes_eq]
      rfl
    obtain ⟨rest, starts⟩ := bytes
    rw [starts] at first
    cases size with
    | zero => simp at first
    | succ size => simpa using first.symm

theorem sdbOpenSdbFile_cut (groups : List (List Record)) {tail : Bytes} (start : StartsRecord tail)
    : sdbOpenSdbFile args (fileOf args groups ++ tail) =
      some (headerBytes args.crc32c args.version, fileOf args groups ++ kept tail) := by
  obtain ⟨front, some', bytes⟩ := fileOf_ends args groups
  have cut : truncated (fileOf args groups ++ tail) = fileOf args groups ++ kept tail := by
    rw [bytes]
    exact truncated_eq some' start
  have header : (fileOf args groups ++ kept tail).take sizeofHeader =
      headerBytes args.crc32c args.version := by
    rw [fileOf, newFile, append_assoc, append_assoc]
    exact List.take_left' headerBytes_length
  have long : ¬ (fileOf args groups ++ kept tail).length < sizeofHeader := by
    rw [fileOf, length_append, length_append, newFile_length]
    omega
  have sum : taosCheckChecksumWhole args.crc32c (headerBytes args.crc32c args.version) = true :=
    taosCheckChecksumWhole_append _ _
  have nonempty : fileOf args groups ++ tail ≠ [] := by
    intro empty
    exact fileOf_ne_nil args groups (List.append_eq_nil_iff.mp empty).1
  rw [sdbOpenSdbFile, if_neg nonempty]
  simp only [cut, header]
  rw [if_neg long, if_pos sum]

theorem replayFile_cut {groups : List (List Record)}
    (recordable : ∀ group ∈ groups, ∀ record ∈ group, Recordable args record)
    (cutRecordable : ∀ record ∈ group, Recordable args record)
    (isPrefix : tail <+: groupBytes args group) (header : Bytes) :
    replayFile args header (fileOf args groups ++ tail) =
      grow (history args header (fileOf args groups ++ tail)
          (groups.flatten ++ (wholeRecords args group tail.length).1))
        ((groups.flatMap (groupBytes args)).length +
          if (wholeRecords args group tail.length).2 < sizeofRowHead then tail.length
          else tail.length - (wholeRecords args group tail.length).2) := by
  have behind : (fileOf args groups ++ tail).drop (sizeofHeader + sdbEcommit.length) =
      groups.flatMap (groupBytes args) ++ tail := by
    rw [fileOf, append_assoc]
    exact List.drop_left' newFile_length
  have own : tail = (groupBytes args group).take tail.length :=
    (List.prefix_iff_eq_take.mp isPrefix)
  have last := scan_cut cutRecordable isPrefix.length_le
  rw [<- own] at last
  rw [replayFile, behind, scan_groups recordable, last, foldl_applyRecord_grow, grow_grow, history,
    List.foldl_append]

end OpenFile

end Luomi.Sdb.OpenFile
