import Luomi.Base.MemoryCells

/-!
# The ring of the asynchronous log (`taosPushLogBuffer`, `taosPollLogBuffer`)

Messages are put in behind the end of the ring, and one thread copies bytes from its start to a
file.  No byte is lost or written twice.  But the room of a ring whose end is in front of its start
is computed without the size of the buffer, so nothing is put into such a ring.
-/

namespace Luomi.LogRing

open MemoryCells

structure SLogBuff where
  buffer : Int -> UInt8
  buffStart : Int
  buffEnd : Int
  buffSize : Int
  stop : Bool

/-- What `taosLogBuffNew` returns for a size that it takes. -/
def taosLogBuffNew (buffer : Int -> UInt8) (bufSize : Int) : SLogBuff :=
  ⟨buffer, 0, 0, bufSize, false⟩

def remainSize (tLogBuff : SLogBuff) : Int :=
  if tLogBuff.buffStart > tLogBuff.buffEnd then tLogBuff.buffEnd - tLogBuff.buffStart - 1
  else tLogBuff.buffStart + tLogBuff.buffSize - tLogBuff.buffEnd - 1

/-- The buffer with the message copied in. -/
def copied (tLogBuff : SLogBuff) (msg : List UInt8) : Int -> UInt8 :=
  let behind := tLogBuff.buffSize - tLogBuff.buffEnd
  if tLogBuff.buffStart > tLogBuff.buffEnd then writeCells tLogBuff.buffer tLogBuff.buffEnd msg
  else if behind < msg.length then
    writeCells (writeCells tLogBuff.buffer tLogBuff.buffEnd (msg.take behind.toNat)) 0
      (msg.drop behind.toNat)
  else writeCells tLogBuff.buffer tLogBuff.buffEnd msg

def taosPushLogBuffer (tLogBuff : SLogBuff) (msg : List UInt8) : SLogBuff × Int :=
  if tLogBuff.stop then (tLogBuff, -1)
  else if remainSize tLogBuff ≤ msg.length then (tLogBuff, -1)
  else
    ({ tLogBuff with
        buffer := copied tLogBuff msg
        buffEnd := (tLogBuff.buffEnd + msg.length) % tLogBuff.buffSize }, 0)

/-- What is copied out of the ring. -/
def taosPollLogBuffer (tLogBuff : SLogBuff) (bufSize : Int) : List UInt8 :=
  if tLogBuff.buffStart = tLogBuff.buffEnd then []
  else if tLogBuff.buffStart < tLogBuff.buffEnd then
    readCells tLogBuff.buffer tLogBuff.buffStart
      (min (tLogBuff.buffEnd - tLogBuff.buffStart) bufSize)
  else
    let pollSize := min (tLogBuff.buffEnd + tLogBuff.buffSize - tLogBuff.buffStart) bufSize
    let tsize := tLogBuff.buffSize - tLogBuff.buffStart
    if pollSize > tsize then
      readCells tLogBuff.buffer tLogBuff.buffStart tsize ++
        readCells tLogBuff.buffer 0 (pollSize - tsize)
    else readCells tLogBuff.buffer tLogBuff.buffStart pollSize

/-- `buffStart` is moved on once bytes are written. -/
def moveStart (tLogBuff : SLogBuff) (log_size : Int) : SLogBuff :=
  { tLogBuff with buffStart := (tLogBuff.buffStart + log_size) % tLogBuff.buffSize }

/-- The cells one turn after the other. -/
def turns (tLogBuff : SLogBuff) (place : Int) : UInt8 :=
  tLogBuff.buffer (place % tLogBuff.buffSize)

/-- The number of bytes from the start to the end. -/
def unreadSize (tLogBuff : SLogBuff) : Int :=
  (tLogBuff.buffEnd - tLogBuff.buffStart) % tLogBuff.buffSize

def unread (tLogBuff : SLogBuff) : List UInt8 :=
  readCells (turns tLogBuff) tLogBuff.buffStart (unreadSize tLogBuff)

structure State where
  ring : SLogBuff
  /-- What was polled and is not yet written to the file. -/
  tempBuffer : List UInt8
  output : List UInt8
  accepted : List UInt8

inductive Action
  | push (msg : List UInt8)
  | poll
  | write

/-- The writer writes to the file and moves the start in one step. -/
def act (state : State) : Action -> State
  | .push msg =>
    let pushed := taosPushLogBuffer state.ring msg
    { state with
      ring := pushed.1
      accepted := if pushed.2 = 0 then state.accepted ++ msg else state.accepted }
  | .poll => { state with tempBuffer := taosPollLogBuffer state.ring 1024 }
  | .write =>
    { state with
      ring := moveStart state.ring state.tempBuffer.length
      tempBuffer := []
      output := state.output ++ state.tempBuffer }

def runActions (buffer : Int -> UInt8) (bufSize : Int) (actions : List Action) : State :=
  actions.foldl act ⟨taosLogBuffNew buffer bufSize, [], [], []⟩

structure InRing (tLogBuff : SLogBuff) : Prop where
  start : 0 ≤ tLogBuff.buffStart ∧ tLogBuff.buffStart < tLogBuff.buffSize
  finish : 0 ≤ tLogBuff.buffEnd ∧ tLogBuff.buffEnd < tLogBuff.buffSize
  runs : tLogBuff.stop = false

/-- What is polled is at the front of what is unread. -/
structure Kept (bufSize : Int) (state : State) : Prop where
  inRing : InRing state.ring
  size : state.ring.buffSize = bufSize
  polled : state.tempBuffer <+: unread state.ring
  kept : state.output ++ unread state.ring = state.accepted

variable {ring : SLogBuff} {msg : List UInt8}

theorem turns_low {place : Int} (low : 0 ≤ place) (inside : place < ring.buffSize) :
    turns ring place = ring.buffer place := by
  rw [turns, Int.emod_eq_of_lt low inside]

theorem readTurns_low {pos count : Int} (low : 0 ≤ pos) (inside : pos + count ≤ ring.buffSize) :
    readCells (turns ring) pos count = readCells ring.buffer pos count := by
  apply readCells_congr
  intro i above below
  exact turns_low (by omega) (by omega)

theorem readTurns_over {pos first later : Int} (low : 0 ≤ pos) (size : pos + first =
    ring.buffSize) (firstNonneg : 0 ≤ first) (laterNonneg : 0 ≤ later)
    (fits : later ≤ ring.buffSize) : readCells (turns ring) pos (first + later) =
      readCells ring.buffer pos first ++ readCells ring.buffer 0 later := by
  rw [readCells_append firstNonneg laterNonneg, readTurns_low low (by omega), size]
  congr 1
  rw [<- readTurns_low le_rfl (by omega)]
  unfold readCells
  apply List.map_congr_left
  intro i _
  rw [turns, turns, Int.add_emod_left, zero_add]

section

variable (inRing : InRing ring)

include inRing

theorem unreadSize_ordered (ordered : ring.buffStart ≤ ring.buffEnd) :
    unreadSize ring = ring.buffEnd - ring.buffStart := by
  have start := inRing.start
  have finish := inRing.finish
  exact Int.emod_eq_of_lt (by omega) (by omega)

theorem unreadSize_wrapped (wrapped : ring.buffEnd < ring.buffStart) :
    unreadSize ring = ring.buffEnd + ring.buffSize - ring.buffStart := by
  have start := inRing.start
  have finish := inRing.finish
  rw [unreadSize, <- Int.add_emod_right, Int.emod_eq_of_lt (by omega) (by omega)]
  omega

theorem length_unread : ((unread ring).length : Int) = unreadSize ring := by
  have start := inRing.start
  rw [unread, length_readCells]
  exact Int.toNat_of_nonneg (Int.emod_nonneg _ (by omega))

theorem poll_eq (bufSize : Int) : taosPollLogBuffer ring bufSize =
    readCells (turns ring) ring.buffStart (min (unreadSize ring) bufSize) := by
  have start := inRing.start
  have finish := inRing.finish
  unfold taosPollLogBuffer
  split_ifs with empty ordered
  · rw [unreadSize_ordered inRing empty.le, readCells_nil (by omega)]
  · rw [unreadSize_ordered inRing ordered.le, readTurns_low (by omega) (by omega)]
  · have size := unreadSize_wrapped inRing (by omega)
    rw [size]
    dsimp only
    split_ifs with split
    · rw [<- readTurns_over (by omega) (by omega) (by omega) (by omega) (by omega)]
      congr 1
      omega
    · rw [readTurns_low (by omega) (by omega)]

theorem unread_moveStart {count : Int} (nonneg : 0 ≤ count) (inside : count ≤ unreadSize ring) :
    readCells (turns ring) ring.buffStart count ++ unread (moveStart ring count) =
      unread ring := by
  have start := inRing.start
  have below : unreadSize ring < ring.buffSize := Int.emod_lt_of_pos _ (by omega)
  have size : unreadSize (moveStart ring count) = unreadSize ring - count := by
    rw [<- Int.emod_eq_of_lt (show 0 ≤ unreadSize ring - count by omega)
      (show _ < ring.buffSize by omega), unreadSize.eq_1 ring, Int.emod_sub_emod]
    refine (Int.sub_emod_emod ..).trans (congrArg (· % ring.buffSize) ?_)
    dsimp only [moveStart]
    omega
  have later : unread (moveStart ring count) =
      readCells (turns ring) (ring.buffStart + count) (unreadSize ring - count) := by
    rw [unread, size]
    unfold readCells
    apply List.map_congr_left
    intro i _
    exact congrArg ring.buffer (Int.emod_add_emod ..)
  rw [later, <- readCells_append nonneg (by omega), add_sub_cancel, unread]

theorem poll_prefix {bufSize : Int} (nonneg : 0 ≤ bufSize) :
    taosPollLogBuffer ring bufSize <+: unread ring := by
  have start := inRing.start
  have sizeNonneg : 0 ≤ unreadSize ring := Int.emod_nonneg _ (by omega)
  rw [poll_eq inRing]
  exact ⟨_, unread_moveStart inRing (by omega) (by omega)⟩

theorem moveStart_prefix {written : List UInt8} (front : written <+: unread ring) :
    written ++ unread (moveStart ring written.length) = unread ring := by
  have inside := front.length_le
  have size := length_unread inRing
  have moved := unread_moveStart inRing (show 0 ≤ (written.length : Int) by omega) (by omega)
  obtain ⟨rest, cut⟩ := front
  have same := List.append_inj_left (moved.trans cut.symm) (by rw [length_readCells]; omega)
  rwa [same] at moved

theorem moveStart_inRing (log_size : Int) : InRing (moveStart ring log_size) := by
  have start := inRing.start
  refine ⟨⟨Int.emod_nonneg _ ?_, Int.emod_lt_of_pos _ ?_⟩, inRing.finish, inRing.runs⟩
  · omega
  · omega

theorem push_eq : taosPushLogBuffer ring msg =
    if remainSize ring ≤ msg.length then (ring, -1)
    else ({ ring with
      buffer := copied ring msg
      buffEnd := (ring.buffEnd + msg.length) % ring.buffSize }, 0) :=
  if_neg (by simp [inRing.runs])

theorem push_rejected (rejected : (taosPushLogBuffer ring msg).2 ≠ 0) :
    (taosPushLogBuffer ring msg).1 = ring := by
  rw [push_eq inRing] at rejected ⊢
  split_ifs at rejected ⊢
  · rfl
  · exact absurd rfl rejected

theorem push_inRing : InRing (taosPushLogBuffer ring msg).1 := by
  have start := inRing.start
  rw [push_eq inRing]
  split_ifs
  · exact inRing
  · refine ⟨start, ⟨Int.emod_nonneg _ ?_, Int.emod_lt_of_pos _ ?_⟩, inRing.runs⟩
    · omega
    · omega

/-- In a ring whose end is in front of its start there is no room. -/
theorem push_accepted_iff : (taosPushLogBuffer ring msg).2 = 0 ↔
    ring.buffStart ≤ ring.buffEnd ∧
      (msg.length : Int) < ring.buffSize - 1 - (unread ring).length := by
  have start := inRing.start
  have finish := inRing.finish
  have accepted : (taosPushLogBuffer ring msg).2 = 0 ↔ msg.length < remainSize ring := by
    rw [push_eq inRing]
    split_ifs with full
    · simpa using full
    · simpa using full
  rw [accepted, remainSize, length_unread inRing]
  split_ifs with wrapped
  · omega
  · rw [unreadSize_ordered inRing (by omega)]
    omega

theorem push_unread (accepted : (taosPushLogBuffer ring msg).2 = 0) :
    unread (taosPushLogBuffer ring msg).1 = unread ring ++ msg := by
  have start := inRing.start
  have finish := inRing.finish
  obtain ⟨ordered, room⟩ := (push_accepted_iff inRing).mp accepted
  have size := unreadSize_ordered inRing ordered
  rw [length_unread inRing, size] at room
  have notFull : ¬ remainSize ring ≤ msg.length := by
    rw [remainSize, if_neg (by omega)]
    omega
  have message : readCells (turns { ring with buffer := copied ring msg })
      ring.buffEnd msg.length = msg := by
    unfold copied
    rw [if_neg (by omega)]
    split_ifs with split
    · obtain ⟨first, later, rfl, size⟩ : ∃ first later, msg = first ++ later ∧
          first.length = (ring.buffSize - ring.buffEnd).toNat := by
        have cut := List.take_append_drop (ring.buffSize - ring.buffEnd).toNat msg
        refine ⟨_, _, cut.symm, ?_⟩
        rw [List.length_take]
        omega
      rw [List.length_append, Nat.cast_add] at room split ⊢
      rw [<- size, List.take_left, List.drop_left]
      rw [readTurns_over (by omega) (by dsimp only; omega) (by omega) (by omega)
        (by dsimp only; omega), readCells_writeCells]
      congr 1
      have kept : ∀ i, ring.buffEnd ≤ i ->
          writeCells (writeCells ring.buffer ring.buffEnd first) 0 later i =
            writeCells ring.buffer ring.buffEnd first i :=
        fun i above => writeCells_behind (by omega)
      exact (readCells_congr fun i above _ => kept i above).trans readCells_writeCells
    · rw [readTurns_low (by omega) (by dsimp only; omega), readCells_writeCells]
  have before : readCells (turns { ring with buffer := copied ring msg })
      ring.buffStart (unreadSize ring) = unread ring := by
    apply readCells_congr
    intro place above below
    rw [turns_low (by omega) (by dsimp only; omega), turns_low (by omega) (by omega)]
    show copied ring msg place = _
    unfold copied
    rw [if_neg (by omega)]
    split_ifs with split
    · rw [writeCells_behind (by rw [List.length_drop]; omega), writeCells_before (by omega)]
    · exact writeCells_before (by omega)
  have sizeAfter : ((ring.buffEnd + msg.length) % ring.buffSize - ring.buffStart) %
      ring.buffSize = unreadSize ring + msg.length := by
    rw [Int.emod_sub_emod, Int.emod_eq_of_lt (by omega) (by omega), size]
    omega
  rw [push_eq inRing, if_neg notFull]
  refine (congrArg _ sizeAfter).trans ?_
  rw [readCells_append (by omega) (by omega)]
  refine congrArg₂ _ before ?_
  rw [size, add_sub_cancel]
  exact message

end

theorem act_kept {bufSize : Int} {state : State} {action : Action} (kept : Kept bufSize state) :
    Kept bufSize (act state action) := by
  have inRing := kept.inRing
  cases action with
  | push msg =>
    by_cases accepted : (taosPushLogBuffer state.ring msg).2 = 0
    · have added := push_unread inRing accepted
      refine ⟨push_inRing inRing, ?_, kept.polled.trans ⟨msg, added.symm⟩, ?_⟩
      · dsimp only [act]
        rw [push_eq inRing]
        split_ifs <;> exact kept.size
      · dsimp only [act]
        rw [if_pos accepted, added, <- List.append_assoc, kept.kept]
    · dsimp only [act]
      rw [if_neg accepted, push_rejected inRing accepted]
      exact kept
  | poll => exact ⟨inRing, kept.size, poll_prefix inRing (by omega), kept.kept⟩
  | write =>
    have moved := moveStart_prefix inRing kept.polled
    refine ⟨moveStart_inRing inRing _, kept.size, List.nil_prefix, ?_⟩
    dsimp only [act]
    rw [List.append_assoc, moved, kept.kept]

section

variable {bufSize : Int} (positive : 0 < bufSize) (buffer : Int -> UInt8) (actions : List Action)

include positive

theorem runActions_kept : Kept bufSize (runActions buffer bufSize actions) := by
  induction actions using List.reverseRecOn with
  | nil =>
    have inRing : InRing (taosLogBuffNew buffer bufSize) :=
      ⟨⟨le_rfl, positive⟩, ⟨le_rfl, positive⟩, rfl⟩
    refine ⟨inRing, rfl, List.nil_prefix, List.eq_nil_of_length_eq_zero ?_⟩
    have size := length_unread inRing
    rw [unreadSize_ordered inRing le_rfl] at size
    exact Int.ofNat.inj size
  | append_singleton actions action ih =>
    unfold runActions at ih ⊢
    rw [List.foldl_append]
    exact act_kept ih

/-- No byte is lost; a message that fits is rejected exactly while the end is in front of the
start. -/
theorem kept_and_accepted_iff {state : State} (run : runActions buffer bufSize actions = state) :
    state.output ++ unread state.ring = state.accepted ∧ ∀ msg : List UInt8,
      ((msg.length < bufSize - 1 - (unread state.ring).length ->
        (taosPushLogBuffer state.ring msg).2 = 0) ↔
          (state.ring.buffEnd < state.ring.buffStart ->
            bufSize - 1 - (unread state.ring).length ≤ msg.length)) := by
  have kept : Kept bufSize state := run ▸ runActions_kept positive buffer actions
  refine ⟨kept.kept, fun msg => ?_⟩
  rw [push_accepted_iff kept.inRing, kept.size]
  constructor
  · intro accepts wrapped
    by_contra fits
    have ordered := (accepts (by omega)).1
    omega
  · intro rejects fits
    refine ⟨?_, fits⟩
    by_contra wrapped
    have full := rejects (by omega)
    omega

end

theorem wrapped_kept :
    (runActions (fun _ => 0) 8 [.push [1, 2, 3, 4], .poll, .write, .push [5, 6, 7, 8, 9]]).output ++
      unread (runActions (fun _ => 0) 8 [.push [1, 2, 3, 4], .poll, .write,
        .push [5, 6, 7, 8, 9]]).ring = [1, 2, 3, 4, 5, 6, 7, 8, 9] :=
  (kept_and_accepted_iff (by decide) _ _ rfl).1

/-- Seven bytes of the eight may be unread, five are, and the one byte is rejected. -/
theorem wrapped_rejects : ¬ ∀ (bufSize : Int) (buffer : Int -> UInt8) (actions : List Action)
    (msg : List UInt8), 0 < bufSize ->
      msg.length < bufSize - 1 - (unread (runActions buffer bufSize actions).ring).length ->
        (taosPushLogBuffer (runActions buffer bufSize actions).ring msg).2 = 0 := by
  intro accepts
  have accepted := accepts 8 (fun _ => 0)
    [.push [1, 2, 3, 4], .poll, .write, .push [5, 6, 7, 8, 9]] [10] (by decide) (by decide)
  exact absurd accepted (by decide)

end Luomi.LogRing
