import Mathlib.Tactic

/-!
# Scanning a stream of frames

A reader looks at the head of a stream and reports what it found and how long
that was, or that it stops.  A scan applies it again behind each find.  Where
every find has a positive length inside the stream, the length of the stream is
enough fuel, and a stream of frames is scanned frame by frame.
-/

set_option autoImplicit false

namespace Luomi.StreamScan

variable {β ρ σ : Type}

def scanFrom (read : List β -> Option (ρ × Nat)) (advance : σ -> ρ -> Nat -> σ) :
    Nat -> List β -> σ -> σ
  | 0, _, state => state
  | fuel + 1, stream, state =>
    match read stream with
    | none => state
    | some (found, size) =>
      scanFrom read advance fuel (stream.drop size) (advance state found size)

def scan (read : List β -> Option (ρ × Nat)) (advance : σ -> ρ -> Nat -> σ) (stream : List β)
    (state : σ) : σ :=
  scanFrom read advance stream.length stream state

def Progresses (read : List β -> Option (ρ × Nat)) : Prop :=
  ∀ stream found size, read stream = some (found, size) -> 0 < size ∧ stream ≠ []

variable {read : List β -> Option (ρ × Nat)} {advance : σ -> ρ -> Nat -> σ}

theorem scanFrom_enough (progresses : Progresses read) (fuel : Nat) :
    ∀ {stream : List β} {state : σ} {more : Nat}, stream.length ≤ fuel -> fuel ≤ more ->
      scanFrom read advance more stream state = scanFrom read advance fuel stream state := by
  induction fuel with
  | zero =>
    intro stream state more short _
    have empty : stream = [] := List.eq_nil_of_length_eq_zero (Nat.le_zero.mp short)
    subst empty
    cases more with
    | zero => rfl
    | succ more =>
      have stops : read ([] : List β) = none := by
        rw [Option.eq_none_iff_forall_not_mem]
        rintro ⟨found, size⟩ finds
        exact (progresses _ _ _ finds).2 rfl
      simp only [scanFrom, stops]
  | succ fuel ih =>
    intro stream state more short enough
    obtain ⟨less, rfl⟩ : ∃ less, more = less + 1 := ⟨more - 1, by omega⟩
    rw [scanFrom, scanFrom]
    cases finds : read stream with
    | none => rfl
    | some pair =>
      obtain ⟨found, size⟩ := pair
      obtain ⟨positive, nonempty⟩ := progresses _ _ _ finds
      refine ih ?_ (Nat.le_of_succ_le_succ enough)
      rw [List.length_drop]
      omega

theorem scan_step (progresses : Progresses read) {stream : List β} {found : ρ} {size : Nat}
    (finds : read stream = some (found, size)) (state : σ) : scan read advance stream state =
      scan read advance (stream.drop size) (advance state found size) := by
  obtain ⟨positive, nonempty⟩ := progresses _ _ _ finds
  have some' := List.length_pos_of_ne_nil nonempty
  obtain ⟨fuel, length⟩ : ∃ fuel, stream.length = fuel + 1 := ⟨stream.length - 1, by omega⟩
  rw [scan, length, scanFrom, finds]
  apply scanFrom_enough progresses
  · exact le_rfl
  · rw [List.length_drop]
    omega

theorem scan_stop {stream : List β} (stops : read stream = none) (state : σ) :
    scan read advance stream state = state := by
  rw [scan]
  cases stream.length with
  | zero => rfl
  | succ fuel => rw [scanFrom, stops]

theorem scan_keeps {kept : σ -> Prop}
    (keeps : ∀ state found size, kept state -> kept (advance state found size))
    (stream : List β) {state : σ} (start : kept state) : kept (scan read advance stream state) := by
  have run : ∀ (fuel : Nat) (stream : List β) (state : σ), kept state ->
      kept (scanFrom read advance fuel stream state) := by
    intro fuel
    induction fuel with
    | zero => exact fun stream state start => start
    | succ fuel ih =>
      intro stream state start
      rw [scanFrom]
      split
      · exact start
      · exact ih _ _ (keeps _ _ _ start)
  exact run _ _ _ start

def Frames (read : List β -> Option (ρ × Nat)) (frame : List β) (found : ρ) : Prop :=
  ∀ rest, read (frame ++ rest) = some (found, frame.length)

theorem scan_frame (progresses : Progresses read) {frame : List β} {found : ρ}
    (frames : Frames read frame found) (rest : List β) (state : σ) :
    scan read advance (frame ++ rest) state =
      scan read advance rest (advance state found frame.length) := by
  rw [scan_step progresses (frames rest), List.drop_left]

end Luomi.StreamScan
