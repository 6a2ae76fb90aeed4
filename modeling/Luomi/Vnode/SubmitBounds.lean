import Mathlib.Tactic.Ring
import Luomi.Vnode.SubmitReads

/-!
# When a submit message is read inside its bounds

Nothing compares a block with the length of the message, and the length that
`vnodeInsertPoints` checks is computed from the number of rows it is checked with.  So the
reads are inside the message exactly if every block that is reached is, as far as it is read,
and has a row where its rows are looked at.
-/

namespace Luomi.Vnode.SubmitBounds

open SubmitReads

variable {msgLen : Int} {block : Block} {meets : Meets}

/-- A block is read up to its `uid`, its number of rows, the key of its first row, the key of its
last row, or its end. -/
inductive Stage where
  | header | checked | first | ends | whole
  deriving DecidableEq

def Fits (msgLen : Int) (block : Block) : Stage -> Prop
  | .header => block.pos + 16 ≤ msgLen
  | .checked => block.pos + 18 ≤ msgLen
  | .first => 0 < block.numOfRows ∧ block.pos + 26 ≤ msgLen
  | .ends => 0 < block.numOfRows ∧
      block.pos + 26 + block.meter.bytesPerPoint * ((block.numOfRows : Int) - 1) ≤ msgLen
  | .whole => 0 < block.numOfRows ∧
      block.pos + 18 + block.meter.bytesPerPoint * block.numOfRows ≤ msgLen

def LastInserted (block : Block) (meets : Meets) : Prop :=
  (∀ row < block.numOfRows - 1, meets.row row = .older ∨ meets.row row = .inserted) ∧
    meets.row (block.numOfRows - 1) = .inserted

instance (block : Block) (meets : Meets) : Decidable (LastInserted block meets) :=
  inferInstanceAs (Decidable (_ ∧ _))

/-- How far `vnodeInsertPoints` reads. -/
def insertStage (logs : Bool) (sversion : Int) (outOfRange : Bool) (block : Block)
    (meets : Meets) : Stage :=
  if 32768 ≤ block.numOfRows then .checked
  else if meets.refused then .first
  else if logs then if meets.logClosed then .first else .whole
  else if block.meter.sversion < sversion then .first
  else if outOfRange then .ends
  else if LastInserted block meets then .whole
  else .ends

/-- How far `vnodeImportPoints` reads. -/
def importStage (logs : Bool) (block : Block) (meets : Meets) : Stage :=
  if block.sversion ≠ block.meter.sversion then .checked
  else if meets.outOfRange then .ends
  else if logs then if meets.logClosed then .ends else .whole
  else if meets.newer then
    if 32768 ≤ block.numOfRows ∨ meets.refused ∨ meets.outOfRangeLater then .ends
    else if LastInserted block meets then .whole
    else .ends
  else if meets.deferred ∨ meets.uses (block.numOfRows - 1) then .whole
  else .ends

/-- `vnodeInsertPoints` returns 0. -/
structure InsertPasses (logs : Bool) (sversion : Int) (outOfRange : Bool) (block : Block)
    (meets : Meets) : Prop where
  size : block.numOfRows < 32768
  taken : meets.refused = false
  log : logs = true -> meets.logClosed = false ∧ meets.logFails = false
  schema : ¬ block.meter.sversion < sversion
  range : outOfRange = false
  rows : ∀ row < block.numOfRows, meets.row row = .older ∨ meets.row row = .inserted

/-- `vnodeImportPoints` returns 0. -/
structure ImportPasses (logs : Bool) (block : Block) (meets : Meets) : Prop where
  schema : block.sversion = block.meter.sversion
  range : meets.outOfRange = false
  log : logs = true -> meets.logClosed = false ∧ meets.logFails = false

def AllInside (msgLen : Int) (uses : List Use) : Prop := ∀ use ∈ uses, Inside msgLen use

theorem allInside_andThen (first next : Reads) : AllInside msgLen (andThen first next).1 ↔
    AllInside msgLen first.1 ∧ (first.2 = true -> AllInside msgLen next.1) := by
  unfold andThen AllInside
  cases goes : first.2 with
  | true => simp [or_imp, forall_and]
  | false => simp

theorem andThen_goes (first next : Reads) :
    (andThen first next).2 = true ↔ first.2 = true ∧ next.2 = true := by
  unfold andThen
  cases goes : first.2 with
  | true => simp
  | false => simp [goes]

theorem inside_bytes (offset size : Int) :
    Inside msgLen (bytes offset size) ↔ (0 < size -> offset + size ≤ msgLen) :=
  ⟨Inside.ends, fun ends => ⟨ends, fun _ _ none' => by simp [bytes] at none'⟩⟩

theorem inside_key (row : Int) : Inside msgLen (block.key row) ↔
    block.pos + 26 + block.meter.bytesPerPoint * row ≤ msgLen ∧ row < block.numOfRows := by
  constructor
  · intro inside
    have ends := inside.ends
    unfold Block.key Block.rowAt sizeofShellSubmitBlock at ends
    have ends' := ends (by dsimp only; omega)
    dsimp only at ends'
    exact ⟨by omega, inside.row row _ rfl⟩
  · rintro ⟨ends, below⟩
    refine ⟨fun _ => ?_, ?_⟩
    · unfold Block.key Block.rowAt sizeofShellSubmitBlock
      dsimp only
      omega
    · rintro row' numOfRows same
      obtain ⟨rfl, rfl⟩ := Prod.mk.inj (Option.some.inj same)
      exact below

theorem inside_whole (row : Int) : Inside msgLen (block.whole row) ↔
    block.pos + 18 + block.meter.bytesPerPoint * row + block.meter.bytesPerPoint ≤ msgLen ∧
      row < block.numOfRows := by
  have wide := block.meter.key
  constructor
  · intro inside
    have ends := inside.ends
    unfold Block.whole Block.rowAt sizeofShellSubmitBlock at ends
    exact ⟨ends (by dsimp only; omega), inside.row row _ rfl⟩
  · rintro ⟨ends, below⟩
    refine ⟨fun _ => ends, ?_⟩
    rintro row' numOfRows same
    obtain ⟨rfl, rfl⟩ := Prod.mk.inj (Option.some.inj same)
    exact below

theorem allInside_cons (use : Use) (uses : List Use) :
    AllInside msgLen (use :: uses) ↔ Inside msgLen use ∧ AllInside msgLen uses := by
  unfold AllInside
  simp

theorem allInside_nil : AllInside msgLen [] := by
  unfold AllInside
  simp

theorem allInside_append (first next : List Use) : AllInside msgLen (first ++ next) ↔
    AllInside msgLen first ∧ AllInside msgLen next := by
  unfold AllInside
  simp only [List.mem_append, or_imp, forall_and]

def Goes (meets : Meets) (row : Nat) : Prop := meets.row row = .older ∨ meets.row row = .inserted

theorem andThen_assoc (first next later : Reads) :
    andThen (andThen first next) later = andThen first (andThen next later) := by
  unfold andThen
  cases goes : first.2 with
  | true => cases goes' : next.2 <;> simp [goes']
  | false => simp [goes]

theorem insertRows_append (rows later : List Nat) : insertRows block meets (rows ++ later) =
    andThen (insertRows block meets rows) (insertRows block meets later) := by
  induction rows with
  | nil => simp [insertRows, andThen]
  | cons row rows ih =>
    simp only [List.cons_append, insertRows]
    cases meets.row row with
    | dropped => rfl
    | stopped => rfl
    | older => dsimp only; rw [ih, andThen_assoc]
    | inserted => dsimp only; rw [ih, andThen_assoc]

theorem insertRows_goes (rows : List Nat) :
    (insertRows block meets rows).2 = true ↔ ∀ row ∈ rows, Goes meets row := by
  induction rows with
  | nil => simp [insertRows]
  | cons row rows ih =>
    rw [List.forall_mem_cons, <- ih]
    simp only [insertRows, Goes]
    cases meets.row row with
    | dropped => simp
    | stopped => simp
    | older => simp [andThen_goes]
    | inserted => simp [andThen_goes]

theorem insertRows_inside (rows : List Nat)
    (inside : ∀ row ∈ rows, Inside msgLen (block.key row) ∧ Inside msgLen (block.whole row)) :
    AllInside msgLen (insertRows block meets rows).1 := by
  induction rows with
  | nil => exact allInside_nil
  | cons row rows ih =>
    obtain ⟨⟨key, whole⟩, rest⟩ := List.forall_mem_cons.mp inside
    have later := ih rest
    simp only [insertRows]
    cases meets.row row with
    | dropped => exact allInside_nil
    | stopped => exact (allInside_cons _ _).mpr ⟨key, allInside_nil⟩
    | older =>
      apply (allInside_andThen _ _).mpr
      exact ⟨(allInside_cons _ _).mpr ⟨key, allInside_nil⟩, fun _ => later⟩
    | inserted =>
      apply (allInside_andThen _ _).mpr
      refine ⟨?_, fun _ => later⟩
      exact (allInside_cons _ _).mpr ⟨key, (allInside_cons _ _).mpr ⟨whole, allInside_nil⟩⟩

theorem insertRows_last (row : Nat) (key : Inside msgLen (block.key row)) :
    AllInside msgLen (insertRows block meets [row]).1 ↔
      (meets.row row = .inserted -> Inside msgLen (block.whole row)) := by
  simp only [insertRows]
  cases meets.row row with
  | dropped => simp [allInside_nil]
  | stopped => simp [allInside_nil, allInside_cons, key]
  | older => simp [allInside_andThen, allInside_nil, allInside_cons, key]
  | inserted => simp [allInside_andThen, allInside_nil, allInside_cons, key]

theorem fits_checked_of_first (fits : Fits msgLen block .first) : Fits msgLen block .checked := by
  unfold Fits at *
  omega

theorem fits_first_of_ends (fits : Fits msgLen block .ends) : Fits msgLen block .first := by
  unfold Fits at *
  have nonneg : 0 ≤ (block.meter.bytesPerPoint : Int) * ((block.numOfRows : Int) - 1) :=
    mul_nonneg (by omega) (by omega)
  exact ⟨fits.1, by omega⟩

theorem fits_ends_of_whole (fits : Fits msgLen block .whole) : Fits msgLen block .ends := by
  unfold Fits at *
  have wide := block.meter.key
  have split : (block.meter.bytesPerPoint : Int) * ((block.numOfRows : Int) - 1)
      = block.meter.bytesPerPoint * block.numOfRows - block.meter.bytesPerPoint := by ring
  exact ⟨fits.1, by omega⟩

theorem inside_firstKey : Inside msgLen (block.key 0) ↔ Fits msgLen block .first := by
  rw [inside_key]
  unfold Fits
  omega

theorem inside_lastKey : Inside msgLen (block.key 0) ∧
    Inside msgLen (block.key ((block.numOfRows : Int) - 1)) ↔ Fits msgLen block .ends := by
  rw [inside_firstKey, inside_key]
  constructor
  · rintro ⟨⟨some', _⟩, ends, _⟩
    exact ⟨some', ends⟩
  · intro fits
    exact ⟨fits_first_of_ends fits, fits.2, by omega⟩

theorem inside_before {row : Nat} (fits : Fits msgLen block .ends)
    (before : row < block.numOfRows - 1) :
    Inside msgLen (block.key row) ∧ Inside msgLen (block.whole row) := by
  rw [inside_key, inside_whole]
  have wide := block.meter.key
  have ends := fits.2
  have step : (block.meter.bytesPerPoint : Int) * (row + 1)
      ≤ block.meter.bytesPerPoint * ((block.numOfRows : Int) - 1) :=
    mul_le_mul_of_nonneg_left (by omega) (by omega)
  rw [mul_add, mul_one] at step
  refine ⟨⟨by omega, by omega⟩, by omega, by omega⟩

theorem inside_lastWhole (some' : 0 < block.numOfRows) :
    Inside msgLen (block.whole ((block.numOfRows - 1 : Nat) : Int)) ↔ Fits msgLen block .whole := by
  rw [inside_whole]
  unfold Fits
  have split : (block.meter.bytesPerPoint : Int) * ((block.numOfRows - 1 : Nat) : Int)
      = block.meter.bytesPerPoint * block.numOfRows - block.meter.bytesPerPoint := by
    rw [Nat.cast_sub some']
    push_cast
    ring
  constructor
  · rintro ⟨ends, _⟩
    exact ⟨some', by omega⟩
  · rintro ⟨_, ends⟩
    exact ⟨by omega, by omega⟩

theorem insertRows_range (fits : Fits msgLen block .ends) :
    AllInside msgLen (insertRows block meets (List.range block.numOfRows)).1 ↔
      (LastInserted block meets -> Fits msgLen block .whole) := by
  obtain ⟨last, rows⟩ : ∃ last, block.numOfRows = last + 1 :=
    ⟨block.numOfRows - 1, by have := fits.1; omega⟩
  have lastRow : block.numOfRows - 1 = last := by omega
  have lastKey : Inside msgLen (block.key last) := by
    have ends := (inside_lastKey.mpr fits).2
    rwa [rows, Nat.cast_add, Nat.cast_one, add_sub_cancel_right] at ends
  have before : AllInside msgLen (insertRows block meets (List.range last)).1 :=
    insertRows_inside _ fun row mem =>
      inside_before fits (by rw [lastRow]; exact List.mem_range.mp mem)
  rw [rows, List.range_succ, insertRows_append, allInside_andThen, insertRows_goes,
    insertRows_last last lastKey, <- inside_lastWhole fits.1, lastRow]
  unfold LastInserted
  rw [lastRow]
  simp only [before, true_and, and_imp, List.mem_range]
  rfl

theorem fits_of_whole (fits : Fits msgLen block .whole) (stage : Stage) :
    Fits msgLen block stage := by
  have ends := fits_ends_of_whole fits
  have first := fits_first_of_ends ends
  have checked := fits_checked_of_first first
  cases stage with
  | header => unfold Fits at *; omega
  | checked => exact checked
  | first => exact first
  | ends => exact ends
  | whole => exact fits

theorem short_eq_iff (numOfRows : Nat) : short numOfRows = numOfRows ↔ numOfRows < 32768 := by
  unfold short
  split_ifs with below
  · exact iff_of_true rfl below
  · exact iff_of_false (by omega) below

theorem sizeChecked_iff : short block.numOfRows * block.meter.bytesPerPoint + 2 = block.contLen ↔
    block.numOfRows < 32768 := by
  have wide := block.meter.key
  rw [<- short_eq_iff]
  unfold Block.contLen
  constructor
  · intro same
    refine mul_right_cancel₀ (b := (block.meter.bytesPerPoint : Int)) (by omega) ?_
    omega
  · intro same
    rw [same]
    omega

theorem inside_commitLog (some' : 0 < block.numOfRows) :
    Inside msgLen (bytes (block.pos + 16) block.contLen) ↔ Fits msgLen block .whole := by
  have nonneg : 0 ≤ (block.numOfRows : Int) * block.meter.bytesPerPoint :=
    mul_nonneg (by omega) (by omega)
  have turned := mul_comm (block.numOfRows : Int) block.meter.bytesPerPoint
  rw [inside_bytes]
  unfold Block.contLen Fits
  constructor
  · intro ends
    have ends' := ends (by omega)
    exact ⟨some', by omega⟩
  · rintro ⟨_, ends⟩ _
    omega

theorem writeCommitLog_inside (logs : Bool) (some' : 0 < block.numOfRows) :
    AllInside msgLen (writeCommitLog logs block meets).1 ↔
      (logs = true -> meets.logClosed = false -> Fits msgLen block .whole) := by
  unfold writeCommitLog
  cases logs with
  | false => simp [allInside_nil]
  | true =>
    cases meets.logClosed with
    | true => simp [allInside_nil]
    | false => simp [allInside_cons, allInside_nil, inside_commitLog some']

theorem writeCommitLog_goes (logs : Bool) : (writeCommitLog logs block meets).2 = true ↔
    (logs = true -> meets.logClosed = false ∧ meets.logFails = false) := by
  unfold writeCommitLog
  cases logs with
  | false => simp
  | true => cases meets.logClosed <;> simp

/-- How far the rest of `vnodeInsertPoints` reads, behind the commit log. -/
def loggedStage (sversion : Int) (outOfRange : Bool) (block : Block) (meets : Meets) : Stage :=
  if block.meter.sversion < sversion then .first
  else if outOfRange then .ends
  else if LastInserted block meets then .whole
  else .ends

theorem logged_inside (sversion : Int) (outOfRange : Bool) (fits : Fits msgLen block .first)
    (small : block.numOfRows < 32768) :
    AllInside msgLen (andThen (reading [] (¬ block.meter.sversion < sversion))
      <| andThen (reading [block.key 0, block.key (short block.numOfRows - 1)] !outOfRange)
      <| insertRows block meets (List.range (short block.numOfRows).toNat)).1 ↔
      Fits msgLen block (loggedStage sversion outOfRange block meets) := by
  rw [(short_eq_iff _).mpr small, Int.toNat_natCast]
  simp only [allInside_andThen, reading, allInside_cons, allInside_nil, and_true, true_and,
    inside_lastKey, decide_eq_true_eq, Bool.not_eq_true']
  unfold loggedStage
  by_cases newer : block.meter.sversion < sversion
  · simp [newer, fits]
  rw [if_neg newer]
  cases outOfRange with
  | true => simp [newer]
  | false =>
    by_cases ends : Fits msgLen block .ends
    · rw [insertRows_range ends]
      by_cases last : LastInserted block meets
      · simp [newer, ends, last]
      · simp [newer, ends, last]
    · have short' : ¬ Fits msgLen block .whole := fun whole => ends (fits_ends_of_whole whole)
      by_cases last : LastInserted block meets
      · simp [newer, ends, last, short']
      · simp [newer, ends, last]

theorem vnodeInsertPoints_eq (logs : Bool) (sversion : Int) (outOfRange : Bool) :
    vnodeInsertPoints logs sversion outOfRange block meets =
      andThen (reading [bytes (block.pos + 16) 2]
        (short block.numOfRows * block.meter.bytesPerPoint + 2 = block.contLen))
      (andThen (reading [block.key 0] !meets.refused) (andThen (writeCommitLog logs block meets)
      (andThen (reading [] (¬ block.meter.sversion < sversion))
      (andThen (reading [block.key 0, block.key (short block.numOfRows - 1)] !outOfRange)
      (insertRows block meets (List.range (short block.numOfRows).toNat)))))) :=
  rfl

theorem inside_numOfRows :
    Inside msgLen (bytes (block.pos + 16) 2) ↔ Fits msgLen block .checked := by
  rw [inside_bytes]
  unfold Fits
  omega

theorem insertStage_eq (logs : Bool) (sversion : Int) (outOfRange : Bool)
    (small : block.numOfRows < 32768) : insertStage logs sversion outOfRange block meets =
      if meets.refused then .first
      else if logs then if meets.logClosed then .first else .whole
      else loggedStage sversion outOfRange block meets := by
  unfold insertStage
  rw [if_neg (Nat.not_le_of_lt small)]
  rfl

/-- A block of at least 32768 rows is refused before its rows are looked at. -/
theorem insertStage_big (logs : Bool) (sversion : Int) (outOfRange : Bool)
    (big : 32768 ≤ block.numOfRows) :
    insertStage logs sversion outOfRange block meets = .checked := by
  unfold insertStage
  rw [if_pos big]

variable {stage : Stage}

theorem fits_first_of_stage (header : stage ≠ .header) (checked : stage ≠ .checked)
    (fits : Fits msgLen block stage) : Fits msgLen block .first := by
  cases stage with
  | header => exact absurd rfl header
  | checked => exact absurd rfl checked
  | first => exact fits
  | ends => exact fits_first_of_ends fits
  | whole => exact fits_of_whole fits .first

theorem fits_ends_of_stage (header : stage ≠ .header)
    (checked : stage ≠ .checked) (first : stage ≠ .first) (fits : Fits msgLen block stage) :
    Fits msgLen block .ends := by
  cases stage with
  | header => exact absurd rfl header
  | checked => exact absurd rfl checked
  | first => exact absurd rfl first
  | ends => exact fits
  | whole => exact fits_ends_of_whole fits

theorem vnodeInsertPoints_inside (logs : Bool) (sversion : Int) (outOfRange : Bool) :
    AllInside msgLen (vnodeInsertPoints logs sversion outOfRange block meets).1 ↔
      Fits msgLen block (insertStage logs sversion outOfRange block meets) := by
  rw [vnodeInsertPoints_eq, allInside_andThen, allInside_andThen, allInside_andThen]
  simp only [reading, allInside_cons, allInside_nil, and_true, inside_numOfRows,
    decide_eq_true_eq, sizeChecked_iff, inside_firstKey, Bool.not_eq_true']
  by_cases small : block.numOfRows < 32768
  swap
  · rw [insertStage_big _ _ _ (Nat.le_of_not_lt small)]
    exact and_iff_left fun small' => absurd small' small
  rw [insertStage_eq _ _ _ small]
  simp only [small, true_imp_iff]
  by_cases first : Fits msgLen block .first
  swap
  · apply iff_of_false (fun all => first all.2.1)
    intro fits
    apply first
    apply fits_first_of_stage _ _ fits
    all_goals unfold loggedStage; split_ifs <;> simp
  have checked := fits_checked_of_first first
  have rest : AllInside msgLen (andThen ([], decide (¬ block.meter.sversion < sversion))
      <| andThen ([block.key 0, block.key (short block.numOfRows - 1)], !outOfRange)
      <| insertRows block meets (List.range (short block.numOfRows).toNat)).1 ↔
      Fits msgLen block (loggedStage sversion outOfRange block meets) :=
    logged_inside sversion outOfRange first small
  rw [writeCommitLog_inside logs first.1, writeCommitLog_goes, rest]
  simp only [checked, first, true_and]
  cases meets.refused with
  | true => simp [first]
  | false =>
    cases logs with
    | false => simp
    | true =>
      cases meets.logClosed with
      | true => simp [first]
      | false =>
        simp only [true_imp_iff, if_true, Bool.false_eq_true, if_false]
        exact and_iff_left_of_imp fun whole _ => fits_of_whole whole _

theorem vnodeInsertPoints_goes (logs : Bool) (sversion : Int) (outOfRange : Bool) :
    (vnodeInsertPoints logs sversion outOfRange block meets).2 = true ↔
      InsertPasses logs sversion outOfRange block meets := by
  rw [vnodeInsertPoints_eq]
  simp only [andThen_goes, reading, decide_eq_true_eq, sizeChecked_iff, writeCommitLog_goes,
    insertRows_goes, Bool.not_eq_true', List.mem_range]
  constructor
  · rintro ⟨size, taken, log, schema, range, rows⟩
    rw [(short_eq_iff _).mpr size, Int.toNat_natCast] at rows
    exact ⟨size, taken, log, schema, range, rows⟩
  · rintro ⟨size, taken, log, schema, range, rows⟩
    rw [(short_eq_iff _).mpr size, Int.toNat_natCast]
    exact ⟨size, taken, log, schema, range, rows⟩

theorem inside_copied (some' : 0 < block.numOfRows) :
    Inside msgLen (bytes (block.pos + sizeofShellSubmitBlock) (block.contLen - 2)) ↔
      Fits msgLen block .whole := by
  have turned := mul_comm (block.numOfRows : Int) block.meter.bytesPerPoint
  have positive : 0 < (block.numOfRows : Int) * block.meter.bytesPerPoint := by
    have wide := block.meter.key
    exact mul_pos (by omega) (by omega)
  rw [inside_bytes]
  unfold Block.contLen Fits sizeofShellSubmitBlock
  constructor
  · intro ends
    have ends' := ends (by omega)
    exact ⟨some', by omega⟩
  · rintro ⟨_, ends⟩ _
    omega

theorem importedRows_inside (fits : Fits msgLen block .ends) :
    AllInside msgLen (((List.range block.numOfRows).filter meets.uses).map
      fun (row : Nat) => block.whole row) ↔
      (meets.uses (block.numOfRows - 1) = true -> Fits msgLen block .whole) := by
  have some' := fits.1
  rw [<- inside_lastWhole some']
  unfold AllInside
  simp only [List.mem_map, List.mem_filter, List.mem_range]
  constructor
  · intro all used
    exact all _ ⟨block.numOfRows - 1, ⟨by omega, used⟩, rfl⟩
  · rintro last use ⟨row, ⟨below, used⟩, rfl⟩
    by_cases before : row < block.numOfRows - 1
    · exact (inside_before fits before).2
    · obtain rfl : row = block.numOfRows - 1 := by omega
      exact last used

theorem importRows_inside (fits : Fits msgLen block .ends) :
    AllInside msgLen (importRows block meets).1 ↔
      (meets.deferred = true ∨ meets.uses (block.numOfRows - 1) = true ->
        Fits msgLen block .whole) := by
  have keys := inside_lastKey.mpr fits
  unfold importRows
  rw [allInside_andThen]
  simp only [reading, allInside_cons, allInside_nil, keys, and_true, true_and, true_imp_iff]
  cases meets.deferred with
  | true => simp [allInside_cons, allInside_nil, inside_copied fits.1]
  | false => simp [importedRows_inside fits]

theorem importRows_goes : (importRows block meets).2 = true := by
  unfold importRows
  cases meets.deferred <;> rfl

theorem importInserted_inside (fits : Fits msgLen block .ends) (outOfRange : Bool) :
    AllInside msgLen (vnodeInsertPoints false block.meter.sversion outOfRange block meets).1 ↔
      (¬ (32768 ≤ block.numOfRows ∨ meets.refused = true ∨ outOfRange = true) ->
        LastInserted block meets -> Fits msgLen block .whole) := by
  have first := fits_first_of_ends fits
  have checked := fits_checked_of_first first
  rw [vnodeInsertPoints_inside]
  by_cases big : 32768 ≤ block.numOfRows
  · rw [insertStage_big _ _ _ big]
    simp [big, checked]
  rw [insertStage_eq _ _ _ (Nat.lt_of_not_le big)]
  unfold loggedStage
  cases meets.refused with
  | true => simp [first]
  | false =>
    cases outOfRange with
    | true => simp [fits]
    | false =>
      by_cases last : LastInserted block meets
      · simp [big, last]
      · simp [last, fits]

theorem vnodeImportPoints_eq (logs : Bool) : vnodeImportPoints logs block meets =
    andThen (reading [bytes (block.pos + 16) 2]
      ((block.numOfRows : Int) * block.meter.bytesPerPoint + 2 = block.contLen))
    (andThen (reading [] (block.sversion = block.meter.sversion))
    (andThen (reading [block.key 0, block.key ((block.numOfRows : Int) - 1)] !meets.outOfRange)
    (andThen (writeCommitLog logs block meets)
    (andThen (reading [block.key ((block.numOfRows : Int) - 1)] true) (if meets.newer then
      ((vnodeInsertPoints false block.meter.sversion meets.outOfRangeLater block meets).1, true)
    else importRows block meets))))) :=
  rfl

theorem imported_sizeChecked :
    (block.numOfRows : Int) * block.meter.bytesPerPoint + 2 = block.contLen := by
  unfold Block.contLen
  omega

def appliedStage (block : Block) (meets : Meets) : Stage :=
  if meets.newer then
    if 32768 ≤ block.numOfRows ∨ meets.refused ∨ meets.outOfRangeLater then .ends
    else if LastInserted block meets then .whole
    else .ends
  else if meets.deferred ∨ meets.uses (block.numOfRows - 1) then .whole
  else .ends

theorem allInside_ite (taken : Bool) (inserted : List Use) (rest : Reads) :
    AllInside msgLen (if taken then (inserted, true) else rest).1 ↔
      if taken then AllInside msgLen inserted else AllInside msgLen rest.1 := by
  cases taken <;> simp

theorem applied_inside (fits : Fits msgLen block .ends) :
    AllInside msgLen (if meets.newer then
        ((vnodeInsertPoints false block.meter.sversion meets.outOfRangeLater block meets).1, true)
      else importRows block meets).1 ↔ Fits msgLen block (appliedStage block meets) := by
  rw [allInside_ite, importInserted_inside fits, importRows_inside fits]
  unfold appliedStage
  cases meets.newer with
  | true =>
    simp only [if_true]
    split_ifs with refused last
    · exact iff_of_true (fun taken => absurd refused taken) fits
    · exact ⟨fun whole => whole refused last, fun whole _ _ => whole⟩
    · exact iff_of_true (fun _ last' => absurd last' last) fits
  | false =>
    simp only [Bool.false_eq_true, if_false]
    split_ifs with used
    · exact ⟨fun whole => whole used, fun whole _ => whole⟩
    · exact iff_of_true (fun used' => absurd used' used) fits

theorem importStage_eq (logs : Bool) : importStage logs block meets =
    if block.sversion ≠ block.meter.sversion then .checked
    else if meets.outOfRange then .ends
    else if logs then if meets.logClosed then .ends else .whole
    else appliedStage block meets :=
  rfl

theorem vnodeImportPoints_inside (logs : Bool) :
    AllInside msgLen (vnodeImportPoints logs block meets).1 ↔
      Fits msgLen block (importStage logs block meets) := by
  rw [vnodeImportPoints_eq, allInside_andThen, allInside_andThen, allInside_andThen,
    allInside_andThen, allInside_andThen]
  simp only [reading, allInside_cons, allInside_nil, and_true, inside_numOfRows, inside_lastKey,
    decide_eq_true_eq, imported_sizeChecked, Bool.not_eq_true', true_imp_iff, true_and]
  rw [importStage_eq]
  by_cases schema : block.sversion = block.meter.sversion
  swap
  · simp [schema]
  simp only [schema, true_imp_iff, ne_eq, not_true, if_false]
  by_cases fits : Fits msgLen block .ends
  swap
  · apply iff_of_false (fun all => fits all.2.1)
    intro stage
    apply fits
    apply fits_ends_of_stage _ _ _ stage
    all_goals unfold appliedStage; split_ifs <;> simp
  have checked := fits_checked_of_first (fits_first_of_ends fits)
  have last := (inside_lastKey.mpr fits).2
  rw [writeCommitLog_inside logs fits.1, writeCommitLog_goes, applied_inside fits]
  simp only [checked, fits, last, true_and]
  cases meets.outOfRange with
  | true => simp [fits]
  | false =>
    cases logs with
    | false => simp
    | true =>
      cases meets.logClosed with
      | true => simp [fits]
      | false =>
        simp only [true_imp_iff, if_true, Bool.false_eq_true, if_false]
        exact and_iff_left_of_imp fun whole _ => fits_of_whole whole _

theorem vnodeImportPoints_goes (logs : Bool) :
    (vnodeImportPoints logs block meets).2 = true ↔ ImportPasses logs block meets := by
  rw [vnodeImportPoints_eq]
  simp only [andThen_goes, reading, decide_eq_true_eq, imported_sizeChecked, writeCommitLog_goes,
    Bool.not_eq_true', true_and]
  have applied : (if meets.newer then
      ((vnodeInsertPoints false block.meter.sversion meets.outOfRangeLater block meets).1, true)
    else importRows block meets).2 = true := by
    cases meets.newer with
    | true => rfl
    | false => exact importRows_goes
  constructor
  · rintro ⟨schema, range, log, _⟩
    exact ⟨schema, range, log⟩
  · rintro ⟨schema, range, log⟩
    exact ⟨schema, range, log, applied⟩

variable {content : Int -> UInt8} {vnode : SVnodeObj}

/-- The meter of the block at a position; there is none for an identifier out of range. -/
def meterAt (content : Int -> UInt8) (vnode : SVnodeObj) (pos : Int) : Option SMeterObj :=
  if vnode.maxSessions ≤ htonl content pos ∨ htonl content pos ≤ 0 then none
  else vnode.meterList (htonl content pos)

def blockAt (content : Int -> UInt8) (meter : SMeterObj) (pos : Int) : Block :=
  ⟨pos, htons content (pos + 16), htonl content (pos + 4), meter⟩

section

variable (vnode : SVnodeObj) (isImport : Bool) (block : Block) (meets : Meets)

def stageOf : Stage :=
  if ¬ meets.ready then .checked
  else if isImport then importStage vnode.commitLog block meets
  else insertStage vnode.commitLog block.sversion meets.outOfRange block meets

def Passes : Prop :=
  meets.ready = true ∧
    if isImport then ImportPasses vnode.commitLog block meets
    else InsertPasses vnode.commitLog block.sversion meets.outOfRange block meets

end

def BlocksFit (content : Int -> UInt8) (vnode : SVnodeObj) (isImport : Bool) (meets : Nat -> Meets)
    (msgLen : Int) : Nat -> Nat -> Int -> Prop
  | 0, _, _ => True
  | left + 1, i, pos =>
    match meterAt content vnode pos with
    | none => pos + 16 ≤ msgLen
    | some meter =>
      let block := blockAt content meter pos
      Fits msgLen block (stageOf vnode isImport block (meets i)) ∧
        (Passes vnode isImport block (meets i) ->
          BlocksFit content vnode isImport meets msgLen left (i + 1)
            (pos + sizeofShellSubmitBlock + block.numOfRows * meter.bytesPerPoint))

theorem inside_header (pos : Int) : AllInside msgLen [bytes pos 4, bytes (pos + 8) 8] ↔
    pos + 16 ≤ msgLen := by
  simp only [allInside_cons, allInside_nil, inside_bytes, and_true]
  omega

theorem inside_checked (pos : Int) : AllInside msgLen [bytes (pos + 16) 2, bytes (pos + 4) 4] ↔
    pos + 18 ≤ msgLen := by
  simp only [allInside_cons, allInside_nil, inside_bytes, and_true]
  omega

variable {isImport : Bool}

theorem submitBlock_none {pos : Int} (none' : meterAt content vnode pos = none) :
    submitBlock content vnode isImport meets pos =
      (reading [bytes pos 4, bytes (pos + 8) 8] false, pos) := by
  unfold meterAt at none'
  unfold submitBlock
  dsimp only
  by_cases range : vnode.maxSessions ≤ htonl content pos ∨ htonl content pos ≤ 0
  · rw [if_pos range]
  · rw [if_neg range] at none' ⊢
    rw [none']

theorem submitBlock_some {pos : Int} {meter : SMeterObj}
    (found : meterAt content vnode pos = some meter) :
    submitBlock content vnode isImport meets pos =
      (andThen (reading [bytes pos 4, bytes (pos + 8) 8] true)
        (andThen (reading [bytes (pos + 16) 2, bytes (pos + 4) 4] meets.ready)
          (if isImport then vnodeImportPoints vnode.commitLog (blockAt content meter pos) meets
            else vnodeInsertPoints vnode.commitLog (blockAt content meter pos).sversion
              meets.outOfRange (blockAt content meter pos) meets)),
        pos + sizeofShellSubmitBlock + (blockAt content meter pos).numOfRows * meter.bytesPerPoint)
          := by
  unfold meterAt at found
  unfold submitBlock
  dsimp only
  by_cases range : vnode.maxSessions ≤ htonl content pos ∨ htonl content pos ≤ 0
  · rw [if_pos range] at found
    contradiction
  · rw [if_neg range] at found ⊢
    rw [found]
    rfl

theorem fits_checked_of_stage (header : stage ≠ .header)
    (fits : Fits msgLen block stage) : Fits msgLen block .checked := by
  by_cases checked : stage = .checked
  · exact checked ▸ fits
  · exact fits_checked_of_first (fits_first_of_stage header checked fits)

theorem stageOf_ne_header (isImport : Bool) : stageOf vnode isImport block meets ≠ .header := by
  unfold stageOf importStage insertStage
  split_ifs <;> simp

theorem blockReads_inside (block : Block) (meets : Meets) :
    AllInside msgLen (andThen (reading [bytes block.pos 4, bytes (block.pos + 8) 8] true)
      (andThen (reading [bytes (block.pos + 16) 2, bytes (block.pos + 4) 4] meets.ready)
        (if isImport then vnodeImportPoints vnode.commitLog block meets
          else vnodeInsertPoints vnode.commitLog block.sversion meets.outOfRange block meets))).1 ↔
      Fits msgLen block (stageOf vnode isImport block meets) := by
  have called : AllInside msgLen (if isImport then vnodeImportPoints vnode.commitLog block meets
        else vnodeInsertPoints vnode.commitLog block.sversion meets.outOfRange block meets).1 ↔
      Fits msgLen block (if isImport then importStage vnode.commitLog block meets
        else insertStage vnode.commitLog block.sversion meets.outOfRange block meets) := by
    cases isImport with
    | true => exact vnodeImportPoints_inside _
    | false => exact vnodeInsertPoints_inside _ _ _
  have checked_iff : block.pos + 18 ≤ msgLen ↔ Fits msgLen block .checked := Iff.rfl
  have header : Fits msgLen block .checked -> block.pos + 16 ≤ msgLen := by
    intro checked
    have behind := checked_iff.mpr checked
    omega
  have checked : Fits msgLen block (stageOf vnode isImport block meets) ->
      Fits msgLen block .checked := fits_checked_of_stage (stageOf_ne_header isImport)
  rw [allInside_andThen, allInside_andThen, called]
  unfold stageOf at checked ⊢
  simp only [reading, inside_header, inside_checked, checked_iff, true_imp_iff]
  cases ready : meets.ready with
  | false =>
    simp only [Bool.false_eq_true, not_false_eq_true, if_true, false_imp_iff, and_true]
    exact and_iff_right_of_imp header
  | true =>
    simp only [ready, not_true_eq_false, if_false, true_imp_iff] at checked ⊢
    constructor
    · rintro ⟨_, _, fits⟩
      exact fits
    · intro fits
      exact ⟨header (checked fits), checked fits, fits⟩

section

variable {pos : Int} {meter : SMeterObj} (found : meterAt content vnode pos = some meter)

include found

theorem submitBlock_inside : AllInside msgLen (submitBlock content vnode isImport meets pos).1.1 ↔
      Fits msgLen (blockAt content meter pos)
        (stageOf vnode isImport (blockAt content meter pos) meets) := by
  rw [submitBlock_some found]
  exact blockReads_inside (blockAt content meter pos) meets

theorem submitBlock_goes : (submitBlock content vnode isImport meets pos).1.2 = true ↔
      Passes vnode isImport (blockAt content meter pos) meets := by
  rw [submitBlock_some found, andThen_goes, andThen_goes]
  unfold Passes
  simp only [reading, true_and]
  cases isImport with
  | true =>
    simp only [if_true]
    rw [vnodeImportPoints_goes]
  | false =>
    simp only [Bool.false_eq_true, if_false]
    rw [vnodeInsertPoints_goes]

end

/-- Unfolded at a position, `meterAt` is a large term, so it is kept behind an equation. -/
theorem blocksFit_succ (isImport : Bool) (meets : Nat -> Meets) (left i : Nat) (pos : Int) :
    BlocksFit content vnode isImport meets msgLen (left + 1) i pos ↔
      match meterAt content vnode pos with
      | none => pos + 16 ≤ msgLen
      | some meter =>
        Fits msgLen (blockAt content meter pos)
            (stageOf vnode isImport (blockAt content meter pos) (meets i)) ∧
          (Passes vnode isImport (blockAt content meter pos) (meets i) ->
            BlocksFit content vnode isImport meets msgLen left (i + 1)
              (pos + sizeofShellSubmitBlock +
                (blockAt content meter pos).numOfRows * meter.bytesPerPoint)) := by
  obtain ⟨meterOf, isMeterAt⟩ : ∃ meterOf, meterOf = meterAt content vnode := ⟨_, rfl⟩
  generalize same : BlocksFit content vnode isImport meets msgLen = blocks
  delta BlocksFit BlocksFit._f at same
  rw [<- isMeterAt] at same ⊢
  subst same
  exact Iff.rfl

theorem submitBlocks_inside (isImport : Bool) (meets : Nat -> Meets) (left i : Nat) (pos : Int) :
    AllInside msgLen (submitBlocks content vnode isImport meets left i pos) ↔
      BlocksFit content vnode isImport meets msgLen left i pos := by
  induction left generalizing i pos with
  | zero => exact iff_of_true allInside_nil trivial
  | succ left ih =>
    rw [submitBlocks, blocksFit_succ, allInside_append]
    cases found : meterAt content vnode pos with
    | none =>
      rw [submitBlock_none found]
      simp [reading, inside_header, allInside_nil]
    | some meter =>
      have next : (submitBlock content vnode isImport (meets i) pos).2 =
          pos + sizeofShellSubmitBlock +
            (blockAt content meter pos).numOfRows * meter.bytesPerPoint := by
        rw [submitBlock_some found]
      rw [submitBlock_inside found, next]
      apply and_congr_right
      intro _
      by_cases goes : (submitBlock content vnode isImport (meets i) pos).1.2 = true
      · rw [if_pos goes, ih]
        exact (imp_iff_right ((submitBlock_goes found).mp goes)).symm
      · rw [if_neg goes]
        exact iff_of_true allInside_nil fun passes =>
          absurd ((submitBlock_goes found).mpr passes) goes

/-- A submit for vnode 0 with one block, for meter 1, of one row that is missing. -/
def truncated : List UInt8 :=
  [0, 0, 0, 0, 0, 0, 0, 1, 0, 0, 0, 1, 0, 0, 0, 0, 0, 0, 0, 0, 0, 0, 0, 0, 0, 1]

def oneVnode (vnode : Int) : Option SVnodeObj :=
  if vnode = 0 then
    some ⟨2, false, fun sid => if sid = 1 then some ⟨16, 0, by decide⟩ else none⟩
  else none

/-- The meter is ready, its cache has room, and the key of the row is newer than its rows. -/
def plain : Meets :=
  ⟨true, false, false, false, false, false, false, false, fun _ => .inserted, fun _ => false⟩

end Luomi.Vnode.SubmitBounds
