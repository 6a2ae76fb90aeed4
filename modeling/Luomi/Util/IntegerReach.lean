import Luomi.Util.IntegerRoundTrip

/-!
# Where the Simple8B encoder leaves its tables

`SIMPLE8B_MAX_INT64` is 2^61 - 1, while a word has room for 60-bit fields and
`bit_to_selector` has entries for up to 60 bits.  A delta whose zig-zag value
lies between the two passes the overflow test and indexes the table past its
end.  Whether the encoder gets as far as that delta depends on the words it has
formed before and on the tests that send the column to the raw copy.
-/

namespace Luomi.IntegerReach

open LittleEndian ZigZag IntegerCodec IntegerScan IntegerRoundTrip
open List (getLastD_cons getLastD_nil length_cons length_drop mem_cons)

/-- A delta that passes the test against `SIMPLE8B_MAX_INT64` and needs more
than 60 bits. -/
def WideDelta (prev curr : BitVec 64) : Prop :=
  2 ^ 60 ≤ (zigzag (curr - prev)).toNat ∧ (zigzag (curr - prev)).toNat < simple8bMaxInt64

/-- A word that starts after `prev` looks at a wide delta while it still has
room: the elements before it fit one selector together and no element up to it
fails the overflow test. -/
def MeetsWideDelta (prev : BitVec 64) (values : List (BitVec 64)) : Prop :=
  ∃ front curr rest, values = front ++ curr :: rest ∧
    (∀ value ∈ front ++ [curr], safeInt64Add value (-prev) = true) ∧
    (∃ selector < 16, front.length + 1 ≤ capacity selector ∧
      ∀ value ∈ zigzags prev front, value.toNat < 2 ^ fieldBits selector) ∧
    WideDelta (front.getLastD prev) curr

/-- The points of a column at which the encoder starts a word: the value before
the word and the values from there on. -/
inductive WordStart (input : List (BitVec 64)) : BitVec 64 -> List (BitVec 64) -> Prop where
  | first : WordStart input 0 input
  | next {prev : BitVec 64} {values : List (BitVec 64)} {word : Word} :
      WordStart input prev values -> values ≠ [] -> scan prev prev 0 0 0 values = .ok word ->
        WordStart input ((values.take word.elems).getLastD prev) (values.drop word.elems)

theorem bitToSelector_le_of_fits : ∀ bit < 61, ∀ selector < 16,
    bit ≤ fieldBits selector -> bitToSelector.getD bit 0 ≤ selector := by
  decide +kernel

section

variable {value : BitVec 64} {selector : Nat} (inside : selector < 16)
  (fits : value.toNat < 2 ^ fieldBits selector)

include inside fits

theorem wanted_le_of_fits : bitToSelector.getD (tmpBit value) 0 ≤ selector := by
  have bits := tmpBit_le_of_lt fits
  have narrow := fieldBits_le selector inside
  exact bitToSelector_le_of_fits _ (by omega) selector inside bits

theorem lt_two_pow_sixty_of_fits : value.toNat < 2 ^ 60 :=
  fits.trans_le (Nat.pow_le_pow_right (by decide) (fieldBits_le selector inside))

end

/-- `scan` part way through a word: what it still has to meet to leave the
table. -/
theorem scan_pastTable_iff (prev : BitVec 64) : ∀ (values : List (BitVec 64))
    (prevTmp : BitVec 64) (selector elems : Nat), selector < 16 -> elems ≤ capacity selector ->
      (scan prev prevTmp selector (fieldBits selector) elems values = .error .pastTable ↔
        ∃ front curr rest, values = front ++ curr :: rest ∧
          (∀ value ∈ front ++ [curr], safeInt64Add value (-prev) = true) ∧
          (∃ final < 16, selector ≤ final ∧ elems + front.length + 1 ≤ capacity final ∧
            ∀ value ∈ zigzags prevTmp front, value.toNat < 2 ^ fieldBits final) ∧
          WideDelta (front.getLastD prevTmp) curr) := by
  intro values
  induction values with
  | nil => intro prevTmp selector elems _ _; simp [scan]
  | cons head tail ih =>
    intro prevTmp selector elems inside room
    rw [scan]
    by_cases safe : safeInt64Add head (-prev) = true
    case neg =>
      rw [if_pos (by simpa using safe)]
      refine ⟨fun run => (by cases run), ?_⟩
      rintro ⟨front, curr, rest, split, safeAll, -, -⟩
      refine absurd (safeAll head ?_) safe
      cases front with
      | nil => simp_all
      | cons first front => simp_all
    rw [if_neg (by simp [safe])]
    have split : ∀ {front : List (BitVec 64)} {curr : BitVec 64} {rest : List (BitVec 64)},
        head :: tail = front ++ curr :: rest -> (front = [] ∧ curr = head ∧ rest = tail) ∨
          ∃ more, front = head :: more ∧ tail = more ++ curr :: rest := by
      intro front curr rest equal
      cases front with
      | nil => cases equal; exact Or.inl ⟨rfl, rfl, rfl⟩
      | cons first more => cases equal; exact Or.inr ⟨more, rfl, rfl⟩
    simp only
    set delta := zigzag (head - prevTmp) with deltaDef
    by_cases large : simple8bMaxInt64 ≤ delta.toNat
    case pos =>
      rw [if_pos large]
      refine ⟨fun run => (by cases run), ?_⟩
      rintro ⟨front, curr, rest, equal, -, ⟨final, finalInside, -, -, fits⟩, wide⟩
      rcases split equal with ⟨rfl, rfl, rfl⟩ | ⟨more, rfl, -⟩
      · have := wide.2
        simp only [getLastD_nil, <- deltaDef] at this
        omega
      · have small := lt_two_pow_sixty_of_fits finalInside (fits delta (by simp [zigzags, deltaDef]))
        have : 2 ^ 60 ≤ simple8bMaxInt64 := by decide
        omega
    rw [if_neg large]
    simp only [readTable_selectorToElems inside, readTable_bitToSelector, bind, Except.bind]
    by_cases more : elems + 1 ≤ capacity selector
    case neg =>
      rw [if_neg more]
      have positive := capacity_pos selector inside
      obtain ⟨_, _, _, _, close⟩ := closeWord_spec inside (show 0 < elems by omega)
      rw [close]
      refine ⟨fun run => (by cases run), ?_⟩
      rintro ⟨front, curr, rest, -, -, ⟨final, finalInside, wider, finalRoom, -⟩, -⟩
      have := capacity_antitone final finalInside selector wider
      omega
    rw [if_pos more]
    by_cases listed : tmpBit delta < 61
    case neg =>
      rw [if_neg listed]
      refine ⟨fun _ => ?_, fun _ => rfl⟩
      refine ⟨[], head, tail, rfl, by simpa using safe,
        ⟨selector, inside, le_rfl, by simpa using more, by simp [zigzags]⟩, ?_, ?_⟩
      · rw [getLastD_nil, <- deltaDef]
        by_contra small
        have narrow : delta.toNat < 2 ^ 60 := by omega
        have bits := tmpBit_le_of_lt narrow
        exact listed (by omega)
      · rw [getLastD_nil, <- deltaDef]
        omega
    obtain ⟨wantedInside, wantedFits⟩ := bitToSelector_getD _ listed
    have below : delta.toNat < 2 ^ 60 :=
      (toNat_lt_two_pow_tmpBit delta).trans_le (Nat.pow_le_pow_right (by decide) (by omega))
    simp only [listed, if_true, readTable_selectorToElems wantedInside]
    set wanted := bitToSelector.getD (tmpBit delta) 0 with wantedDef
    by_cases also : elems + 1 ≤ capacity wanted
    case neg =>
      rw [if_neg also]
      have positive := capacity_pos wanted wantedInside
      obtain ⟨_, _, _, _, close⟩ := closeWord_spec inside (show 0 < elems by omega)
      rw [close]
      refine ⟨fun run => (by cases run), ?_⟩
      rintro ⟨front, curr, rest, equal, -, ⟨final, finalInside, -, finalRoom, fits⟩, wide⟩
      rcases split equal with ⟨rfl, rfl, rfl⟩ | ⟨more', rfl, -⟩
      · have := wide.1
        simp only [getLastD_nil, <- deltaDef] at this
        omega
      · have fitsHead := fits delta (by simp [zigzags, deltaDef])
        have := capacity_antitone final finalInside wanted (wanted_le_of_fits finalInside fitsHead)
        omega
    rw [if_pos also]
    have bothInside : max selector wanted < 16 := by omega
    have bothRoom : elems + 1 ≤ capacity (max selector wanted) := by
      rcases max_choice selector wanted with same | same <;> rw [same] <;> assumption
    rw [readTable_bitPerInteger bothInside]
    simp only
    rw [ih head (max selector wanted) (elems + 1) bothInside bothRoom]
    constructor
    · rintro ⟨front, curr, rest, equal, safeAll, ⟨final, finalInside, wider, finalRoom, fits⟩, wide⟩
      refine ⟨head :: front, curr, rest, by rw [equal]; rfl, ?_,
        ⟨final, finalInside, (le_max_left _ _).trans wider, ?_, ?_⟩, ?_⟩
      · intro value member
        rcases mem_cons.mp member with rfl | member
        · exact safe
        · exact safeAll value member
      · simp only [length_cons]; omega
      · intro value member
        rw [zigzags] at member
        rcases mem_cons.mp member with rfl | member
        · have bits := fieldBits_monotone final finalInside wanted ((le_max_right _ _).trans wider)
          exact (toNat_lt_two_pow_tmpBit _).trans_le
            (Nat.pow_le_pow_right (by decide) (wantedFits.trans bits))
        · exact fits value member
      · rw [getLastD_cons]
        exact wide
    · rintro ⟨front, curr, rest, equal, safeAll, ⟨final, finalInside, wider, finalRoom, fits⟩, wide⟩
      rcases split equal with ⟨rfl, rfl, rfl⟩ | ⟨more', rfl, tailSplit⟩
      · have := wide.1
        simp only [getLastD_nil, <- deltaDef] at this
        omega
      · have fitsHead := fits delta (by simp [zigzags, deltaDef])
        refine ⟨more', curr, rest, tailSplit, fun value member => safeAll value (by
            rw [List.cons_append]; exact List.mem_cons_of_mem _ member),
          ⟨final, finalInside, max_le wider (wanted_le_of_fits finalInside fitsHead), ?_,
            fun value member => fits value (by simp [zigzags, member])⟩, ?_⟩
        case refine_2 =>
          rw [getLastD_cons] at wide
          exact wide
        simp only [length_cons] at finalRoom
        omega

theorem scan_meetsWideDelta (prev : BitVec 64) (values : List (BitVec 64)) :
    scan prev prev 0 0 0 values = .error .pastTable ↔ MeetsWideDelta prev values := by
  have start := scan_pastTable_iff prev values prev 0 0 (by decide) (by decide)
  rw [show fieldBits 0 = 0 from rfl] at start
  rw [start]
  simp [MeetsWideDelta]

theorem scan_ne_noProgress (prev : BitVec 64) : ∀ (values : List (BitVec 64))
    (prevTmp : BitVec 64) (selector elems : Nat), selector < 16 -> elems ≤ capacity selector ->
      scan prev prevTmp selector (fieldBits selector) elems values ≠ .error .noProgress := by
  intro values
  induction values with
  | nil => intro prevTmp selector elems _ _ run; cases run
  | cons head tail ih =>
    intro prevTmp selector elems inside room run
    rw [scan] at run
    simp only [readTable_selectorToElems inside, readTable_bitToSelector, bind, Except.bind] at run
    have positive := capacity_pos selector inside
    split at run
    · cases run
    split at run
    · cases run
    split at run
    case isFalse full =>
      obtain ⟨_, _, _, _, close⟩ := closeWord_spec inside (show 0 < elems by omega)
      rw [close] at run
      cases run
    rename_i more
    by_cases listed : tmpBit (zigzag (head - prevTmp)) < 61
    case neg => simp [listed] at run
    obtain ⟨wantedInside, -⟩ := bitToSelector_getD _ listed
    simp only [listed, if_true, readTable_selectorToElems wantedInside] at run
    generalize bitToSelector.getD (tmpBit (zigzag (head - prevTmp))) 0 = wanted at run wantedInside
    split at run
    · rename_i also
      have bothInside : max selector wanted < 16 := by omega
      rw [readTable_bitPerInteger bothInside] at run
      refine ih _ _ _ bothInside ?_ run
      rcases max_choice selector wanted with same | same <;> rw [same] <;> assumption
    · rename_i full
      have wantedPos := capacity_pos wanted wantedInside
      obtain ⟨_, _, _, _, close⟩ := closeWord_spec inside (show 0 < elems by omega)
      rw [close] at run
      cases run

variable {prev : BitVec 64} {values input : List (BitVec 64)} {type : IntType}

theorem chosen_of_scan {word : Word}
    (run : scan prev prev 0 0 0 values = .ok word) : Chosen prev 0 0 values word :=
  scan_chosen prev values prev 0 0 word (by decide) (by decide) run

theorem compressLoop_ne_noProgress (byteLimit : Nat) : ∀ (fuel : Nat)
    (values : List (BitVec 64)) (prev : BitVec 64) (out : List UInt8),
    values.length ≤ fuel -> compressLoop byteLimit fuel prev out values ≠ .error .noProgress := by
  intro fuel
  induction fuel with
  | zero =>
    intro values prev out enough run
    cases values with
    | nil => cases run
    | cons value values => simp at enough
  | succ fuel ih =>
    intro values prev out enough run
    cases values with
    | nil => cases run
    | cons value values =>
      rw [compressLoop] at run
      cases chosenRun : scan prev prev 0 0 0 (value :: values) with
      | error exit =>
        rw [chosenRun] at run
        cases run
        exact scan_ne_noProgress prev _ prev 0 0 (by decide) (by decide) chosenRun
      | ok word =>
        rw [chosenRun] at run
        simp only [bind, Except.bind] at run
        split at run
        case isFalse => cases run
        have nonempty := (chosen_of_scan chosenRun).nonempty (by simp)
        refine ih _ _ _ ?_ run
        simp only [length_drop, length_cons] at enough ⊢
        omega

theorem meetsWideDelta_of_compressLoop (byteLimit : Nat) :
    ∀ (fuel : Nat) (values : List (BitVec 64)) (prev : BitVec 64) (out : List UInt8),
      WordStart input prev values ->
      compressLoop byteLimit fuel prev out values = .error .pastTable ->
        ∃ prev values, WordStart input prev values ∧ MeetsWideDelta prev values := by
  intro fuel
  induction fuel with
  | zero =>
    intro values prev out _ run
    cases values <;> cases run
  | succ fuel ih =>
    intro values prev out start run
    cases values with
    | nil => cases run
    | cons value values =>
      rw [compressLoop] at run
      cases chosenRun : scan prev prev 0 0 0 (value :: values) with
      | error exit =>
        rw [chosenRun] at run
        cases run
        exact ⟨prev, value :: values, start, (scan_meetsWideDelta _ _).mp chosenRun⟩
      | ok word =>
        rw [chosenRun] at run
        simp only [bind, Except.bind] at run
        split at run
        case isFalse => cases run
        exact ih _ _ _ (WordStart.next start (by simp) chosenRun) run

section

variable {byteLimit : Nat} (room : 8 * input.length + 1 ≤ byteLimit)
  (start : WordStart input prev values)

include room start

theorem compressLoop_wordStart :
    ∃ fuel out, values.length ≤ fuel ∧ out.length + 8 * values.length + 1 ≤ byteLimit ∧
      compressLoop byteLimit input.length 0 [] input =
        compressLoop byteLimit fuel prev out values := by
  induction start with
  | first => exact ⟨input.length, [], le_rfl, by simpa using room, rfl⟩
  | @next prev values word _ nonempty chosenRun ih =>
    obtain ⟨fuel, out, enough, space, same⟩ := ih
    have chosen := chosen_of_scan chosenRun
    have taken := chosen.nonempty (Or.inr nonempty)
    have available := chosen.available
    cases values with
    | nil => exact absurd rfl nonempty
    | cons value values =>
      cases fuel with
      | zero => simp at enough
      | succ fuel =>
        simp only [length_cons] at enough space available
        refine ⟨fuel, out ++ leBytes 8 (fillWord word.bit 0 prev
          (BitVec.ofNat 64 word.selector) ((value :: values).take word.elems)).toNat, ?_, ?_, ?_⟩
        · simp only [length_drop, length_cons]; omega
        · simp only [List.length_append, leBytes_length, length_drop, length_cons]
          omega
        · rw [same, compressLoop, chosenRun]
          simp only [bind, Except.bind]
          rw [if_pos (by omega)]

theorem compressLoop_pastTable (meets : MeetsWideDelta prev values) :
    compressLoop byteLimit input.length 0 [] input = .error .pastTable := by
  obtain ⟨fuel, out, enough, -, same⟩ := compressLoop_wordStart room start
  rw [same]
  have scanRun := (scan_meetsWideDelta prev values).mpr meets
  cases values with
  | nil => cases scanRun
  | cons value values =>
    cases fuel with
    | zero => simp at enough
    | succ fuel =>
      rw [compressLoop, scanRun]
      rfl

end

theorem cons_eq_take_append {α : Type} : ∀ (values : List α) (prev : α) (count : Nat),
    count ≤ values.length -> prev :: values = (prev :: values).take count ++
        (values.take count).getLastD prev :: values.drop count := by
  intro values
  induction values with
  | nil =>
    intro prev count bound
    have zero : count = 0 := by simpa using bound
    simp [zero]
  | cons value values ih =>
    intro prev count bound
    cases count with
    | zero => simp
    | succ count =>
      have tail := ih value count (by simpa using bound)
      simp only [List.take_succ_cons, List.cons_append, List.drop_succ_cons, getLastD_cons]
      rw [<- tail]

theorem wordStart_split (start : WordStart input prev values) :
    ∃ before, 0 :: input = before ++ prev :: values := by
  induction start with
  | first => exact ⟨[], rfl⟩
  | @next prev values word _ nonempty chosenRun ih =>
    obtain ⟨before, equal⟩ := ih
    have available := (chosen_of_scan chosenRun).available
    rw [Nat.zero_add] at available
    refine ⟨before ++ (prev :: values).take word.elems, ?_⟩
    rw [equal, List.append_assoc, <- cons_eq_take_append values prev word.elems available]

/-- A wide delta that a word meets lies between two neighbours of the column,
with 0 before the first. -/
theorem neighbours_of_meets (start : WordStart input prev values)
    (meets : MeetsWideDelta prev values) :
    ∃ before left right after, 0 :: input = before ++ left :: right :: after ∧
      WideDelta left right := by
  obtain ⟨before, equal⟩ := wordStart_split start
  obtain ⟨front, curr, rest, split, -, -, wide⟩ := meets
  refine ⟨before ++ (prev :: values).take front.length, front.getLastD prev, curr, rest, ?_, wide⟩
  have middle := cons_eq_take_append values prev front.length (by rw [split]; simp)
  have taken : values.take front.length = front := by rw [split, List.take_left' rfl]
  have dropped : values.drop front.length = curr :: rest := by rw [split, List.drop_left' rfl]
  rw [taken, dropped] at middle
  rw [equal, List.append_assoc, <- middle]

theorem widen_toInt_bounds (narrow : type ≠ .bigint) (value : type.Value) :
    -2 ^ 31 ≤ (widen value).toInt ∧ (widen value).toInt < 2 ^ 31 := by
  have width : 8 * type.wordLength ≤ 32 := by
    cases type with
    | bigint => exact absurd rfl narrow
    | _ => decide
  have low := BitVec.le_toInt value
  have high := BitVec.toInt_lt (x := value)
  have power : (2 : Int) ^ (8 * type.wordLength - 1) ≤ 2 ^ 31 :=
    pow_le_pow_right₀ (by decide) (by omega)
  rw [widen, BitVec.toInt_signExtend_of_le (by omega)]
  constructor <;> omega

theorem not_wideDelta_of_small {curr : BitVec 64}
    (prevBounds : -2 ^ 31 ≤ prev.toInt ∧ prev.toInt < 2 ^ 31)
    (currBounds : -2 ^ 31 ≤ curr.toInt ∧ curr.toInt < 2 ^ 31) : ¬ WideDelta prev curr := by
  rintro ⟨large, -⟩
  have difference : (curr - prev).toInt = curr.toInt - prev.toInt := by
    rw [BitVec.toInt_sub, Int.bmod_eq_of_le (by omega) (by omega)]
  have small : (zigzag (curr - prev)).toNat < 2 * 2 ^ 33 :=
    zigzag_toNat_lt (by rw [difference]; push_cast; omega) (by rw [difference]; push_cast; omega)
  omega

theorem narrow_never_meets (narrow : type ≠ .bigint) (input : List type.Value)
    (start : WordStart (input.map widen) prev values) : ¬ MeetsWideDelta prev values := by
  intro meets
  obtain ⟨before, left, right, after, equal, wide⟩ := neighbours_of_meets start meets
  have bounds : ∀ value ∈ (0 : BitVec 64) :: input.map widen,
      -2 ^ 31 ≤ value.toInt ∧ value.toInt < 2 ^ 31 := by
    intro value member
    rcases mem_cons.mp member with rfl | member
    · decide
    · obtain ⟨stored, -, rfl⟩ := List.mem_map.mp member
      exact widen_toInt_bounds narrow stored
  exact not_wideDelta_of_small (bounds left (by rw [equal]; simp))
    (bounds right (by rw [equal]; simp)) wide

/-- The encoder produces a block and the decoder restores the column from it. -/
def RoundTrips (type : IntType) (input : List type.Value) : Prop :=
  ∃ out, tsCompressINTImp type input = some out ∧
    tsDecompressINTImp type out input.length = some input

theorem tsCompressINTImp_eq_none_iff (type : IntType) (input : List type.Value) :
    tsCompressINTImp type input = none ↔
      ∃ prev values, WordStart (input.map widen) prev values ∧ MeetsWideDelta prev values := by
  constructor
  · intro stuck
    unfold tsCompressINTImp at stuck
    simp only at stuck
    split at stuck
    · cases stuck
    · cases stuck
    · rename_i run
      exact meetsWideDelta_of_compressLoop _ _ _ _ _ WordStart.first run
    · rename_i run
      exact absurd run (compressLoop_ne_noProgress _ _ _ _ _ (by simp))
  · rintro ⟨prev, values, start, meets⟩
    have bigint : type = .bigint := by
      by_contra narrow
      exact narrow_never_meets narrow input start meets
    subst bigint
    have room : 8 * (input.map widen).length + 1 ≤ input.length * 8 + 1 := by
      rw [List.length_map]
      omega
    have run := compressLoop_pastTable room start meets
    rw [List.length_map] at run
    have limit : IntType.bigint.wordLength = 8 := rfl
    simp only [tsCompressINTImp, limit, run]

theorem roundTrips_of_produced {input : List type.Value}
    (produced : tsCompressINTImp type input ≠ none) : RoundTrips type input := by
  obtain ⟨out, run⟩ := Option.ne_none_iff_exists'.mp produced
  exact ⟨out, run, by simpa using decompress_compress run []⟩

/-- The codec restores a column exactly if none of its words meets a wide
delta. -/
theorem integer_roundTrips_iff (type : IntType) (input : List type.Value) : RoundTrips type input ↔
      ¬ ∃ prev values, WordStart (input.map widen) prev values ∧ MeetsWideDelta prev values := by
  rw [<- tsCompressINTImp_eq_none_iff]
  constructor
  · rintro ⟨out, run, -⟩
    simp [run]
  · exact roundTrips_of_produced

/-- A BIGINT column of the single value 2^59 is not restored: its first delta is
wide. -/
theorem integer_not_always_roundTrips :
    ¬ ∀ (type : IntType) (input : List type.Value), RoundTrips type input := by
  intro all
  obtain ⟨out, run, -⟩ := all .bigint [0x0800000000000000#64]
  have stuck : tsCompressINTImp .bigint [0x0800000000000000#64] = none := by decide +kernel
  rw [stuck] at run
  cases run

theorem roundTrips_of_narrow (narrow : type ≠ .bigint)
    (input : List type.Value) : RoundTrips type input := by
  apply roundTrips_of_produced
  rw [Ne, tsCompressINTImp_eq_none_iff]
  rintro ⟨prev, values, start, meets⟩
  exact narrow_never_meets narrow input start meets

theorem roundTrips_of_neighbours {input : List type.Value}
    (close : List.IsChain (fun left right => ¬ WideDelta left right) (0 :: input.map widen)) :
    RoundTrips type input := by
  apply roundTrips_of_produced
  rw [Ne, tsCompressINTImp_eq_none_iff]
  rintro ⟨prev, values, start, meets⟩
  obtain ⟨before, left, right, after, equal, wide⟩ := neighbours_of_meets start meets
  rw [equal] at close
  exact (List.isChain_append_cons_cons.mp close).2.1 wide

theorem alternating_roundTrips : RoundTrips .bigint [0x0200000000000000, 0, 0x0200000000000000] :=
  roundTrips_of_neighbours (by simp only [WideDelta]; decide +kernel)

end Luomi.IntegerReach
