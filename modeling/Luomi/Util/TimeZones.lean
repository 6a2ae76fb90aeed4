import Mathlib.Data.Nat.Digits.Defs
import Mathlib.Tactic

/-!
# Timestamps with a time zone (`ttime.c`)

A string is the list of its characters in front of the terminating zero.  `strptime` and
`timegm` are parameters; `-1` is `none`.
-/

namespace Luomi.Util.TimeZones

open List (cons_append drop_left length_map map_append nil_append)

inductive TimePrecision where
  | milli
  | micro

def TimePrecision.fractionLen : TimePrecision -> Nat
  | .milli => 3
  | .micro => 6

def TimePrecision.factor : TimePrecision -> Int
  | .milli => 1000
  | .micro => 1000000

def decimalLoop : List Char -> Int -> Int -> Int
  | [], _, ret => ret
  | c :: num, base, ret =>
    if c.isDigit then decimalLoop num (base * 10) (ret + ((c.toNat : Int) - '0'.toNat) * base)
    else 0

def hexDigit (c : Char) : Option Int :=
  if c.isDigit then some (c.toNat - '0'.toNat)
  else if 'a' ≤ c ∧ c ≤ 'f' then some (c.toNat - 'a'.toNat + 10)
  else if 'A' ≤ c ∧ c ≤ 'F' then some (c.toNat - 'A'.toNat + 10)
  else none

/-- Its last assignment is the result. -/
def hexLoop : List Char -> Int -> Int -> Int
  | [], _, ret => ret
  | c :: num, base, _ => (hexDigit c).elim 0 fun dig => hexLoop num (base * 16) (dig * base)

def strnatoi (num : List Char) (len : Nat) : Int :=
  let num := num.take len
  if 2 < num.length ∧ num[0]? = some '0' ∧ (num[1]? = some 'x' ∨ num[1]? = some 'X') then
    hexLoop (num.drop 2).reverse 1 0
  else decimalLoop num.reverse 1 0

def skipSeparators : Nat -> List Char -> List Char
  | _, [] => []
  | numOfSep, c :: str =>
    if numOfSep < 2 then skipSeparators (if c = ':' then numOfSep + 1 else numOfSep) str
    else c :: str

def forwardToTimeStringEnd (str : List Char) : List Char :=
  (skipSeparators 0 str).dropWhile Char.isDigit

def parseFraction (str : List Char) (timePrec : TimePrecision) : Option (Int × List Char) :=
  let totalLen := (str.takeWhile Char.isDigit).length
  if totalLen = 0 then none
  else
    let i := min totalLen timePrec.fractionLen
    some (strnatoi str i * 10 ^ (timePrec.fractionLen - i), str.drop totalLen)

/-- Behind a zone of fewer than two characters there is nothing to read. -/
def parseTimezone : List Char -> Option Int
  | [] => none
  | sign :: str =>
    if sign ≠ '+' ∧ sign ≠ '-' then none
    else
      let len := (str.takeWhile (· ≠ ':')).length
      let (hour, str) :=
        if ':' ∈ str then (strnatoi str len, str.drop (len + 1)) else (strnatoi str 2, str.drop 2)
      if 12 < hour then none
      else
        let sec := strnatoi str 2
        if 70 < sec then none
        else if sign = '+' then some (-(sec + hour * 3600))
        else some (sec + hour * 3600)

section Parse

variable {Tm : Type} (strptime : List Char -> Option Tm) (timegm : Tm -> Int)

def parseTimeWithTz (timestr : List Char) (timePrec : TimePrecision) : Option Int := do
  let tm <- strptime timestr
  let time := timegm tm * timePrec.factor
  match forwardToTimeStringEnd timestr with
  | [] => none
  | c :: str =>
    if c = 'Z' ∨ c = 'z' then return time
    else if c = '.' then
      let (fraction, str) <- parseFraction str timePrec
      let seg <- str.head?
      if seg = 'Z' ∨ seg = 'z' then return time + fraction
      else if seg = '+' ∨ seg = '-' then
        let tzOffset <- parseTimezone str
        return time + fraction + tzOffset * timePrec.factor
      else none
    else if c = '+' ∨ c = '-' then
      let tzOffset <- parseTimezone (c :: str)
      return time + tzOffset * timePrec.factor
    else none

end Parse

def digits (text : List (Fin 10)) : List Char := text.map fun (d : Fin 10) => Nat.digitChar d.val

def number (text : List (Fin 10)) : Nat := Nat.ofDigits 10 (text.reverse.map Fin.val)

structure DateTime where
  year : List (Fin 10)
  month : List (Fin 10)
  day : List (Fin 10)
  hour : List (Fin 10)
  minute : List (Fin 10)
  second : List (Fin 10)

def DateTime.text (date : DateTime) (rest : List Char) : List Char :=
  digits date.year ++ '-' :: (digits date.month ++ '-' :: (digits date.day ++ 'T' ::
    (digits date.hour ++ ':' :: (digits date.minute ++ ':' :: (digits date.second ++ rest)))))

inductive Zone where
  | utc
  | offset (east : Bool) (hours : Fin 13) (minutes : Fin 60) (colon : Bool)

def twoDigits (n : Nat) : List (Fin 10) := [Fin.ofNat 10 (n / 10), Fin.ofNat 10 n]

def Zone.text : Zone -> List Char
  | .utc => ['Z']
  | .offset east hours minutes colon =>
    (if east then '+' else '-') :: (digits (twoDigits hours) ++
      ((if colon then [':'] else []) ++ digits (twoDigits minutes)))

/-- What the time of the zone is ahead of the universal time. -/
def Zone.seconds : Zone -> Int
  | .utc => 0
  | .offset east hours minutes _ =>
    if east then hours * 3600 + minutes * 60 else -(hours * 3600 + minutes * 60)

def WholeHours : Zone -> Prop
  | .utc => True
  | .offset _ _ minutes _ => minutes = 0

def fractionText : List (Fin 10) -> List Char
  | [] => []
  | fraction => '.' :: digits fraction

def timestamp (date : DateTime) (fraction : List (Fin 10)) (zone : Zone) : List Char :=
  date.text (fractionText fraction ++ zone.text)

/-- The instant in the units of the precision, and what is left of the fraction in them. -/
def instant (seconds : Int) (fraction : List (Fin 10)) (zone : Zone) (timePrec : TimePrecision) :
    Int :=
  (seconds - zone.seconds) * timePrec.factor +
    (number fraction * 10 ^ timePrec.fractionLen / 10 ^ fraction.length : Nat)

theorem digit_isDigit (d : Fin 10) : (Nat.digitChar d.val).isDigit = true := by
  revert d
  decide

theorem digit_value (d : Fin 10) : ((Nat.digitChar d.val).toNat : Int) - '0'.toNat = d.val := by
  revert d
  decide

theorem decimalLoop_digits (text : List (Fin 10)) (base ret : Int) :
    decimalLoop (digits text) base ret = ret + base * (Nat.ofDigits 10 (text.map Fin.val) : Nat) := by
  induction text generalizing base ret with
  | nil => simp [digits, decimalLoop]
  | cons d text ih =>
    change decimalLoop (Nat.digitChar d.val :: digits text) base ret = _
    rw [decimalLoop, if_pos (digit_isDigit d), ih, digit_value, List.map_cons, Nat.ofDigits_cons]
    push_cast
    ring

theorem strnatoi_digits (text : List (Fin 10)) (rest : List Char) :
    strnatoi (digits text ++ rest) text.length = number text := by
  have taken : (digits text ++ rest).take text.length = digits text := by
    exact List.take_left' (length_map _)
  have notHex : ¬ (2 < (digits text).length ∧ (digits text)[0]? = some '0' ∧
      ((digits text)[1]? = some 'x' ∨ (digits text)[1]? = some 'X')) := by
    rintro ⟨-, -, hex⟩
    simp only [digits, List.getElem?_map, Option.map_eq_some_iff] at hex
    rcases hex with ⟨d, -, isX⟩ | ⟨d, -, isX⟩
    all_goals
      revert isX d
      decide
  rw [strnatoi, taken, if_neg notHex, digits, <- List.map_reverse, <- digits, decimalLoop_digits, zero_add, one_mul]
  rfl

theorem number_append (front rest : List (Fin 10)) :
    number (front ++ rest) = number rest + 10 ^ rest.length * number front := by
  rw [number, List.reverse_append, map_append, Nat.ofDigits_append, length_map, List.length_reverse]
  rfl

theorem number_lt (text : List (Fin 10)) : number text < 10 ^ text.length := by
  have less := Nat.ofDigits_lt_base_pow_length (b := 10) (l := text.reverse.map Fin.val)
    (by decide) (by
      intro d member
      obtain ⟨d, -, rfl⟩ := List.mem_map.mp member
      exact d.isLt)
  rwa [length_map, List.length_reverse] at less

theorem strnatoi_take (text : List (Fin 10)) (rest : List Char) {i : Nat} (short : i ≤ text.length) :
    strnatoi (digits text ++ rest) i = (number text / 10 ^ (text.length - i) : Nat) := by
  have split : digits text ++ rest = digits (text.take i) ++ (digits (text.drop i) ++ rest) := by
    rw [<- List.append_assoc, digits, digits, digits, <- map_append, List.take_append_drop]
  have length : (text.take i).length = i := List.length_take_of_le short
  have read := strnatoi_digits (text.take i) (digits (text.drop i) ++ rest)
  have whole := number_append (text.take i) (text.drop i)
  have small := number_lt (text.drop i)
  rw [List.take_append_drop] at whole
  rw [List.length_drop] at whole small
  rw [length] at read
  rw [split, read, whole, Nat.add_mul_div_left _ _ (by positivity), Nat.div_eq_of_lt small, zero_add]

section Stop

variable (text : List (Fin 10)) {c : Char} (rest : List Char) (stop : c.isDigit = false)

include stop

theorem takeWhile_digits : (digits text ++ c :: rest).takeWhile Char.isDigit = digits text := by
  induction text with
  | nil => exact List.takeWhile_cons_of_neg (by simp [stop])
  | cons d text ih => exact (List.takeWhile_cons_of_pos (digit_isDigit d)).trans (congrArg _ ih)

theorem dropWhile_digits : (digits text ++ c :: rest).dropWhile Char.isDigit = c :: rest := by
  induction text with
  | nil => exact List.dropWhile_cons_of_neg (by simp [stop])
  | cons d text ih => exact (List.dropWhile_cons_of_pos (digit_isDigit d)).trans ih

theorem parseFraction_digits (some' : text ≠ []) (timePrec : TimePrecision) :
    parseFraction (digits text ++ c :: rest) timePrec =
      some (((number text * 10 ^ timePrec.fractionLen / 10 ^ text.length : Nat) : Int), c :: rest) := by
  have length : (digits text).length = text.length := length_map _
  rw [parseFraction, takeWhile_digits text rest stop, length]
  dsimp only
  rw [if_neg (by simpa using some'), strnatoi_take _ _ (min_le_left ..), <- length, drop_left, length]
  rcases le_total text.length timePrec.fractionLen with short | long
  · rw [min_eq_left short, Nat.sub_self, pow_zero, Nat.div_one,
      <- Nat.sub_add_cancel short, pow_add, <- mul_assoc, Nat.mul_div_cancel _ (by positivity)]
    simp
  · rw [min_eq_right long, Nat.sub_self, pow_zero, mul_one]
    have power := pow_add 10 (text.length - timePrec.fractionLen) timePrec.fractionLen
    rw [Nat.sub_add_cancel long] at power
    rw [power, Nat.mul_div_mul_right _ _ (by positivity)]

end Stop

theorem skipSeparators_digits {numOfSep : Nat} (few : numOfSep < 2) (text : List (Fin 10))
    (rest : List Char) :
    skipSeparators numOfSep (digits text ++ rest) = skipSeparators numOfSep rest := by
  induction text with
  | nil => rfl
  | cons d text ih =>
    change skipSeparators numOfSep (Nat.digitChar d.val :: (digits text ++ rest)) = _
    rw [skipSeparators, if_pos few, if_neg (by revert d; decide), ih]

theorem skipSeparators_two (str : List Char) : skipSeparators 2 str = str := by
  cases str with
  | nil => rfl
  | cons c str => exact if_neg (lt_irrefl 2)

theorem forwardToTimeStringEnd_text (date : DateTime) {c : Char} (rest : List Char)
    (stop : c.isDigit = false) : forwardToTimeStringEnd (date.text (c :: rest)) = c :: rest := by
  simp only [forwardToTimeStringEnd, DateTime.text, skipSeparators_digits, skipSeparators,
    skipSeparators_two, dropWhile_digits _ _ stop, Nat.reduceLT, Nat.reduceAdd, Char.reduceEq,
    if_true, if_false]

theorem strnatoi_twoDigits {n : Nat} (small : n < 100) (rest : List Char) :
    strnatoi (digits (twoDigits n) ++ rest) 2 = n := by
  rw [show 2 = (twoDigits n).length from rfl, strnatoi_digits]
  simp only [number, twoDigits, List.reverse_cons, List.reverse_nil, nil_append, cons_append,
    List.map_cons, List.map_nil, Nat.ofDigits_cons, Nat.ofDigits_nil, Fin.val_ofNat]
  omega

/-- The two digits of the minutes are counted as seconds. -/
theorem parseTimezone_offset (east : Bool) (hours : Fin 13) (minutes : Fin 60) (colon : Bool) :
    parseTimezone (Zone.offset east hours minutes colon).text =
      some (if east then -((minutes : Int) + hours * 3600) else minutes + hours * 3600) := by
  have noColon : ∀ text, ':' ∉ digits text := by
    intro text member
    obtain ⟨d, -, same⟩ := List.mem_map.mp member
    revert same d
    decide
  have hour := strnatoi_twoDigits (n := hours) (by omega)
  have sec := strnatoi_twoDigits (n := minutes) (by omega) []
  rw [List.append_nil] at sec
  have read (str : List Char) (split : (if ':' ∈ str then
        (strnatoi str (str.takeWhile (· ≠ ':')).length,
          str.drop ((str.takeWhile (· ≠ ':')).length + 1))
      else (strnatoi str 2, str.drop 2)) = ((hours : Int), digits (twoDigits minutes))) :
      parseTimezone ((if east then '+' else '-') :: str) =
        some (if east then -((minutes : Int) + hours * 3600) else minutes + hours * 3600) := by
    have least : ¬ 12 < ((hours : Nat) : Int) := by omega
    have most : ¬ 70 < ((minutes : Nat) : Int) := by omega
    cases east with
    | true =>
      simp only [parseTimezone, split, sec, if_neg least, if_neg most, if_true]
      rfl
    | false =>
      simp only [parseTimezone, split, sec, if_neg least, if_neg most]
      rfl
  apply read
  cases colon with
  | false =>
    have notIn : ':' ∉ digits (twoDigits hours) ++ digits (twoDigits minutes) := by
      rw [List.mem_append, not_or]
      exact ⟨noColon _, noColon _⟩
    exact (if_neg notIn).trans (congrArg₂ Prod.mk (hour _) rfl)
  | true =>
    have isIn : ':' ∈ digits (twoDigits hours) ++ ([':'] ++ digits (twoDigits minutes)) := by simp
    have front : (digits (twoDigits hours) ++ ([':'] ++ digits (twoDigits minutes))).takeWhile
        (· ≠ ':') = digits (twoDigits hours) := by
      rw [List.takeWhile_append_of_pos fun c member =>
        decide_eq_true (show c ≠ ':' from fun same => noColon _ (same ▸ member))]
      simp
    simp only [if_true]
    rw [if_pos isIn, front]
    exact congrArg₂ Prod.mk (hour _) rfl

section Claim

variable {Tm : Type} {strptime : List Char -> Option Tm} {timegm : Tm -> Int} {date : DateTime}
  {tm : Tm} {fraction : List (Fin 10)} {zone : Zone}

/-- A minute of the zone is taken for a second, which leaves 59 of its seconds over. -/
def remainder : Zone -> Int
  | .utc => 0
  | .offset east _ minutes _ => if east then 59 * minutes else -(59 * minutes)

theorem parseTimeWithTz_timestamp (timePrec : TimePrecision)
    (reads : strptime (timestamp date fraction zone) = some tm) :
    parseTimeWithTz strptime timegm (timestamp date fraction zone) timePrec =
      some (instant (timegm tm) fraction zone timePrec + remainder zone * timePrec.factor) := by
  obtain ⟨c, more, zoneText, stop, read⟩ : ∃ c more, zone.text = c :: more ∧ c.isDigit = false ∧
      (c = 'Z' ∧ zone.seconds = 0 ∧ remainder zone = 0 ∨ (c = '+' ∨ c = '-') ∧
        parseTimezone (c :: more) = some (-zone.seconds + remainder zone)) := by
    cases zone with
    | utc => exact ⟨'Z', [], rfl, rfl, .inl ⟨rfl, rfl, rfl⟩⟩
    | offset east hours minutes colon =>
      refine ⟨_, _, rfl, ?_, .inr ⟨?_, (parseTimezone_offset ..).trans (congrArg some ?_)⟩⟩
      · cases east <;> rfl
      · cases east <;> simp
      · simp only [Zone.seconds, remainder]
        split <;> ring
  have text : forwardToTimeStringEnd (timestamp date fraction zone) =
      fractionText fraction ++ c :: more := by
    rw [timestamp, zoneText]
    cases fraction with
    | nil => exact forwardToTimeStringEnd_text date _ stop
    | cons d rest => exact forwardToTimeStringEnd_text date _ rfl
  rw [parseTimeWithTz, reads]
  simp only [Option.bind_eq_bind, Option.bind_some, text]
  cases fraction with
  | nil =>
    rcases read with ⟨rfl, seconds, rest⟩ | ⟨sign, read⟩
    · simp [fractionText, instant, seconds, rest, number]
    · rcases sign with rfl | rfl
      all_goals
        simp [fractionText, instant, read, number]
        ring
  | cons d rest =>
    have fraction := parseFraction_digits (d :: rest) more stop (by simp) timePrec
    rcases read with ⟨rfl, seconds, rest⟩ | ⟨sign, read⟩
    · simp [fractionText, instant, seconds, rest, fraction]
    · rcases sign with rfl | rfl
      all_goals
        simp [fractionText, instant, read, fraction]
        ring

theorem parseTimeWithTz_iff (timePrec : TimePrecision)
    (reads : strptime (timestamp date fraction zone) = some tm) :
    parseTimeWithTz strptime timegm (timestamp date fraction zone) timePrec =
      some (instant (timegm tm) fraction zone timePrec) ↔ WholeHours zone := by
  rw [parseTimeWithTz_timestamp timePrec reads, Option.some.injEq, add_eq_left]
  have factor : timePrec.factor ≠ 0 := by cases timePrec <;> decide
  cases zone with
  | utc => simp [remainder, WholeHours]
  | offset east hours minutes colon =>
    rw [mul_eq_zero_iff_right factor, remainder, WholeHours, Fin.ext_iff]
    split
    all_goals
      simp only [Fin.val_zero]
      omega

end Claim

theorem wholeHours_parsed : parseTimeWithTz (fun _ => some ()) (fun _ => 1365781921)
    (timestamp ⟨[2, 0, 1, 3], [0, 4], [1, 2], [1, 5], [5, 2], [0, 1]⟩ [1, 2, 3, 4]
      (.offset true 8 0 false)) .milli =
        some (instant 1365781921 [1, 2, 3, 4] (.offset true 8 0 false) .milli) :=
  (@parseTimeWithTz_iff Unit (fun _ => some ()) (fun _ => 1365781921) _ () _
    (.offset true 8 0 false) .milli rfl).mpr rfl

/-- `2013-04-12T15:52:01+05:30`. -/
theorem halfHour_lost : ¬ ∀ (strptime : List Char -> Option Unit) (timegm : Unit -> Int)
    (date : DateTime) (fraction : List (Fin 10)) (zone : Zone) (timePrec : TimePrecision),
    strptime (timestamp date fraction zone) = some () ->
      parseTimeWithTz strptime timegm (timestamp date fraction zone) timePrec =
        some (instant (timegm ()) fraction zone timePrec) := by
  intro parses
  have parsed := parses (fun _ => some ()) (fun _ => 1365781921)
    ⟨[2, 0, 1, 3], [0, 4], [1, 2], [1, 5], [5, 2], [0, 1]⟩ [] (.offset true 5 30 true) .milli rfl
  revert parsed
  decide

end Luomi.Util.TimeZones
