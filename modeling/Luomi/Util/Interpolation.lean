import Mathlib.Tactic

/-!
# The start of an interval (`tinterpolation.c`)

Timestamps are 64-bit integers; `none` stands for a sum that leaves their range.
-/

namespace Luomi.Interpolation

open Option (bind_eq_bind bind_some some.inj)

def InInt64 (value : Int) : Prop := -2 ^ 63 ≤ value ∧ value < 2 ^ 63

instance (value : Int) : Decidable (InInt64 value) := instDecidableAnd

def int64 (value : Int) : Option Int := if InInt64 value then some value else none

def millisecondPerSecond : Int := 1000

def isShortUnit (intervalTimeUnit : Char) : Bool :=
  intervalTimeUnit = 'a' || intervalTimeUnit = 'm' || intervalTimeUnit = 's' ||
    intervalTimeUnit = 'h'

section

variable (startTime timeRange : Int) (intervalTimeUnit : Char)

def taosGetIntervalStartTimestamp : Option Int :=
  if timeRange = 0 then some startTime
  else if isShortUnit intervalTimeUnit then int64 (startTime.tdiv timeRange * timeRange)
  else do
    let revStartime <- int64 (startTime.tdiv timeRange * timeRange + 1 * millisecondPerSecond)
    let nextStartime <- int64 (revStartime + timeRange)
    let revEndtime <- int64 (nextStartime - 1)
    if revEndtime < startTime then int64 (revStartime + timeRange) else return revStartime

def Aligned : Prop :=
  ∃ start, taosGetIntervalStartTimestamp startTime timeRange intervalTimeUnit = some start ∧
    start ≤ startTime ∧ startTime < start + timeRange ∧
    taosGetIntervalStartTimestamp start timeRange intervalTimeUnit = some start

def OneInterval : Prop :=
  ∃ start, taosGetIntervalStartTimestamp startTime timeRange intervalTimeUnit = some start ∧
    start ≤ startTime ∧ startTime < start + timeRange ∧
    ∀ other, InInt64 other -> start ≤ other -> other < start + timeRange ->
      taosGetIntervalStartTimestamp other timeRange intervalTimeUnit = some start

/-- Where the intervals are in order: no negative timestamp is cut towards zero, and a day
has begun with its first second. -/
def Regular : Prop :=
  if isShortUnit intervalTimeUnit then 0 ≤ startTime ∨ timeRange ∣ startTime
  else 0 ≤ startTime ∧ 1000 ≤ startTime % timeRange ∧
    startTime - startTime % timeRange + 1000 + timeRange < 2 ^ 63

def RegularInterval : Prop :=
  isShortUnit intervalTimeUnit = true ∧ (0 ≤ startTime ∨ timeRange = 1)

end

variable {startTime timeRange : Int} {intervalTimeUnit : Char}

theorem int64_some {value : Int} (fits : InInt64 value) : int64 value = some value := if_pos fits

theorem tmod_nonpos (below : startTime ≤ 0) (timeRange : Int) : startTime.tmod timeRange ≤ 0 := by
  have rest := Int.tmod_nonneg timeRange (Int.neg_nonneg_of_nonpos below)
  rw [Int.neg_tmod] at rest
  omega

theorem tmod_inside (above : 0 ≤ startTime) {offset : Int} (first : 0 ≤ offset)
    (inside : offset < timeRange) :
    (startTime - startTime.tmod timeRange + offset).tmod timeRange = offset := by
  have base : startTime - startTime.tmod timeRange = timeRange * (startTime / timeRange) := by
    rw [Int.tmod_eq_emod_of_nonneg above]
    have whole := Int.mul_ediv_add_emod startTime timeRange
    omega
  have floor : 0 ≤ timeRange * (startTime / timeRange) := by
    apply Int.mul_nonneg (by omega)
    exact Int.ediv_nonneg above (by omega)
  rw [base, Int.tmod_eq_emod_of_nonneg (by omega), Int.mul_add_emod_self_left,
    Int.emod_eq_of_lt first inside]

section Interval

variable (positive : 0 < timeRange)

include positive

theorem lt_tmod (startTime : Int) : -timeRange < startTime.tmod timeRange := by
  have other := Int.tmod_lt_of_pos (-startTime) positive
  rw [Int.neg_tmod] at other
  omega

theorem base_fits (fits : InInt64 startTime) : InInt64 (startTime - startTime.tmod timeRange) := by
  have whole := Int.tdiv_mul_add_tmod startTime timeRange
  unfold InInt64 at fits ⊢
  rcases Int.le_total 0 startTime with above | below
  · have rest := Int.tmod_nonneg timeRange above
    have floor := Int.mul_nonneg (Int.tdiv_nonneg above positive.le) positive.le
    omega
  · have rest := tmod_nonpos below timeRange
    have quotient := Int.tdiv_nonneg (Int.neg_nonneg_of_nonpos below) positive.le
    have ceiling := Int.mul_nonneg quotient positive.le
    rw [Int.neg_tdiv, Int.neg_mul] at ceiling
    omega

theorem short_eq (short : isShortUnit intervalTimeUnit = true) (fits : InInt64 startTime) :
    taosGetIntervalStartTimestamp startTime timeRange intervalTimeUnit =
      some (startTime - startTime.tmod timeRange) := by
  have whole := Int.tdiv_mul_add_tmod startTime timeRange
  have product : startTime.tdiv timeRange * timeRange =
      startTime - startTime.tmod timeRange := by omega
  unfold taosGetIntervalStartTimestamp
  rw [if_neg (Int.ne_of_gt positive), if_pos short, product, int64_some (base_fits positive fits)]

theorem long_eq (long : ¬ isShortUnit intervalTimeUnit = true) (fits : InInt64 startTime) :
    taosGetIntervalStartTimestamp startTime timeRange intervalTimeUnit =
      if startTime - startTime.tmod timeRange + 1000 + timeRange < 2 ^ 63 then
        some (startTime - startTime.tmod timeRange + 1000)
      else none := by
  have whole := Int.tdiv_mul_add_tmod startTime timeRange
  have product : startTime.tdiv timeRange * timeRange + 1 * millisecondPerSecond =
      startTime - startTime.tmod timeRange + 1000 := by
    unfold millisecondPerSecond
    omega
  have first := lt_tmod positive startTime
  have last := Int.tmod_lt_of_pos startTime positive
  have lowest := (base_fits positive fits).1
  unfold taosGetIntervalStartTimestamp
  rw [if_neg (Int.ne_of_gt positive), if_neg long, product]
  by_cases room : startTime - startTime.tmod timeRange + 1000 + timeRange < 2 ^ 63
  · rw [if_pos room, int64_some (by unfold InInt64; omega)]
    simp only [bind_eq_bind, bind_some]
    rw [int64_some (by unfold InInt64; omega), bind_some,
      int64_some (by unfold InInt64; omega), bind_some, if_neg (by omega)]
    rfl
  · rw [if_neg room]
    by_cases inside : InInt64 (startTime - startTime.tmod timeRange + 1000)
    · have outside : ¬ InInt64 (startTime - startTime.tmod timeRange + 1000 + timeRange) :=
        fun within => room within.2
      rw [int64_some inside]
      simp only [bind_eq_bind, bind_some]
      rw [int64, if_neg outside]
      rfl
    · rw [int64, if_neg inside]
      rfl

theorem aligned_short (short : isShortUnit intervalTimeUnit = true) (fits : InInt64 startTime) :
    Aligned startTime timeRange intervalTimeUnit ↔ 0 ≤ startTime ∨ timeRange ∣ startTime := by
  have start := short_eq positive short fits
  have contained : 0 ≤ startTime.tmod timeRange ↔ 0 ≤ startTime ∨ timeRange ∣ startTime := by
    constructor
    · intro rest
      rcases Int.le_total 0 startTime with above | below
      · exact Or.inl above
      · have none := Int.le_antisymm (tmod_nonpos below timeRange) rest
        exact Or.inr (Int.dvd_of_tmod_eq_zero none)
    · rintro (above | divides)
      · exact Int.tmod_nonneg timeRange above
      · exact (Int.tmod_eq_zero_of_dvd divides).ge
  rw [<- contained]
  constructor
  · rintro ⟨_, same, contains, _⟩
    rw [start] at same
    cases same
    omega
  · intro rest
    have below := Int.tmod_lt_of_pos startTime positive
    refine ⟨_, start, by omega, by omega, ?_⟩
    have divides : timeRange ∣ startTime - startTime.tmod timeRange :=
      Int.dvd_self_sub_tmod
    rw [short_eq positive short (base_fits positive fits), Int.tmod_eq_zero_of_dvd divides,
      Int.sub_zero]

theorem aligned_long (long : ¬ isShortUnit intervalTimeUnit = true) (fits : InInt64 startTime) :
    Aligned startTime timeRange intervalTimeUnit ↔ 0 ≤ startTime ∧ 1000 ≤ startTime % timeRange ∧
      startTime - startTime % timeRange + 1000 + timeRange < 2 ^ 63 := by
  have start := long_eq positive long fits
  constructor
  · rintro ⟨_, same, contains, _⟩
    rw [start] at same
    obtain ⟨room, same⟩ := Option.ite_none_right_eq_some.mp same
    cases same
    have above : 0 ≤ startTime := by
      by_contra below
      have rest := tmod_nonpos (Int.le_of_lt (Int.not_le.mp below)) timeRange
      omega
    rw [<- Int.tmod_eq_emod_of_nonneg above]
    exact ⟨above, by omega, room⟩
  · rintro ⟨above, second, room⟩
    have below := Int.emod_lt_of_pos startTime positive
    have inside := @tmod_inside startTime timeRange above 1000 (by decide) (by omega)
    rw [<- Int.tmod_eq_emod_of_nonneg above] at second below room
    rw [if_pos room] at start
    have floor := (base_fits positive fits).1
    have begins := @long_eq (startTime - startTime.tmod timeRange + 1000) timeRange
      intervalTimeUnit positive long (by unfold InInt64; omega)
    rw [inside, Int.add_sub_cancel, if_pos room] at begins
    exact ⟨_, start, by omega, by omega, begins⟩

theorem oneInterval_short (short : isShortUnit intervalTimeUnit = true) (fits : InInt64 startTime) :
    OneInterval startTime timeRange intervalTimeUnit ↔ 0 ≤ startTime ∨ timeRange = 1 := by
  have start := short_eq positive short fits
  constructor
  · rintro ⟨_, same, contains, _, whole⟩
    rw [start] at same
    cases same
    by_contra irregular
    obtain ⟨below, long⟩ := not_or.mp irregular
    have rest := tmod_nonpos (Int.le_of_lt (Int.not_le.mp below)) timeRange
    have next := tmod_nonpos (show startTime + 1 ≤ 0 by omega) timeRange
    have nextFits : InInt64 (startTime + 1) := by
      unfold InInt64 at fits ⊢
      omega
    have given := whole (startTime + 1) nextFits (by omega) (by omega)
    rw [short_eq positive short nextFits] at given
    have equal := some.inj given
    omega
  · rintro (above | rfl)
    · have first := Int.tmod_nonneg timeRange above
      have last := Int.tmod_lt_of_pos startTime positive
      refine ⟨_, start, by omega, by omega, fun other otherFits above' below => ?_⟩
      have inside := @tmod_inside startTime timeRange above
        (other - (startTime - startTime.tmod timeRange)) (by omega) (by omega)
      rw [add_sub_cancel] at inside
      rw [short_eq positive short otherFits, inside, Int.sub_sub_self]
    · refine ⟨_, start, by rw [Int.tmod_one]; omega, by rw [Int.tmod_one]; omega, ?_⟩
      intro other otherFits above below
      rw [Int.tmod_one] at above below
      have same : other = startTime := by omega
      rw [same]
      exact start

/-- A day that begins a second late ends behind the beginning of the next one. -/
theorem not_oneInterval_long (long : ¬ isShortUnit intervalTimeUnit = true)
    (fits : InInt64 startTime) : ¬ OneInterval startTime timeRange intervalTimeUnit := by
  rintro ⟨_, same, contains, _, whole⟩
  rw [long_eq positive long fits] at same
  obtain ⟨room, same⟩ := Option.ite_none_right_eq_some.mp same
  cases same
  have last := Int.tmod_lt_of_pos startTime positive
  have divides : timeRange ∣ startTime - startTime.tmod timeRange + timeRange :=
    Int.dvd_add Int.dvd_self_sub_tmod (Int.dvd_refl timeRange)
  have floor := (base_fits positive fits).1
  have nextFits : InInt64 (startTime - startTime.tmod timeRange + timeRange) := by
    unfold InInt64
    omega
  have given := whole _ nextFits (by omega) (by omega)
  rw [long_eq positive long nextFits, Int.tmod_eq_zero_of_dvd divides] at given
  have equal := some.inj (Option.ite_none_right_eq_some.mp given).2
  omega

end Interval

/-- For every timestamp and every interval: when the intervals are in order, in both
readings of what an interval is. -/
theorem aligned_iff (positive : 0 < timeRange) (fits : InInt64 startTime) :
    (Aligned startTime timeRange intervalTimeUnit ↔ Regular startTime timeRange intervalTimeUnit) ∧
    (OneInterval startTime timeRange intervalTimeUnit ↔
      RegularInterval startTime timeRange intervalTimeUnit) := by
  unfold Regular RegularInterval
  by_cases short : isShortUnit intervalTimeUnit = true
  · rw [if_pos short]
    refine ⟨aligned_short positive short fits, ?_⟩
    rw [oneInterval_short positive short fits]
    exact (and_iff_right short).symm
  · rw [if_neg short]
    refine ⟨aligned_long positive short fits, iff_of_false
      (not_oneInterval_long positive short fits) ?_⟩
    exact fun regular => short regular.1

theorem aligned_iff_day : (Aligned 90000000 86400000 'd' ↔ Regular 90000000 86400000 'd') ∧
      (OneInterval 90000000 86400000 'd' ↔ RegularInterval 90000000 86400000 'd') :=
  aligned_iff (by decide) (by decide)

/-- The first second of a day is not in the interval it gets. -/
theorem first_second_not_aligned :
    ¬ ∀ startTime timeRange intervalTimeUnit, InInt64 startTime -> 0 < timeRange ->
      Aligned startTime timeRange intervalTimeUnit := by
  intro always
  have aligned := always 0 86400000 'd' (by decide) (by decide)
  obtain ⟨_, second, _⟩ := (aligned_long (by decide) (by decide) (by decide)).mp aligned
  exact absurd second (by decide)

end Luomi.Interpolation
