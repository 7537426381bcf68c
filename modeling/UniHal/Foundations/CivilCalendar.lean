import Mathlib.Tactic

/-! # A civil calendar with two digits of the year

Dates, times of day and the second tick of a calendar in which every fourth year is a leap year
and the year wraps after a century. The ticks are connected to the number of days since the start
of the century and to the seconds of a day, so that what many ticks do is arithmetic.
-/

namespace UniHal.Foundations.CivilCalendar

/-- Two digits of the year, and a weekday that is counted along. -/
structure Date where
  year : ℕ
  month : ℕ
  day : ℕ
  weekday : ℕ
  deriving DecidableEq, Repr

def daysInMonth (year : ℕ) : ℕ → ℕ
  | 2 => if year % 4 = 0 then 29 else 28
  | 4 | 6 | 9 | 11 => 30
  | _ => 31

namespace Date

/-- The date exists. -/
structure Exists (d : Date) : Prop where
  year : d.year < 100
  month : 1 ≤ d.month ∧ d.month ≤ 12
  day : 1 ≤ d.day ∧ d.day ≤ daysInMonth d.year d.month
  weekday : 1 ≤ d.weekday ∧ d.weekday ≤ 7

def next (d : Date) : Date :=
  let weekday := if d.weekday < 7 then d.weekday + 1 else 1
  if d.day < daysInMonth d.year d.month then ⟨d.year, d.month, d.day + 1, weekday⟩
  else if d.month < 12 then ⟨d.year, d.month + 1, 1, weekday⟩
  else if d.year < 99 then ⟨d.year + 1, 1, 1, weekday⟩
  else ⟨0, 1, 1, weekday⟩

end Date

def daysBeforeMonth (year : ℕ) : ℕ → ℕ
  | 0 => 0
  | 1 => 0
  | m + 2 => daysBeforeMonth year (m + 1) + daysInMonth year (m + 1)

def daysBeforeYear (year : ℕ) : ℕ := 365 * year + (year + 3) / 4

def century : ℕ := 36525

def Date.dayNumber (d : Date) : ℕ :=
  daysBeforeYear d.year + daysBeforeMonth d.year d.month + (d.day - 1)

theorem daysInMonth_pos (year month : ℕ) : 1 ≤ daysInMonth year month := by
  unfold daysInMonth
  split <;> (try split) <;> omega

theorem daysBeforeMonth_succ (year : ℕ) {month : ℕ} (h : 1 ≤ month) :
    daysBeforeMonth year (month + 1) = daysBeforeMonth year month + daysInMonth year month := by
  cases month with
  | zero => omega
  | succ m => rfl

theorem daysBeforeMonth_year (year : ℕ) :
    daysBeforeYear year + daysBeforeMonth year 13 = daysBeforeYear (year + 1) := by
  have hyear : daysBeforeMonth year 13 = if year % 4 = 0 then 366 else 365 := by
    simp only [daysBeforeMonth, daysInMonth]
    split <;> rfl
  rw [hyear, daysBeforeYear, daysBeforeYear]
  split <;> omega

theorem daysBeforeMonth_le (year : ℕ) {m m' : ℕ} (hm : 1 ≤ m) (h : m < m') :
    daysBeforeMonth year m + daysInMonth year m ≤ daysBeforeMonth year m' := by
  induction m', h using Nat.le_induction with
  | base => exact (daysBeforeMonth_succ year hm).ge
  | succ k hk ih =>
    rw [daysBeforeMonth_succ year (by omega)]
    omega

theorem daysBeforeYear_le {y y' : ℕ} (h : y < y') : daysBeforeYear (y + 1) ≤ daysBeforeYear y' := by
  rw [daysBeforeYear, daysBeforeYear]
  omega

namespace Date

/-- A date lies before the next month, and so before the next year. -/
theorem dayNumber_lt {d : Date} (h : d.Exists) :
    d.dayNumber < daysBeforeYear d.year + daysBeforeMonth d.year (d.month + 1) := by
  rw [dayNumber, daysBeforeMonth_succ _ h.month.1]
  have := h.day
  omega

theorem dayNumber_lt_year {d : Date} (h : d.Exists) :
    d.dayNumber < daysBeforeYear (d.year + 1) := by
  have hlt := dayNumber_lt h
  have hyear := daysBeforeMonth_year d.year
  have hle : daysBeforeMonth d.year (d.month + 1) ≤ daysBeforeMonth d.year 13 := by
    rcases Nat.lt_or_ge (d.month + 1) 13 with hm | hm
    · exact le_trans (Nat.le_add_right _ _) (daysBeforeMonth_le d.year (by omega) hm)
    · rw [show d.month + 1 = 13 by have := h.month; omega]
  omega

theorem dayNumber_lt_century {d : Date} (h : d.Exists) : d.dayNumber < century := by
  have hlt := dayNumber_lt_year h
  have hyear := h.year
  rw [daysBeforeYear] at hlt
  rw [century]
  omega

theorem exists_first {year month weekday : ℕ} (hy : year < 100) (hm : 1 ≤ month ∧ month ≤ 12)
    (hw : 1 ≤ weekday ∧ weekday ≤ 7) : Exists ⟨year, month, 1, weekday⟩ :=
  ⟨hy, hm, ⟨le_rfl, daysInMonth_pos year month⟩, hw⟩

theorem exists_next {d : Date} (h : d.Exists) : d.next.Exists := by
  have hw : 1 ≤ (if d.weekday < 7 then d.weekday + 1 else 1) ∧
      (if d.weekday < 7 then d.weekday + 1 else 1) ≤ 7 := by split <;> omega
  have hy := h.year
  have hm := h.month
  unfold next
  dsimp only
  split
  · rename_i hin
    exact ⟨hy, hm, ⟨Nat.le_add_left 1 _, hin⟩, hw⟩
  · split
    · exact exists_first hy (by omega) hw
    · split
      · exact exists_first (by omega) (by omega) hw
      · exact exists_first (by omega) (by omega) hw

theorem dayNumber_mk (year month day weekday : ℕ) :
    dayNumber ⟨year, month, day, weekday⟩ =
      daysBeforeYear year + daysBeforeMonth year month + (day - 1) := rfl

theorem dayNumber_next {d : Date} (h : d.Exists) :
    d.next.dayNumber = (d.dayNumber + 1) % century := by
  have hday := h.day
  have hmonth := h.month
  have hsucc := daysBeforeMonth_succ d.year hmonth.1
  have hnum : d.dayNumber =
      daysBeforeYear d.year + daysBeforeMonth d.year d.month + (d.day - 1) := rfl
  have hlt' := dayNumber_lt_century (exists_next h)
  by_cases hin : d.day < daysInMonth d.year d.month
  · rw [next, if_pos hin, dayNumber_mk] at hlt' ⊢
    rw [Nat.mod_eq_of_lt (by omega)]
    omega
  · by_cases hnot : d.month < 12
    · rw [next, if_neg hin, if_pos hnot, dayNumber_mk] at hlt' ⊢
      rw [Nat.mod_eq_of_lt (by omega)]
      omega
    · -- New Year's Eve
      have hdec : d.month = 12 := by omega
      have hyear := daysBeforeMonth_year d.year
      rw [hdec] at hsucc hnum hday hin
      rw [show daysBeforeMonth d.year (12 + 1) = daysBeforeMonth d.year 13 from rfl] at hsucc
      have heve : d.dayNumber + 1 = daysBeforeYear (d.year + 1) := by omega
      have hfirst : daysBeforeMonth (d.year + 1) 1 = 0 := rfl
      rw [heve, next, hdec, if_neg hin, if_neg (lt_irrefl 12)]
      by_cases hcentury : d.year < 99
      · rw [if_pos hcentury, dayNumber_mk, hfirst,
          Nat.mod_eq_of_lt (by rw [daysBeforeYear, century]; omega)]
        rfl
      · have hlast : d.year = 99 := by
          have := h.year
          omega
        rw [if_neg hcentury, dayNumber_mk, hlast]
        rfl

theorem weekday_next {d : Date} (h : d.Exists) :
    d.next.weekday = (d.weekday - 1 + 1) % 7 + 1 := by
  have hw := h.weekday
  have hnext : d.next.weekday = if d.weekday < 7 then d.weekday + 1 else 1 := by
    unfold next
    dsimp only
    split <;> (try split) <;> (try split) <;> rfl
  rw [hnext]
  split <;> omega

theorem eq_of_dayNumber {d d' : Date} (h : d.Exists) (h' : d'.Exists)
    (hnum : d.dayNumber = d'.dayNumber) (hw : d.weekday = d'.weekday) : d = d' := by
  have hyear : d.year = d'.year := by
    have h1 := dayNumber_lt_year h
    have h2 := dayNumber_lt_year h'
    have hlow : ∀ e : Date, daysBeforeYear e.year ≤ e.dayNumber := fun e => by
      rw [dayNumber, add_assoc]
      exact Nat.le_add_right _ _
    rcases Nat.lt_trichotomy d.year d'.year with hlt | heq | hlt
    · have := daysBeforeYear_le hlt
      have := hlow d'
      omega
    · exact heq
    · have := daysBeforeYear_le hlt
      have := hlow d
      omega
  have hmonth : d.month = d'.month := by
    have hd := h.day
    have hd' := h'.day
    rw [dayNumber, dayNumber, hyear] at hnum
    rw [hyear] at hd
    rcases Nat.lt_trichotomy d.month d'.month with hlt | heq | hlt
    · have := daysBeforeMonth_le d'.year h.month.1 hlt
      omega
    · exact heq
    · have := daysBeforeMonth_le d'.year h'.month.1 hlt
      omega
  have hday : d.day = d'.day := by
    have hd := h.day
    have hd' := h'.day
    rw [dayNumber, dayNumber, hyear, hmonth] at hnum
    omega
  cases d
  cases d'
  simp_all

theorem exists_iterate {d : Date} (h : d.Exists) (n : ℕ) : (next^[n] d).Exists := by
  induction n with
  | zero => exact h
  | succ n ih =>
    rw [Function.iterate_succ_apply']
    exact exists_next ih

theorem dayNumber_iterate {d : Date} (h : d.Exists) (n : ℕ) :
    (next^[n] d).dayNumber = (d.dayNumber + n) % century := by
  induction n with
  | zero => exact (Nat.mod_eq_of_lt (dayNumber_lt_century h)).symm
  | succ n ih =>
    rw [Function.iterate_succ_apply', dayNumber_next (exists_iterate h n), ih, Nat.mod_add_mod,
      add_assoc]

theorem weekday_iterate {d : Date} (h : d.Exists) (n : ℕ) :
    (next^[n] d).weekday = (d.weekday - 1 + n) % 7 + 1 := by
  have hw := h.weekday
  induction n with
  | zero =>
    rw [Function.iterate_zero_apply]
    omega
  | succ n ih =>
    rw [Function.iterate_succ_apply', weekday_next (exists_iterate h n), ih]
    omega

/-- Number and weekday come back together after seven centuries. -/
def cycle : ℕ := 255675

/-- A number of days brings a date back only if it is a multiple of the cycle. -/
theorem iterate_next_eq_self_iff {d : Date} (h : d.Exists) (n : ℕ) :
    next^[n] d = d ↔ n % cycle = 0 := by
  have hnum := dayNumber_iterate h n
  have hwd := weekday_iterate h n
  have hlt := dayNumber_lt_century h
  have hw := h.weekday
  rw [century] at hnum hlt
  rw [cycle]
  constructor
  · intro heq
    rw [heq] at hnum hwd
    omega
  · intro hmod
    apply eq_of_dayNumber (exists_iterate h n) h
    · rw [hnum]
      omega
    · rw [hwd]
      omega

end Date

structure TimeOfDay where
  hours : ℕ
  minutes : ℕ
  seconds : ℕ
  deriving DecidableEq, Repr

namespace TimeOfDay

structure Valid (t : TimeOfDay) : Prop where
  hours : t.hours ≤ 23
  minutes : t.minutes ≤ 59
  seconds : t.seconds ≤ 59

/-- The second after; `none` where the day ends. -/
def next? (t : TimeOfDay) : Option TimeOfDay :=
  if t.seconds < 59 then some ⟨t.hours, t.minutes, t.seconds + 1⟩
  else if t.minutes < 59 then some ⟨t.hours, t.minutes + 1, 0⟩
  else if t.hours < 23 then some ⟨t.hours + 1, 0, 0⟩
  else none

def midnight : TimeOfDay := ⟨0, 0, 0⟩

def secondOfDay (t : TimeOfDay) : ℕ := 3600 * t.hours + 60 * t.minutes + t.seconds

theorem secondOfDay_lt {t : TimeOfDay} (h : t.Valid) : t.secondOfDay < 86400 := by
  have := h.hours
  have := h.minutes
  have := h.seconds
  rw [secondOfDay]
  omega

theorem next?_eq_none {t : TimeOfDay} (h : t.Valid) (hn : t.next? = none) :
    t.secondOfDay = 86399 := by
  obtain ⟨hh, hm, hs⟩ := h
  unfold next? at hn
  split at hn
  · cases hn
  · split at hn
    · cases hn
    · split at hn
      · cases hn
      · rw [secondOfDay]
        omega

theorem next?_eq_some {t u : TimeOfDay} (h : t.Valid) (hn : t.next? = some u) :
    u.Valid ∧ u.secondOfDay = t.secondOfDay + 1 := by
  obtain ⟨hh, hm, hs⟩ := h
  unfold next? at hn
  split at hn
  · obtain rfl := Option.some_inj.mp hn
    exact ⟨⟨hh, hm, by dsimp only; omega⟩, rfl⟩
  · split at hn
    · obtain rfl := Option.some_inj.mp hn
      refine ⟨⟨hh, by dsimp only; omega, Nat.zero_le _⟩, ?_⟩
      simp only [secondOfDay]
      omega
    · split at hn
      · obtain rfl := Option.some_inj.mp hn
        refine ⟨⟨by dsimp only; omega, Nat.zero_le _, Nat.zero_le _⟩, ?_⟩
        simp only [secondOfDay]
        omega
      · cases hn

end TimeOfDay

structure Moment where
  date : Date
  time : TimeOfDay
  deriving DecidableEq, Repr

namespace Moment

def tick (m : Moment) : Moment :=
  match m.time.next? with
  | some t => { m with time := t }
  | none => ⟨m.date.next, .midnight⟩

/-- After `n` seconds the time has moved on by them, and the date by the midnights among them. -/
theorem tick_iterate {m : Moment} (h : m.time.Valid) (n : ℕ) :
    (tick^[n] m).time.Valid ∧
      (tick^[n] m).time.secondOfDay = (m.time.secondOfDay + n) % 86400 ∧
      (tick^[n] m).date = Date.next^[(m.time.secondOfDay + n) / 86400] m.date := by
  have hlt := TimeOfDay.secondOfDay_lt h
  induction n with
  | zero =>
    rw [Function.iterate_zero_apply, add_zero, Nat.mod_eq_of_lt hlt, Nat.div_eq_of_lt hlt]
    exact ⟨h, rfl, rfl⟩
  | succ n ih =>
    obtain ⟨hvalid, hsec, hdate⟩ := ih
    rw [Function.iterate_succ_apply']
    generalize tick^[n] m = k at hvalid hsec hdate
    unfold tick
    split
    · rename_i t ht
      obtain ⟨hv, hs⟩ := TimeOfDay.next?_eq_some hvalid ht
      have hlt' := TimeOfDay.secondOfDay_lt hv
      refine ⟨hv, by dsimp only; omega, ?_⟩
      rw [show (m.time.secondOfDay + (n + 1)) / 86400 = (m.time.secondOfDay + n) / 86400 by omega]
      exact hdate
    · rename_i ht
      have hs := TimeOfDay.next?_eq_none hvalid ht
      refine ⟨⟨Nat.zero_le _, Nat.zero_le _, Nat.zero_le _⟩, ?_, ?_⟩
      · rw [show (m.time.secondOfDay + (n + 1)) % 86400 = 0 by omega]
        rfl
      · rw [show (m.time.secondOfDay + (n + 1)) / 86400 =
          (m.time.secondOfDay + n) / 86400 + 1 by omega, Function.iterate_succ_apply', ← hdate]

end Moment

end UniHal.Foundations.CivilCalendar
