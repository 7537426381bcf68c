import UniHal.Foundations.CivilCalendar

/-! # Setting and reading the real-time clock

`uni_hal_rtc_set` and `uni_hal_rtc_get` on a calendar that keeps running. Date and time are
written one after the other, each in the initialisation mode of the RTC, in which the calendar
stands still. Between the two writes the new date runs on with the old time.
-/

namespace UniHal.Rtc
open Foundations.CivilCalendar

inductive ClockSource
  | none | lse | lsi | hse
  deriving DecidableEq, Repr

/-- `uni_hal_rtc_context_t` -/
structure Context where
  clockSource : ClockSource
  clockSourceChange : Bool
  inited : Bool
  calendarValid : Bool

/-- `uni_hal_rtc_datetime_t` -/
structure Datetime where
  year : ℕ
  month : ℕ
  day : ℕ
  weekday : ℕ
  hours : ℕ
  minutes : ℕ
  seconds : ℕ
  milliseconds : ℕ
  deriving DecidableEq, Repr

def yearBase : ℕ := 2000

def datetimeIsValid (dt : Datetime) : Bool :=
  decide (dt.year ≥ yearBase) && decide (dt.year < yearBase + 100) &&
    decide (dt.month ≥ 1) && decide (dt.month ≤ 12) &&
    decide (dt.day ≥ 1) && decide (dt.day ≤ 31) &&
    decide (dt.weekday ≥ 1) && decide (dt.weekday ≤ 7) &&
    decide (dt.hours ≤ 23) && decide (dt.minutes ≤ 59) && decide (dt.seconds ≤ 59)

def bin2bcd (value : ℕ) : ℕ := ((value / 10) <<< 4 ||| value % 10) % 256

def bcd2bin (value : ℕ) : ℕ := (((value &&& 0xF0) >>> 4) * 10 + (value &&& 0x0F)) % 256

theorem bcd2bin_bin2bcd {value : ℕ} (h : value < 100) : bcd2bin (bin2bcd value) = value := by
  have hall : ∀ v < 100, bcd2bin (bin2bcd v) = v := by decide
  exact hall value h

structure DateReg where
  weekday : ℕ
  day : ℕ
  month : ℕ
  year : ℕ

structure TimeReg where
  hours : ℕ
  minutes : ℕ
  seconds : ℕ

/-- `LL_RTC_DATE_Config`: the counters take over what is written. -/
def dateConfig (r : DateReg) (c : Moment) : Moment :=
  { c with date := ⟨bcd2bin r.year, bcd2bin r.month, bcd2bin r.day, r.weekday⟩ }

def timeConfig (r : TimeReg) (c : Moment) : Moment :=
  { c with time := ⟨bcd2bin r.hours, bcd2bin r.minutes, bcd2bin r.seconds⟩ }

def dateGet (c : Moment) : DateReg :=
  ⟨c.date.weekday, bin2bcd c.date.day, bin2bcd c.date.month, bin2bcd c.date.year⟩

def timeGet (c : Moment) : TimeReg :=
  ⟨bin2bcd c.time.hours, bin2bcd c.time.minutes, bin2bcd c.time.seconds⟩

structure InitOutcome where
  entered : Bool
  synchronised : Bool

/-- `LL_RTC_DATE_Init` with binary values. -/
def dateInit (hw : InitOutcome) (weekday day month year : ℕ) (c : Moment) : Bool × Moment :=
  let month := if month &&& 0x10 = 0x10 then (month &&& 0xEF) + 0x0A else month
  if hw.entered then
    (hw.synchronised, dateConfig ⟨weekday, bin2bcd day, bin2bcd month, bin2bcd year⟩ c)
  else (false, c)

/-- `LL_RTC_TIME_Init` with binary values. -/
def timeInit (hw : InitOutcome) (hours minutes seconds : ℕ) (c : Moment) : Bool × Moment :=
  if hw.entered then
    (hw.synchronised, timeConfig ⟨bin2bcd hours, bin2bcd minutes, bin2bcd seconds⟩ c)
  else (false, c)

/-- Where the second ticks of the calendar fall during `uni_hal_rtc_set`, and how its waits end.
There are none in the initialisation mode. -/
structure SetEnv where
  ticksBefore : ℕ
  ticksBetween : ℕ
  date : InitOutcome
  time : InitOutcome

def rtcSet (ctx : Context) (dt : Datetime) (env : SetEnv) (c : Moment) :
    Bool × Context × Moment :=
  if ctx.inited && datetimeIsValid dt then
    let c := Moment.tick^[env.ticksBefore] c
    let d := dateInit env.date dt.weekday dt.day dt.month ((dt.year - yearBase) % 256) c
    if d.1 then
      let c := Moment.tick^[env.ticksBetween] d.2
      let t := timeInit env.time dt.hours dt.minutes dt.seconds c
      if t.1 then (true, { ctx with calendarValid := true }, t.2) else (false, ctx, t.2)
    else (false, ctx, d.2)
  else (false, ctx, c)

/-- The fraction of the second; the sub-second counter runs down from the prescaler. -/
def millisecondsOf (subsecond prescaler : ℕ) : ℕ :=
  let milliseconds :=
    if subsecond ≤ prescaler then 1000 * (prescaler - subsecond) / (prescaler + 1) else 0
  if milliseconds < 1000 then milliseconds else 999

/-- `uni_hal_rtc_get`; the three registers belong to one instant. -/
def rtcGet (ctx : Context) (subsecond prescaler : ℕ) (c : Moment) : Option Datetime :=
  if ctx.inited then
    let time := timeGet c
    let date := dateGet c
    some
      { year := yearBase + bcd2bin date.year
        month := bcd2bin date.month
        day := bcd2bin date.day
        weekday := date.weekday
        hours := bcd2bin time.hours
        minutes := bcd2bin time.minutes
        seconds := bcd2bin time.seconds
        milliseconds := millisecondsOf subsecond prescaler }
  else none

def Datetime.moment (dt : Datetime) : Moment :=
  ⟨⟨dt.year - yearBase, dt.month, dt.day, dt.weekday⟩, ⟨dt.hours, dt.minutes, dt.seconds⟩⟩

def Datetime.ofMoment (c : Moment) (milliseconds : ℕ) : Datetime :=
  { year := yearBase + c.date.year, month := c.date.month, day := c.date.day
    weekday := c.date.weekday, hours := c.time.hours, minutes := c.time.minutes
    seconds := c.time.seconds, milliseconds := milliseconds }

/-- The date exists, in the century of the calendar, and the time is one of a day. -/
structure Datetime.Exists (dt : Datetime) : Prop where
  base : yearBase ≤ dt.year
  date : dt.moment.date.Exists
  time : dt.moment.time.Valid

theorem daysInMonth_le (year month : ℕ) : daysInMonth year month ≤ 31 := by
  unfold daysInMonth
  split <;> (try split) <;> omega

theorem datetimeIsValid_of_exists {dt : Datetime} (h : dt.Exists) : datetimeIsValid dt = true := by
  have hb := h.base
  obtain ⟨hy, hm, hd, hw⟩ := h.date
  obtain ⟨hh, hmin, hs⟩ := h.time
  have hle := daysInMonth_le (dt.year - yearBase) dt.month
  simp only [Datetime.moment] at hy hm hd hw hh hmin hs
  simp only [datetimeIsValid, Bool.and_eq_true, decide_eq_true_eq]
  rw [yearBase] at *
  omega

theorem rtcGet_eq {ctx : Context} (hctx : ctx.inited = true) {c : Moment}
    (hdate : c.date.Exists) (htime : c.time.Valid) (subsecond prescaler : ℕ) :
    rtcGet ctx subsecond prescaler c =
      some (.ofMoment c (millisecondsOf subsecond prescaler)) := by
  obtain ⟨hy, hm, hd, -⟩ := hdate
  obtain ⟨hh, hmin, hs⟩ := htime
  have hle := daysInMonth_le c.date.year c.date.month
  simp only [rtcGet, hctx, if_true, timeGet, dateGet, Datetime.ofMoment]
  rw [bcd2bin_bin2bcd hy, bcd2bin_bin2bcd (by omega), bcd2bin_bin2bcd (by omega),
    bcd2bin_bin2bcd (by omega), bcd2bin_bin2bcd (by omega), bcd2bin_bin2bcd (by omega)]

theorem ofMoment_injective {c c' : Moment} {ms ms' : ℕ}
    (h : Datetime.ofMoment c ms = Datetime.ofMoment c' ms') : c = c' := by
  obtain ⟨⟨y, m, d, w⟩, hh, mm, ss⟩ := c
  obtain ⟨⟨y', m', d', w'⟩, hh', mm', ss'⟩ := c'
  simp only [Datetime.ofMoment, Datetime.mk.injEq, Nat.add_left_cancel_iff] at h
  simp_all

theorem dateInit_eq {dt : Datetime} (h : dt.Exists) {hw : InitOutcome} (hw' : hw.entered = true)
    (c : Moment) :
    dateInit hw dt.weekday dt.day dt.month ((dt.year - yearBase) % 256) c =
      (hw.synchronised, { c with date := dt.moment.date }) := by
  obtain ⟨hy, hm, hd, -⟩ := h.date
  simp only [Datetime.moment] at hy hm hd
  have hle := daysInMonth_le (dt.year - yearBase) dt.month
  have hmonth : ∀ m ≤ 12, ¬ m &&& 0x10 = 0x10 := by decide
  rw [dateInit, if_pos hw', if_neg (hmonth _ hm.2), dateConfig]
  simp only [Datetime.moment]
  rw [Nat.mod_eq_of_lt (by omega : dt.year - yearBase < 256), bcd2bin_bin2bcd hy,
    bcd2bin_bin2bcd (by omega), bcd2bin_bin2bcd (by omega)]

theorem timeInit_eq {dt : Datetime} (h : dt.Exists) {hw : InitOutcome} (hw' : hw.entered = true)
    (c : Moment) :
    timeInit hw dt.hours dt.minutes dt.seconds c =
      (hw.synchronised, { c with time := dt.moment.time }) := by
  obtain ⟨hh, hmin, hs⟩ := h.time
  simp only [Datetime.moment] at hh hmin hs
  rw [timeInit, if_pos hw', timeConfig]
  simp only [Datetime.moment]
  rw [bcd2bin_bin2bcd (by omega), bcd2bin_bin2bcd (by omega), bcd2bin_bin2bcd (by omega)]

def midnightsBetween (env : SetEnv) (c : Moment) : ℕ :=
  ((c.time.secondOfDay + env.ticksBefore) % 86400 + env.ticksBetween) / 86400

/-- A call that succeeds leaves the given time, and the given date moved on by the midnights
between the two writes. -/
theorem rtcSet_eq {ctx : Context} {dt : Datetime} {env : SetEnv} {c : Moment} (h : dt.Exists)
    (hc : c.time.Valid) (hset : (rtcSet ctx dt env c).1 = true) :
    (rtcSet ctx dt env c).2.1.inited = true ∧
      (rtcSet ctx dt env c).2.2 =
        ⟨Date.next^[midnightsBetween env c] dt.moment.date, dt.moment.time⟩ := by
  have hinited : ctx.inited = true := by
    by_contra hnot
    simp [rtcSet, hnot] at hset
  have hvalid : datetimeIsValid dt = true := datetimeIsValid_of_exists h
  have hentered : env.date.entered = true := by
    by_contra hnot
    simp [rtcSet, hinited, hvalid, dateInit, hnot] at hset
  have hdate : ∀ c, dateInit env.date dt.weekday dt.day dt.month ((dt.year - yearBase) % 256) c =
      (env.date.synchronised, { c with date := dt.moment.date }) := dateInit_eq h hentered
  have hsync : env.date.synchronised = true := by
    by_contra hnot
    simp [rtcSet, hinited, hvalid, hdate, hnot] at hset
  have hentered' : env.time.entered = true := by
    by_contra hnot
    simp [rtcSet, hinited, hvalid, hdate, hsync, timeInit, hnot] at hset
  have htime : ∀ c, timeInit env.time dt.hours dt.minutes dt.seconds c =
      (env.time.synchronised, { c with time := dt.moment.time }) := timeInit_eq h hentered'
  have hsync' : env.time.synchronised = true := by
    by_contra hnot
    simp [rtcSet, hinited, hvalid, hdate, hsync, htime, hnot] at hset
  obtain ⟨hv, hs, -⟩ := Moment.tick_iterate hc env.ticksBefore
  have hrun := Moment.tick_iterate
    (m := ⟨dt.moment.date, (Moment.tick^[env.ticksBefore] c).time⟩) hv env.ticksBetween
  have hresult : rtcSet ctx dt env c = (true, { ctx with calendarValid := true },
      ⟨Date.next^[midnightsBetween env c] dt.moment.date, dt.moment.time⟩) := by
    simp only [rtcSet, hinited, hvalid, Bool.and_self, if_true, hdate, htime, hsync, hsync',
      hrun.2.2, hs, midnightsBetween]
  rw [hresult]
  exact ⟨hinited, rfl⟩

/-- After a call that succeeds every later reading shows the given date and time moved on by the
seconds since the time was written, exactly if no midnight passed between the two writes, or as
many as bring the calendar back to where it was. -/
theorem rtcGet_after_rtcSet_iff {ctx : Context} {dt : Datetime} {env : SetEnv} {c : Moment}
    (h : dt.Exists) (hc : c.time.Valid) (hset : (rtcSet ctx dt env c).1 = true) :
    (∀ seconds subsecond prescaler,
      rtcGet (rtcSet ctx dt env c).2.1 subsecond prescaler
          (Moment.tick^[seconds] (rtcSet ctx dt env c).2.2) =
        some (.ofMoment (Moment.tick^[seconds] dt.moment) (millisecondsOf subsecond prescaler))) ↔
      midnightsBetween env c % Date.cycle = 0 := by
  obtain ⟨hinited, heq⟩ := rtcSet_eq h hc hset
  rw [heq]
  have hget : ∀ seconds subsecond prescaler,
      rtcGet (rtcSet ctx dt env c).2.1 subsecond prescaler (Moment.tick^[seconds]
          ⟨Date.next^[midnightsBetween env c] dt.moment.date, dt.moment.time⟩) =
        some (.ofMoment (Moment.tick^[seconds]
          ⟨Date.next^[midnightsBetween env c] dt.moment.date, dt.moment.time⟩)
          (millisecondsOf subsecond prescaler)) := by
    intro seconds subsecond prescaler
    obtain ⟨hv, -, hd⟩ := Moment.tick_iterate
      (m := ⟨Date.next^[midnightsBetween env c] dt.moment.date, dt.moment.time⟩) h.time seconds
    refine rtcGet_eq hinited ?_ hv subsecond prescaler
    rw [hd]
    exact Date.exists_iterate (Date.exists_iterate h.date _) _
  constructor
  · intro hall
    have hnow := hall 0 0 0
    rw [hget, Option.some_inj] at hnow
    have hmoment := ofMoment_injective hnow
    exact (Date.iterate_next_eq_self_iff h.date _).mp (congrArg Moment.date hmoment)
  · intro hmod seconds subsecond prescaler
    rw [hget, (Date.iterate_next_eq_self_iff h.date _).mpr hmod]

/-- In any time that a call can take, the midnights are the ones that pass, not a cycle. -/
theorem midnightsBetween_mod_iff (env : SetEnv) (c : Moment)
    (hshort : env.ticksBetween < 86400 * (Date.cycle - 1)) :
    midnightsBetween env c % Date.cycle = 0 ↔
      (c.time.secondOfDay + env.ticksBefore) % 86400 + env.ticksBetween < 86400 := by
  rw [Date.cycle] at *
  rw [midnightsBetween]
  omega

def newYearsEve : Moment := ⟨⟨24, 12, 31, 2⟩, ⟨23, 59, 59⟩⟩

def mondayNoon : Datetime := ⟨2025, 3, 10, 1, 12, 0, 0, 0⟩

theorem mondayNoon_exists : mondayNoon.Exists :=
  ⟨by decide, ⟨by decide, by decide, by decide, by decide⟩, ⟨by decide, by decide, by decide⟩⟩

theorem newYearsEve_valid : newYearsEve.time.Valid := ⟨by decide, by decide, by decide⟩

def running : Context := ⟨.lse, false, true, true⟩

def acknowledged (ticksBetween : ℕ) : SetEnv := ⟨0, ticksBetween, ⟨true, true⟩, ⟨true, true⟩⟩

theorem rtcGet_after_rtcSet_undisturbed :
    (∀ seconds subsecond prescaler,
      rtcGet (rtcSet running mondayNoon (acknowledged 0) newYearsEve).2.1 subsecond prescaler
          (Moment.tick^[seconds] (rtcSet running mondayNoon (acknowledged 0) newYearsEve).2.2) =
        some (.ofMoment (Moment.tick^[seconds] mondayNoon.moment)
          (millisecondsOf subsecond prescaler))) ↔
      midnightsBetween (acknowledged 0) newYearsEve % Date.cycle = 0 :=
  rtcGet_after_rtcSet_iff mondayNoon_exists newYearsEve_valid (by decide)

/-- One tick at midnight between the writes, and the calendar reads Tuesday, 11 March. -/
theorem rtcSet_one_day_off :
    ¬ ∀ (ctx : Context) (dt : Datetime) (env : SetEnv) (c : Moment), dt.Exists → c.time.Valid →
      (rtcSet ctx dt env c).1 = true → ∀ seconds subsecond prescaler,
        rtcGet (rtcSet ctx dt env c).2.1 subsecond prescaler
            (Moment.tick^[seconds] (rtcSet ctx dt env c).2.2) =
          some (.ofMoment (Moment.tick^[seconds] dt.moment)
            (millisecondsOf subsecond prescaler)) := by
  intro hall
  have hget := hall running mondayNoon (acknowledged 1) newYearsEve mondayNoon_exists
    newYearsEve_valid (by decide) 0 0 0
  exact absurd hget (by decide)

end UniHal.Rtc
