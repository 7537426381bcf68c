import UniHal.Foundations.Execution
import UniHal.Rcc.Periph
import UniHal.Rtc.Calendar

/-! # Write access to the backup domain

One bit of the power controller opens the backup domain, and the RTC, the clock controller and the
power controller all switch it. `uni_hal_rtc_init` leaves it open for the RTC; what every other
function does to it, and whether the RTC can still be set after any sequence of calls.
-/

namespace UniHal.Rtc.BackupAccess
open Foundations Execution
open Rcc (Family)

/-- The access bit, what the backup domain holds of the RTC clock, and the flags of the drivers
that the functions below read and write. -/
structure State where
  /-- the gate of the power controller, which only the STM32L4 has -/
  pwrClock : Bool
  /-- `DBP` -/
  access : Bool
  rtcClock : ClockSource
  rtcEnabled : Bool
  lseInited : Bool
  lseBackupReseted : Bool
  batteryCharging : Bool
  pwrInited : Bool
  /-- some `uni_hal_rtc_init` has returned true -/
  rtcReady : Bool

namespace State

def powered (f : Family) (s : State) : Bool :=
  match f with
  | .stm32h7 => true
  | .stm32l4 => s.pwrClock

/-- `LL_PWR_EnableBkUpAccess`, `LL_PWR_DisableBkUpAccess`, `uni_hal_pwr_stm_set_backup_access` -/
def setBackupAccess (f : Family) (s : State) (value : Bool) : State :=
  if s.powered f then { s with access := value } else s

def isEnabledBkUpAccess (f : Family) (s : State) : Bool := s.powered f && s.access

def busClockEnable (f : Family) (s : State) : State :=
  match f with
  | .stm32h7 => s
  | .stm32l4 => { s with pwrClock := true }

/-- `LL_RCC_ForceBackupDomainReset`, `LL_RCC_ReleaseBackupDomainReset`, whose bit is behind the
access like all others of its register. -/
def resetDomain (s : State) : State :=
  if s.access then { s with rtcClock := .none, rtcEnabled := false } else s

/-- `LL_RCC_EnableRTC`, `LL_RCC_DisableRTC` -/
def switchRtc (s : State) (state : Bool) : State :=
  if s.access then { s with rtcEnabled := state } else s

/-- `LL_RCC_SetRTCClockSource` -/
def selectRtc (s : State) (source : ClockSource) : State :=
  if s.access then { s with rtcClock := source } else s

end State

/-- What `uni_hal_rtc_init` finds: which oscillators run, before and after a reset of the domain,
whether the calendar is set, and whether the prescalers can be written. -/
structure RtcHw where
  lseReady : Bool
  lsiReady : Bool
  lseReadyAfter : Bool
  calendarSet : Bool
  initAccepted : Bool

def clockSourceDiffers (ctx : Context) (hw : RtcHw) (s : State) : Bool :=
  decide (s.rtcClock ≠ .none) &&
    match ctx.clockSource with
    | .lse => decide (s.rtcClock ≠ .lse) && hw.lseReady
    | .lsi => decide (s.rtcClock ≠ .lsi) && hw.lsiReady
    | _ => false

def selectClock (ctx : Context) (hw : RtcHw) (s : State) : Bool × State :=
  if s.rtcClock = .none then
    match ctx.clockSource with
    | .lse => (hw.lseReadyAfter, if hw.lseReadyAfter then s.selectRtc .lse else s)
    | .lsi => (hw.lsiReady, if hw.lsiReady then s.selectRtc .lsi else s)
    | _ => (false, s)
  else (true, s)

def rtcInit (f : Family) (ctx : Context) (hw : RtcHw) (s : State) : Bool × Context × State :=
  let s := (s.busClockEnable f).setBackupAccess f true
  let s := if ctx.clockSourceChange && clockSourceDiffers ctx hw s then s.resetDomain else s
  let r := selectClock ctx hw s
  if r.1 then
    let s := r.2.switchRtc true
    let result := if hw.calendarSet then true else hw.initAccepted
    (result, { ctx with calendarValid := hw.calendarSet, inited := result },
      { s with rtcReady := s.rtcReady || result })
  else (false, { ctx with inited := false }, r.2)

def backupCount : ℕ := 32

/-- `uni_hal_rtc_backup_write`, the access that it opens. -/
def backupWrite (f : Family) (index : ℕ) (s : State) : State :=
  if index < backupCount then (s.busClockEnable f).setBackupAccess f true else s

/-- `uni_hal_rcc_clk_set` of the RTC: both families write only what the getter does not tell
already. -/
def clkSetRtc (f : Family) (state : Bool) (s : State) : State :=
  if state ≠ s.rtcEnabled then
    let s := s.setBackupAccess f true
    let s := s.switchRtc state
    s.setBackupAccess f false
  else s

/-- `uni_hal_pwr_init` of the STM32L4 driver, which opens the gate of the power controller. -/
def pwrInitL4 (s : State) : State :=
  let s := { s with pwrClock := true }
  let s := s.setBackupAccess .stm32l4 true
  let s := s.setBackupAccess .stm32l4 false
  { s with pwrInited := true }

/-- `uni_hal_pwr_init` of the STM32H7 driver; the voltage may not settle in time. -/
def pwrInitH7 (settled : Bool) (s : State) : State := { s with pwrInited := settled }

def pwrInit (settled : Bool) (s : State) : Family → State
  | .stm32h7 => pwrInitH7 settled s
  | .stm32l4 => pwrInitL4 s

/-- `uni_hal_pwr_set_battery_charging`: the bit is put back as it was found. -/
def setBatteryCharging (f : Family) (value : Bool) (s : State) : State :=
  let backupAccess := s.isEnabledBkUpAccess f
  let s := s.setBackupAccess f true
  let s := s.setBackupAccess f backupAccess
  { s with batteryCharging := value }

/-- `uni_hal_rcc_reset` with `UNI_HAL_RCC_RESET_BACKUP` -/
def rccResetBackup (f : Family) (s : State) : State :=
  let s := s.setBackupAccess f true
  let s := s.resetDomain
  let s := s.setBackupAccess f false
  { s with lseBackupReseted := true }

/-- What `_uni_hal_stm_rcc_lse` finds: LSE runs already, or is ready when the wait ends. -/
structure LseHw where
  running : Bool
  started : Bool

/-- `_uni_hal_stm_rcc_lse` up to the reset of the backup domain. -/
def lseStart (f : Family) (hw : LseHw) (s : State) : State :=
  if hw.running then { s with lseInited := true }
  else
    let s := s.setBackupAccess f true
    let s := s.setBackupAccess f false
    { s with lseInited := hw.started }

/-- `_uni_hal_stm_rcc_lse`: it calls itself once, after a reset of the backup domain. -/
def lse (f : Family) (lseBackupReset : Bool) (hw again : LseHw) (s : State) : State :=
  let s := lseStart f hw s
  if !s.lseInited && lseBackupReset && !s.lseBackupReseted then
    lseStart f again (rccResetBackup f s)
  else s

inductive Action
  | rtcInit (ctx : Context) (hw : RtcHw)
  | rtcSet
  | backupWrite (index : ℕ)
  | clkSetRtc (state : Bool)
  | pwrInit (settled : Bool)
  | setBatteryCharging (value : Bool)
  | lse (lseBackupReset : Bool) (hw again : LseHw)

/-- `uni_hal_rtc_set` does not touch the access bit. -/
def next (f : Family) (s : State) : Action → State
  | .rtcInit ctx hw => (rtcInit f ctx hw s).2.2
  | .rtcSet => s
  | .backupWrite index => backupWrite f index s
  | .clkSetRtc state => clkSetRtc f state s
  | .pwrInit settled => pwrInit settled s f
  | .setBatteryCharging value => setBatteryCharging f value s
  | .lse lseBackupReset hw again => lse f lseBackupReset hw again s

def step (f : Family) (s : State) (a : Action) : Option State := some (next f s a)

/-- Once the RTC is ready it is set with access, and whatever is not the initialisation of the
RTC leaves the bit as it found it. -/
def Kept (f : Family) (s : State) : Action → Prop
  | .rtcInit _ _ => True
  | .rtcSet => s.rtcReady = true → s.access = true
  | a => (next f s a).access = s.access

/-- The calls that do so: the ones that close the access, while it is closed anyway or cannot be
switched, and the one that opens it, while it is open. -/
def Harmless (f : Family) (s : State) : Action → Prop
  | .backupWrite index => index < backupCount → s.access = true
  | .clkSetRtc state => state ≠ s.rtcEnabled → s.powered f = true → s.access = false
  | .pwrInit _ => f = .stm32l4 → s.access = false
  | .lse _ hw _ => hw.running = false → s.powered f = true → s.access = false
  | _ => True

instance (f : Family) (s : State) : (a : Action) → Decidable (Harmless f s a)
  | .rtcInit _ _ | .rtcSet | .setBatteryCharging _ => .isTrue trivial
  | .backupWrite _ | .pwrInit _ => inferInstanceAs (Decidable (_ → _))
  | .clkSetRtc _ | .lse _ _ _ => inferInstanceAs (Decidable (_ → _ → _))

namespace State

@[simp] theorem setBackupAccess_access (f : Family) (s : State) (value : Bool) :
    (s.setBackupAccess f value).access = if s.powered f then value else s.access := by
  rw [setBackupAccess]
  split <;> rfl

@[simp] theorem setBackupAccess_powered (f : Family) (s : State) (value : Bool) :
    (s.setBackupAccess f value).powered f = s.powered f := by
  rw [setBackupAccess]
  split <;> rfl

@[simp] theorem setBackupAccess_rtcReady (f : Family) (s : State) (value : Bool) :
    (s.setBackupAccess f value).rtcReady = s.rtcReady := by
  rw [setBackupAccess]
  split <;> rfl

@[simp] theorem busClockEnable_powered (f : Family) (s : State) :
    (s.busClockEnable f).powered f = true := by
  cases f <;> rfl

@[simp] theorem busClockEnable_rtcReady (f : Family) (s : State) :
    (s.busClockEnable f).rtcReady = s.rtcReady := by
  cases f <;> rfl

/-- A write to the backup domain leaves the access and the power controller alone. -/
structure SameAccess (s t : State) : Prop where
  access : t.access = s.access
  pwrClock : t.pwrClock = s.pwrClock
  rtcReady : t.rtcReady = s.rtcReady

theorem sameAccess_resetDomain (s : State) : SameAccess s s.resetDomain := by
  rw [resetDomain]
  split <;> exact ⟨rfl, rfl, rfl⟩

theorem sameAccess_switchRtc (s : State) (state : Bool) : SameAccess s (s.switchRtc state) := by
  rw [switchRtc]
  split <;> exact ⟨rfl, rfl, rfl⟩

theorem sameAccess_selectRtc (s : State) (source : ClockSource) :
    SameAccess s (s.selectRtc source) := by
  rw [selectRtc]
  split <;> exact ⟨rfl, rfl, rfl⟩

theorem SameAccess.powered {s t : State} (h : SameAccess s t) (f : Family) :
    t.powered f = s.powered f := by
  cases f
  · rfl
  · exact h.pwrClock

end State

theorem selectClock_access (ctx : Context) (hw : RtcHw) (s : State) :
    (selectClock ctx hw s).2.access = s.access := by
  unfold selectClock
  split
  · split
    · split
      · exact (s.sameAccess_selectRtc .lse).access
      · rfl
    · split
      · exact (s.sameAccess_selectRtc .lsi).access
      · rfl
    · rfl
  · rfl

/-- The initialisation of the RTC leaves the access open, whatever it returns. -/
theorem rtcInit_access (f : Family) (ctx : Context) (hw : RtcHw) (s : State) :
    (rtcInit f ctx hw s).2.2.access = true := by
  have hopen : ((s.busClockEnable f).setBackupAccess f true).access = true := by simp
  have hselect := selectClock_access ctx hw
  have hswitch (t : State) := (t.sameAccess_switchRtc true).access
  have hreset := (State.sameAccess_resetDomain ((s.busClockEnable f).setBackupAccess f true)).access
  unfold rtcInit
  dsimp only
  split
  · split
    · exact (hswitch _).trans ((hselect _).trans (hreset.trans hopen))
    · exact (hselect _).trans (hreset.trans hopen)
  · split
    · exact (hswitch _).trans ((hselect _).trans hopen)
    · exact (hselect _).trans hopen

theorem clkSetRtc_access (f : Family) (state : Bool) (s : State) :
    (clkSetRtc f state s).access =
      if state ≠ s.rtcEnabled ∧ s.powered f = true then false else s.access := by
  have hsame := (s.setBackupAccess f true).sameAccess_switchRtc state
  unfold clkSetRtc
  split_ifs with hwrites hcloses hcloses
  · simp [hsame.powered f, hcloses.2]
  · have hunpowered : s.powered f = false :=
      Bool.eq_false_iff.mpr fun hpowered => hcloses ⟨hwrites, hpowered⟩
    simp [hsame.powered f, hsame.access, hunpowered]
  · exact absurd hcloses.1 hwrites
  · rfl

theorem lseStart_access (f : Family) (hw : LseHw) (s : State) :
    (lseStart f hw s).access =
      if hw.running = false ∧ s.powered f = true then false else s.access := by
  unfold lseStart
  cases hw.running <;> cases hpowered : s.powered f <;> simp [hpowered]

theorem lseStart_powered (f : Family) (hw : LseHw) (s : State) :
    (lseStart f hw s).powered f = s.powered f := by
  unfold lseStart
  split
  · cases f <;> rfl
  · calc State.powered f _ = ((s.setBackupAccess f true).setBackupAccess f false).powered f := by
          cases f <;> rfl
      _ = s.powered f := by simp

theorem lseStart_rtcReady (f : Family) (hw : LseHw) (s : State) :
    (lseStart f hw s).rtcReady = s.rtcReady := by
  unfold lseStart
  split <;> simp

theorem rccResetBackup_powered (f : Family) (s : State) :
    (rccResetBackup f s).powered f = s.powered f := by
  have hsame := (s.setBackupAccess f true).sameAccess_resetDomain
  calc (rccResetBackup f s).powered f =
        ((s.setBackupAccess f true).resetDomain.setBackupAccess f false).powered f := by
          cases f <;> rfl
    _ = s.powered f := by simp [hsame.powered f]

theorem rccResetBackup_access (f : Family) (s : State) :
    (rccResetBackup f s).access = if s.powered f = true then false else s.access := by
  have hsame := (s.setBackupAccess f true).sameAccess_resetDomain
  cases hpowered : s.powered f <;>
    simp [rccResetBackup, hsame.powered f, hsame.access, hpowered]

theorem rccResetBackup_rtcReady (f : Family) (s : State) :
    (rccResetBackup f s).rtcReady = s.rtcReady := by
  have hsame := (s.setBackupAccess f true).sameAccess_resetDomain
  simp [rccResetBackup, hsame.rtcReady]

/-- Starting LSE closes the access unless LSE runs already. -/
theorem lse_access (f : Family) (lseBackupReset : Bool) (hw again : LseHw) (s : State) :
    (lse f lseBackupReset hw again s).access =
      if hw.running = false ∧ s.powered f = true then false else s.access := by
  unfold lse
  dsimp only
  split
  · rename_i hretry
    have hstopped : hw.running = false := by
      cases hrun : hw.running with
      | true => simp [lseStart, hrun] at hretry
      | false => rfl
    rw [lseStart_access, rccResetBackup_powered, rccResetBackup_access, lseStart_powered,
      lseStart_access]
    cases hpowered : s.powered f <;> simp [hstopped]
  · exact lseStart_access f hw s

theorem lse_rtcReady (f : Family) (lseBackupReset : Bool) (hw again : LseHw) (s : State) :
    (lse f lseBackupReset hw again s).rtcReady = s.rtcReady := by
  unfold lse
  dsimp only
  split
  · rw [lseStart_rtcReady, rccResetBackup_rtcReady, lseStart_rtcReady]
  · exact lseStart_rtcReady f hw s

theorem setBatteryCharging_access (f : Family) (value : Bool) (s : State) :
    (setBatteryCharging f value s).access = s.access := by
  cases hpowered : s.powered f <;>
    simp [setBatteryCharging, State.isEnabledBkUpAccess, hpowered]

theorem pwrInitL4_access (s : State) : (pwrInitL4 s).access = false := by
  have hclosed (t : State) (h : t.powered .stm32l4 = true) :
      (t.setBackupAccess .stm32l4 false).access = false := by
    simp [h]
  exact hclosed _ ((State.setBackupAccess_powered _ _ _).trans rfl)

/-- A function leaves the bit as it found it exactly when the call is harmless. -/
theorem kept_iff (f : Family) (s : State) (a : Action)
    (hset : s.rtcReady = true → s.access = true) : Kept f s a ↔ Harmless f s a := by
  cases a with
  | rtcInit ctx hw => exact Iff.rfl
  | rtcSet => exact ⟨fun _ => trivial, fun _ => hset⟩
  | backupWrite index =>
    by_cases hindex : index < backupCount
    · simp [Kept, Harmless, next, backupWrite, hindex]
    · simp [Kept, Harmless, next, backupWrite, hindex]
  | clkSetRtc state =>
    simp only [Kept, Harmless, next, clkSetRtc_access]
    split_ifs with hcloses
    · simp [hcloses.1, hcloses.2]
    · exact iff_of_true rfl fun hne hpowered => absurd ⟨hne, hpowered⟩ hcloses
  | pwrInit settled =>
    cases f with
    | stm32h7 => simp [Kept, Harmless, next, pwrInit, pwrInitH7]
    | stm32l4 => simp [Kept, Harmless, next, pwrInit, pwrInitL4_access]
  | setBatteryCharging value =>
    exact ⟨fun _ => trivial, fun _ => setBatteryCharging_access f value s⟩
  | lse lseBackupReset hw again =>
    simp only [Kept, Harmless, next, lse_access]
    split_ifs with hcloses
    · simp [hcloses.1, hcloses.2]
    · exact iff_of_true rfl fun hstopped hpowered => absurd ⟨hstopped, hpowered⟩ hcloses

theorem rtcReady_next (f : Family) (s : State) (a : Action)
    (hne : ∀ ctx hw, a ≠ .rtcInit ctx hw) : (next f s a).rtcReady = s.rtcReady := by
  cases a with
  | rtcInit ctx hw => exact absurd rfl (hne ctx hw)
  | rtcSet => rfl
  | backupWrite index =>
    simp only [next, backupWrite]
    split <;> simp
  | clkSetRtc state =>
    have hsame := (s.setBackupAccess f true).sameAccess_switchRtc state
    simp only [next, clkSetRtc]
    split <;> simp [hsame.rtcReady]
  | pwrInit settled =>
    cases f with
    | stm32h7 => rfl
    | stm32l4 => simp [next, pwrInit, pwrInitL4]
  | setBatteryCharging value => simp [next, setBatteryCharging]
  | lse lseBackupReset hw again => exact lse_rtcReady f lseBackupReset hw again s

theorem access_of_kept {f : Family} {s : State} {a : Action}
    (hne : ∀ ctx hw, a ≠ .rtcInit ctx hw) (hkept : Kept f s a) :
    (next f s a).access = s.access := by
  cases a with
  | rtcInit ctx hw => exact absurd rfl (hne ctx hw)
  | rtcSet => rfl
  | backupWrite _ | clkSetRtc _ | pwrInit _ | setBatteryCharging _ | lse _ _ _ => exact hkept

/-- A call that keeps the bit keeps a ready RTC writable. -/
theorem ready_next {f : Family} {s : State} {a : Action}
    (hset : s.rtcReady = true → s.access = true) (hkept : Kept f s a) :
    (next f s a).rtcReady = true → (next f s a).access = true := by
  by_cases hinit : ∃ ctx hw, a = .rtcInit ctx hw
  · obtain ⟨ctx, hw, rfl⟩ := hinit
    exact fun _ => rtcInit_access f ctx hw s
  · have hne : ∀ ctx hw, a ≠ .rtcInit ctx hw := fun ctx hw h => hinit ⟨ctx, hw, h⟩
    rw [rtcReady_next f s a hne, access_of_kept hne hkept]
    exact hset

/-- A sequence of calls keeps what it should at every call exactly when all its calls are
harmless. It starts before any initialisation of the RTC. -/
theorem along_kept_iff (f : Family) (s : State) (as : List Action) :
    Along (step f) (Kept f) { s with rtcReady := false } as ↔
      Along (step f) (Harmless f) { s with rtcReady := false } as := by
  have hgen : ∀ s : State, (s.rtcReady = true → s.access = true) →
      (Along (step f) (Kept f) s as ↔ Along (step f) (Harmless f) s as) := by
    induction as with
    | nil => exact fun _ _ => Iff.rfl
    | cons a as ih =>
      intro s hset
      have hstep : step f s a = some (next f s a) := rfl
      rw [along_cons hstep, along_cons hstep, kept_iff f s a hset]
      constructor
      · rintro ⟨hok, hrest⟩
        exact ⟨hok, (ih _ (ready_next hset ((kept_iff f s a hset).mpr hok))).mp hrest⟩
      · rintro ⟨hok, hrest⟩
        exact ⟨hok, (ih _ (ready_next hset ((kept_iff f s a hset).mpr hok))).mpr hrest⟩
  exact hgen _ fun h => absurd h Bool.false_ne_true

/-- Out of reset the backup domain is closed, and the power controller of the STM32L4 has no
clock. -/
def powerOn : State where
  pwrClock := false
  access := false
  rtcClock := .none
  rtcEnabled := false
  lseInited := false
  lseBackupReseted := false
  batteryCharging := false
  pwrInited := false
  rtcReady := false

def initLsi : Action := .rtcInit ⟨.lsi, false, false, false⟩ ⟨false, true, false, true, true⟩

/-- Stopping the clock of the RTC after its initialisation takes the access away, on either
family. -/
theorem rtcSet_without_access :
    ¬ ∀ (f : Family) (s : State) (as : List Action),
      Along (step f) (Kept f) { s with rtcReady := false } as := by
  intro hall
  have hkept := hall .stm32h7 powerOn [initLsi, .clkSetRtc false, .rtcSet]
  rw [along_kept_iff] at hkept
  exact absurd hkept (by decide)

/-- The initialisation enables the RTC, so that enabling it once more does nothing. -/
example (f : Family) : Along (step f) (Harmless f) powerOn [initLsi, .clkSetRtc true, .rtcSet] ∧
    ¬Along (step f) (Harmless f) powerOn [initLsi, .clkSetRtc false] := by
  cases f <;> decide

end UniHal.Rtc.BackupAccess
