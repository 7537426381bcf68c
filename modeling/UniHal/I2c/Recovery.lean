import UniHal.Foundations.OpenDrainBus
import UniHal.Gpio.Exti

/-! # Recovery of a blocked I2C bus

`uni_hal_i2c_recover` takes the peripheral off the bus, clocks a slave that holds the data line
until the line is high, and then tries a stop condition. Whether the stop gets through is decided
by the bit that the slave shows one clock after the one at which it first let the data go.
-/

namespace UniHal.I2c.Recovery
open Foundations OpenDrainBus
open Gpio.Exti (Bank)

/-- `uni_hal_gpio_type_e` -/
inductive GpioType
  | analog | inDigital | outOd | outPp | alternateOd | alternatePp
  deriving DecidableEq, Repr

/-- `uni_hal_gpio_pin_context_t` -/
structure Pin where
  bank : Bank
  gpioType : GpioType
  gpioInit : Bool
  inited : Bool
  deriving DecidableEq, Repr

/-- `uni_hal_i2c_context_t` with its pins `pin_sck` and `pin_sda`, and the bus that they are on. -/
structure Ctx where
  pin : Line → Pin
  initialized : Bool
  bus : Bus

/-- What a call of the recovery meets: which pins the clock and the port accept as outputs, the
answer of `uni_hal_i2c_init` at its end, and which line the peripheral lets go first. -/
structure Env where
  accepts : Line → Bool
  reinit : Bool
  dataFirst : Bool

def recoverClocks : ℕ := 9

namespace Ctx

variable (d : Device)

def drive (s : Ctx) (l : Line) (level : Bool) : Ctx := { s with bus := s.bus.set d l level }

def setPin (s : Ctx) (l : Line) (pin : Pin) : Ctx := { s with pin := Function.update s.pin l pin }

/-- `uni_hal_i2c_deinit`: the peripheral lets both lines go. -/
def i2cDeinit (s : Ctx) (dataFirst : Bool) : Ctx :=
  let s := if dataFirst then (s.drive d .data true).drive d .clock true
    else (s.drive d .clock true).drive d .data true
  { s with initialized := false }

def pinInit (accepts : Line → Bool) (s : Ctx) (l : Line) : Bool × Ctx :=
  let pin := s.pin l
  if pin.inited then (true, s)
  else match pin.bank with
    | .port _ =>
      let s := if accepts l ∧ pin.gpioType = .outOd then s.drive d l pin.gpioInit else s
      (accepts l, s.setPin l { pin with inited := accepts l })
    | .empty => (true, s.setPin l { pin with inited := true })
    | .other => (false, s.setPin l { pin with inited := false })

/-- `uni_hal_gpio_pin_deinit`: an analog input does not pull its line. -/
def pinDeinit (s : Ctx) (l : Line) : Ctx :=
  let pin := s.pin l
  let s := match pin.inited, pin.bank with
    | true, .port _ => s.drive d l true
    | _, _ => s
  s.setPin l { pin with inited := false }

def pinSet (s : Ctx) (l : Line) (level : Bool) : Ctx :=
  match (s.pin l).bank with
  | .port _ => s.drive d l level
  | .empty | .other => s

def pinGet (s : Ctx) (l : Line) : Bool :=
  match (s.pin l).bank with
  | .port _ => s.bus.read d l
  | .empty | .other => true

/-- The loop of `uni_hal_i2c_recover` -/
def clockUntilReleased : ℕ → Ctx → Ctx
  | 0, s => s
  | n + 1, s =>
    if s.pinGet d .data then s
    else clockUntilReleased n ((s.pinSet d .clock false).pinSet d .clock true)

/-- The stop condition of `uni_hal_i2c_recover` -/
def stop (s : Ctx) : Ctx :=
  (((s.pinSet d .clock false).pinSet d .data false).pinSet d .clock true).pinSet d .data true

/-- `uni_hal_i2c_recover` between the two changes of the pins -/
def clockOut (s : Ctx) : Bool × Ctx :=
  let s := (s.clockUntilReleased d recoverClocks).stop d
  (s.pinGet d .clock && s.pinGet d .data, s)

def asOutput (s : Ctx) : Ctx :=
  { s with pin := fun l => { s.pin l with gpioType := .outOd, gpioInit := true } }

/-- The pins take their type and level from `before`. -/
def restore (before : Line → Pin) (s : Ctx) : Ctx :=
  { s with pin := fun l =>
      { s.pin l with gpioType := (before l).gpioType, gpioInit := (before l).gpioInit } }

def recover (env : Env) (s : Ctx) : Bool × Ctx :=
  let before := s.pin
  let s := (((s.i2cDeinit d env.dataFirst).pinDeinit d .clock).pinDeinit d .data).asOutput
  let clock := s.pinInit d env.accepts .clock
  let data := clock.2.pinInit d env.accepts .data
  let run := if data.1 && clock.1 then data.2.clockOut d else (false, data.2)
  let s := restore before ((run.2.pinDeinit d .clock).pinDeinit d .data)
  (env.reinit && run.1, { s with initialized := env.reinit })

/-- Both pins are pins of a port. -/
def OnPorts (s : Ctx) : Prop := ∀ l, ∃ p, (s.pin l).bank = .port p

variable {d}

theorem OnPorts.pinSet {s : Ctx} (h : s.OnPorts) (l : Line) (level : Bool) :
    s.pinSet d l level = s.drive d l level := by
  obtain ⟨p, hp⟩ := h l
  rw [Ctx.pinSet, hp]

theorem OnPorts.pinGet {s : Ctx} (h : s.OnPorts) (l : Line) : s.pinGet d l = s.bus.read d l := by
  obtain ⟨p, hp⟩ := h l
  rw [Ctx.pinGet, hp]

theorem OnPorts.pulse {s : Ctx} (h : s.OnPorts) :
    (s.pinSet d .clock false).pinSet d .clock true =
      { s with bus := (s.bus.setClock d false).setClock d true } := by
  have h' : (s.drive d .clock false).OnPorts := h
  rw [h.pinSet, h'.pinSet]
  rfl

theorem OnPorts.stop {s : Ctx} (h : s.OnPorts) :
    s.stop d = { s with
      bus := (((s.bus.setClock d false).setData d false).setClock d true).setData d true } := by
  have h1 : (s.drive d .clock false).OnPorts := h
  have h2 : ((s.drive d .clock false).drive d .data false).OnPorts := h
  have h3 : (((s.drive d .clock false).drive d .data false).drive d .clock true).OnPorts := h
  rw [Ctx.stop, h.pinSet, h1.pinSet, h2.pinSet, h3.pinSet]
  rfl

theorem read_data {s : Ctx} (h : s.bus.Released) : s.bus.read d .data = s.bus.slave.data d := by
  simp [Bus.read, h.data]

/-- The loop stops at the first pulse after which the data is high. -/
theorem clockUntilReleased_eq (hd : d.holdsClock = false) {n : ℕ} {s : Ctx} (hp : s.OnPorts)
    (hr : s.bus.Released) (hn : s.bus.slave.held ≤ n) :
    ∃ k, Slave.FirstHigh d s.bus.slave k ∧ s.clockUntilReleased d n =
      { s with bus := { s.bus with slave := (Slave.clock d)^[k] s.bus.slave } } := by
  induction n generalizing s with
  | zero =>
    have hhigh := Slave.data_of_held_eq_zero d (Nat.le_zero.mp hn)
    exact ⟨0, Slave.firstHigh_zero hhigh, rfl⟩
  | succ n ih =>
    cases hdata : s.bus.slave.data d with
    | true =>
      refine ⟨0, Slave.firstHigh_zero hdata, ?_⟩
      rw [clockUntilReleased, hp.pinGet, read_data hr, hdata]
      rfl
    | false =>
      have hlt := Slave.held_clock_lt hdata
      obtain ⟨k, hk, heq⟩ := ih (s := { s with bus := { s.bus with slave := s.bus.slave.clock d } })
        hp ⟨hr.clock, hr.data⟩ (by simpa using Nat.le_of_lt_succ (hlt.trans_le hn))
      refine ⟨k + 1, hk.succ hdata, ?_⟩
      rw [clockUntilReleased, hp.pinGet, read_data hr, hdata, hp.pulse, hr.pulse hd]
      exact heq

/-- The stop gets through when the slave lets the data go in the period after the first high. -/
theorem clockOut_eq (hd : d.holdsClock = false) {s : Ctx} (hp : s.OnPorts)
    (hr : s.bus.Released) : ∃ k, Slave.FirstHigh d s.bus.slave k ∧
      s.clockOut d = (s.bus.slave.level d (k + 1), { s with
        bus := { s.bus with slave := ((Slave.clock d)^[k] s.bus.slave).afterStop d } }) := by
  obtain ⟨k, hk, hloop⟩ := clockUntilReleased_eq (n := recoverClocks) hd hp hr
    ((Slave.held_le _).trans (Nat.le_succ 8))
  refine ⟨k, hk, ?_⟩
  have hp' (b : Bus) : ({ s with bus := b } : Ctx).OnPorts := hp
  have hr' (x : Slave) : ({ s.bus with slave := x } : Bus).Released := ⟨hr.clock, hr.data⟩
  rw [clockOut, hloop, (hp' _).stop, (hr' _).stop hd, (hp' _).pinGet, (hp' _).pinGet]
  simp [Bus.read, hr.clock, hr.data, hd, Slave.data_afterStop, Slave.level_add, Nat.add_comm 1]

theorem OnPorts.clockUntilReleased {n : ℕ} {s : Ctx} (hp : s.OnPorts) :
    (s.clockUntilReleased d n).OnPorts := by
  induction n generalizing s with
  | zero => exact hp
  | succ n ih =>
    rw [Ctx.clockUntilReleased]
    split_ifs
    · exact hp
    · exact ih (hp.pulse (d := d) ▸ hp)

/-- A slave that keeps the clock low is never taken for a free bus. -/
theorem clockOut_of_holdsClock (hd : d.holdsClock = true) {s : Ctx} (hp : s.OnPorts) :
    (s.clockOut d).1 = false := by
  have hp' : (s.clockUntilReleased d recoverClocks).OnPorts := hp.clockUntilReleased
  have hstop : ((s.clockUntilReleased d recoverClocks).stop d).OnPorts := hp'.stop (d := d) ▸ hp'
  rw [clockOut, hstop.pinGet]
  simp [Bus.read, hd]

theorem Released.drive {s : Ctx} (h : s.bus.Released) (l : Line) : s.drive d l true = s := by
  rw [Ctx.drive, h.set]

theorem i2cDeinit_released (s : Ctx) (dataFirst : Bool) :
    (s.i2cDeinit d dataFirst).bus.Released := by
  constructor <;> cases dataFirst <;> simp [i2cDeinit, drive, Bus.set]

@[simp] theorem i2cDeinit_pin (s : Ctx) (dataFirst : Bool) :
    (s.i2cDeinit d dataFirst).pin = s.pin := by
  cases dataFirst <;> rfl

/-- A bus that is released already does not notice that the peripheral leaves it. -/
theorem i2cDeinit_bus {s : Ctx} (h : s.bus.Released) (dataFirst : Bool) :
    (s.i2cDeinit d dataFirst).bus = s.bus := by
  cases dataFirst <;> simp [i2cDeinit, Released.drive h]

theorem pinDeinit_eq {s : Ctx} (h : s.bus.Released) (l : Line) :
    s.pinDeinit d l = s.setPin l { s.pin l with inited := false } := by
  simp only [pinDeinit]
  split
  · rw [Released.drive h]
  · rfl

theorem pinDeinit_both {s : Ctx} (h : s.bus.Released) :
    (s.pinDeinit d .clock).pinDeinit d .data =
      { s with pin := fun l => { s.pin l with inited := false } } := by
  have h' : (s.pinDeinit d .clock).bus.Released := by rw [pinDeinit_eq h]; exact h
  rw [pinDeinit_eq h', pinDeinit_eq h]
  simp only [setPin, Ctx.mk.injEq, and_self, and_true]
  funext l
  cases l <;> simp

theorem pinInit_eq {accepts : Line → Bool} {s : Ctx} (hp : s.OnPorts) (h : s.bus.Released)
    {l : Line} (hl : (s.pin l).inited = false) (hinit : (s.pin l).gpioInit = true) :
    s.pinInit d accepts l = (accepts l, s.setPin l { s.pin l with inited := accepts l }) := by
  obtain ⟨p, hbank⟩ := hp l
  simp only [pinInit, hl, hbank, hinit, Released.drive h, ite_self]
  rfl

def prepared (d : Device) (env : Env) (s : Ctx) : Ctx where
  pin l := ⟨(s.pin l).bank, .outOd, true, env.accepts l⟩
  initialized := false
  bus := (s.i2cDeinit d env.dataFirst).bus

theorem pinInit_both (env : Env) {s : Ctx} (hp : s.OnPorts) (h : s.bus.Released)
    (hinited : ∀ l, (s.pin l).inited = false) (hinit : ∀ l, (s.pin l).gpioInit = true) :
    s.pinInit d env.accepts .clock =
        (env.accepts .clock, s.setPin .clock { s.pin .clock with inited := env.accepts .clock }) ∧
      (s.pinInit d env.accepts .clock).2.pinInit d env.accepts .data = (env.accepts .data,
        { s with pin := fun l => { s.pin l with inited := env.accepts l } }) := by
  have hclock : s.pinInit d env.accepts .clock =
      (env.accepts .clock, s.setPin .clock { s.pin .clock with inited := env.accepts .clock }) :=
    pinInit_eq hp h (hinited .clock) (hinit .clock)
  refine ⟨hclock, ?_⟩
  rw [hclock, pinInit_eq]
  · simp only [setPin, Prod.mk.injEq, Ctx.mk.injEq, and_self, and_true, true_and]
    funext l
    cases l <;> simp
  · intro l
    cases l <;> simpa [setPin] using hp _
  · exact h
  · simpa [setPin] using hinited .data
  · simpa [setPin] using hinit .data

theorem recover_eq (env : Env) {s : Ctx} (hp : s.OnPorts) :
    s.recover d env =
      let run := if env.accepts .data && env.accepts .clock then (s.prepared d env).clockOut d
        else (false, s.prepared d env)
      let after := restore s.pin ((run.2.pinDeinit d .clock).pinDeinit d .data)
      (env.reinit && run.1, { after with initialized := env.reinit }) := by
  have hr := i2cDeinit_released (d := d) s env.dataFirst
  obtain ⟨hclock, hdata⟩ := pinInit_both (d := d) env
    (s := ((((s.i2cDeinit d env.dataFirst).pinDeinit d .clock).pinDeinit d .data).asOutput))
    (by rw [pinDeinit_both hr]; exact fun l => by simpa [asOutput] using hp l)
    (by rw [pinDeinit_both hr]; exact hr)
    (fun l => by rw [pinDeinit_both hr]; rfl) (fun _ => rfl)
  simp only [recover]
  rw [hclock] at hdata
  rw [hclock, hdata, pinDeinit_both hr]
  simp only [asOutput, i2cDeinit_pin]
  rfl

/-- What is left behind: the pins as they were, but for `uni_hal_i2c_init` to set up again. -/
theorem handBack_eq (before : Line → Pin) {s : Ctx} (h : s.bus.Released)
    (hbank : ∀ l, (s.pin l).bank = (before l).bank) (reinit : Bool) :
    ({ restore before ((s.pinDeinit d .clock).pinDeinit d .data) with initialized := reinit } :
      Ctx) = ⟨fun l => { before l with inited := false }, reinit, s.bus⟩ := by
  rw [pinDeinit_both h]
  simp [restore, hbank]

/-- A call with both pins accepted, on a bus whose clock the slave does not keep low. -/
theorem recover_clocked {env : Env} (haccepts : ∀ l, env.accepts l = true)
    (hd : d.holdsClock = false) {s : Ctx} (hp : s.OnPorts) :
    ∃ k, Slave.FirstHigh d (s.i2cDeinit d env.dataFirst).bus.slave k ∧
      s.recover d env =
        (env.reinit && (s.i2cDeinit d env.dataFirst).bus.slave.level d (k + 1),
          ⟨fun l => { s.pin l with inited := false }, env.reinit,
            { (s.i2cDeinit d env.dataFirst).bus with
              slave := ((Slave.clock d)^[k]
                (s.i2cDeinit d env.dataFirst).bus.slave).afterStop d }⟩) := by
  have hr := i2cDeinit_released (d := d) s env.dataFirst
  obtain ⟨k, hk, hrun⟩ := clockOut_eq (s := s.prepared d env) hd hp hr
  refine ⟨k, hk, ?_⟩
  rw [recover_eq env hp, haccepts .data, haccepts .clock]
  simp only [Bool.and_self, if_true]
  rw [hrun, handBack_eq]
  · rfl
  · exact ⟨hr.clock, hr.data⟩
  · exact fun l => rfl

theorem recover_of_not_accepts {env : Env} {l : Line} (haccepts : env.accepts l = false)
    {s : Ctx} (hp : s.OnPorts) : (s.recover d env).1 = false := by
  have hboth : (env.accepts .data && env.accepts .clock) = false := by
    cases l <;> simp [haccepts]
  rw [recover_eq env hp, hboth]
  exact Bool.and_false env.reinit

theorem recover_of_holdsClock (env : Env) (hd : d.holdsClock = true) {s : Ctx} (hp : s.OnPorts) :
    (s.recover d env).1 = false := by
  have hp' : (s.prepared d env).OnPorts := hp
  rw [recover_eq env hp]
  split
  · simp only [clockOut_of_holdsClock hd hp', Bool.and_false]
  · exact Bool.and_false env.reinit

end Ctx

open Ctx

/-- A slave in front of the byte `01010101`, on a bus that the peripheral has let go. -/
def alternating : Device := ⟨fun _ => 0b01010101, fun _ => true, false⟩

def accepting : Env := ⟨fun _ => true, true, true⟩

def waiting : Ctx := ⟨fun _ => ⟨.port .b, .alternateOd, false, true⟩, true, ⟨true, true, .acked 0⟩⟩

/-- The state before the `n`-th of some calls that follow each other. -/
def calls (d : Device) (env : ℕ → Env) (s : Ctx) : ℕ → Ctx
  | 0 => s
  | n + 1 => ((calls d env s n).recover d (env n)).2

/-- The calls that a slave needs at most: a call that fails uses up a high and a low bit of the
byte that the slave sends. -/
def tries (d : Device) : Slave → ℕ
  | .send n bit => if (d.byte n).getLsbD bit then (bit + 3) / 2 else (bit + 2) / 2
  | .acked _ => 5
  | .receive _ bits => if bits.val = 8 then 2 else 1
  | .idle | .askAck _ | .acknowledge _ => 1

theorem tries_le (d : Device) (x : Slave) : tries d x ≤ 5 := by
  cases x with
  | send n bit => simp only [tries]; split_ifs <;> omega
  | receive n bits => simp only [tries]; split_ifs <;> omega
  | idle | askAck | acked | acknowledge => simp [tries]

theorem tries_pos (d : Device) (x : Slave) : 0 < tries d x := by
  cases x with
  | send n bit => simp only [tries]; split_ifs <;> omega
  | receive n bits => simp only [tries]; split_ifs <;> omega
  | idle | askAck | acked | acknowledge => simp [tries]

theorem tries_clock_le {d : Device} {x : Slave} (h : x.data d = false) :
    tries d (x.clock d) ≤ tries d x := by
  cases x with
  | send n bit =>
    obtain ⟨b, hb⟩ := bit
    cases b with
    | zero => exact tries_pos d _
    | succ b =>
      simp only [Slave.data] at h
      simp only [Slave.clock, Slave.fall, Slave.rise, tries, h]
      split_ifs <;> simp_all <;> omega
  | acknowledge n => simp [Slave.clock, Slave.fall, Slave.rise, tries]
  | idle | askAck | acked | receive => exact absurd h Bool.true_eq_false_eq_False

theorem tries_afterStop_lt {d : Device} {x : Slave} (hhigh : x.data d = true)
    (hlow : x.level d 1 = false) : tries d (x.afterStop d) < tries d x := by
  rw [← Slave.data_fall] at hlow
  rw [Slave.afterStop, hlow, if_neg Bool.false_ne_true]
  cases x with
  | send n bit =>
    obtain ⟨b, hb⟩ := bit
    cases b with
    | zero => exact absurd hlow Bool.true_eq_false_eq_False
    | succ b =>
      simp only [Slave.data, Slave.fall] at hhigh hlow
      simp only [Slave.fall, Slave.rise, tries, hhigh, hlow, if_true, Bool.false_eq_true, if_false]
      omega
  | acked n =>
    simp only [Slave.fall, Slave.data] at hlow
    simp only [Slave.fall, Slave.rise, tries, hlow]
    decide
  | receive n bits =>
    simp only [Slave.fall] at hlow ⊢
    split_ifs at hlow ⊢ with hbits
    · have hval : bits.val = 8 := congrArg Fin.val hbits
      rw [tries, if_pos hval]
      exact Nat.one_lt_two
    · exact absurd hlow Bool.true_eq_false_eq_False
    · exact absurd hlow Bool.true_eq_false_eq_False
  | acknowledge n => exact absurd hhigh Bool.false_eq_true_eq_False
  | idle | askAck => exact absurd hlow Bool.true_eq_false_eq_False

/-- Along the pulses of a call that fails the slave comes closer to the end of its byte. -/
theorem tries_lt_of_firstHigh {d : Device} {x : Slave} {k : ℕ} (hk : Slave.FirstHigh d x k)
    (hlow : x.level d (k + 1) = false) :
    tries d (((Slave.clock d)^[k] x).afterStop d) < tries d x := by
  have hle : ∀ i ≤ k, tries d ((Slave.clock d)^[i] x) ≤ tries d x := by
    intro i hi
    induction i with
    | zero => exact le_rfl
    | succ i ih =>
      rw [Function.iterate_succ_apply']
      exact (tries_clock_le (hk.low i hi)).trans (ih (Nat.le_of_succ_le hi))
  refine (tries_afterStop_lt hk.high ?_).trans_le (hle k le_rfl)
  rw [Slave.level_add, Nat.add_comm, hlow]

/-- A call that fails leaves the lines released and the slave closer to the end of its byte. -/
theorem recover_false {d : Device} (hd : d.holdsClock = false) {env : Env}
    (haccepts : ∀ l, env.accepts l = true) (hreinit : env.reinit = true) {s : Ctx}
    (hp : s.OnPorts) (hfalse : (s.recover d env).1 = false) :
    (s.recover d env).2.OnPorts ∧ (s.recover d env).2.bus.Released ∧
      tries d (s.recover d env).2.bus.slave <
        tries d (s.i2cDeinit d env.dataFirst).bus.slave := by
  obtain ⟨k, hk, heq⟩ := recover_clocked haccepts hd hp
  have hr := i2cDeinit_released (d := d) s env.dataFirst
  rw [heq, hreinit, Bool.true_and] at hfalse
  rw [heq]
  exact ⟨hp, ⟨hr.clock, hr.data⟩, tries_lt_of_firstHigh hk hfalse⟩

theorem calls_succ (d : Device) (env : ℕ → Env) (s : Ctx) (n : ℕ) :
    calls d env s (n + 1) = calls d (fun i => env (i + 1)) (s.recover d (env 0)).2 n := by
  induction n with
  | zero => rfl
  | succ n ih => rw [calls, ih]; rfl

theorem exists_true_of_tries_le {d : Device} (hd : d.holdsClock = false) {m : ℕ} {env : ℕ → Env}
    {s : Ctx} (hp : s.OnPorts) (haccepts : ∀ n l, (env n).accepts l = true)
    (hreinit : ∀ n, (env n).reinit = true)
    (hm : tries d (s.i2cDeinit d (env 0).dataFirst).bus.slave ≤ m) :
    ∃ n < m, (calls d env s n).OnPorts ∧ ((calls d env s n).recover d (env n)).1 = true := by
  induction m generalizing env s with
  | zero => exact absurd (hm.trans_lt (tries_pos d _)) (lt_irrefl _)
  | succ m ih =>
    cases hfirst : (s.recover d (env 0)).1 with
    | true => exact ⟨0, Nat.succ_pos m, hp, hfirst⟩
    | false =>
      obtain ⟨hp', hr', hlt⟩ := recover_false hd (haccepts 0) (hreinit 0) hp hfirst
      obtain ⟨n, hn, hport, htrue⟩ := ih hp' (fun i => haccepts (i + 1)) (fun i => hreinit (i + 1))
        (by rw [i2cDeinit_bus hr']; exact Nat.le_of_lt_succ (hlt.trans_le hm))
      rw [← calls_succ] at hport htrue
      exact ⟨n + 1, Nat.succ_lt_succ hn, hport, htrue⟩

/-- Five calls are needed for that byte. -/
example : (List.range 5).map (fun n =>
    ((calls alternating (fun _ => accepting) waiting n).recover alternating accepting).1) =
      [false, false, false, false, true] := by decide

end UniHal.I2c.Recovery
