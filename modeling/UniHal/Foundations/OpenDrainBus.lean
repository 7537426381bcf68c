import Mathlib.Tactic

/-! # A two-wire open-drain bus with one slave

A line is high when nobody pulls it down. The slave changes its data level when the clock falls
and looks at the data when the clock rises; data that changes while the clock is high is a start
or a stop. The clock is the master's, unless the slave keeps it low for good.
-/

namespace UniHal.Foundations.OpenDrainBus

/-- What a slave has to say: the bytes that it sends, the bytes that it acknowledges, and whether
it keeps the clock low. -/
structure Device where
  byte : ℕ → BitVec 8
  acknowledges : ℕ → Bool
  holdsClock : Bool

/-- Where a slave is in a transfer. -/
inductive Slave
  | idle
  /-- it shows a bit of its `n`-th byte, the highest one first -/
  | send (n : ℕ) (bit : Fin 8)
  /-- it has let the data go for the acknowledgement of its `n`-th byte -/
  | askAck (n : ℕ)
  /-- the acknowledgement is there, the next byte follows -/
  | acked (n : ℕ)
  /-- it has taken some bits of the `n`-th byte of the master -/
  | receive (n : ℕ) (bits : Fin 9)
  /-- it pulls the data down to acknowledge the `n`-th byte of the master -/
  | acknowledge (n : ℕ)
  deriving DecidableEq, Repr

namespace Slave

variable (d : Device)

def data : Slave → Bool
  | .send n bit => (d.byte n).getLsbD bit
  | .acknowledge _ => false
  | .idle | .askAck _ | .acked _ | .receive _ _ => true

def fall : Slave → Slave
  | .send n ⟨0, _⟩ => .askAck n
  | .send n ⟨b + 1, h⟩ => .send n ⟨b, Nat.lt_of_succ_lt h⟩
  | .acked n => .send (n + 1) 7
  | .receive n bits =>
    if bits = 8 then if d.acknowledges n then .acknowledge n else .idle else .receive n bits
  | .acknowledge n => .receive (n + 1) 0
  | .idle => .idle
  | .askAck n => .askAck n

def rise (level : Bool) : Slave → Slave
  | .askAck n => if level then .idle else .acked n
  | .receive n bits => if bits = 8 then .receive n bits else .receive n (bits + 1)
  | .idle => .idle
  | .send n bit => .send n bit
  | .acked n => .acked n
  | .acknowledge n => .acknowledge n

def clock (x : Slave) : Slave := (x.fall d).rise ((x.fall d).data d)

def level (x : Slave) (k : ℕ) : Bool := ((clock d)^[k] x).data d

@[simp] theorem data_rise (level : Bool) (x : Slave) : (x.rise level).data d = x.data d := by
  cases x with
  | askAck n => cases level <;> rfl
  | receive n bits => simp only [rise]; split_ifs <;> rfl
  | idle | send | acked | acknowledge => rfl

theorem level_zero (x : Slave) : x.level d 0 = x.data d := rfl

theorem level_succ (x : Slave) (k : ℕ) : x.level d (k + 1) = (x.clock d).level d k := by
  rw [level, Function.iterate_succ_apply, level]

/-- The data that the slave shows when the clock falls is what it shows in the next period. -/
theorem data_fall (x : Slave) : (x.fall d).data d = x.level d 1 := by
  rw [level_succ, level_zero, clock, data_rise]

/-- The pulses after which a slave lets the data go at the latest. -/
def held : Slave → ℕ
  | .send _ bit => bit + 1
  | .acknowledge _ => 1
  | .idle | .askAck _ | .acked _ | .receive _ _ => 0

theorem held_le (x : Slave) : x.held ≤ 8 := by
  cases x with
  | send n bit => exact bit.isLt
  | idle | askAck | acked | receive | acknowledge => simp [held]

theorem data_of_held_eq_zero {x : Slave} (h : x.held = 0) : x.data d = true := by
  cases x with
  | send n bit => exact absurd h (Nat.succ_ne_zero _)
  | acknowledge n => exact absurd h one_ne_zero
  | idle | askAck | acked | receive => rfl

variable {d}

/-- Every pulse brings a slave that holds the data closer to letting it go. -/
theorem held_clock_lt {x : Slave} (h : x.data d = false) : (x.clock d).held < x.held := by
  cases x with
  | send n bit =>
    obtain ⟨b, hb⟩ := bit
    cases b with
    | zero => exact Nat.one_pos
    | succ b => exact Nat.lt_succ_self (b + 1)
  | acknowledge n => exact Nat.one_pos
  | idle | askAck | acked | receive => exact absurd h Bool.true_eq_false_eq_False

def afterStop (d : Device) (x : Slave) : Slave :=
  if (x.fall d).data d then .idle else (x.fall d).rise false

theorem data_afterStop (d : Device) (x : Slave) : (x.afterStop d).data d = x.level d 1 := by
  rw [← data_fall, afterStop]
  cases h : (x.fall d).data d with
  | true => rfl
  | false => exact (data_rise d false _).trans h

theorem level_add (d : Device) (x : Slave) (j k : ℕ) :
    ((clock d)^[k] x).level d j = x.level d (j + k) := by
  rw [level, ← Function.iterate_add_apply, level]

/-- The first pulse after which the data is high. -/
structure FirstHigh (d : Device) (x : Slave) (k : ℕ) : Prop where
  low : ∀ i < k, x.level d i = false
  high : x.level d k = true

theorem FirstHigh.unique {x : Slave} {j k : ℕ} (hj : FirstHigh d x j) (hk : FirstHigh d x k) :
    j = k := by
  rcases lt_trichotomy j k with h | h | h
  · exact absurd ((hk.low j h).symm.trans hj.high) Bool.false_ne_true
  · exact h
  · exact absurd ((hj.low k h).symm.trans hk.high) Bool.false_ne_true

theorem firstHigh_zero {x : Slave} (h : x.data d = true) : FirstHigh d x 0 where
  low i hi := absurd hi (Nat.not_lt_zero i)
  high := h

theorem FirstHigh.succ {x : Slave} {k : ℕ} (h : x.data d = false)
    (hk : FirstHigh d (x.clock d) k) : FirstHigh d x (k + 1) where
  low i hi := by
    cases i with
    | zero => exact h
    | succ i => exact (level_succ d x i).trans (hk.low i (Nat.lt_of_succ_lt_succ hi))
  high := (level_succ d x k).trans hk.high

end Slave

inductive Line
  | clock
  | data
  deriving DecidableEq, Repr

structure Bus where
  clock : Bool
  data : Bool
  slave : Slave
  deriving DecidableEq, Repr

namespace Bus

variable (d : Device)

def read (b : Bus) : Line → Bool
  | .clock => b.clock && !d.holdsClock
  | .data => b.data && b.slave.data d

def setClock (b : Bus) (level : Bool) : Bus :=
  let b' := { b with clock := level }
  match b.read d .clock, b'.read d .clock with
  | true, false => { b' with slave := b.slave.fall d }
  | false, true => { b' with slave := b.slave.rise (b.read d .data) }
  | true, true | false, false => b'

def setData (b : Bus) (level : Bool) : Bus :=
  let b' := { b with data := level }
  if b.read d .clock then
    match b.read d .data, b'.read d .data with
    | false, true => { b' with slave := .idle }
    | true, false => { b' with slave := .receive 0 0 }
    | true, true | false, false => b'
  else b'

def set (b : Bus) : Line → Bool → Bus
  | .clock, level => b.setClock d level
  | .data, level => b.setData d level

/-- Nobody pulls a line down and the slave waits for a start. -/
def Free (b : Bus) : Prop :=
  b.read d .clock = true ∧ b.read d .data = true ∧ b.slave = .idle

instance (b : Bus) : Decidable (b.Free d) := inferInstanceAs (Decidable (_ ∧ _ ∧ _))

/-- The master has let both lines go. -/
structure Released (b : Bus) : Prop where
  clock : b.clock = true
  data : b.data = true

variable {d}

@[simp] theorem clock_setClock (b : Bus) (level : Bool) : (b.setClock d level).clock = level := by
  simp only [setClock]
  split <;> rfl

@[simp] theorem data_setClock (b : Bus) (level : Bool) : (b.setClock d level).data = b.data := by
  simp only [setClock]
  split <;> rfl

@[simp] theorem clock_setData (b : Bus) (level : Bool) : (b.setData d level).clock = b.clock := by
  simp only [setData]
  split_ifs
  · split <;> rfl
  · rfl

@[simp] theorem data_setData (b : Bus) (level : Bool) : (b.setData d level).data = level := by
  simp only [setData]
  split_ifs
  · split <;> rfl
  · rfl

@[simp] theorem setClock_self (b : Bus) : b.setClock d b.clock = b := by
  rw [setClock]
  cases hr : b.read d .clock <;> rfl

@[simp] theorem setData_self (b : Bus) : b.setData d b.data = b := by
  rw [setData]
  cases hr : b.read d .data <;> simp

theorem Released.set {b : Bus} (h : b.Released) (l : Line) : b.set d l true = b := by
  cases l with
  | clock => exact (congrArg (b.setClock d) h.clock.symm).trans (setClock_self b)
  | data => exact (congrArg (b.setData d) h.data.symm).trans (setData_self b)

theorem Released.pulse {b : Bus} (h : b.Released) (hd : d.holdsClock = false) :
    (b.setClock d false).setClock d true = { b with slave := b.slave.clock d } := by
  obtain ⟨clock, data, x⟩ := b
  obtain ⟨rfl, rfl⟩ : clock = true ∧ data = true := ⟨h.clock, h.data⟩
  simp [setClock, read, hd, Slave.clock]

theorem Released.stop {b : Bus} (h : b.Released) (hd : d.holdsClock = false) :
    (((b.setClock d false).setData d false).setClock d true).setData d true =
      { b with slave := b.slave.afterStop d } := by
  obtain ⟨clock, data, x⟩ := b
  obtain ⟨rfl, rfl⟩ : clock = true ∧ data = true := ⟨h.clock, h.data⟩
  cases hx : (x.fall d).data d <;>
    simp [setClock, setData, read, hd, hx, Slave.afterStop]

/-- After a stop the bus is free when the slave has let the data go for it. -/
theorem Released.free_afterStop_iff {b : Bus} (h : b.Released) (hd : d.holdsClock = false)
    (x : Slave) : Free d { b with slave := x.afterStop d } ↔ x.level d 1 = true := by
  simp only [Free, read, h.clock, h.data, hd, Bool.not_false, Bool.and_self, true_and,
    Slave.data_afterStop]
  refine ⟨And.left, fun hx => ⟨hx, ?_⟩⟩
  rw [Slave.afterStop, Slave.data_fall, if_pos hx]

end Bus

end UniHal.Foundations.OpenDrainBus
