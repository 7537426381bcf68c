import UniHal.Foundations.Interleaving
import UniHal.Io.Buffer

/-! # The transmitter of a UART

The data register, the shift register, the flags and interrupt enables that concern them, and
the transmit buffer of the IO in front of them. Both UART drivers run on it; reception shares
nothing of it.
-/

namespace UniHal.Uart
open Foundations Io

/-- The transmit side of one UART. The fields from `transmits` on record the history: the
calls of `uni_hal_io_transmit_data` with what they returned, the bytes written to the data
register with TXE at that moment, the bytes that have left the shift register, how often
`tx_start` and `tx_end` were called, and the value of the last call of
`uni_hal_usart_irq_enable` that returned. -/
structure Transmitter (B : Type*) where
  tdr : Option UInt8
  shift : Option UInt8
  tc : Bool
  txeie : Bool
  tcie : Bool
  bufTx : B
  inTransmission : Bool
  txTransmited : UInt32
  transmits : List (List UInt8 × ℕ)
  written : List (UInt8 × Bool)
  wire : List UInt8
  txStarts : ℕ
  txEnds : ℕ
  irqEnabled : Bool

/-- The steps that the transmitter makes by itself. -/
inductive Hardware
  /-- a byte moves from the data register to the shift register -/
  | load
  /-- the shift register has sent its byte -/
  | finish
  deriving DecidableEq, Repr

/-- The calls that reach the transmitter. -/
inductive Request
  /-- `uni_hal_io_transmit_data` -/
  | transmitData (data : List UInt8)
  /-- `uni_hal_usart_irq_enable` -/
  | irqEnable (value : Bool)
  deriving DecidableEq, Repr

/-- Every step of a driver but a call of `uni_hal_usart_irq_enable`. -/
def Traffic {C : Type*} : Interleaving.Action Hardware Request C → Prop
  | .call (.irqEnable _) => False
  | _ => True

instance {C : Type*} : DecidablePred (Traffic : Interleaving.Action Hardware Request C → Prop)
  | .call (.irqEnable _) => .isFalse id
  | .call (.transmitData _) | .hardware _ | .resume _ | .enter | .serve => .isTrue trivial

/-- Without a call of `uni_hal_usart_irq_enable` only the steps of triggers are in progress. -/
theorem triggers_step {B C H : Type*} [DecidableEq C]
    {p : Interleaving.Program (Transmitter B) Hardware Request C H} {P : C → Prop}
    (hcall : ∀ data u, ∀ c ∈ (p.call (.transmitData data) u).2, P c)
    (hresume : ∀ c u, P c → ∀ d ∈ (p.resume c u).2, P d)
    {w w' : Interleaving.World (Transmitter B) C H} {a : Interleaving.Action Hardware Request C}
    (hw : ∀ c ∈ w.calls, P c) (ha : Traffic a) (h : Interleaving.step p w a = some w') :
    ∀ c ∈ w'.calls, P c := by
  cases a with
  | hardware e =>
    obtain ⟨v, -, rfl⟩ := Interleaving.step_hardware_eq_some.mp h
    exact hw
  | call r =>
    cases r with
    | transmitData data =>
      cases h
      intro c hc
      rcases List.mem_append.mp hc with hnew | hold
      · exact hcall data w.shared c (Option.mem_toList.mp hnew)
      · exact hw c hold
    | irqEnable value => exact ha.elim
  | resume c =>
    obtain ⟨hmem, rfl⟩ := Interleaving.step_resume_eq_some.mp h
    intro d hd
    rcases List.mem_append.mp hd with hnext | hold
    · exact hresume c w.shared (hw c hmem) d (Option.mem_toList.mp hnext)
    · exact hw d (List.mem_of_mem_erase hold)
  | enter =>
    obtain ⟨-, rfl⟩ := Interleaving.step_enter_eq_some.mp h
    exact hw
  | serve =>
    obtain ⟨irq, -, rfl⟩ := Interleaving.step_serve_eq_some.mp h
    exact hw

variable {B : Type*} [Buffer B]

namespace Transmitter

/-- After `uni_hal_usart_init`, with TC as the hardware has it. -/
def init (buf : B) (tc : Bool) : Transmitter B where
  tdr := none
  shift := none
  tc := tc
  txeie := false
  tcie := false
  bufTx := buf
  inTransmission := false
  txTransmited := 0
  transmits := []
  written := []
  wire := []
  txStarts := 0
  txEnds := 0
  irqEnabled := true

def txe (u : Transmitter B) : Bool := u.tdr.isNone

def hardware : Hardware → Transmitter B → Option (Transmitter B)
  | .load, u =>
    match u.tdr, u.shift with
    | some data, none => some { u with tdr := none, shift := some data }
    | _, _ => none
  | .finish, u =>
    match u.shift with
    | some data =>
      some { u with
        shift := none
        tc := u.tc || u.txe
        wire := u.wire ++ [data] }
    | none => none

def transmitData8 (data : UInt8) (u : Transmitter B) : Transmitter B :=
  { u with tdr := some data, tc := false, written := u.written ++ [(data, u.txe)] }

/-- The part of `uni_hal_io_transmit_data` in front of the trigger. -/
def pushTx (data : List UInt8) (u : Transmitter B) : Transmitter B :=
  let stored := Buffer.write u.bufTx data
  { u with bufTx := stored.2, transmits := u.transmits ++ [(data, stored.1)] }

/-- The call of the `tx_start` handler. -/
def txStart (u : Transmitter B) : Transmitter B := { u with txStarts := u.txStarts + 1 }

/-- The call of the `tx_end` handler. -/
def txEnd (u : Transmitter B) : Transmitter B := { u with txEnds := u.txEnds + 1 }

/-- A call of `uni_hal_usart_irq_enable` returns. -/
def irqEnableReturn (value : Bool) (u : Transmitter B) : Transmitter B :=
  { u with irqEnabled := value }

/-- `uni_hal_usart_transmit_busy` -/
def busy (u : Transmitter B) : Bool := !(Buffer.available u.bufTx == 0) || u.inTransmission

/-- Neither register of the transmitter holds a byte. -/
def Idle (u : Transmitter B) : Prop := u.tdr = none ∧ u.shift = none

instance (u : Transmitter B) : Decidable u.Idle :=
  inferInstanceAs (Decidable (u.tdr = none ∧ u.shift = none))

def accepted (u : Transmitter B) : List UInt8 := u.transmits.flatMap fun call => call.1.take call.2

end Transmitter

/-- There is nothing to send, and no transmission to end. -/
def Settled (u : Transmitter B) : Prop := Buffer.bytes u.bufTx = [] ∧ u.inTransmission = false

instance (u : Transmitter B) : Decidable (Settled u) := inferInstanceAs (Decidable (_ ∧ _))

theorem busy_eq_false_iff (u : Transmitter B) : u.busy = false ↔ Settled u := by
  simp [Transmitter.busy, Settled]

omit [Buffer B] in
theorem hardware_load_eq_some {u v : Transmitter B} : u.hardware .load = some v ↔
    ∃ data, u.tdr = some data ∧ u.shift = none ∧
      { u with tdr := none, shift := some data } = v := by
  cases htdr : u.tdr <;> cases hshift : u.shift <;> simp [Transmitter.hardware, htdr, hshift]

omit [Buffer B] in
theorem hardware_finish_eq_some {u v : Transmitter B} : u.hardware .finish = some v ↔
    ∃ data, u.shift = some data ∧
      { u with shift := none, tc := u.tc || u.txe, wire := u.wire ++ [data] } = v := by
  cases hshift : u.shift <;> simp [Transmitter.hardware, hshift]

omit [Buffer B] in
theorem tc_or_not_idle_hardware {u v : Transmitter B} {e : Hardware}
    (hv : u.hardware e = some v) : v.tc = true ∨ ¬v.Idle := by
  cases e with
  | load =>
    obtain ⟨data, -, -, rfl⟩ := hardware_load_eq_some.mp hv
    right
    simp [Transmitter.Idle]
  | finish =>
    obtain ⟨data, -, rfl⟩ := hardware_finish_eq_some.mp hv
    cases htdr : u.tdr with
    | none => simp [Transmitter.txe, htdr]
    | some data => simp [Transmitter.Idle]

omit [Buffer B] in
/-- The hardware changes nothing that the software wrote. -/
theorem hardware_software {u v : Transmitter B} {e : Hardware} (hv : u.hardware e = some v) :
    v.bufTx = u.bufTx ∧ v.inTransmission = u.inTransmission ∧ v.txeie = u.txeie ∧
      v.tcie = u.tcie ∧ v.txStarts = u.txStarts ∧ v.txEnds = u.txEnds ∧
      v.irqEnabled = u.irqEnabled := by
  cases e with
  | load =>
    obtain ⟨data, -, -, rfl⟩ := hardware_load_eq_some.mp hv
    exact ⟨rfl, rfl, rfl, rfl, rfl, rfl, rfl⟩
  | finish =>
    obtain ⟨data, -, rfl⟩ := hardware_finish_eq_some.mp hv
    exact ⟨rfl, rfl, rfl, rfl, rfl, rfl, rfl⟩

end UniHal.Uart
