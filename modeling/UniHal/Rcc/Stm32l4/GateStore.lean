import UniHal.Rcc.Stm32l4.ClockGates
import UniHal.Foundations.Execution

/-! # The clock gates of the STM32L4 as a store

A store keeps what was last written under a name and nothing else changes. The gates are one
up to the bits that several peripherals share, as long as no UART of the first APB bus is
disabled while its clock runs and the RTC is switched only where its register can be written.
-/

namespace UniHal.Rcc.Stm32l4
open Foundations Execution ClockControl

def reset : ClockControl Reg := ⟨fun _ => 0, false⟩

def callStep (rcc : ClockControl Reg) (c : Call) : Option (ClockControl Reg) :=
  some (clkSet c.target c.state rcc).2

/-- The gates that a call is allowed to change: the one of its target, and the first CAN
controller with the second. -/
def OwnGate (c : Call) (gate : Gate) : Prop :=
  clkGate c.target = some gate ∨
    (c.target = .can2 ∧ c.state = true ∧ clkGate .can1 = some gate)

/-- The call leaves the requested value in the gate of its target and all other gates alone. -/
def Stores (rcc : ClockControl Reg) (c : Call) : Prop :=
  clkGet c.target (clkSet c.target c.state rcc).2 = c.state ∧
    ∀ gate, ¬OwnGate c gate →
      isEnabledClock gate (clkSet c.target c.state rcc).2 = isEnabledClock gate rcc

/-- The call has to change the gate of its target, and its write does not arrive there. -/
def MissesGate (rcc : ClockControl Reg) (c : Call) : Prop :=
  clkGet c.target rcc ≠ c.state ∧ Misses c.target c.state rcc

/-- No gate that a call must leave alone is written, except on the wrong bus. -/
theorem frame_of_not_missesGate {rcc : ClockControl Reg} {c : Call} (hp : Supported c.target)
    (h : ¬MissesGate rcc c) {gate : Gate} (hgate : ¬OwnGate c gate) :
    isEnabledClock gate (clkSet c.target c.state rcc).2 = isEnabledClock gate rcc := by
  by_cases hget : clkGet c.target rcc = c.state
  · rw [clkSet_of_eq hget]
  · rw [clkSet_gates hp hget, if_neg]
    intro hmem
    rcases mem_writtenGates hmem with hown | hcan | hbus
    · exact hgate (Or.inl hown)
    · exact hgate (Or.inr hcan)
    · exact h ⟨hget, Or.inl hbus⟩

theorem stores_iff {rcc : ClockControl Reg} {c : Call} (hp : Supported c.target) :
    Stores rcc c ↔ ¬MissesGate rcc c := by
  have hget := clkGet_clkSet c.state rcc hp
  constructor
  · rintro ⟨hstored, -⟩ ⟨hne, hmisses⟩
    exact (hget.mp hstored).elim hne fun hreaches => hreaches hmisses
  · intro h
    exact ⟨hget.mpr (or_not_of_imp fun hmisses => by_contra fun hne => h ⟨hne, hmisses⟩),
      fun _ => frame_of_not_missesGate hp h⟩

/-- A sequence of calls stores every value exactly when each call that has to change a gate
reaches it: none disables a running UART 2 to 5, and none switches the RTC while the power
controller has no clock and the backup domain is closed. -/
theorem gateStore_iff_reaches (rcc : ClockControl Reg) (calls : List Call)
    (hp : ∀ c ∈ calls, Supported c.target) :
    Along callStep Stores rcc calls ↔
      Along callStep (fun rcc c => ¬MissesGate rcc c) rcc calls := by
  induction calls generalizing rcc with
  | nil => rfl
  | cons c calls ih =>
    have hstep : callStep rcc c = some (clkSet c.target c.state rcc).2 := rfl
    rw [along_cons hstep, along_cons hstep, stores_iff (hp c List.mem_cons_self),
      ih _ fun d hd => hp d (List.mem_cons_of_mem c hd)]

/-- UART 2 keeps its clock when it is disabled, and timer 16 loses the one it was given. -/
theorem uart2_disable_not_stored :
    ¬Along callStep Stores reset [⟨.tim16, true⟩, ⟨.uart2, true⟩, ⟨.uart2, false⟩] ∧
      (exec callStep reset [⟨.tim16, true⟩, ⟨.uart2, true⟩, ⟨.uart2, false⟩]).map
        (fun rcc => (clkGet .uart2 rcc, clkGet .tim16 rcc)) = some (true, false) := by
  refine ⟨?_, by decide⟩
  rintro ⟨-, -, ⟨hget, -⟩, -⟩
  revert hget
  decide

theorem gateStore_uart1 :
    Along callStep Stores reset [⟨.uart1, true⟩, ⟨.uart1, false⟩] ↔
      Along callStep (fun rcc c => ¬MissesGate rcc c) reset [⟨.uart1, true⟩, ⟨.uart1, false⟩] :=
  gateStore_iff_reaches reset [⟨.uart1, true⟩, ⟨.uart1, false⟩] (by decide)

/-- The RTC gets its clock once the power controller has one. -/
example : (exec callStep reset [⟨.rtc, true⟩]).map (clkGet .rtc) = some false ∧
    (exec callStep reset [⟨.pwr, true⟩, ⟨.rtc, true⟩]).map (clkGet .rtc) = some true := by
  decide

end UniHal.Rcc.Stm32l4
