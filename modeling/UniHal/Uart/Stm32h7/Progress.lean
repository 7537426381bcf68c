import UniHal.Uart.Progress

/-! # Progress of the STM32H7 transmitter

Every step of the hardware, of a call in progress or of the handler brings the transmitter closer
to rest, as long as the handler is entered for a transmit interrupt only.
-/

namespace UniHal.Uart.Stm32h7
open Foundations Interleaving Io

variable {B : Type*}

def txInterrupt (u : Transmitter B) : Bool := (u.txeie && u.txe) || (u.tcie && u.tc)

def callRank : Call → ℕ
  | .clearTc | .onDisableTcie | .offDisableTcie => 3
  | .disableTcie | .onDisableTxeie | .offClearTc => 2
  | .enableTxeie | .onClearTc | .offInTransmission => 1
  | .offDisableTxeie => 4

/-- The steps that a pass of the handler still makes. A pass that is behind the test for TXE is
followed by another one when TXE is pending; one that has seen TC is paid for by the flag. -/
def irqRank (h : Option Irq) (u : Transmitter B) : ℕ :=
  let again := if u.txeie && u.txe then 30 else 0
  match h with
  | none => if txInterrupt u then 40 else 0
  | some .readTxeie => 39
  | some .readTxe => 38
  | some .pop => 37
  | some (.disableTcie _) => 36
  | some (.readInTransmission _) => 35
  | some (.setInTransmission _) => 34
  | some (.transmit _) => 33
  | some .count => 33 + again
  | some .disableTxeie => 36
  | some .emptyReadInTransmission => 35 + again
  | some .emptyClearTc => 34 + again
  | some .emptyEnableTcie => 33 + again
  | some .readTcie => 32 + again
  | some .readTc => 31 + again
  | some .endClearTc => if u.tc then 30 else 95
  | some .endReadInTransmission => 90
  | some .unusedDisableTcie => 80
  | some .endReadBuffer => 85
  | some .endDisableTxeie => 84
  | some .endDisableTcie => 83
  | some .endInTransmission => 82
  | some .endCallback => 81
  | some .moreDisableTcie => 84
  | some .moreEnableTxeie => 83

def flagsRank (h : Option Irq) (u : Transmitter B) : ℕ := (if u.tc then 100 else 0) + irqRank h u

theorem flagsRank_lt (h : Option Irq) (u : Transmitter B) : flagsRank h u < 256 := by
  rcases h with - | irq
  · simp only [flagsRank, irqRank]
    split <;> split <;> omega
  · cases irq <;> simp only [flagsRank, irqRank] <;> repeat' split
    all_goals omega

variable [Buffer B]

omit [Buffer B] in
theorem callRank_resume (c : Call) (u : Transmitter B) :
    ((resume c u).2.map callRank).getD 0 < callRank c := by
  cases c <;> exact Nat.lt_of_lt_of_eq (Nat.lt_succ_self _) rfl

/-- A step of the handler moves a byte or comes closer to the end. -/
theorem rank_serve (h : Irq) (u : Transmitter B) :
    bytesRank (held (serve h u).2) (serve h u).1 < bytesRank (held (some h)) u ∨
      flagsRank (serve h u).2 (serve h u).1 < flagsRank (some h) u := by
  cases h with
  | pop =>
    simp only [serve]
    split
    · right
      simp [flagsRank, irqRank]
    · rename_i data rest hgot
      exact Or.inl (bytesRank_pop hgot)
  | transmit data => exact Or.inl (bytesRank_transmitData8 data u)
  | readInTransmission data =>
    right
    simp only [serve]
    split
    · simp only [flagsRank, irqRank]
      omega
    · change (if u.tc then 100 else 0) + 34 < (if u.tc then 100 else 0) + 35
      omega
  | readTxeie | readTxe | emptyReadInTransmission | readTcie | readTc | endReadInTransmission
  | endReadBuffer =>
    right
    simp only [serve]
    split <;> simp_all [flagsRank, irqRank, txInterrupt, Transmitter.txe] <;> grind
  | disableTcie _ | setInTransmission _ | count | disableTxeie | emptyClearTc | emptyEnableTcie
  | endClearTc | unusedDisableTcie | endDisableTxeie | endDisableTcie | endInTransmission
  | endCallback | moreDisableTcie | moreEnableTxeie =>
    right
    simp only [serve, flagsRank, irqRank, txInterrupt, Transmitter.txe, Transmitter.txEnd]
    grind

omit [Buffer B] in
theorem flagsRank_enter {u : Transmitter B} (h : txInterrupt u = true) :
    flagsRank (some .readTxeie) u < flagsRank none u := by
  simp only [flagsRank, irqRank, h, if_true]
  omega

def measure : Measure (carrying (B := B)) txInterrupt where
  callRank := callRank
  irqRank := flagsRank
  bound := 256
  irqRank_lt := flagsRank_lt
  enter _ h := flagsRank_enter h
  resume := callRank_resume
  serve := rank_serve

end UniHal.Uart.Stm32h7
