import UniHal.Uart.Progress

/-! # Progress of the STM32L4 transmitter

The TXE interrupt of this driver is also entered with nothing to do, while the last byte is on
its way. Not counting these passes, every step of the hardware, of a call in progress or of the
handler brings the transmitter closer to rest.
-/

namespace UniHal.Uart.Stm32l4
open Foundations Interleaving Io

variable {B : Type*} [Buffer B]

def sendInterrupt (u : Transmitter B) : Bool :=
  u.txeie && u.txe && !(Buffer.bytes u.bufTx).isEmpty

omit [Buffer B] in
def endInterrupt (u : Transmitter B) : Bool := u.tcie && u.tc && u.inTransmission

def txInterrupt (u : Transmitter B) : Bool := sendInterrupt u || endInterrupt u

def callRank : Call → ℕ
  | .clearTc | .offDisableTxeie => 3
  | .enableTxeie | .offDisableTcie => 2
  | .enableTcie | .onReturn | .offClearTc => 1

/-- The steps that a pass of the handler still makes. A pass that is behind the test for TXE is
followed by another one when there is a byte to write. -/
def irqRank (h : Option Irq) (u : Transmitter B) : ℕ :=
  let again := if sendInterrupt u then 30 else 0
  match h with
  | none => if txInterrupt u then 40 else 0
  | some .readTxeie => 39
  | some .readTxe => 38
  | some .readInTransmission => 37
  | some .setInTransmission => 36
  | some .pop => 35
  | some (.transmit _) => 34
  | some .count => 33 + again
  | some .readTcie => 32 + again
  | some .readTc => 31 + again
  | some .endReadInTransmission => 30 + again
  | some .endDisableTxeie => 29 + again
  | some .endDisableTcie => 28 + again
  | some .endClearTc => 27 + again
  | some .endInTransmission => 26 + again
  | some .endCallback => 25 + if txInterrupt u then 30 else 0

theorem irqRank_lt (h : Option Irq) (u : Transmitter B) : irqRank h u < 128 := by
  rcases h with - | irq
  · simp only [irqRank]
    split <;> omega
  · cases irq <;> simp only [irqRank] <;> repeat' split
    all_goals omega

omit [Buffer B] in
theorem callRank_resume (c : Call) (u : Transmitter B) :
    ((resume c u).2.map callRank).getD 0 < callRank c := by
  cases c <;> exact Nat.lt_of_lt_of_eq (Nat.lt_succ_self _) rfl

/-- A step of the handler moves a byte or comes closer to the end. -/
theorem rank_serve (h : Irq) (u : Transmitter B) :
    bytesRank (held (serve h u).2) (serve h u).1 < bytesRank (held (some h)) u ∨
      irqRank (serve h u).2 (serve h u).1 < irqRank (some h) u := by
  cases h with
  | pop =>
    simp only [serve]
    split
    · rename_i hgot
      obtain ⟨hleft, -⟩ := bytesRank_pop_nil hgot
      right
      simp [irqRank, sendInterrupt, hleft]
    · rename_i data rest hgot
      exact Or.inl (bytesRank_pop hgot)
  | transmit data => exact Or.inl (bytesRank_transmitData8 data u)
  | readInTransmission =>
    right
    simp only [serve]
    split
    · change 35 < 37
      omega
    · exact Nat.lt_succ_self 36
  | setInTransmission => exact Or.inr (Nat.lt_succ_self 35)
  | readTxeie | readTxe | readTcie | readTc | endReadInTransmission =>
    right
    simp only [serve]
    split <;> simp_all [irqRank, txInterrupt, sendInterrupt, endInterrupt,
      Transmitter.txe] <;> grind
  | count | endDisableTxeie | endDisableTcie | endClearTc | endInTransmission | endCallback =>
    right
    simp only [serve, irqRank, txInterrupt, sendInterrupt, endInterrupt, Transmitter.txe,
      Transmitter.txEnd]
    grind

theorem irqRank_enter {u : Transmitter B} (h : txInterrupt u = true) :
    irqRank (some .readTxeie) u < irqRank none u := by
  simp only [irqRank, h, if_true]
  omega

def measure : Measure (carrying (B := B)) txInterrupt where
  callRank := callRank
  irqRank := irqRank
  bound := 128
  irqRank_lt := irqRank_lt
  enter _ h := irqRank_enter h
  resume := callRank_resume
  serve := rank_serve

end UniHal.Uart.Stm32l4
