import UniHal.Uart.Transmitter

/-! # The transmit side of the STM32H7 driver

The trigger, the transmit part of the interrupt handler and `uni_hal_usart_irq_enable`, one
register access or buffer access a step. The FIFO of the peripheral is not enabled.
-/

namespace UniHal.Uart.Stm32h7
open Foundations Interleaving Io

/-- What a call does next: the first three belong to `_uni_hal_usart_tx_trigger`. -/
inductive Call
  | clearTc
  | disableTcie
  | enableTxeie
  | onDisableTcie
  | onDisableTxeie
  | onClearTc
  | offDisableTxeie
  | offDisableTcie
  | offClearTc
  | offInTransmission
  deriving DecidableEq, Repr

inductive Irq
  | readTxeie
  | readTxe
  | pop
  | disableTcie (data : UInt8)
  | readInTransmission (data : UInt8)
  | setInTransmission (data : UInt8)
  | transmit (data : UInt8)
  | count
  | disableTxeie
  | emptyReadInTransmission
  | emptyClearTc
  | emptyEnableTcie
  | readTcie
  | readTc
  | endClearTc
  | endReadInTransmission
  | unusedDisableTcie
  | endReadBuffer
  | endDisableTxeie
  | endDisableTcie
  | endInTransmission
  | endCallback
  | moreDisableTcie
  | moreEnableTxeie
  deriving DecidableEq, Repr

variable {B : Type*} [Buffer B]

def call (r : Request) (u : Transmitter B) : Transmitter B × Option Call :=
  match r with
  | .transmitData data => (u.pushTx data, some .clearTc)
  | .irqEnable true => (u, some .onDisableTcie)
  | .irqEnable false => (u, some .offDisableTxeie)

def resume (c : Call) (u : Transmitter B) : Transmitter B × Option Call :=
  match c with
  | .clearTc => ({ u with tc := false }, some .disableTcie)
  | .disableTcie => ({ u with tcie := false }, some .enableTxeie)
  | .enableTxeie => ({ u with txeie := true }, none)
  | .onDisableTcie => ({ u with tcie := false }, some .onDisableTxeie)
  | .onDisableTxeie => ({ u with txeie := false }, some .onClearTc)
  | .onClearTc => ({ u.irqEnableReturn true with tc := false }, none)
  | .offDisableTxeie => ({ u with txeie := false }, some .offDisableTcie)
  | .offDisableTcie => ({ u with tcie := false }, some .offClearTc)
  | .offClearTc => ({ u with tc := false }, some .offInTransmission)
  | .offInTransmission => ({ u.irqEnableReturn false with inTransmission := false }, none)

/-- `_uni_hal_usart_irq_handler` from the test for TXE on. -/
def serve (h : Irq) (u : Transmitter B) : Transmitter B × Option Irq :=
  match h with
  | .readTxeie => (u, some (if u.txeie then .readTxe else .readTcie))
  | .readTxe => (u, some (if u.txe then .pop else .readTcie))
  | .pop =>
    let got := Buffer.read u.bufTx 1 0
    match got.1 with
    | [] => ({ u with bufTx := got.2 }, some .disableTxeie)
    | data :: _ => ({ u with bufTx := got.2 }, some (.disableTcie data))
  | .disableTcie data => ({ u with tcie := false }, some (.readInTransmission data))
  | .readInTransmission data =>
    if u.inTransmission then (u, some (.transmit data))
    else (u.txStart, some (.setInTransmission data))
  | .setInTransmission data => ({ u with inTransmission := true }, some (.transmit data))
  | .transmit data => (u.transmitData8 data, some .count)
  | .count => ({ u with txTransmited := u.txTransmited + 1 }, some .readTcie)
  | .disableTxeie => ({ u with txeie := false }, some .emptyReadInTransmission)
  | .emptyReadInTransmission => (u, some (if u.inTransmission then .emptyClearTc else .readTcie))
  | .emptyClearTc => ({ u with tc := false }, some .emptyEnableTcie)
  | .emptyEnableTcie => ({ u with tcie := true }, some .readTcie)
  | .readTcie => (u, if u.tcie then some .readTc else none)
  | .readTc => (u, if u.tc then some .endClearTc else none)
  | .endClearTc => ({ u with tc := false }, some .endReadInTransmission)
  | .endReadInTransmission =>
    (u, some (if u.inTransmission then .endReadBuffer else .unusedDisableTcie))
  | .unusedDisableTcie => ({ u with tcie := false }, none)
  | .endReadBuffer =>
    (u, some (if Buffer.available u.bufTx = 0 then .endDisableTxeie else .moreDisableTcie))
  | .endDisableTxeie => ({ u with txeie := false }, some .endDisableTcie)
  | .endDisableTcie => ({ u with tcie := false }, some .endInTransmission)
  | .endInTransmission => ({ u with inTransmission := false }, some .endCallback)
  | .endCallback => (u.txEnd, none)
  | .moreDisableTcie => ({ u with tcie := false }, some .moreEnableTxeie)
  | .moreEnableTxeie => ({ u with txeie := true }, none)

def program : Program (Transmitter B) Hardware Request Call Irq where
  hardware := Transmitter.hardware
  call := call
  resume := resume
  entry := .readTxeie
  serve := serve

theorem program_hardware :
    (program : Program (Transmitter B) Hardware Request Call Irq).hardware =
      Transmitter.hardware := rfl

abbrev World (B : Type*) := Interleaving.World (Transmitter B) Call Irq

abbrev Action := Interleaving.Action Hardware Request Call

/-- The driver after `uni_hal_usart_init`. -/
def start (buf : B) (tc : Bool) : World B := ⟨Transmitter.init buf tc, [], none⟩

def step (w : World B) (a : Action) : Option (World B) := Interleaving.step program w a

end UniHal.Uart.Stm32h7
