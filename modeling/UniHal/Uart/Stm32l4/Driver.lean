import UniHal.Uart.Transmitter

/-! # The transmit side of the STM32L4 driver

The trigger, the transmit part of the interrupt handler and `uni_hal_usart_irq_enable`, one
register access or buffer access a step. The handlers of the USARTs and of the LPUART do the
same.
-/

namespace UniHal.Uart.Stm32l4
open Foundations Interleaving Io

/-- What a call does next. The first three are `_uni_hal_usart_irq_tx_enable` with `true`, which
is the trigger; the enabling `uni_hal_usart_irq_enable` has no step for the transmitter. -/
inductive Call
  | clearTc
  | enableTxeie
  | enableTcie
  | onReturn
  | offDisableTxeie
  | offDisableTcie
  | offClearTc
  deriving DecidableEq, Repr

inductive Irq
  | readTxeie
  | readTxe
  | readInTransmission
  | setInTransmission
  | pop
  | transmit (data : UInt8)
  | count
  | readTcie
  | readTc
  | endReadInTransmission
  | endDisableTxeie
  | endDisableTcie
  | endClearTc
  | endInTransmission
  | endCallback
  deriving DecidableEq, Repr

variable {B : Type*} [Buffer B]

def call (r : Request) (u : Transmitter B) : Transmitter B × Option Call :=
  match r with
  | .transmitData data => (u.pushTx data, some .clearTc)
  | .irqEnable true => (u, some .onReturn)
  | .irqEnable false => (u, some .offDisableTxeie)

def resume (c : Call) (u : Transmitter B) : Transmitter B × Option Call :=
  match c with
  | .clearTc => ({ u with tc := false }, some .enableTxeie)
  | .enableTxeie => ({ u with txeie := true }, some .enableTcie)
  | .enableTcie => ({ u with tcie := true }, none)
  | .onReturn => (u.irqEnableReturn true, none)
  | .offDisableTxeie => ({ u with txeie := false }, some .offDisableTcie)
  | .offDisableTcie => ({ u with tcie := false }, some .offClearTc)
  | .offClearTc => ({ u.irqEnableReturn false with tc := false }, none)

/-- `_uni_hal_usart_irq_handler` from the test for TXE on. -/
def serve (h : Irq) (u : Transmitter B) : Transmitter B × Option Irq :=
  match h with
  | .readTxeie => (u, some (if u.txeie then .readTxe else .readTcie))
  | .readTxe => (u, some (if u.txe then .readInTransmission else .readTcie))
  | .readInTransmission =>
    if u.inTransmission then (u, some .pop) else (u.txStart, some .setInTransmission)
  | .setInTransmission => ({ u with inTransmission := true }, some .pop)
  | .pop =>
    let got := Buffer.read u.bufTx 1 0
    match got.1 with
    | [] => ({ u with bufTx := got.2 }, some .readTcie)
    | data :: _ => ({ u with bufTx := got.2 }, some (.transmit data))
  | .transmit data => (u.transmitData8 data, some .count)
  | .count => ({ u with txTransmited := u.txTransmited + 1 }, some .readTcie)
  | .readTcie => (u, if u.tcie then some .readTc else none)
  | .readTc => (u, if u.tc then some .endReadInTransmission else none)
  | .endReadInTransmission => (u, if u.inTransmission then some .endDisableTxeie else none)
  | .endDisableTxeie => ({ u with txeie := false }, some .endDisableTcie)
  | .endDisableTcie => ({ u with tcie := false }, some .endClearTc)
  | .endClearTc => ({ u with tc := false }, some .endInTransmission)
  | .endInTransmission => ({ u with inTransmission := false }, some .endCallback)
  | .endCallback => (u.txEnd, none)

def program : Program (Transmitter B) Hardware Request Call Irq where
  hardware := Transmitter.hardware
  call := call
  resume := resume
  entry := .readTxeie
  serve := serve

theorem program_hardware :
    (program : Program (Transmitter B) Hardware Request Call Irq).hardware =
      Transmitter.hardware := rfl

abbrev World (B : Type*) := Interleaving.World (Transmitter B) Call Irq

abbrev Action := Interleaving.Action Hardware Request Call

/-- The driver after `uni_hal_usart_init`. -/
def start (buf : B) (tc : Bool) : World B := ⟨Transmitter.init buf tc, [], none⟩

def step (w : World B) (a : Action) : Option (World B) := Interleaving.step program w a

end UniHal.Uart.Stm32l4
