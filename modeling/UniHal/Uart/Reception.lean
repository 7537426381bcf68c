import UniHal.Io.Buffer
import UniHal.Io.Tunnel

/-! # The receive side of the UART drivers

What the interrupt handlers of both drivers do with a received byte: the tunnel of the IO gets
it first, and the RX buffer of the IO gets it unless the tunnel took it for good. The handlers run
among everything else that touches the buffers and the tunnels.
-/

namespace UniHal.Uart.Reception
open Foundations Execution Io
open Io.Tunnel (TransmitResult)

structure Delivery (ι : Type*) where
  byte : UInt8
  /-- what `uni_hal_io_tunnel_transmit` returns for it -/
  result : TransmitResult
  /-- the other IO of the tunnel -/
  peer : Option ι
  /-- the own RX buffer has room for it -/
  room : Bool

/-- The RX part of an IO with the receiver of its UART. A buffer whose handle is NULL is not there.
The last fields are a record of what happened. -/
structure RxSide (ι B : Type*) where
  buf : Option B
  rxReceived : UInt32 := 0
  rxOverrun : UInt32 := 0
  rxneie : Bool := false
  rxne : Bool := false
  ore : Bool := false
  rdr : UInt8 := 0
  /-- the bytes that came into `RDR` -/
  arrived : List UInt8 := []
  deliveries : List (Delivery ι) := []
  /-- how often the overrun flag was found -/
  overruns : ℕ := 0
  stored : List UInt8 := []
  taken : List UInt8 := []

/-- The TX part of an IO; the bytes that were stored come with the IO on which they were received,
unless they were not. -/
structure TxSide (ι B : Type*) where
  buf : Option B
  triggers : ℕ := 0
  stored : List (Option ι × UInt8) := []
  taken : List UInt8 := []

structure State (τ ι B : Type*) where
  links : Tunnel.State τ ι
  rx : ι → RxSide ι B
  tx : ι → TxSide ι B

variable {τ ι B : Type*} [Buffer B]

def unread (buf : Option B) : List UInt8 := buf.elim [] Buffer.bytes

namespace RxSide

/-- `uni_hal_io_buffer_push_isr` on the RX buffer -/
def bufferPushIsr (data : List UInt8) (r : RxSide ι B) : ℕ × RxSide ι B :=
  match r.buf with
  | none => (0, r)
  | some buf =>
    let written := Buffer.write buf data
    (written.1, { r with buf := some written.2, stored := r.stored ++ data.take written.1 })

def push (data : UInt8) (r : RxSide ι B) : RxSide ι B :=
  let pushed := r.bufferPushIsr [data]
  if pushed.1 ≠ 0 then { pushed.2 with rxReceived := pushed.2.rxReceived + 1 }
  else { pushed.2 with rxOverrun := pushed.2.rxOverrun + 1 }

def overrun (r : RxSide ι B) : RxSide ι B :=
  if r.ore then { r with rxOverrun := r.rxOverrun + 1, ore := false, overruns := r.overruns + 1 }
  else r

def receiveData8 (r : RxSide ι B) : UInt8 × RxSide ι B := (r.rdr, { r with rxne := false })

def record (d : Delivery ι) (r : RxSide ι B) : RxSide ι B :=
  { r with deliveries := r.deliveries ++ [d] }

def onByte (b : UInt8) (r : RxSide ι B) : RxSide ι B :=
  if r.rxne then { r with ore := true }
  else { r with rxne := true, rdr := b, arrived := r.arrived ++ [b] }

def read (dataLen : ℕ) (waitMs : UInt32) (r : RxSide ι B) : RxSide ι B :=
  match r.buf with
  | none => r
  | some buf =>
    let got := Buffer.read buf dataLen waitMs
    { r with buf := some got.2, taken := r.taken ++ got.1 }

def clear (r : RxSide ι B) : RxSide ι B :=
  match r.buf with
  | none => r
  | some buf =>
    { r with buf := some (Buffer.reset buf), taken := r.taken ++ Buffer.bytes buf }

end RxSide

namespace TxSide

def transmitData (source : Option ι) (data : List UInt8) (t : TxSide ι B) : ℕ × TxSide ι B :=
  match t.buf with
  | none => (0, t)
  | some buf =>
    let written := Buffer.write buf data
    (written.1, { t with
      buf := some written.2
      triggers := t.triggers + 1
      stored := t.stored ++ (data.take written.1).map fun b => (source, b) })

/-- `uni_hal_io_buffer_pop_isr` on the TX buffer -/
def bufferPopIsr (dataLen : ℕ) (t : TxSide ι B) : TxSide ι B :=
  match t.buf with
  | none => t
  | some buf =>
    let got := Buffer.read buf dataLen 0
    { t with buf := some got.2, taken := t.taken ++ got.1 }

end TxSide

variable [DecidableEq ι]

/-- `uni_hal_io_transmit_data` on an IO that may be NULL -/
def transmitData (source ctx : Option ι) (data : List UInt8) (tx : ι → TxSide ι B) :
    ℕ × (ι → TxSide ι B) :=
  match ctx with
  | none => (0, tx)
  | some io =>
    let sent := (tx io).transmitData source data
    (sent.1, Function.update tx io sent.2)

/-- `io_to` of `uni_hal_io_tunnel_transmit` -/
def ioTo (links : Tunnel.State τ ι) (ctx : Option τ) (ioFrom : ι) : Option ι :=
  ctx.elim none fun t => (links.tunnels t).ioTo (some ioFrom)

def tunnelTransmit (links : Tunnel.State τ ι) (ctx : Option τ) (ioFrom : ι) (data : List UInt8)
    (tx : ι → TxSide ι B) : TransmitResult × (ι → TxSide ι B) :=
  (Tunnel.transmit (fun io => (transmitData (some ioFrom) io data tx).1) ctx (some ioFrom) links,
    (transmitData (some ioFrom) (ioTo links ctx ioFrom) data tx).2)

def delivery (s : State τ ι B) (io : ι) (data : UInt8) : Delivery ι where
  byte := data
  result := (tunnelTransmit s.links (s.links.tunnelCtx io) io [data] s.tx).1
  peer := ioTo s.links (s.links.tunnelCtx io) io
  room := decide (((s.rx io).bufferPushIsr [data]).1 ≠ 0)

namespace State

def withRx (io : ι) (r : RxSide ι B) (s : State τ ι B) : State τ ι B :=
  { s with rx := Function.update s.rx io r }

def withTx (tx : ι → TxSide ι B) (s : State τ ι B) : State τ ι B := { s with tx := tx }

end State

/-- The receive part of `_uni_hal_usart_irq_handler` of the STM32H7 driver. -/
def irqHandlerStm32h7 (io : ι) (s : State τ ι B) : State τ ι B :=
  let s := s.withRx io (s.rx io).overrun
  if (s.rx io).rxneie && (s.rx io).rxne then
    let (data, r) := (s.rx io).receiveData8
    let tunnelCtx := s.links.tunnelCtx io
    let (tunnelResult, tx) :=
      if tunnelCtx.isSome then tunnelTransmit s.links tunnelCtx io [data] s.tx
      else (.transparent, s.tx)
    let r := r.record (delivery s io data)
    if tunnelResult = .transparent ∨ tunnelResult = .fail then
      (s.withTx tx).withRx io (r.push data)
    else (s.withTx tx).withRx io r
  else s

/-- The receive part of `_uni_hal_usart_irq_handler` of the STM32L4 driver; the handler of the
LPUART does the same. -/
def irqHandlerStm32l4 (io : ι) (s : State τ ι B) : State τ ι B :=
  let s := s.withRx io (s.rx io).overrun
  if (s.rx io).rxneie && (s.rx io).rxne then
    let (data, r) := (s.rx io).receiveData8
    let (tunnelResult, tx) := tunnelTransmit s.links (s.links.tunnelCtx io) io [data] s.tx
    let r := r.record (delivery s io data)
    if tunnelResult = .fail ∨ tunnelResult = .transparent then
      (s.withTx tx).withRx io (r.push data)
    else (s.withTx tx).withRx io r
  else s

inductive Driver
  | stm32h7
  | stm32l4
  deriving DecidableEq

def Driver.irqHandler : Driver → ι → State τ ι B → State τ ι B
  | .stm32h7 => irqHandlerStm32h7
  | .stm32l4 => irqHandlerStm32l4

inductive Action (τ ι : Type*)
  /-- the UART of an IO receives a byte -/
  | byte (io : ι) (b : UInt8)
  | irq (io : ι)
  /-- the receive interrupt is enabled or disabled -/
  | irqEnable (io : ι) (on : Bool)
  | read (io : ι) (dataLen : ℕ) (waitMs : UInt32)
  | clear (io : ι)
  | pop (io : ι) (dataLen : ℕ)
  /-- `uni_hal_io_transmit_data` of a task -/
  | transmit (io : ι) (data : List UInt8)
  | tunnelInit (c : Tunnel.Call τ ι)

variable [DecidableEq τ]

def step (d : Driver) (s : State τ ι B) : Action τ ι → Option (State τ ι B)
  | .byte io b => some (s.withRx io ((s.rx io).onByte b))
  | .irq io => some (d.irqHandler io s)
  | .irqEnable io on => some (s.withRx io { s.rx io with rxneie := on })
  | .read io dataLen waitMs => some (s.withRx io ((s.rx io).read dataLen waitMs))
  | .clear io => some (s.withRx io (s.rx io).clear)
  | .pop io dataLen =>
    some (s.withTx (Function.update s.tx io ((s.tx io).bufferPopIsr dataLen)))
  | .transmit io data => some (s.withTx (transmitData none (some io) data s.tx).2)
  | .tunnelInit c => (Tunnel.step s.links c).map fun links => { s with links := links }

def start (links : Tunnel.State τ ι) (bufRx bufTx : ι → Option B) : State τ ι B where
  links := links
  rx io := { buf := bufRx io }
  tx io := { buf := bufTx io }

end UniHal.Uart.Reception
