import UniHal.Foundations.SharedRing
import UniHal.Uart.TunnelAccounts

/-! # Standard IO over the debug probe

The IO is served by the handler of a timer. The debugger on the host reads and writes the two
buffers in the memory of the target at any time, also between two accesses of the handler, and
everything else that the target does with its IOs goes on around the handler.
-/

namespace UniHal.Io.RttStdio
open Foundations Execution Uart
open Reception (RxSide TxSide tunnelTransmit delivery unread)

inductive Flags
  | noBlockSkip
  | noBlockTrim
  | blockIfFifoFull
  deriving DecidableEq, Repr

/-- `SEGGER_RTT_BUFFER_UP` and `SEGGER_RTT_BUFFER_DOWN` -/
structure RttBuffer where
  pBuffer : ℕ → UInt8
  sizeOfBuffer : ℕ
  wrOff : ℕ := 0
  rdOff : ℕ := 0
  flags : Flags := .noBlockSkip

namespace RttBuffer

def getAvailWriteSpace (b : RttBuffer) : ℕ :=
  if b.rdOff ≤ b.wrOff then b.sizeOfBuffer - 1 - b.wrOff + b.rdOff else b.rdOff - b.wrOff - 1

/-- "Read remaining items of buffer": the positions that are copied from and the next `RdOff`. When
`WrOff` is before `RdOff` here, there is no more room in the target of the copy. -/
def readRemaining (rdOff wrOff bufferSize : ℕ) : List ℕ × ℕ :=
  let numBytesRem := min (wrOff - rdOff) bufferSize
  (List.range' rdOff numBytesRem, rdOff + numBytesRem)

/-- The positions that `SEGGER_RTT_ReadNoLock` copies from once it has read both offsets, and the
`RdOff` that it stores afterwards. -/
def readNoLock (sizeOfBuffer rdOff wrOff bufferSize : ℕ) : List ℕ × ℕ :=
  if rdOff > wrOff then
    -- from the current read position to the end of the buffer first
    let numBytesRem := min (sizeOfBuffer - rdOff) bufferSize
    let next := if rdOff + numBytesRem = sizeOfBuffer then 0 else rdOff + numBytesRem
    let remaining := readRemaining next wrOff (bufferSize - numBytesRem)
    (List.range' rdOff numBytesRem ++ remaining.1, remaining.2)
  else readRemaining rdOff wrOff bufferSize

/-- The offset behind `WrOff` in `SEGGER_RTT_PutChar`. -/
def nextWrOff (b : RttBuffer) : ℕ := if b.wrOff + 1 = b.sizeOfBuffer then 0 else b.wrOff + 1

def behind (b : RttBuffer) (off k : ℕ) : ℕ := wrap b.sizeOfBuffer (off + k)

def used (b : RttBuffer) : ℕ := b.sizeOfBuffer - 1 - b.getAvailWriteSpace

def bytes (b : RttBuffer) : List UInt8 :=
  (List.range b.used).map fun k => b.pBuffer (b.behind b.rdOff k)

end RttBuffer

inductive Pc
  /-- `SEGGER_RTT_HasData` -/
  | hasData
  | hasDataRdOff (v : ℕ)
  /-- `SEGGER_RTT_Read` -/
  | read
  | readWrOff (rdOff : ℕ)
  | readCopy (pSrc : List ℕ) (rdOff : ℕ) (pData : List UInt8)
  | tunnel
  | pop
  /-- `SEGGER_RTT_PutChar` -/
  | putChar
  | putCharWait (wrOff : ℕ)
  | putCharCheck (wrOff : ℕ)
  | putCharStore (wrOff : ℕ)
  | putCharWrOff (wrOff : ℕ)
  | transmited
  deriving DecidableEq

/-- What is recorded about a byte that the handler takes to `SEGGER_RTT_PutChar`. -/
structure Put where
  byte : UInt8
  /-- the status that it returns -/
  status : Bool
  /-- the bytes that the host has not read when the test for free space is made -/
  used : ℕ

/-- What the host does with the two buffers: bytes that it has written behind `WrOff`, bytes that
it has copied, and the bytes that it has sent and received altogether. -/
structure Debugger where
  written : List UInt8 := []
  copied : List UInt8 := []
  sent : List UInt8 := []
  received : List UInt8 := []

structure World (τ ι B : Type*) where
  ios : Reception.State τ ι B
  down : RttBuffer
  up : RttBuffer
  debugger : Debugger := {}
  handler : Option Pc := none
  /-- the local variable of the handler -/
  data : UInt8 := 0
  txTransmited : UInt32 := 0
  puts : List Put := []

variable {τ ι B : Type*} [Buffer B] [DecidableEq ι]

def RxSide.arrive (data : UInt8) (r : RxSide ι B) : RxSide ι B :=
  { r with arrived := r.arrived ++ [data] }

def receive (io : ι) (data : UInt8) (s : Reception.State τ ι B) : Reception.State τ ι B :=
  let (tunnelResult, tx) := tunnelTransmit s.links (s.links.tunnelCtx io) io [data] s.tx
  let r := (RxSide.arrive data (s.rx io)).record (delivery s io data)
  if tunnelResult = .fail ∨ tunnelResult = .transparent then
    (s.withTx tx).withRx io (r.push data)
  else (s.withTx tx).withRx io r

/-- What `uni_hal_io_buffer_pop_isr` takes out of the TX buffer. -/
def popped (t : TxSide ι B) (dataLen : ℕ) : List UInt8 :=
  t.buf.elim [] fun buf => (Buffer.read buf dataLen 0).1

namespace World

def goto (pc : Pc) (w : World τ ι B) : World τ ι B := { w with handler := some pc }

/-- One access of `_uni_hal_segger_rtt_stdio_timer`. -/
def serve (io : ι) (w : World τ ι B) : Pc → World τ ι B
  | .hasData => w.goto (.hasDataRdOff w.down.wrOff)
  | .hasDataRdOff v => w.goto (if v ≠ w.down.rdOff then .read else .pop)
  | .read => w.goto (.readWrOff w.down.rdOff)
  | .readWrOff rdOff =>
    let copy := RttBuffer.readNoLock w.down.sizeOfBuffer rdOff w.down.wrOff 1
    w.goto (.readCopy copy.1 copy.2 [])
  | .readCopy (p :: pSrc) rdOff pData =>
    w.goto (.readCopy pSrc rdOff (pData ++ [w.down.pBuffer p]))
  | .readCopy [] rdOff pData =>
    let down := if pData ≠ [] then { w.down with rdOff := rdOff } else w.down
    { w with down := down, data := pData.headD w.data }.goto .tunnel
  | .tunnel => { w with ios := receive io w.data w.ios }.goto .hasData
  | .pop =>
    let t := w.ios.tx io
    let ios := w.ios.withTx (Function.update w.ios.tx io (t.bufferPopIsr 1))
    match popped t 1 with
    | [] => { w with ios := ios, handler := none }
    | data :: _ => { w with ios := ios, data := data }.goto .putChar
  | .putChar =>
    let wrOff := w.up.nextWrOff
    w.goto (if w.up.flags = .blockIfFifoFull then .putCharWait wrOff else .putCharCheck wrOff)
  | .putCharWait wrOff => if wrOff = w.up.rdOff then w else w.goto (.putCharCheck wrOff)
  | .putCharCheck wrOff =>
    let status := decide (wrOff ≠ w.up.rdOff)
    { w with puts := w.puts ++ [Put.mk w.data status w.up.used] }.goto
      (if status then .putCharStore wrOff else .transmited)
  | .putCharStore wrOff =>
    { w with up := { w.up with pBuffer := Function.update w.up.pBuffer w.up.wrOff w.data } }.goto
      (.putCharWrOff wrOff)
  | .putCharWrOff wrOff => { w with up := { w.up with wrOff := wrOff } }.goto .transmited
  | .transmited => { w with txTransmited := w.txTransmited + 1 }.goto .pop

end World

inductive Action (τ ι : Type*)
  /-- the timer elapses -/
  | timer
  | serve
  /-- the host writes the next free byte of the down buffer -/
  | hostWrite (b : UInt8)
  /-- the host moves `WrOff` of the down buffer -/
  | hostWrOff (n : ℕ)
  /-- the host copies the next byte of the up buffer -/
  | hostCopy
  /-- the host moves `RdOff` of the up buffer -/
  | hostRdOff (n : ℕ)
  | other (a : Reception.Action τ ι)

def served (io : ι) : Reception.Action τ ι → Bool
  | .byte other _ | .irq other | .irqEnable other _ | .pop other _ => decide (other ≠ io)
  | .read .. | .clear .. | .transmit .. | .tunnelInit .. => true

variable [DecidableEq τ]

/-- The host keeps to the free bytes of the down buffer and to the used ones of the up buffer. -/
def step (d : Reception.Driver) (io : ι) (w : World τ ι B) : Action τ ι → Option (World τ ι B)
  | .timer => if w.handler = none then some ({ w with data := 0 }.goto .hasData) else none
  | .serve => w.handler.map (w.serve io)
  | .hostWrite b =>
    if w.debugger.written.length < w.down.getAvailWriteSpace then
      let pos := w.down.behind w.down.wrOff w.debugger.written.length
      some { w with
        down := { w.down with pBuffer := Function.update w.down.pBuffer pos b }
        debugger := { w.debugger with written := w.debugger.written ++ [b] } }
    else none
  | .hostWrOff n =>
    if n ≤ w.debugger.written.length then
      some { w with
        down := { w.down with wrOff := w.down.behind w.down.wrOff n }
        debugger := { w.debugger with
          written := w.debugger.written.drop n
          sent := w.debugger.sent ++ w.debugger.written.take n } }
    else none
  | .hostCopy =>
    if w.debugger.copied.length < w.up.used then
      let pos := w.up.behind w.up.rdOff w.debugger.copied.length
      some { w with
        debugger := { w.debugger with copied := w.debugger.copied ++ [w.up.pBuffer pos] } }
    else none
  | .hostRdOff n =>
    if n ≤ w.debugger.copied.length then
      some { w with
        up := { w.up with rdOff := w.up.behind w.up.rdOff n }
        debugger := { w.debugger with
          copied := w.debugger.copied.drop n
          received := w.debugger.received ++ w.debugger.copied.take n } }
    else none
  | .other a =>
    if served io a then (Reception.step d w.ios a).map fun ios => { w with ios := ios } else none

/-- What the target starts with: its IOs, and the two buffers of the terminal with the mode of the
one to the host. -/
structure Setup (τ ι B : Type*) where
  links : Tunnel.State τ ι
  bufRx : ι → Option B
  bufTx : ι → Option B
  acDownBuffer : ℕ → UInt8
  acUpBuffer : ℕ → UInt8
  bufferSizeDown : ℕ
  bufferSizeUp : ℕ
  down_pos : 0 < bufferSizeDown
  up_pos : 0 < bufferSizeUp
  mode : Flags

/-- After `SEGGER_RTT_Init` -/
def start (setup : Setup τ ι B) : World τ ι B where
  ios := Reception.start setup.links setup.bufRx setup.bufTx
  down := { pBuffer := setup.acDownBuffer, sizeOfBuffer := setup.bufferSizeDown }
  up := {
    pBuffer := setup.acUpBuffer
    sizeOfBuffer := setup.bufferSizeUp
    flags := setup.mode }

end UniHal.Io.RttStdio
