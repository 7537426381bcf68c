import UniHal.Can.Fdcan.Queue
import UniHal.Can.Transmit

/-! # The transmit side of the FDCAN driver, step by step

One task calls the driver, the interrupt cuts in between any two accesses of the task and runs
to its end, and its callbacks queue frames themselves. The peripheral completes pending frames
at any time. Every access to a register, to the message RAM or to the bookkeeping is a step of
its own; a section with interrupts masked is one step.
-/

namespace UniHal.Can.Fdcan.Transmit
open Foundations Foundations.Execution

variable {build : Build}

/-- The elements of the TX buffers, `TXBRP`, and the history of each buffer. -/
abbrev TxSlots (build : Build) := Slots Slot (Msg build.dataSize) (Msg build.dataSize) Element

structure Dev (build : Build) where
  slots : TxSlots build
  /-- `CCCR.INIT` -/
  init : Bool
  /-- `TXBTO`: transmission occurred -/
  txbto : Slot → Bool
  /-- pending frames that `TXBCR` asked to cancel -/
  txbcr : Slot → Bool
  /-- `IR.TC` and `IR.TCF` -/
  tc : Bool
  tcf : Bool
  /-- `IE.TCE` and `IE.TCFE`, which change together -/
  ie : Bool
  /-- `TXBTIE` and `TXBCIE`, each for all buffers -/
  txbtie : Bool
  txbcie : Bool
  /-- `status.tx_ok` -/
  txOk : Slot → Bool
  /-- `tx_inflight` -/
  txInflight : Slot → Bool
  /-- `status.tx_callback` is set -/
  callback : Bool
  listener : Listener (Msg build.dataSize)

namespace Dev

def pending (s : Dev build) (b : Slot) : Bool := s.slots.pending b

/-- `TXFQS.TFQF` -/
def fifoFull (s : Dev build) : Bool := (List.finRange txBuffers).all s.pending

def store (s : Dev build) (b : Slot) (write : ℕ × BitVec 32) : Dev build :=
  { s with slots := s.slots.write b ((s.slots.words b).store write) }

/-- The masked section at the end of `_uni_hal_can_queue`; the request clears `TXBTO`. -/
def request (s : Dev build) (b : Slot) (msg : Msg build.dataSize) : Dev build :=
  { s with
    slots := s.slots.accept b msg
    txbto := Function.update s.txbto b false
    txOk := Function.update s.txOk b false
    txInflight := Function.update s.txInflight b true
    listener := s.listener.record b (.accepted msg) }

def raisesFlag (s : Dev build) (b : Slot) (ok : Bool) : Bool :=
  (ok && s.txbtie) || ((!ok || s.txbcr b) && s.txbcie)

def complete (s : Dev build) (b : Slot) (ok : Bool) : Dev build :=
  let frame := decode build (s.slots.words b)
  { s with
    slots := s.slots.finish b ok frame
    txbto := Function.update s.txbto b ok
    txbcr := Function.update s.txbcr b false
    tc := s.tc || (ok && s.txbtie)
    tcf := s.tcf || ((!ok || s.txbcr b) && s.txbcie)
    listener := s.listener.record b (.finished ok frame) }

def report (s : Dev build) (b : Slot) (ok : Bool) : Dev build :=
  { s with
    txOk := Function.update s.txOk b ok
    listener := if s.callback then s.listener.report b ok else s.listener }

end Dev

/-- Where a call stands. -/
inductive Call (build : Build)
  /-- at the check that the peripheral is started -/
  | started (msg : Msg build.dataSize)
  /-- at the test for a full FIFO -/
  | fifoStatus (msg : Msg build.dataSize)
  /-- at the read of `TXFQS.TFQPI` or `TXBRP` -/
  | select (msg : Msg build.dataSize)
  /-- a buffer is chosen; these words are left to write before the request -/
  | fill (buffer : Slot) (msg : Msg build.dataSize) (rest : List (ℕ × BitVec 32))

inductive Progress (build : Build)
  | running (call : Call build)
  | refused
  | accepted (buffer : Slot) (msg : Msg build.dataSize)

def Call.slot : Call build → Option Slot
  | .fill buffer _ _ => some buffer
  | _ => none

/-- `TXFQS.TFQPI` names a free buffer as long as the FIFO has one. -/
def validPut (s : Dev build) (put : ℕ) : Bool :=
  s.fifoFull || (bufferOf put).any fun b => !s.pending b

def choose (config : Config) (put : ℕ) (s : Dev build) : Call build → Option Slot
  | .select msg =>
    if (frameLength config msg).isSome then
      if config.txFifoPriority then bufferOf put else firstFree s.pending
    else none
  | _ => none

def callStep (config : Config) (put : ℕ) (s : Dev build) : Call build → Dev build × Progress build
  | .started msg =>
    if s.init then (s, .refused)
    else (s, .running (if config.txFifoPriority then .fifoStatus msg else .select msg))
  | .fifoStatus msg => if s.fifoFull then (s, .refused) else (s, .running (.select msg))
  | .select msg =>
    match choose config put s (.select msg), frameLength config msg with
    | some buffer, some (length, dlc) =>
      (s, .running (.fill buffer msg (elementWrites config msg length dlc)))
    | _, _ => (s, .refused)
  | .fill buffer msg (write :: rest) => (s.store buffer write, .running (.fill buffer msg rest))
  | .fill buffer msg [] => (s.request buffer msg, .accepted buffer msg)

/-- The accesses of `uni_hal_can_set_tx_callback`. -/
inductive Stage
  | disable
  | assign
  | snapshot
  | clearFlags
  | enableTransmitted
  | enableCancelled
  | enable
  | disableTransmitted
  | disableCancelled
  deriving DecidableEq

/-- Where the task stands. After the request of `uni_hal_can_transmit` it knows its buffer;
`index` records where the history of the buffer has the frame. -/
inductive Task (build : Build)
  | idle
  | nowait (call : Call build)
  | transmit (call : Call build)
  | poll (buffer : Slot) (msg : Msg build.dataSize) (index : ℕ)
  | deadline (buffer : Slot) (msg : Msg build.dataSize) (index : ℕ)
  | abort (buffer : Slot) (msg : Msg build.dataSize) (index : ℕ)
  | outcome (buffer : Slot) (msg : Msg build.dataSize) (index : ℕ)
  | setCallback (callback : Bool) (stage : Stage)

/-- Where the interrupt stands. In `receive`, `callback` and `errors` callbacks run, which may
queue frames. -/
inductive Isr
  | idle
  /-- at the read of `IR` and `IE` -/
  | entry
  | acknowledge (tc tcf : Bool)
  /-- in the part for the RX FIFOs; the transmit part follows when one of its flags was set -/
  | receive (tx : Bool)
  /-- at the read of `tx_inflight` and `TXBRP` -/
  | snapshot
  /-- at the read of `TXBTO` -/
  | transmitted (done : Slot → Bool)
  | report (done success : Slot → Bool) (todo : List Slot)
  | callback (done success : Slot → Bool) (todo : List Slot)
  | errors

structure State (build : Build) where
  dev : Dev build
  task : Task build
  isr : Isr
  /-- a call that a callback is making -/
  call : Option (Call build)
  returns : List (Return (Msg build.dataSize))
  timeouts : List (Timeout (Msg build.dataSize))

inductive Action (build : Build)
  | complete (buffer : Slot) (ok : Bool)
  | setInit (init : Bool)
  | abort
  | nowait (msg : Msg build.dataSize)
  | transmit (msg : Msg build.dataSize)
  | setCallback (callback : Bool)
  | taskStep (put : ℕ) (expired : Bool)
  | irq
  | callback (msg : Msg build.dataSize)
  | isrStep (put : ℕ)

def Task.call : Task build → Option (Call build)
  | .nowait call | .transmit call => some call
  | _ => none

def Task.isIdle : Task build → Bool
  | .idle => true
  | _ => false

def Isr.isIdle : Isr → Bool
  | .idle => true
  | _ => false

theorem Isr.eq_idle {isr : Isr} (h : isr.isIdle = true) : isr = .idle := by
  cases isr with
  | idle => rfl
  | _ => cases h

def Isr.inCallback : Isr → Bool
  | .receive _ | .callback _ _ _ | .errors => true
  | _ => false

def State.taskRuns (s : State build) : Bool := s.isr.isIdle && s.call.isNone

/-- `uni_hal_can_set_tx_callback` -/
def setCallbackStep (s : Dev build) (callback : Bool) : Stage → Dev build × Task build
  | .disable => ({ s with ie := false, listener := s.listener.stop }, .setCallback callback .assign)
  | .assign =>
    ({ s with callback := callback },
      .setCallback callback (if callback then .snapshot else .disableTransmitted))
  | .snapshot =>
    ({ s with txInflight := s.pending, listener := .start s.slots },
      .setCallback callback .clearFlags)
  | .clearFlags => ({ s with tc := false, tcf := false }, .setCallback callback .enableTransmitted)
  | .enableTransmitted => ({ s with txbtie := true }, .setCallback callback .enableCancelled)
  | .enableCancelled => ({ s with txbcie := true }, .setCallback callback .enable)
  | .enable => ({ s with ie := true }, .idle)
  | .disableTransmitted => ({ s with txbtie := false }, .setCallback callback .disableCancelled)
  | .disableCancelled => ({ s with txbcie := false }, .idle)

def taskStep (config : Config) (put : ℕ) (expired : Bool) (s : State build) :
    Option (State build) :=
  match s.task with
  | .idle => none
  | .nowait call =>
    match callStep config put s.dev call with
    | (dev, .running call') => some { s with dev := dev, task := .nowait call' }
    | (dev, .refused) => some { s with dev := dev, task := .idle }
    | (dev, .accepted _ _) => some { s with dev := dev, task := .idle }
  | .transmit call =>
    match callStep config put s.dev call with
    | (dev, .running call') => some { s with dev := dev, task := .transmit call' }
    | (dev, .refused) => some { s with dev := dev, task := .idle }
    | (dev, .accepted buffer msg) =>
      some { s with
        dev := dev
        task := .poll buffer msg (s.dev.slots.history buffer).length }
  | .poll buffer msg index =>
    if s.dev.pending buffer then some { s with task := .deadline buffer msg index }
    else some { s with task := .outcome buffer msg index }
  | .deadline buffer msg index =>
    some { s with task := if expired then .abort buffer msg index else .poll buffer msg index }
  | .abort buffer msg index =>
    some { s with
      dev := { s.dev with
        txbcr := Function.update s.dev.txbcr buffer (s.dev.txbcr buffer || s.dev.pending buffer) }
      task := .idle
      returns := s.returns ++ [⟨buffer, index, msg, false⟩]
      timeouts := s.timeouts ++ [⟨buffer, index, msg, pendingEvent s.dev.slots buffer⟩] }
  | .outcome buffer msg index =>
    some { s with
      task := .idle
      returns := s.returns ++ [⟨buffer, index, msg, s.dev.txbto buffer⟩] }
  | .setCallback callback stage =>
    some { s with
      dev := (setCallbackStep s.dev callback stage).1
      task := (setCallbackStep s.dev callback stage).2 }

/-- `_uni_hal_can_irq` and `_uni_hal_can_irq_tx`, outside the callbacks. -/
def isrStep (s : Dev build) : Isr → Option (Dev build × Isr)
  | .idle => none
  | .entry => some (s, .acknowledge (s.tc && s.ie) (s.tcf && s.ie))
  | .acknowledge tc tcf =>
    some ({ s with tc := s.tc && !tc, tcf := s.tcf && !tcf }, .receive (tc || tcf))
  | .receive tx => some (s, if tx then .snapshot else .errors)
  | .snapshot => some (s, .transmitted fun b => s.txInflight b && !s.pending b)
  | .transmitted done =>
    some ({ s with txInflight := fun b => s.txInflight b && !done b },
      .report done s.txbto (List.finRange txBuffers))
  | .report _ _ [] => some (s, .errors)
  | .report done success (b :: todo) =>
    if done b then
      some (s.report b (success b),
        if s.callback then .callback done success todo else .report done success todo)
    else some (s, .report done success todo)
  | .callback done success todo => some (s, .report done success todo)
  | .errors => some (s, .idle)

/-- One step of the system. A frame ends unsent only when it was cancelled, or when its single
attempt failed. -/
def step (config : Config) (s : State build) : Action build → Option (State build)
  | .complete buffer ok =>
    if s.dev.pending buffer && (ok || s.dev.txbcr buffer || !config.autoRetransmission) then
      some { s with dev := s.dev.complete buffer ok }
    else none
  | .setInit init => some { s with dev := { s.dev with init := init } }
  | .abort =>
    some { s with dev := { s.dev with txbcr := fun b => s.dev.txbcr b || s.dev.pending b } }
  | .nowait msg =>
    if s.taskRuns && s.task.isIdle then some { s with task := .nowait (.started msg) } else none
  | .transmit msg =>
    if s.taskRuns && s.task.isIdle then some { s with task := .transmit (.started msg) } else none
  | .setCallback callback =>
    if s.taskRuns && s.task.isIdle then some { s with task := .setCallback callback .disable }
    else none
  | .taskStep put expired =>
    if s.taskRuns && validPut s.dev put then taskStep config put expired s else none
  | .irq => if s.taskRuns then some { s with isr := .entry } else none
  | .callback msg =>
    if s.isr.inCallback && s.call.isNone then some { s with call := some (.started msg) } else none
  | .isrStep put =>
    match s.call with
    | none => (isrStep s.dev s.isr).map fun next => { s with dev := next.1, isr := next.2 }
    | some call =>
      if validPut s.dev put then
        match callStep config put s.dev call with
        | (dev, .running call') => some { s with dev := dev, call := some call' }
        | (dev, .refused) => some { s with dev := dev, call := none }
        | (dev, .accepted _ _) => some { s with dev := dev, call := none }
      else none

/-- After the initialisation: nothing was requested, and no callback is registered. -/
def initial (words : Slot → Element) : State build :=
  { dev :=
      { slots := .fresh words, init := true, txbto := fun _ => false, txbcr := fun _ => false
        tc := false, tcf := false, ie := false, txbtie := false, txbcie := false
        txOk := fun _ => false, txInflight := fun _ => false, callback := false
        listener := .none _ }
    task := .idle, isr := .idle, call := none, returns := [], timeouts := [] }

end UniHal.Can.Fdcan.Transmit
