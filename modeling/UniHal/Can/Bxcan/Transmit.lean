import UniHal.Can.Bxcan.TxMailbox
import UniHal.Can.Transmit

/-! # The transmit side of the bxCAN driver, step by step

As on FDCAN one task calls the driver and the interrupts cut in between any two of its
accesses. A mailbox with a request pending takes no writes; the status register keeps the
completion of a mailbox until the interrupt acknowledges it or the next request clears it.
-/

namespace UniHal.Can.Bxcan.Transmit
open Foundations Foundations.Execution

variable {build : Build}

/-- The mailboxes, `TME` as the mailboxes without a request, and the history of each. -/
abbrev TxSlots (build : Build) := Slots Slot (Msg build.dataSize) (Msg build.dataSize) TxMailbox

abbrev txMailboxes : ℕ := 3

structure Dev (build : Build) where
  slots : TxSlots build
  /-- `MSR.INAK` -/
  inak : Bool
  /-- `TSR.RQCP` and `TSR.TXOK` -/
  rqcp : Slot → Bool
  txok : Slot → Bool
  /-- `TSR.ABRQ` -/
  abrq : Slot → Bool
  /-- `IER.TMEIE` -/
  tmeie : Bool
  /-- `status.tx_ok` -/
  txOk : Slot → Bool
  /-- `status.tx_callback` is set -/
  callback : Bool
  listener : Listener (Msg build.dataSize)

namespace Dev

def pending (s : Dev build) (b : Slot) : Bool := s.slots.pending b

/-- No `TME` bit is set. -/
def allPending (s : Dev build) : Bool := (List.finRange txMailboxes).all s.pending

def resetTxOk (s : Dev build) (b : Slot) : Dev build :=
  { s with txOk := Function.update s.txOk b false }

def store (s : Dev build) (b : Slot) (write : TxRegister × BitVec 32) : Dev build :=
  if s.pending b then s
  else { s with slots := s.slots.write b ((s.slots.words b).store write) }

/-- The write that sets `TXRQ`; the request clears the completion of the mailbox. -/
def request (s : Dev build) (b : Slot) (msg : Msg build.dataSize) (tir : BitVec 32) : Dev build :=
  let stored := s.store b (.tir, tir ||| identifierTxrq)
  { stored with
    slots := stored.slots.accept b msg
    rqcp := Function.update s.rqcp b false
    txok := Function.update s.txok b false
    listener := s.listener.record b (.accepted msg) }

def complete (s : Dev build) (b : Slot) (ok : Bool) : Dev build :=
  let frame := sent build (s.slots.words b)
  { s with
    slots := s.slots.finish b ok frame
    rqcp := Function.update s.rqcp b true
    txok := Function.update s.txok b ok
    abrq := Function.update s.abrq b false
    listener := s.listener.record b (.finished ok frame) }

def report (s : Dev build) (b : Slot) (ok : Bool) : Dev build :=
  { s with
    txOk := Function.update s.txOk b ok
    listener := if s.callback then s.listener.report b ok else s.listener }

end Dev

/-- Where a call stands. -/
inductive Call (build : Build)
  /-- at the check that the peripheral is started -/
  | started (msg : Msg build.dataSize)
  /-- at the read of `TSR` -/
  | select (msg : Msg build.dataSize)
  /-- a mailbox is chosen -/
  | reset (mailbox : Slot) (msg : Msg build.dataSize)
  /-- these registers are left to write -/
  | fill (mailbox : Slot) (msg : Msg build.dataSize) (rest : List (TxRegister × BitVec 32))
  /-- `TIR` is read, and is written back with `TXRQ` -/
  | raise (mailbox : Slot) (msg : Msg build.dataSize) (tir : BitVec 32)

inductive Progress (build : Build)
  | running (call : Call build)
  | refused
  | accepted (mailbox : Slot) (msg : Msg build.dataSize)

def Call.slot : Call build → Option Slot
  | .reset mailbox _ | .fill mailbox _ _ | .raise mailbox _ _ => some mailbox
  | _ => none

def mailboxNumber (code : ℕ) : Option Slot :=
  if h : code < txMailboxes then some ⟨code, h⟩ else none

/-- `TSR.CODE` is the number of a free mailbox while at least one is free. -/
def validCode (s : Dev build) (code : ℕ) : Bool :=
  s.allPending || (mailboxNumber code).any fun b => !s.pending b

/-- The mailbox that a call chooses where it reads `TSR`. -/
def choose (code : ℕ) (s : Dev build) : Call build → Option Slot
  | .select _ => if s.allPending then none else mailboxNumber code
  | _ => none

def callStep (code : ℕ) (s : Dev build) : Call build → Dev build × Progress build
  | .started msg =>
    -- bxCAN is a classic CAN controller
    if s.inak || msg.fd then (s, .refused) else (s, .running (.select msg))
  | .select msg =>
    match choose code s (.select msg) with
    | some mailbox => (s, .running (.reset mailbox msg))
    | none => (s, .refused)
  | .reset mailbox msg => (s.resetTxOk mailbox, .running (.fill mailbox msg (mailboxWrites msg)))
  | .fill mailbox msg (write :: rest) =>
    (s.store mailbox write, .running (.fill mailbox msg rest))
  | .fill mailbox msg [] => (s, .running (.raise mailbox msg (s.slots.words mailbox).tir))
  | .raise mailbox msg tir => (s.request mailbox msg tir, .accepted mailbox msg)

/-- The accesses of `uni_hal_can_set_tx_callback`. -/
inductive Stage
  | disable
  | assign
  | clearFlags
  | enable
  deriving DecidableEq

/-- Where the task stands. After the request of `uni_hal_can_transmit` it knows its mailbox;
`index` records where the history of the mailbox has the frame. -/
inductive Task (build : Build)
  | idle
  | nowait (call : Call build)
  | transmit (call : Call build)
  | poll (mailbox : Slot) (msg : Msg build.dataSize) (index : ℕ)
  | deadline (mailbox : Slot) (msg : Msg build.dataSize) (index : ℕ)
  | abort (mailbox : Slot) (msg : Msg build.dataSize) (index : ℕ)
  /-- at the read of `TXOK` -/
  | outcome (mailbox : Slot) (msg : Msg build.dataSize) (index : ℕ)
  /-- at the read of `tx_ok` -/
  | kept (mailbox : Slot) (msg : Msg build.dataSize) (index : ℕ)
  | setCallback (callback : Bool) (stage : Stage)

/-- Where the interrupts stand, which all have the same priority. In `callback` and `errors`
callbacks run, which may queue frames. -/
inductive Isr
  | idle
  /-- at the read of `TSR` -/
  | entry
  | acknowledge (done success : Slot → Bool)
  | report (done success : Slot → Bool) (todo : List Slot)
  | callback (done success : Slot → Bool) (todo : List Slot)
  /-- in a receive or status change interrupt -/
  | errors

structure State (build : Build) where
  dev : Dev build
  task : Task build
  isr : Isr
  /-- the transmit interrupt is pending in the interrupt controller -/
  txPending : Bool
  /-- a call that a callback is making -/
  call : Option (Call build)
  returns : List (Return (Msg build.dataSize))
  timeouts : List (Timeout (Msg build.dataSize))

inductive Action (build : Build)
  | complete (mailbox : Slot) (ok : Bool)
  | setInak (inak : Bool)
  | abort
  | nowait (msg : Msg build.dataSize)
  | transmit (msg : Msg build.dataSize)
  | setCallback (callback : Bool)
  | taskStep (code : ℕ) (expired : Bool)
  | pend
  | txIrq
  | errorIrq
  | callback (msg : Msg build.dataSize)
  | isrStep (code : ℕ)

def Task.call : Task build → Option (Call build)
  | .nowait call | .transmit call => some call
  | _ => none

def Task.isIdle : Task build → Bool
  | .idle => true
  | _ => false

def Isr.isIdle : Isr → Bool
  | .idle => true
  | _ => false

theorem Isr.eq_idle {isr : Isr} (h : isr.isIdle = true) : isr = .idle := by
  cases isr with
  | idle => rfl
  | _ => cases h

def Isr.inCallback : Isr → Bool
  | .callback _ _ _ | .errors => true
  | _ => false

def State.taskRuns (s : State build) : Bool := s.isr.isIdle && s.call.isNone

/-- `uni_hal_can_set_tx_callback` -/
def setCallbackStep (s : Dev build) (callback : Bool) : Stage → Dev build × Task build
  | .disable =>
    ({ s with tmeie := false, listener := s.listener.stop }, .setCallback callback .assign)
  | .assign =>
    ({ s with callback := callback }, if callback then .setCallback callback .clearFlags else .idle)
  | .clearFlags =>
    ({ s with rqcp := fun _ => false, txok := fun _ => false, listener := .start s.slots },
      .setCallback callback .enable)
  | .enable => ({ s with tmeie := true }, .idle)

def taskStep (code : ℕ) (expired : Bool) (s : State build) : Option (State build) :=
  match s.task with
  | .idle => none
  | .nowait call =>
    match callStep code s.dev call with
    | (dev, .running call') => some { s with dev := dev, task := .nowait call' }
    | (dev, .refused) => some { s with dev := dev, task := .idle }
    | (dev, .accepted _ _) => some { s with dev := dev, task := .idle }
  | .transmit call =>
    match callStep code s.dev call with
    | (dev, .running call') => some { s with dev := dev, task := .transmit call' }
    | (dev, .refused) => some { s with dev := dev, task := .idle }
    | (dev, .accepted mailbox msg) =>
      some { s with
        dev := dev
        task := .poll mailbox msg (s.dev.slots.history mailbox).length }
  | .poll mailbox msg index =>
    if s.dev.pending mailbox then some { s with task := .deadline mailbox msg index }
    else some { s with task := .outcome mailbox msg index }
  | .deadline mailbox msg index =>
    some { s with task := if expired then .abort mailbox msg index else .poll mailbox msg index }
  | .abort mailbox msg index =>
    some { s with
      dev := { s.dev with
        abrq := Function.update s.dev.abrq mailbox (s.dev.abrq mailbox || s.dev.pending mailbox) }
      task := .idle
      returns := s.returns ++ [⟨mailbox, index, msg, false⟩]
      timeouts := s.timeouts ++ [⟨mailbox, index, msg, pendingEvent s.dev.slots mailbox⟩] }
  | .outcome mailbox msg index =>
    if s.dev.txok mailbox then
      some { s with task := .idle, returns := s.returns ++ [⟨mailbox, index, msg, true⟩] }
    else some { s with task := .kept mailbox msg index }
  | .kept mailbox msg index =>
    some { s with
      task := .idle
      returns := s.returns ++ [⟨mailbox, index, msg, s.dev.txOk mailbox⟩] }
  | .setCallback callback stage =>
    some { s with
      dev := (setCallbackStep s.dev callback stage).1
      task := (setCallbackStep s.dev callback stage).2 }

/-- `_uni_hal_can_irq_tx`, outside the callbacks. -/
def isrStep (s : Dev build) : Isr → Option (Dev build × Isr)
  | .idle => none
  | .entry => some (s, .acknowledge s.rqcp s.txok)
  | .acknowledge done success =>
    -- writing `RQCP` clears `TXOK` of the mailbox with it
    some ({ s with rqcp := fun b => s.rqcp b && !done b, txok := fun b => s.txok b && !done b },
      .report done success (List.finRange txMailboxes))
  | .report _ _ [] => some (s, .idle)
  | .report done success (b :: todo) =>
    if done b then
      some (s.report b (success b),
        if s.callback then .callback done success todo else .report done success todo)
    else some (s, .report done success todo)
  | .callback done success todo => some (s, .report done success todo)
  | .errors => some (s, .idle)

/-- One step of the system. A frame ends unsent only when it was aborted, or when its single
attempt failed. -/
def step (config : Config) (s : State build) : Action build → Option (State build)
  | .complete mailbox ok =>
    if s.dev.pending mailbox && (ok || s.dev.abrq mailbox || !config.autoRetransmission) then
      some { s with dev := s.dev.complete mailbox ok }
    else none
  | .setInak inak => some { s with dev := { s.dev with inak := inak } }
  | .abort =>
    some { s with dev := { s.dev with abrq := fun b => s.dev.abrq b || s.dev.pending b } }
  | .nowait msg =>
    if s.taskRuns && s.task.isIdle then some { s with task := .nowait (.started msg) } else none
  | .transmit msg =>
    if s.taskRuns && s.task.isIdle then some { s with task := .transmit (.started msg) } else none
  | .setCallback callback =>
    if s.taskRuns && s.task.isIdle then some { s with task := .setCallback callback .disable }
    else none
  | .taskStep code expired =>
    if s.taskRuns && validCode s.dev code then taskStep code expired s else none
  | .pend =>
    if s.dev.tmeie && (List.finRange txMailboxes).any s.dev.rqcp then
      some { s with txPending := true }
    else none
  | .txIrq =>
    -- what is pending stays so when its cause is gone
    if s.taskRuns && s.txPending then some { s with isr := .entry, txPending := false } else none
  | .errorIrq => if s.taskRuns then some { s with isr := .errors } else none
  | .callback msg =>
    if s.isr.inCallback && s.call.isNone then some { s with call := some (.started msg) } else none
  | .isrStep code =>
    match s.call with
    | none => (isrStep s.dev s.isr).map fun next => { s with dev := next.1, isr := next.2 }
    | some call =>
      if validCode s.dev code then
        match callStep code s.dev call with
        | (dev, .running call') => some { s with dev := dev, call := some call' }
        | (dev, .refused) => some { s with dev := dev, call := none }
        | (dev, .accepted _ _) => some { s with dev := dev, call := none }
      else none

/-- After the initialisation: nothing was requested, and no callback is registered. -/
def initial (words : Slot → TxMailbox) : State build :=
  { dev :=
      { slots := .fresh words, inak := true, rqcp := fun _ => false, txok := fun _ => false
        abrq := fun _ => false, tmeie := false, txOk := fun _ => false, callback := false
        listener := .none _ }
    task := .idle, isr := .idle, txPending := false, call := none, returns := [], timeouts := [] }

end UniHal.Can.Bxcan.Transmit
