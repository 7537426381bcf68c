import UniHal.Can.Bxcan.RxFifo
import UniHal.Can.Bxcan.TransmitOwnership
import UniHal.Can.Fdcan.RxFifo
import UniHal.Can.Fdcan.TransmitOwnership
import UniHal.Can.Wire
import UniHal.Foundations.Broadcast

/-! # A classic CAN bus with nodes of both families

Every node runs its transmit and its receive side, step by step and in any order. The bus takes
the frame of any pending slot, and any of the other nodes receive it, into either FIFO. Whether
the sender gets to know that the frame has gone out is left open: a frame whose end is disturbed
is received by some nodes and sent again.
-/

namespace UniHal.Can
open Foundations Foundations.Broadcast

/-- How a node receives a frame: the FIFO that its filters name, and what the peripheral writes
beside the frame. -/
structure Receipt where
  fifo : FifoNum
  stale : ℕ → BitVec 8
  /-- the filter and the time stamp of bxCAN -/
  matchTime : BitVec 24
  /-- the bits below a standard identifier, the filter and the time stamp of FDCAN -/
  belowId : BitVec 18
  filter : BitVec 8
  timestamp : BitVec 16

def RxAction.isOwn {E : Type} : RxAction E → Bool
  | .arrive _ _ => false
  | _ => true

structure Transmitter (M : Type) where
  State : Type
  Action : Type
  step : State → Action → Option State
  /-- The frame of a slot has gone out. -/
  sent : Slot → Action
  isOwn : Action → Bool
  /-- The frame of a pending slot. -/
  offer : State → Slot → Option Frame
  /-- The driver has accepted the message at some time. -/
  accepted : State → M → Prop

def Fdcan.Transmit.Action.isOwn {build : Build} : Fdcan.Transmit.Action build → Bool
  | .complete _ ok => !ok
  | _ => true

def Bxcan.Transmit.Action.isOwn {build : Build} : Bxcan.Transmit.Action build → Bool
  | .complete _ ok => !ok
  | _ => true

def Fdcan.transmitter (build : Build) (config : Config) : Transmitter (Msg build.dataSize) where
  State := Fdcan.Transmit.State build
  Action := Fdcan.Transmit.Action build
  step := Fdcan.Transmit.step config
  sent b := .complete b true
  isOwn := Fdcan.Transmit.Action.isOwn
  offer s b :=
    let element := s.dev.slots.words b
    if s.dev.pending b && !Foundations.BitField.anySet (element 1) Fdcan.elementFdf then
      some (Fdcan.frameOf element)
    else none
  accepted s msg := ∃ b, .accepted msg ∈ s.dev.slots.history b

def Bxcan.transmitter (build : Build) (config : Config) : Transmitter (Msg build.dataSize) where
  State := Bxcan.Transmit.State build
  Action := Bxcan.Transmit.Action build
  step := Bxcan.Transmit.step config
  sent b := .complete b true
  isOwn := Bxcan.Transmit.Action.isOwn
  offer s b := if s.dev.pending b then some (Bxcan.frameOf (s.dev.slots.words b)) else none
  accepted s msg := ∃ b, .accepted msg ∈ s.dev.slots.history b

/-- Both sides of a node. -/
structure Node (T X : Type) where
  tx : T
  rx : X

inductive NodeAction (A E : Type)
  | transmit (action : A)
  | receive (action : RxAction E)

section Node
variable {M F Q Index E : Type} [HwFifo F Index E M] [RxQueue Q M]

def Transmitter.nodeStep (transmitter : Transmitter M)
    (s : Node transmitter.State (RxState F Q Index M)) :
    NodeAction transmitter.Action E → Option (Node transmitter.State (RxState F Q Index M))
  | .transmit action =>
    if transmitter.isOwn action then
      (transmitter.step s.tx action).map fun tx => { s with tx := tx }
    else none
  | .receive action =>
    if action.isOwn then (s.rx.step action).map fun rx => { s with rx := rx } else none

def RxState.hear (s : RxState F Q Index M) (fifo : FifoNum) (element : E) : RxState F Q Index M :=
  { s with fifos := Function.update s.fifos fifo (HwFifo.arrive (s.fifos fifo) element) }

variable (F Q) in
/-- A node on the bus; `element` is what its peripheral makes of a frame. -/
def Transmitter.party (transmitter : Transmitter M) (element : Frame → Receipt → E) :
    Party Frame Receipt where
  State := Node transmitter.State (RxState F Q Index M)
  Action := NodeAction transmitter.Action E
  Port := Slot
  step := transmitter.nodeStep
  offer s := transmitter.offer s.tx
  sent s b := (transmitter.step s.tx (transmitter.sent b)).map fun tx => { s with tx := tx }
  take s frame receipt := { s with rx := s.rx.hear receipt.fifo (element frame receipt) }

end Node

def Fdcan.rxElementFor (frame : Frame) (receipt : Receipt) : Fdcan.Element :=
  Fdcan.rxElementOf frame receipt.belowId receipt.filter receipt.timestamp receipt.stale

def Bxcan.rxMailboxFor (frame : Frame) (receipt : Receipt) : Bxcan.RxMailbox :=
  Bxcan.mailboxOf frame receipt.matchTime receipt.stale

structure ReceiveQueue (M : Type) : Type 1 where
  Q : Type
  [rxQueue : RxQueue Q M]
  start : Q
  items_start : RxQueue.items start = []

attribute [instance] ReceiveQueue.rxQueue

/-- A node after its initialisation: its driver and configuration, what the transmit registers
hold from before, and a receive side where nothing has arrived yet. -/
inductive Setup : Type 1
  | fdcan (build : Build) (config : Config) (words : Slot → Fdcan.Element)
    (fifos : FifoNum → Fdcan.RxFifo build) (hfifos : ∀ g, (fifos g).fillLevel = 0)
    (queue : ReceiveQueue (Msg build.dataSize))
  | bxcan (build : Build) (config : Config) (words : Slot → Bxcan.TxMailbox)
    (fifos : FifoNum → Bxcan.RxFifo build) (hfifos : ∀ g, (fifos g).mailboxes = [])
    (queue : ReceiveQueue (Msg build.dataSize))

namespace Setup

def size : Setup → ℕ
  | .fdcan build .. => build.dataSize
  | .bxcan build .. => build.dataSize

def party : Setup → Party Frame Receipt
  | .fdcan build config _ _ _ queue =>
    (Fdcan.transmitter build config).party (Fdcan.RxFifo build) queue.Q Fdcan.rxElementFor
  | .bxcan build config _ _ _ queue =>
    (Bxcan.transmitter build config).party (Bxcan.RxFifo build) queue.Q Bxcan.rxMailboxFor

def start : (setup : Setup) → setup.party.State
  | .fdcan _ _ words fifos _ queue => ⟨Fdcan.Transmit.initial words, .initial fifos queue.start⟩
  | .bxcan _ _ words fifos _ queue => ⟨Bxcan.Transmit.initial words, .initial fifos queue.start⟩

def accepted : (setup : Setup) → setup.party.State → Msg setup.size → Prop
  | .fdcan build config .., s => (Fdcan.transmitter build config).accepted s.tx
  | .bxcan build config .., s => (Bxcan.transmitter build config).accepted s.tx

/-- What `uni_hal_can_receive` has returned. -/
def returned : (setup : Setup) → setup.party.State → List (Msg setup.size)
  | .fdcan .., s => s.rx.returned
  | .bxcan .., s => s.rx.returned

def KeepsApart : (setup : Setup) → setup.party.State → setup.party.Action → Prop
  | .fdcan _ config .., s, .transmit action => Fdcan.Transmit.KeepsApart config s.tx action
  | .fdcan .., _, .receive _ => True
  | .bxcan .., s, .transmit action => Bxcan.Transmit.KeepsApart s.tx action
  | .bxcan .., _, .receive _ => True

end Setup

end UniHal.Can
