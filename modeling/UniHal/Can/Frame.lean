import UniHal.Can.Message

/-! # Classic frames on the bus

What both peripherals receive, before either of them puts it into its own registers.
-/

namespace UniHal.Can

inductive Identifier
  | std (id : BitVec 11)
  | ext (id : BitVec 29)
  deriving DecidableEq, Repr

/-- A classic frame. A data length code above 8 means eight bytes. -/
structure Frame where
  identifier : Identifier
  remote : Bool
  dlc : Fin 16
  data : Vector (BitVec 8) 8
  deriving DecidableEq, Repr

def Frame.length (frame : Frame) : ℕ := min frame.dlc 8

/-- The number of data bytes that the frame carries; a remote frame asks for them only. -/
def Frame.carried (frame : Frame) : ℕ := if frame.remote then 0 else frame.length

def Frame.byte (frame : Frame) (i : ℕ) : BitVec 8 := frame.data[i]?.getD 0

/-- What a driver should make of a received frame. -/
structure Received {size : ℕ} (frame : Frame) (msg : Msg size) : Prop where
  standardId : msg.standardId = match frame.identifier with
    | .std _ => true
    | .ext _ => false
  id : msg.id = match frame.identifier with
    | .std id => id.setWidth 32
    | .ext id => id.setWidth 32
  remote : msg.remote = frame.remote
  dlc : msg.dlc = BitVec.ofNat 8 frame.length
  fd : msg.fd = false
  brs : msg.brs = false
  esi : msg.esi = false

/-- Two messages have the same fields and the same first eight data bytes. -/
structure Agree {size size' : ℕ} (msg : Msg size) (msg' : Msg size') : Prop where
  id : msg.id = msg'.id
  dlc : msg.dlc = msg'.dlc
  standardId : msg.standardId = msg'.standardId
  remote : msg.remote = msg'.remote
  fd : msg.fd = msg'.fd
  brs : msg.brs = msg'.brs
  esi : msg.esi = msg'.esi
  data : ∀ i < 8, msg.byte i = msg'.byte i

theorem Received.agree_iff {size size' : ℕ} {frame : Frame} {msg : Msg size} {msg' : Msg size'}
    (h : Received frame msg) (h' : Received frame msg') :
    Agree msg msg' ↔ ∀ i < 8, msg.byte i = msg'.byte i := by
  constructor
  · exact Agree.data
  · intro hdata
    exact {
      id := h.id.trans h'.id.symm
      dlc := h.dlc.trans h'.dlc.symm
      standardId := h.standardId.trans h'.standardId.symm
      remote := h.remote.trans h'.remote.symm
      fd := h.fd.trans h'.fd.symm
      brs := h.brs.trans h'.brs.symm
      esi := h.esi.trans h'.esi.symm
      data := hdata }

end UniHal.Can
