import UniHal.Can.Bxcan.TxMailbox
import UniHal.Can.ReceiveAgreement

/-! # From one driver to the other

A message that one of the drivers has put into its registers goes over the bus as a frame, and
either driver makes a message of it. The two ends share nothing but the frame: the registers they
use for it, and what these held before, do not show.
-/

namespace UniHal.Can
open Foundations.BitField

variable {build build' : Build}

theorem mod_lt_dlcs (n : ℕ) : n % 16 < 16 := Nat.mod_lt n (by decide)

def dlcBits (n : ℕ) : Fin 16 := ⟨n % 16, mod_lt_dlcs n⟩

theorem dlcBits_val {n : ℕ} (h : n < 16) : (dlcBits n).val = n := Nat.mod_eq_of_lt h

def Msg.frame {size : ℕ} (msg : Msg size) : Frame :=
  let dlc := dlcBits (min msg.dlc.toNat 8)
  { identifier := if msg.standardId then .std (msg.id.setWidth 11) else .ext (msg.id.setWidth 29)
    remote := msg.remote
    dlc := dlc
    data := Vector.ofFn fun i => if i < dlc.val ∧ msg.remote = false then msg.byte i else 0 }

theorem setWidth_and_stdIdMask (id : BitVec 32) :
    (id &&& stdIdMask).setWidth 11 = id.setWidth 11 := by
  apply BitVec.eq_of_getLsbD_eq
  intro i hi
  simp [hi]

theorem setWidth_and_extIdMask (id : BitVec 32) :
    (id &&& extIdMask).setWidth 29 = id.setWidth 29 := by
  apply BitVec.eq_of_getLsbD_eq
  intro i hi
  simp [hi]

namespace Bxcan

def frameOf (box : TxMailbox) : Frame :=
  let remote := anySet box.tir identifierRtr
  let dlc := dlcBits (box.tdtr &&& dlcMask).toNat
  { identifier :=
      if anySet box.tir identifierIde then .ext ((box.tir >>> exidPos).setWidth 29)
      else .std ((box.tir >>> stidPos).setWidth 11)
    remote := remote
    dlc := dlc
    data := Vector.ofFn fun i =>
      if i < dlc.val ∧ remote = false then
        if i.val < 4 then byteOf box.tdlr i else byteOf box.tdhr (i - 4)
      else 0 }

def requested (msg : Msg build.dataSize) (box : TxMailbox) : TxMailbox :=
  (mailboxFor msg box).store (.tir, (mailboxFor msg box).tir ||| identifierTxrq)

theorem frameLength_eq (msg : Msg build.dataSize) : frameLength msg = min msg.dlc.toNat 8 := by
  simp only [frameLength]
  split <;> omega

theorem requested_dlc (msg : Msg build.dataSize) (box : TxMailbox) :
    ((requested msg box).tdtr &&& dlcMask).toNat = min msg.dlc.toNat 8 := by
  have hle := frameLength_le msg
  rw [← frameLength_eq]
  change (BitVec.ofNat 32 (frameLength msg) &&& dlcMask).toNat = frameLength msg
  generalize frameLength msg = length at hle ⊢
  revert length
  decide

/-- Whatever the mailbox held before, the frame is the one of the message. -/
theorem frameOf_requested (msg : Msg build.dataSize) (box : TxMailbox) :
    frameOf (requested msg box) = msg.frame := by
  have hide : anySet (requested msg box).tir identifierIde = !msg.standardId :=
    identifierWord_ide msg
  have hrtr : anySet (requested msg box).tir identifierRtr = msg.remote := identifierWord_rtr msg
  simp only [frameOf, hide, hrtr, requested_dlc, Msg.frame]
  congr 1
  · cases hs : msg.standardId with
    | true =>
      have hid : (requested msg box).tir >>> stidPos = msg.id &&& stdIdMask :=
        identifierWord_std msg hs
      simp only [hid, Bool.not_true, Bool.false_eq_true, if_false, if_true]
      rw [setWidth_and_stdIdMask]
    | false =>
      have hid : (requested msg box).tir >>> exidPos = msg.id &&& extIdMask :=
        identifierWord_ext msg hs
      simp only [hid, Bool.not_false, Bool.false_eq_true, if_false, if_true]
      rw [setWidth_and_extIdMask]
  · congr 1
    funext i
    have hlow : (requested msg box).tdlr = packBytes (fun _ => True) msg.byte := rfl
    have hhigh : (requested msg box).tdhr = packBytes (fun _ => True) fun i => msg.byte (4 + i) :=
      rfl
    by_cases hi : i.val < 4
    · rw [if_pos hi, hlow, byteOf_packBytes_all _ hi]
    · rw [if_neg hi, hhigh, byteOf_packBytes_all _ (by omega)]
      congr 2
      omega

end Bxcan

namespace Fdcan

/-- The classic frame that the peripheral sends from an element. -/
def frameOf (element : Element) : Frame :=
  let remote := anySet (element 0) elementRtr
  let dlc := dlcBits ((element 1 >>> elementDlcPos) &&& dlcMask).toNat
  { identifier :=
      if anySet (element 0) elementXtd then .ext ((element 0).setWidth 29)
      else .std ((element 0 >>> elementStdPos).setWidth 11)
    remote := remote
    dlc := dlc
    data := Vector.ofFn fun i =>
      if i < dlc.val ∧ remote = false then byteOf (element (headerWords + i / 4)) (i % 4) else 0 }

/-- Whatever the element held before, the frame is the one of the message. -/
theorem frameOf_writeElement {config : Config} {msg : Msg build.dataSize} {length dlc : ℕ}
    (h : frameLength config msg = some (length, dlc)) (hclassic : msg.fd = false)
    (element : Element) : frameOf (writeElement config msg length dlc element) = msg.frame := by
  obtain ⟨hlength, hdlc, hcode, -, -⟩ := frameLength_cases h
  rw [hclassic, if_neg Bool.false_ne_true] at hlength
  have hle : length ≤ 8 := by omega
  have heq : dlc = length := by rw [hdlc, hclassic, dlcFromLength, if_pos hle]
  have hdlc16 : dlc < 16 := by omega
  have hxtd : anySet (identifierWord msg) elementXtd = !msg.standardId := by
    rw [elementXtd, anySet_twoPow (by omega), identifierWord_xtd]
  have hrtr : anySet (identifierWord msg) elementRtr = msg.remote := by
    rw [elementRtr, anySet_twoPow (by omega), identifierWord_rtr]
  have hword : ((writeElement config msg length dlc element 1 >>> elementDlcPos) &&&
      dlcMask).toNat = min msg.dlc.toNat 8 := by
    rw [writeElement_one, controlWord_dlc _ _ _ hdlc16, heq, hlength]
  simp only [frameOf, writeElement_zero, hword, hxtd, hrtr, Msg.frame]
  congr 1
  · cases hs : msg.standardId with
    | true =>
      have hid : (identifierWord msg >>> elementStdPos).setWidth 11 = msg.id.setWidth 11 := by
        rw [← setWidth_and_stdIdMask, identifierWord_std msg hs, setWidth_and_stdIdMask]
      simp only [hid, Bool.not_true, Bool.false_eq_true, if_false, if_true]
    | false =>
      have hid : (identifierWord msg).setWidth 29 = msg.id.setWidth 29 := by
        rw [← setWidth_and_extIdMask, identifierWord_ext msg hs, setWidth_and_extIdMask]
      simp only [hid, Bool.not_false, Bool.false_eq_true, if_false, if_true]
  · congr 1
    funext i
    by_cases hin : i.val < (dlcBits (min msg.dlc.toNat 8)).val ∧ msg.remote = false
    · have hi : i.val < length := by
        have hval := hin.1
        rw [dlcBits_val (by omega)] at hval
        omega
      rw [if_pos hin, if_pos hin, byteOf_writeElement config msg length dlc element hi]
    · rw [if_neg hin, if_neg hin]

end Fdcan

/-- One of the drivers has put the message into its registers, and the peripheral sends the
frame. -/
inductive Sends (msg : Msg build.dataSize) : Frame → Prop
  | bxcan (box : Bxcan.TxMailbox) : Sends msg (Bxcan.frameOf (Bxcan.requested msg box))
  | fdcan (config : Config) (s s' : Fdcan.TxState) (buffer : Slot)
      (h : Fdcan.queue config s msg = (some buffer, s')) :
      Sends msg (Fdcan.frameOf (s'.ram.txElement build config.inst buffer))

/-- One of the drivers makes the message of a received frame; `stale` is what the registers held
behind the data. -/
inductive Receives (frame : Frame) (stale : ℕ → BitVec 8) : Msg build'.dataSize → Prop
  | bxcan (matchTime : BitVec 24) :
      Receives frame stale (Bxcan.decode build' (Bxcan.mailboxOf frame matchTime stale))
  | fdcan (belowId : BitVec 18) (filter : BitVec 8) (timestamp : BitVec 16) :
      Receives frame stale
        (Fdcan.decode build' (Fdcan.rxElementOf frame belowId filter timestamp stale))

/-- The message arrives: all its fields, and the data that its frame carries. -/
structure Arrives {size size' : ℕ} (msg : Msg size) (msg' : Msg size') : Prop where
  id : msg'.id = msg.id &&& if msg.standardId then stdIdMask else extIdMask
  standardId : msg'.standardId = msg.standardId
  remote : msg'.remote = msg.remote
  dlc : msg'.dlc = BitVec.ofNat 8 (min msg.dlc.toNat 8)
  format : msg'.fd = false ∧ msg'.brs = false ∧ msg'.esi = false
  data : ∀ i < msg.frame.carried, msg'.byte i = msg.byte i

namespace Fdcan

theorem queue_element {config : Config} {s s' : TxState} {msg : Msg build.dataSize} {buffer : Slot}
    (h : queue config s msg = (some buffer, s')) :
    ∃ length dlc, frameLength config msg = some (length, dlc) ∧ ∀ j < elementWords build,
      s'.ram.txElement build config.inst buffer j =
        writeElement config msg length dlc (s.ram.txElement build config.inst buffer) j := by
  simp only [queue] at h
  by_cases hinit : s.init = true
  · simp [hinit] at h
  · cases hsel : selectBuffer config s with
    | none => simp [hinit, hsel] at h
    | some chosen =>
      cases hlen : frameLength config msg with
      | none => simp [hinit, hsel, hlen] at h
      | some lengths =>
        obtain ⟨length, dlc⟩ := lengths
        simp only [hinit, hsel, hlen, Bool.false_eq_true, if_false, Prod.mk.injEq,
          Option.some.injEq] at h
        obtain ⟨rfl, rfl⟩ := h
        exact ⟨length, dlc, rfl, txElement_stores (elementWrites_bound hlen) fun _ _ => rfl⟩

/-- The peripheral looks at nothing outside the element. -/
theorem frameOf_congr {element element' : Element}
    (h : ∀ j < elementWords build, element j = element' j) :
    frameOf element = frameOf element' := by
  have hwords : 4 ≤ elementWords build := by cases build <;> decide
  have h0 := h 0 (by omega)
  have h1 := h 1 (by omega)
  simp only [frameOf, h0, h1]
  congr 1
  apply Vector.ext
  intro i hi
  have hi' : headerWords + i / 4 < elementWords build := by
    simp only [headerWords]
    omega
  simp only [Vector.getElem_ofFn, h _ hi']

end Fdcan

theorem Sends.eq_frame {msg : Msg build.dataSize} (hclassic : msg.fd = false) {frame : Frame}
    (h : Sends msg frame) : frame = msg.frame := by
  cases h with
  | bxcan box => exact Bxcan.frameOf_requested msg box
  | fdcan config s s' buffer h =>
    obtain ⟨length, dlc, hlength, helement⟩ := Fdcan.queue_element h
    rw [Fdcan.frameOf_congr helement, Fdcan.frameOf_writeElement hlength hclassic]

/-- Neither does it matter for the fields and the data which driver receives it. -/
theorem Receives.received {frame : Frame} {stale : ℕ → BitVec 8} {msg' : Msg build'.dataSize}
    (h : Receives frame stale msg') :
    Received frame msg' ∧ ∀ i < 8, i < frame.carried → msg'.byte i = frame.byte i := by
  cases h with
  | bxcan matchTime =>
    refine ⟨Bxcan.decode_received .., fun i hi hin => ?_⟩
    rw [Bxcan.decode_byte _ _ _ _ hi, if_pos hin]
  | fdcan belowId filter timestamp =>
    refine ⟨Fdcan.decode_received .., fun i hi hin => ?_⟩
    rw [Fdcan.decode_byte _ _ _ _ _ _ hi, if_pos hin]

theorem setWidth_std (id : BitVec 32) : (id.setWidth 11).setWidth 32 = id &&& stdIdMask := by
  apply BitVec.eq_of_getLsbD_eq
  intro i hi
  simp [hi]
  grind

theorem setWidth_ext (id : BitVec 32) : (id.setWidth 29).setWidth 32 = id &&& extIdMask := by
  apply BitVec.eq_of_getLsbD_eq
  intro i hi
  simp [hi]
  grind

section Frame
variable {size : ℕ} (msg : Msg size)

theorem Msg.frame_dlc : msg.frame.dlc.val = min msg.dlc.toNat 8 := dlcBits_val (by omega)

theorem Msg.frame_length : msg.frame.length = min msg.dlc.toNat 8 := by
  rw [Frame.length, msg.frame_dlc]
  omega

theorem Msg.frame_carried :
    msg.frame.carried = if msg.remote then 0 else min msg.dlc.toNat 8 := by
  rw [Frame.carried, msg.frame_length]
  rfl

theorem Msg.frame_byte {i : ℕ} (hi : i < msg.frame.carried) : msg.frame.byte i = msg.byte i := by
  rw [msg.frame_carried] at hi
  split_ifs at hi with hr
  · exact absurd hi (Nat.not_lt_zero i)
  · have hi8 : i < 8 := by omega
    have hin : i < msg.frame.dlc.val ∧ msg.remote = false := by
      rw [msg.frame_dlc]
      exact ⟨hi, Bool.eq_false_of_not_eq_true hr⟩
    simp only [Frame.byte, Vector.getElem?_eq_getElem hi8, Option.getD_some]
    simp only [Msg.frame, Vector.getElem_ofFn]
    exact if_pos hin

end Frame

theorem Receives.arrives {size : ℕ} {msg : Msg size} {stale : ℕ → BitVec 8}
    {msg' : Msg build'.dataSize} (h : Receives msg.frame stale msg') : Arrives msg msg' := by
  obtain ⟨hreceived, hbytes⟩ := h.received
  refine ⟨?_, ?_, hreceived.remote, ?_, ⟨hreceived.fd, hreceived.brs, hreceived.esi⟩, ?_⟩
  · rw [hreceived.id, Msg.frame]
    cases msg.standardId with
    | true => exact setWidth_std msg.id
    | false => exact setWidth_ext msg.id
  · rw [hreceived.standardId, Msg.frame]
    cases msg.standardId <;> rfl
  · rw [hreceived.dlc, msg.frame_length]
  · intro i hi
    have hcarried : msg.frame.carried ≤ 8 := by
      rw [msg.frame_carried]
      split <;> omega
    rw [hbytes i (by omega) hi, msg.frame_byte hi]

/-- A classic message arrives over the bus, whichever of the drivers sends it and whichever
receives it, and whatever their registers held before. -/
theorem arrives_of_sends {msg : Msg build.dataSize} (hclassic : msg.fd = false) {frame : Frame}
    (hsends : Sends msg frame) {stale : ℕ → BitVec 8} {msg' : Msg build'.dataSize}
    (hreceives : Receives frame stale msg') : frame = msg.frame ∧ Arrives msg msg' := by
  obtain rfl := hsends.eq_frame hclassic
  exact ⟨rfl, hreceives.arrives⟩

def threeBytes : Msg Build.classic.dataSize :=
  { Msg.zero Build.classic.dataSize with
    id := 0x1234567, dlc := 3, data := Vector.replicate Build.classic.dataSize 0xA5 }

theorem arrives_of_sends_threeBytes :
    Bxcan.frameOf (Bxcan.requested threeBytes ⟨0xFFFFFFFF, 0, 0, 0⟩) = threeBytes.frame ∧
      Arrives threeBytes (Fdcan.decode .fd (Fdcan.rxElementOf
        (Bxcan.frameOf (Bxcan.requested threeBytes ⟨0xFFFFFFFF, 0, 0, 0⟩)) 0 0 0 fun _ => 0xFF)) :=
  arrives_of_sends rfl (.bxcan _) (.fdcan 0 0 0)

end UniHal.Can
