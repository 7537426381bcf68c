import UniHal.Can.Frame

/-! # Receive mailboxes of bxCAN

The output mailbox of a receive FIFO as the peripheral fills it, and the message that
`_uni_hal_can_irq_rx` makes of it. The peripheral stores the bytes that the frame carried
and leaves the rest of the data registers as they were.
-/

namespace UniHal.Can.Bxcan
open Foundations.BitField

/-- `CAN_RI0R_RTR`, `CAN_RI0R_IDE` and the positions of the identifiers, the same in the receive
and the transmit identifier registers and in the filter registers -/
def identifierRtr : BitVec 32 := BitVec.twoPow 32 1
def identifierIde : BitVec 32 := BitVec.twoPow 32 2
def stidPos : ℕ := 21
def exidPos : ℕ := 3

structure RxMailbox where
  rir : BitVec 32
  rdtr : BitVec 32
  rdlr : BitVec 32
  rdhr : BitVec 32
  deriving DecidableEq, Repr

/-- The message that `_uni_hal_can_irq_rx` makes of a mailbox. -/
def decode (build : Build) (box : RxMailbox) : Msg build.dataSize :=
  let standardId := !anySet box.rir identifierIde
  let dlc := (box.rdtr &&& dlcMask).setWidth 8
  { id := if standardId then box.rir >>> stidPos else box.rir >>> exidPos
    dlc := if dlc.toNat > 8 then 8 else dlc
    data := Vector.ofFn fun i =>
      if i.val < 4 then byteOf box.rdlr i
      else if i.val < 8 then byteOf box.rdhr (i - 4)
      else 0
    standardId := standardId
    remote := anySet box.rir identifierRtr
    fd := false
    brs := false
    esi := false }

def identifierImage (identifier : Identifier) (remote : Bool) : BitVec 32 :=
  (match identifier with
    | .std id => id.setWidth 32 <<< stidPos
    | .ext id => id.setWidth 32 <<< exidPos ||| identifierIde) |||
  (if remote then identifierRtr else 0)

/-- The mailbox after a frame: `matchTime` is the filter match index and the time stamp, `stale`
what the data registers held before. -/
def mailboxOf (frame : Frame) (matchTime : BitVec 24) (stale : ℕ → BitVec 8) : RxMailbox :=
  let byte (i : ℕ) := if i < frame.carried then frame.byte i else stale i
  { rir := identifierImage frame.identifier frame.remote
    rdtr := BitVec.ofNat 32 frame.dlc ||| matchTime.setWidth 32 <<< 8
    rdlr := packBytes (fun _ => True) byte
    rdhr := packBytes (fun _ => True) fun i => byte (4 + i) }

section Fields
variable (identifier : Identifier) (remote : Bool)

theorem anySet_ide : anySet (identifierImage identifier remote) identifierIde =
    match identifier with
    | .std _ => false
    | .ext _ => true := by
  rw [identifierIde, anySet_twoPow (by omega)]
  cases identifier <;> cases remote <;>
    simp [identifierImage, identifierRtr, identifierIde, stidPos, exidPos]

theorem anySet_rtr : anySet (identifierImage identifier remote) identifierRtr = remote := by
  rw [identifierRtr, anySet_twoPow (by omega)]
  cases identifier <;> cases remote <;>
    simp [identifierImage, identifierRtr, identifierIde, stidPos, exidPos]

theorem getLsbD_identifierImage_std (id : BitVec 11) {i : ℕ} (hi : i < 32) :
    (identifierImage (.std id) remote).getLsbD i =
      if 21 ≤ i then id.getLsbD (i - 21) else if i = 1 then remote else false := by
  cases remote <;> simp [identifierImage, identifierRtr, stidPos, hi] <;> grind

theorem getLsbD_identifierImage_ext (id : BitVec 29) {i : ℕ} (hi : i < 32) :
    (identifierImage (.ext id) remote).getLsbD i =
      if 3 ≤ i then id.getLsbD (i - 3) else if i = 2 then true
        else if i = 1 then remote else false := by
  cases remote <;> simp [identifierImage, identifierRtr, identifierIde, exidPos, hi] <;> grind

theorem identifierImage_std (id : BitVec 11) :
    identifierImage (.std id) remote >>> stidPos = id.setWidth 32 := by
  apply BitVec.eq_of_getLsbD_eq
  intro i hi
  cases remote <;> simp [identifierImage, identifierRtr, stidPos, hi] <;> grind

theorem identifierImage_ext (id : BitVec 29) :
    identifierImage (.ext id) remote >>> exidPos = id.setWidth 32 := by
  apply BitVec.eq_of_getLsbD_eq
  intro i hi
  cases remote <;> simp [identifierImage, identifierRtr, identifierIde, exidPos, hi] <;> grind

end Fields

section Frame
variable (build : Build) (frame : Frame) (matchTime : BitVec 24) (stale : ℕ → BitVec 8)

theorem mailboxOf_dlc :
    (mailboxOf frame matchTime stale).rdtr &&& dlcMask = BitVec.ofNat 32 frame.dlc := by
  apply BitVec.eq_of_getLsbD_eq
  intro i hi
  have hhigh (hi4 : 4 ≤ i) : (frame.dlc : ℕ).testBit i = false :=
    Nat.testBit_lt_two_pow (frame.dlc.isLt.trans_le (Nat.pow_le_pow_right two_pos hi4))
  simp [mailboxOf, hi, getElem_ofNat]
  grind

/-- The header fields of the message are those of the frame. -/
theorem decode_received : Received frame (decode build (mailboxOf frame matchTime stale)) where
  standardId := by
    simp only [decode, mailboxOf, anySet_ide]
    cases frame.identifier <;> rfl
  id := by
    simp only [decode, mailboxOf, anySet_ide]
    cases frame.identifier with
    | std id => exact identifierImage_std _ id
    | ext id => exact identifierImage_ext _ id
  remote := by simp only [decode, mailboxOf, anySet_rtr]
  dlc := by
    simp only [decode, mailboxOf_dlc, Frame.length]
    generalize frame.dlc = dlc
    revert dlc
    decide
  fd := rfl
  brs := rfl
  esi := rfl

/-- All eight bytes of the data registers reach the message. -/
theorem decode_byte {i : ℕ} (hi : i < 8) :
    (decode build (mailboxOf frame matchTime stale)).byte i =
      if i < frame.carried then frame.byte i else stale i := by
  have hsize : i < build.dataSize := by
    have : 8 ≤ build.dataSize := by cases build <;> decide
    omega
  simp only [Msg.byte, decode, mailboxOf, Vector.getElem?_eq_getElem hsize, Option.getD_some,
    Vector.getElem_ofFn]
  by_cases hlow : i < 4
  · rw [if_pos hlow, byteOf_packBytes_all _ hlow]
  · rw [if_neg hlow, if_pos hi, byteOf_packBytes_all _ (by omega)]
    congr 2 <;> omega

end Frame

end UniHal.Can.Bxcan
