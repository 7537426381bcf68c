import UniHal.Can.Bxcan.Mailbox

/-! # Transmit mailboxes of bxCAN

`_uni_hal_can_queue` writes the four registers of a mailbox, in the same layout as those of a
receive mailbox, and sets the request bit last. What the peripheral sends then is the message
as it goes over the bus.
-/

namespace UniHal.Can.Bxcan
open Foundations.BitField

/-- `CAN_TI0R_TXRQ` -/
def identifierTxrq : BitVec 32 := BitVec.twoPow 32 0

/-- The registers of a transmit mailbox. -/
structure TxMailbox where
  tir : BitVec 32
  tdtr : BitVec 32
  tdlr : BitVec 32
  tdhr : BitVec 32
  deriving DecidableEq, Repr

inductive TxRegister
  | tir
  | tdtr
  | tdlr
  | tdhr
  deriving DecidableEq, Repr

def TxMailbox.store (box : TxMailbox) (write : TxRegister × BitVec 32) : TxMailbox :=
  match write.1 with
  | .tir => { box with tir := write.2 }
  | .tdtr => { box with tdtr := write.2 }
  | .tdlr => { box with tdlr := write.2 }
  | .tdhr => { box with tdhr := write.2 }

variable {build : Build}

def identifierWord (msg : Msg build.dataSize) : BitVec 32 :=
  (if msg.standardId then (msg.id &&& stdIdMask) <<< stidPos
    else (msg.id &&& extIdMask) <<< exidPos ||| identifierIde) |||
  (if msg.remote then identifierRtr else 0)

def frameLength (msg : Msg build.dataSize) : ℕ := if msg.dlc.toNat ≤ 8 then msg.dlc.toNat else 8

/-- The writes of `_uni_hal_can_queue` before the request, in order. -/
def mailboxWrites (msg : Msg build.dataSize) : List (TxRegister × BitVec 32) :=
  [(.tir, identifierWord msg), (.tdtr, BitVec.ofNat 32 (frameLength msg)),
    (.tdlr, packBytes (fun _ => True) msg.byte),
    (.tdhr, packBytes (fun _ => True) fun i => msg.byte (4 + i))]

def sent (build : Build) (box : TxMailbox) : Msg build.dataSize :=
  let standardId := !anySet box.tir identifierIde
  let remote := anySet box.tir identifierRtr
  let length := min (box.tdtr &&& dlcMask).toNat 8
  { id := if standardId then box.tir >>> stidPos else box.tir >>> exidPos
    dlc := BitVec.ofNat 8 length
    data := Vector.ofFn fun i =>
      if i < length ∧ remote = false then
        if i.val < 4 then byteOf box.tdlr i else byteOf box.tdhr (i - 4)
      else 0
    standardId := standardId
    remote := remote
    fd := false
    brs := false
    esi := false }

def canonical (msg : Msg build.dataSize) : Msg build.dataSize :=
  { id := msg.id &&& if msg.standardId then stdIdMask else extIdMask
    dlc := BitVec.ofNat 8 (frameLength msg)
    data := Vector.ofFn fun i =>
      if i < frameLength msg ∧ msg.remote = false then msg.byte i else 0
    standardId := msg.standardId
    remote := msg.remote
    fd := false
    brs := false
    esi := false }

section Fields
variable (msg : Msg build.dataSize)

theorem identifierWord_ide :
    anySet (identifierWord msg ||| identifierTxrq) identifierIde = !msg.standardId := by
  rw [identifierIde, anySet_twoPow (by omega)]
  cases hs : msg.standardId <;> cases hr : msg.remote <;>
    simp [identifierWord, hs, hr, identifierTxrq, identifierRtr, identifierIde, stidPos, exidPos]

theorem identifierWord_rtr :
    anySet (identifierWord msg ||| identifierTxrq) identifierRtr = msg.remote := by
  rw [identifierRtr, anySet_twoPow (by omega)]
  cases hs : msg.standardId <;> cases hr : msg.remote <;>
    simp [identifierWord, hs, hr, identifierTxrq, identifierRtr, identifierIde, stidPos, exidPos]

theorem identifierWord_std (hs : msg.standardId = true) :
    (identifierWord msg ||| identifierTxrq) >>> stidPos = msg.id &&& stdIdMask := by
  apply BitVec.eq_of_getLsbD_eq
  intro i hi
  cases hr : msg.remote <;>
    simp [identifierWord, hs, hr, identifierTxrq, identifierRtr, stidPos, hi] <;> grind

theorem identifierWord_ext (hs : msg.standardId = false) :
    (identifierWord msg ||| identifierTxrq) >>> exidPos = msg.id &&& extIdMask := by
  apply BitVec.eq_of_getLsbD_eq
  intro i hi
  cases hr : msg.remote <;>
    simp [identifierWord, hs, hr, identifierTxrq, identifierRtr, identifierIde, exidPos, hi] <;>
    grind

theorem frameLength_le : frameLength msg ≤ 8 := by
  simp only [frameLength]
  split <;> omega

theorem lengthWord_dlc :
    min (BitVec.ofNat 32 (frameLength msg) &&& dlcMask).toNat 8 = frameLength msg := by
  have hle := frameLength_le msg
  generalize frameLength msg = length at hle ⊢
  revert length
  decide

end Fields

def mailboxFor (msg : Msg build.dataSize) (box : TxMailbox) : TxMailbox :=
  (mailboxWrites msg).foldl TxMailbox.store box

/-- Whatever the mailbox held before, the peripheral sends the message. -/
theorem sent_mailboxFor (msg : Msg build.dataSize) (box : TxMailbox) :
    sent build ((mailboxFor msg box).store (.tir, (mailboxFor msg box).tir ||| identifierTxrq)) =
      canonical msg := by
  have hlength := lengthWord_dlc msg
  simp only [mailboxFor, mailboxWrites, List.foldl_cons, List.foldl_nil, TxMailbox.store, sent,
    canonical, identifierWord_ide, identifierWord_rtr, hlength, Bool.not_not]
  congr 1
  · cases hs : msg.standardId with
    | true => exact identifierWord_std msg hs
    | false => exact identifierWord_ext msg hs
  · congr 1
    funext i
    by_cases hcarried : i < frameLength msg ∧ msg.remote = false
    · have hi : i.val < 8 := hcarried.1.trans_le (frameLength_le msg)
      rw [if_pos hcarried, if_pos hcarried]
      by_cases hlow : i.val < 4
      · rw [if_pos hlow, byteOf_packBytes_all _ hlow]
      · rw [if_neg hlow, byteOf_packBytes_all _ (by omega)]
        congr 1
        omega
    · rw [if_neg hcarried, if_neg hcarried]

end UniHal.Can.Bxcan
