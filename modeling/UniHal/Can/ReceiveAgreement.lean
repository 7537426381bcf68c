import UniHal.Can.Bxcan.Mailbox
import UniHal.Can.Fdcan.Queue

/-! # What the two drivers make of a received frame

The FDCAN driver copies the bytes that the frame carried, the bxCAN driver the whole data
registers. So the messages of the two differ exactly in the bytes that the registers kept
from earlier frames.
-/

namespace UniHal.Can
open Foundations.BitField

namespace Fdcan

/-- The RX element after a classic frame: below a standard identifier, around the data length
code and behind the data the element holds what the driver does not look at. -/
def rxElementOf (frame : Frame) (belowId : BitVec 18) (filter : BitVec 8) (timestamp : BitVec 16)
    (stale : ℕ → BitVec 8) : Element
  | 0 => (match frame.identifier with
      | .std id => id.setWidth 32 <<< elementStdPos ||| belowId.setWidth 32
      | .ext id => id.setWidth 32 ||| elementXtd) |||
    (if frame.remote then elementRtr else 0)
  | 1 => filter.setWidth 32 <<< 24 ||| BitVec.ofNat 32 frame.dlc <<< elementDlcPos |||
    timestamp.setWidth 32
  | word + 2 => packBytes (fun _ => True) fun byte =>
    if 4 * word + byte < frame.carried then frame.byte (4 * word + byte)
    else stale (4 * word + byte)

section RxElement
variable (build : Build) (frame : Frame) (belowId : BitVec 18) (filter : BitVec 8)
  (timestamp : BitVec 16) (stale : ℕ → BitVec 8)

theorem rxElementOf_xtd : anySet (rxElementOf frame belowId filter timestamp stale 0) elementXtd =
    match frame.identifier with
    | .std _ => false
    | .ext _ => true := by
  rw [elementXtd, anySet_twoPow (by omega)]
  cases hid : frame.identifier <;> cases hr : frame.remote <;>
    simp [rxElementOf, hid, hr, elementXtd, elementRtr, elementStdPos]

theorem rxElementOf_rtr : anySet (rxElementOf frame belowId filter timestamp stale 0) elementRtr =
    frame.remote := by
  rw [elementRtr, anySet_twoPow (by omega)]
  cases hid : frame.identifier <;> cases hr : frame.remote <;>
    simp [rxElementOf, hid, hr, elementXtd, elementRtr, elementStdPos]

theorem rxElementOf_esi :
    anySet (rxElementOf frame belowId filter timestamp stale 0) elementEsi = false := by
  rw [elementEsi, anySet_twoPow (by omega)]
  cases hid : frame.identifier <;> cases hr : frame.remote <;>
    simp [rxElementOf, hid, hr, elementXtd, elementRtr, elementStdPos]

theorem rxElementOf_fdf :
    anySet (rxElementOf frame belowId filter timestamp stale 1) elementFdf = false := by
  have hbit : (frame.dlc : ℕ).testBit 5 = false := Nat.testBit_lt_two_pow (by omega)
  rw [elementFdf, anySet_twoPow (by omega)]
  simp [rxElementOf, elementDlcPos, getElem_ofNat, hbit]

theorem rxElementOf_brs :
    anySet (rxElementOf frame belowId filter timestamp stale 1) elementBrs = false := by
  have hbit : (frame.dlc : ℕ).testBit 4 = false := Nat.testBit_lt_two_pow (by omega)
  rw [elementBrs, anySet_twoPow (by omega)]
  simp [rxElementOf, elementDlcPos, getElem_ofNat, hbit]

theorem rxElementOf_dlc :
    ((rxElementOf frame belowId filter timestamp stale 1 >>> elementDlcPos) &&& dlcMask).toNat =
      frame.dlc := by
  have hword : (rxElementOf frame belowId filter timestamp stale 1 >>> elementDlcPos) &&& dlcMask =
      BitVec.ofNat 32 frame.dlc := by
    apply BitVec.eq_of_getLsbD_eq
    intro i hi
    have hhigh (hi4 : 4 ≤ i) : (frame.dlc : ℕ).testBit i = false :=
      Nat.testBit_lt_two_pow (frame.dlc.isLt.trans_le (Nat.pow_le_pow_right two_pos hi4))
    simp [rxElementOf, elementDlcPos, hi, getElem_ofNat]
    grind
  rw [hword, BitVec.toNat_ofNat]
  omega

theorem rxElementOf_std {id : BitVec 11} (hid : frame.identifier = .std id) :
    (rxElementOf frame belowId filter timestamp stale 0 >>> elementStdPos) &&& stdIdMask =
      id.setWidth 32 := by
  apply BitVec.eq_of_getLsbD_eq
  intro i hi
  cases hr : frame.remote <;>
    simp [rxElementOf, hid, hr, elementRtr, elementStdPos, hi] <;> grind

theorem rxElementOf_ext {id : BitVec 29} (hid : frame.identifier = .ext id) :
    rxElementOf frame belowId filter timestamp stale 0 &&& extIdMask = id.setWidth 32 := by
  apply BitVec.eq_of_getLsbD_eq
  intro i hi
  cases hr : frame.remote <;>
    simp [rxElementOf, hid, hr, elementRtr, elementXtd, hi] <;> grind

/-- The header fields of the message are those of the frame. -/
theorem decode_received :
    Received frame (decode build (rxElementOf frame belowId filter timestamp stale)) where
  standardId := by
    simp only [decode, rxElementOf_xtd]
    cases frame.identifier <;> rfl
  id := by
    simp only [decode, rxElementOf_xtd]
    cases hid : frame.identifier with
    | std id => exact rxElementOf_std frame belowId filter timestamp stale hid
    | ext id => exact rxElementOf_ext frame belowId filter timestamp stale hid
  remote := by simp only [decode, rxElementOf_rtr]
  dlc := by
    simp only [decode, rxElementOf_dlc, rxElementOf_fdf, Frame.length]
    generalize frame.dlc = dlc
    revert dlc
    cases build <;> decide
  fd := by simp only [decode, rxElementOf_fdf]
  brs := by simp only [decode, rxElementOf_brs]
  esi := by simp only [decode, rxElementOf_esi]

/-- Only the bytes that the frame carried reach the message. -/
theorem decode_byte {i : ℕ} (hi : i < 8) :
    (decode build (rxElementOf frame belowId filter timestamp stale)).byte i =
      if i < frame.carried then frame.byte i else 0 := by
  have hsize : i < build.dataSize := by
    have : 8 ≤ build.dataSize := by cases build <;> decide
    omega
  have hclamp : ¬ frame.length > build.dataSize := by
    have : 8 ≤ build.dataSize := by cases build <;> decide
    simp only [Frame.length]
    omega
  have hlength : dlcToLength frame.dlc false = frame.length := dlcToLength_classic _
  have hword : rxElementOf frame belowId filter timestamp stale (headerWords + i / 4) =
      packBytes (fun _ => True) fun byte =>
        if 4 * (i / 4) + byte < frame.carried then frame.byte (4 * (i / 4) + byte)
        else stale (4 * (i / 4) + byte) := by
    rw [headerWords, Nat.add_comm]
    rfl
  simp only [Msg.byte, decode, rxElementOf_rtr, rxElementOf_dlc, rxElementOf_fdf,
    hlength, if_neg hclamp, Vector.getElem?_eq_getElem hsize,
    Option.getD_some, Vector.getElem_ofFn, hword,
    byteOf_packBytes_all _ (Nat.mod_lt i (show 0 < 4 by omega)), Nat.div_add_mod]
  cases hr : frame.remote with
  | true => simp [Frame.carried, hr]
  | false =>
    simp only [Frame.carried, hr, Bool.false_eq_true, if_false, and_true]
    by_cases hin : i < frame.length <;> simp [hin]

end RxElement

end Fdcan

/-- The two drivers agree on a received frame exactly when the data registers of the bxCAN
mailbox are zero behind the data that the frame carried. -/
theorem receive_agree_iff (build build' : Build) (frame : Frame) (matchTime : BitVec 24)
    (belowId : BitVec 18) (filter : BitVec 8) (timestamp : BitVec 16)
    (stale stale' : ℕ → BitVec 8) :
    Agree (Bxcan.decode build (Bxcan.mailboxOf frame matchTime stale))
        (Fdcan.decode build' (Fdcan.rxElementOf frame belowId filter timestamp stale')) ↔
      ∀ i < 8, frame.carried ≤ i → stale i = 0 := by
  rw [(Bxcan.decode_received ..).agree_iff (Fdcan.decode_received ..)]
  apply forall₂_congr
  intro i hi
  rw [Bxcan.decode_byte _ _ _ _ hi, Fdcan.decode_byte _ _ _ _ _ _ hi]
  by_cases hin : i < frame.carried
  · simp only [hin, if_true, true_iff]
    exact fun hle => absurd hin (by omega)
  · simp only [hin, if_false]
    exact ⟨fun h _ => h, fun h => h (Nat.le_of_not_lt hin)⟩

/-- A remote frame, and a data frame shorter than the one before it, come with bytes that they
did not carry. -/
theorem receive_disagree :
    ¬ Agree
      (Bxcan.decode .classic (Bxcan.mailboxOf ⟨.std 0x123, true, 8, Vector.replicate 8 0⟩ 0
        fun _ => 0xA5))
      (Fdcan.decode .classic (Fdcan.rxElementOf ⟨.std 0x123, true, 8, Vector.replicate 8 0⟩ 0 0 0
        fun _ => 0xA5)) ∧
    ¬ Agree
      (Bxcan.decode .classic (Bxcan.mailboxOf ⟨.std 0x123, false, 1, Vector.replicate 8 0⟩ 0
        fun _ => 0xA5))
      (Fdcan.decode .classic (Fdcan.rxElementOf ⟨.std 0x123, false, 1, Vector.replicate 8 0⟩ 0 0 0
        fun _ => 0xA5)) := by
  constructor
  · intro h
    exact absurd (h.data 7 (by decide)) (by decide)
  · intro h
    exact absurd (h.data 7 (by decide)) (by decide)

end UniHal.Can
