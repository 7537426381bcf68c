import UniHal.Can.Message
import UniHal.Foundations.BitField

/-! # Frame elements of the FDCAN message RAM

A frame sits in the message RAM as two header words and the data bytes, four in a word.
`_uni_hal_can_queue` writes such an element and `_uni_hal_can_irq_rx` reads one; the two
agree on every frame that the driver sends, whatever the element held before.
-/

namespace UniHal.Can.Fdcan
open Foundations.BitField

/-- `UNI_HAL_CAN_ELEMENT_XTD`: extended identifier -/
def elementXtd : BitVec 32 := BitVec.twoPow 32 30

/-- `UNI_HAL_CAN_ELEMENT_RTR`: remote frame -/
def elementRtr : BitVec 32 := BitVec.twoPow 32 29

/-- `UNI_HAL_CAN_ELEMENT_ESI`: error state indicator -/
def elementEsi : BitVec 32 := BitVec.twoPow 32 31

/-- `UNI_HAL_CAN_ELEMENT_FDF`: CAN FD frame format -/
def elementFdf : BitVec 32 := BitVec.twoPow 32 21

/-- `UNI_HAL_CAN_ELEMENT_BRS`: bit rate switch -/
def elementBrs : BitVec 32 := BitVec.twoPow 32 20

def elementStdPos : ℕ := 18

def elementDlcPos : ℕ := 16

def headerWords : ℕ := 2

def elementWords (build : Build) : ℕ := headerWords + build.dataSize / 4

abbrev Element := ℕ → BitVec 32

def Element.store (element : Element) (write : ℕ × BitVec 32) : Element :=
  Function.update element write.1 write.2

variable {build : Build}

/-- The number of data bytes and the data length code; nothing for a CAN FD frame that is
refused. -/
def frameLength (config : Config) (msg : Msg build.dataSize) : Option (ℕ × ℕ) :=
  if msg.fd then
    let length := msg.dlc.toNat
    let dlc := dlcFromLength length true
    if !config.fd || msg.remote || decide (dlc = noDlc) ||
        decide (build.dataSize < length) then none
    else some (length, dlc)
  else
    let length := if msg.dlc.toNat ≤ 8 then msg.dlc.toNat else 8
    some (length, length)

def identifierWord (msg : Msg build.dataSize) : BitVec 32 :=
  (if msg.standardId then (msg.id &&& stdIdMask) <<< elementStdPos
    else (msg.id &&& extIdMask) ||| elementXtd) |||
  (if msg.remote then elementRtr else 0)

def formatBits (config : Config) (msg : Msg build.dataSize) : BitVec 32 :=
  if msg.fd then
    if msg.brs && decide (config.bitrateData ≠ 0) then elementFdf ||| elementBrs else elementFdf
  else 0

def controlWord (config : Config) (msg : Msg build.dataSize) (dlc : ℕ) : BitVec 32 :=
  BitVec.ofNat 32 dlc <<< elementDlcPos ||| formatBits config msg

/-- The data bytes from `offset` on, as long as the frame has any. -/
def dataWord (msg : Msg build.dataSize) (length offset : ℕ) : BitVec 32 :=
  packBytes (fun byte => offset + byte < length) fun byte => msg.byte (offset + byte)

/-- The stores of `_uni_hal_can_queue` into the element of the chosen buffer, in order; the
loop over the data has `offset = 4 * word`. -/
def elementWrites (config : Config) (msg : Msg build.dataSize) (length dlc : ℕ) :
    List (ℕ × BitVec 32) :=
  [(0, identifierWord msg), (1, controlWord config msg dlc)] ++
    (List.range ((length + 3) / 4)).map fun word =>
      (headerWords + word, dataWord msg length (4 * word))

/-- The message that `_uni_hal_can_irq_rx` makes of an element. -/
def decode (build : Build) (element : Element) : Msg build.dataSize :=
  let r0 := element 0
  let r1 := element 1
  let standardId := !anySet r0 elementXtd
  let remote := anySet r0 elementRtr
  let fd := anySet r1 elementFdf
  let coded := dlcToLength ((r1 >>> elementDlcPos) &&& dlcMask).toNat fd
  let length := if coded > build.dataSize then build.dataSize else coded
  { id := if standardId then (r0 >>> elementStdPos) &&& stdIdMask else r0 &&& extIdMask
    dlc := BitVec.ofNat 8 length
    -- byte `i` comes from data word `i / 4`
    data := Vector.ofFn fun i =>
      if i < length ∧ remote = false then byteOf (element (headerWords + i / 4)) (i % 4) else 0
    standardId := standardId
    remote := remote
    fd := fd
    brs := anySet r1 elementBrs
    esi := anySet r0 elementEsi }

/-- The message as it goes over the bus: what a receiver gets of it. -/
def canonical (config : Config) (msg : Msg build.dataSize) : Msg build.dataSize :=
  let length := if msg.fd then msg.dlc.toNat else min msg.dlc.toNat 8
  { id := msg.id &&& if msg.standardId then stdIdMask else extIdMask
    dlc := BitVec.ofNat 8 length
    data := Vector.ofFn fun i => if i < length ∧ msg.remote = false then msg.byte i else 0
    standardId := msg.standardId
    remote := msg.remote
    fd := msg.fd
    brs := msg.fd && msg.brs && decide (config.bitrateData ≠ 0)
    esi := false }

section Header
variable (config : Config) (msg : Msg build.dataSize) (dlc : ℕ)

theorem identifierWord_xtd : (identifierWord msg).getLsbD 30 = !msg.standardId := by
  cases hs : msg.standardId <;> cases hr : msg.remote <;>
    simp [identifierWord, hs, hr, elementXtd, elementRtr, elementStdPos]

theorem identifierWord_rtr : (identifierWord msg).getLsbD 29 = msg.remote := by
  cases hs : msg.standardId <;> cases hr : msg.remote <;>
    simp [identifierWord, hs, hr, elementXtd, elementRtr, elementStdPos]

theorem identifierWord_esi : (identifierWord msg).getLsbD 31 = false := by
  cases hs : msg.standardId <;> cases hr : msg.remote <;>
    simp [identifierWord, hs, hr, elementXtd, elementRtr, elementStdPos]

theorem identifierWord_std (hs : msg.standardId = true) :
    (identifierWord msg >>> elementStdPos) &&& stdIdMask = msg.id &&& stdIdMask := by
  apply BitVec.eq_of_getLsbD_eq
  intro i hi
  cases hr : msg.remote <;>
    simp [identifierWord, hs, hr, elementRtr, elementStdPos] <;> grind

theorem identifierWord_ext (hs : msg.standardId = false) :
    identifierWord msg &&& extIdMask = msg.id &&& extIdMask := by
  apply BitVec.eq_of_getLsbD_eq
  intro i hi
  cases hr : msg.remote <;>
    simp [identifierWord, hs, hr, elementRtr, elementXtd] <;> grind

theorem controlWord_fdf (hdlc : dlc < 16) : (controlWord config msg dlc).getLsbD 21 = msg.fd := by
  have hbit : dlc.testBit 5 = false := Nat.testBit_lt_two_pow (by omega)
  cases hf : msg.fd <;> cases hb : msg.brs <;> by_cases hd : config.bitrateData = 0#32 <;>
    simp [controlWord, formatBits, hf, hb, hd, elementFdf, elementBrs, elementDlcPos,
      getElem_ofNat, hbit]

theorem controlWord_brs (hdlc : dlc < 16) : (controlWord config msg dlc).getLsbD 20 =
    (msg.fd && msg.brs && decide (config.bitrateData ≠ 0)) := by
  have hbit : dlc.testBit 4 = false := Nat.testBit_lt_two_pow (by omega)
  cases hf : msg.fd <;> cases hb : msg.brs <;> by_cases hd : config.bitrateData = 0#32 <;>
    simp [controlWord, formatBits, hf, hb, hd, elementFdf, elementBrs, elementDlcPos,
      getElem_ofNat, hbit]

theorem controlWord_dlc (hdlc : dlc < 16) :
    ((controlWord config msg dlc >>> elementDlcPos) &&& dlcMask).toNat = dlc := by
  have hword :
      (controlWord config msg dlc >>> elementDlcPos) &&& dlcMask = BitVec.ofNat 32 dlc := by
    apply BitVec.eq_of_getLsbD_eq
    intro i hi
    have hhigh (hi4 : 4 ≤ i) : dlc.testBit i = false :=
      Nat.testBit_lt_two_pow (hdlc.trans_le (Nat.pow_le_pow_right two_pos hi4))
    cases hf : msg.fd <;> cases hb : msg.brs <;> by_cases hd : config.bitrateData = 0#32 <;>
      simp [controlWord, formatBits, hf, hb, hd, elementFdf, elementBrs, elementDlcPos, hi,
        getElem_ofNat] <;>
      grind
  rw [hword, BitVec.toNat_ofNat]
  omega

end Header

/-- Stores to consecutive words, the first one at `first`. -/
theorem stores_range (word : ℕ → BitVec 32) (first n : ℕ) (element : Element) (j : ℕ) :
    ((List.range n).map fun k => (first + k, word k)).foldl Element.store element j =
      if first ≤ j ∧ j < first + n then word (j - first) else element j := by
  induction n with
  | zero =>
    have hnone : ¬ (first ≤ j ∧ j < first + 0) := by omega
    rw [if_neg hnone]
    rfl
  | succ n ih =>
    rw [List.range_succ, List.map_append, List.foldl_append]
    simp only [List.map_cons, List.map_nil, List.foldl_cons, List.foldl_nil, Element.store]
    by_cases hj : j = first + n
    · have hin : first ≤ j ∧ j < first + (n + 1) := by omega
      rw [hj, Function.update_self, if_pos (hj ▸ hin), Nat.add_sub_cancel_left]
    · rw [Function.update_of_ne hj, ih]
      have hiff : (first ≤ j ∧ j < first + n) ↔ (first ≤ j ∧ j < first + (n + 1)) := by omega
      simp only [hiff]

section Stores
variable (config : Config) (msg : Msg build.dataSize) (length dlc : ℕ) (element : Element)

/-- The element after the stores of `_uni_hal_can_queue`. -/
def writeElement : Element := (elementWrites config msg length dlc).foldl Element.store element

theorem writeElement_apply (j : ℕ) : writeElement config msg length dlc element j =
    if 2 ≤ j ∧ j < 2 + (length + 3) / 4 then dataWord msg length (4 * (j - 2))
    else if j = 0 then identifierWord msg
    else if j = 1 then controlWord config msg dlc
    else element j := by
  rw [writeElement, elementWrites, List.foldl_append]
  simp only [headerWords]
  rw [stores_range (fun word => dataWord msg length (4 * word))]
  congr 1
  simp only [List.foldl_cons, List.foldl_nil, Element.store, Function.update_apply]
  by_cases h0 : j = 0
  · simp [h0]
  · by_cases h1 : j = 1 <;> simp [h0, h1]

@[simp] theorem writeElement_zero : writeElement config msg length dlc element 0 =
    identifierWord msg := by
  simp [writeElement_apply]

@[simp] theorem writeElement_one : writeElement config msg length dlc element 1 =
    controlWord config msg dlc := by
  simp [writeElement_apply]

/-- The data bytes of the element are those of the message. -/
theorem byteOf_writeElement {i : ℕ} (hi : i < length) :
    byteOf (writeElement config msg length dlc element (headerWords + i / 4)) (i % 4) =
      msg.byte i := by
  have hword : 2 ≤ headerWords + i / 4 ∧ headerWords + i / 4 < 2 + (length + 3) / 4 := by
    simp only [headerWords]
    omega
  have hindex : 4 * (headerWords + i / 4 - 2) + i % 4 = i := by
    simp only [headerWords]
    omega
  rw [writeElement_apply, if_pos hword, dataWord, byteOf_packBytes _ _ (Nat.mod_lt _ (by omega)),
    hindex, if_pos hi]

end Stores

theorem frameLength_cases {config : Config} {msg : Msg build.dataSize} {length dlc : ℕ}
    (h : frameLength config msg = some (length, dlc)) :
    length = (if msg.fd then msg.dlc.toNat else min msg.dlc.toNat 8) ∧
      dlc = dlcFromLength length msg.fd ∧ dlc ≠ noDlc ∧ length ≤ build.dataSize ∧
      (msg.fd = true → config.fd = true ∧ msg.remote = false) := by
  cases hf : msg.fd with
  | true =>
    simp only [frameLength, hf, if_true] at h
    split at h
    · cases h
    · next hok =>
      simp only [Option.some.injEq, Prod.mk.injEq] at h
      obtain ⟨rfl, rfl⟩ := h
      simp only [Bool.or_eq_true, Bool.not_eq_true', decide_eq_true_eq, not_or,
        Bool.not_eq_false, Bool.not_eq_true] at hok
      obtain ⟨⟨⟨hfd, hremote⟩, hdlc⟩, hfit⟩ := hok
      exact ⟨rfl, rfl, hdlc, by omega, fun _ => ⟨hfd, hremote⟩⟩
  | false =>
    have hsize : 8 ≤ build.dataSize := by cases build <;> simp [Build.dataSize]
    simp only [frameLength, hf, Bool.false_eq_true, if_false, Option.some.injEq,
      Prod.mk.injEq] at h
    obtain ⟨rfl, rfl⟩ := h
    have hmin : (if msg.dlc.toNat ≤ 8 then msg.dlc.toNat else 8) = min msg.dlc.toNat 8 := by
      split <;> omega
    rw [hmin]
    have hle : min msg.dlc.toNat 8 ≤ 8 := by omega
    refine ⟨rfl, by rw [dlcFromLength, if_pos hle], ?_, by omega, by simp⟩
    simp only [noDlc]
    omega

/-- Whatever the element held before, reading what was written gives the canonical message. -/
theorem decode_writeElement {config : Config} {msg : Msg build.dataSize} {length dlc : ℕ}
    (h : frameLength config msg = some (length, dlc)) (element : Element) :
    decode build (writeElement config msg length dlc element) = canonical config msg := by
  obtain ⟨hlength, hdlc, hcode, hfit, -⟩ := frameLength_cases h
  have hdlc16 : dlc < 16 := by
    have := dlcFromLength_le (hdlc ▸ hcode)
    omega
  have hxtd : anySet (identifierWord msg) elementXtd = !msg.standardId := by
    rw [elementXtd, anySet_twoPow (by omega), identifierWord_xtd]
  have hrtr : anySet (identifierWord msg) elementRtr = msg.remote := by
    rw [elementRtr, anySet_twoPow (by omega), identifierWord_rtr]
  have hesi : anySet (identifierWord msg) elementEsi = false := by
    rw [elementEsi, anySet_twoPow (by omega), identifierWord_esi]
  have hfdf : anySet (controlWord config msg dlc) elementFdf = msg.fd := by
    rw [elementFdf, anySet_twoPow (by omega), controlWord_fdf _ _ _ hdlc16]
  have hbrs : anySet (controlWord config msg dlc) elementBrs =
      (msg.fd && msg.brs && decide (config.bitrateData ≠ 0)) := by
    rw [elementBrs, anySet_twoPow (by omega), controlWord_brs _ _ _ hdlc16]
  have hcoded : dlcToLength dlc msg.fd = length := by
    rw [hdlc]
    exact dlcToLength_dlcFromLength (hdlc ▸ hcode)
  have hid : (if msg.standardId = true then
      (identifierWord msg >>> elementStdPos) &&& stdIdMask else identifierWord msg &&& extIdMask) =
      msg.id &&& if msg.standardId then stdIdMask else extIdMask := by
    cases hs : msg.standardId with
    | true => simp only [if_true, identifierWord_std msg hs]
    | false => simp only [Bool.false_eq_true, if_false, identifierWord_ext msg hs]
  have hclamp : ¬ length > build.dataSize := by omega
  simp only [decode, writeElement_zero, writeElement_one, hxtd, Bool.not_not, hrtr, hesi, hfdf,
    hbrs, controlWord_dlc _ _ _ hdlc16, hcoded, hid, if_neg hclamp, canonical, ← hlength]
  congr 1
  apply Vector.ext
  intro i hi
  simp only [Vector.getElem_ofFn]
  by_cases hin : i < length
  · rw [byteOf_writeElement config msg length dlc element hin]
  · simp only [hin, false_and, if_false]

end UniHal.Can.Fdcan
