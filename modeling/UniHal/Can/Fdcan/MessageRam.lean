import UniHal.Can.Fdcan.Element

/-! # The message RAM of the FDCAN instances

Both instances share one message RAM. Each has a block of it, with a section for the filter
elements of either kind, one for each RX FIFO and one for the TX buffers. The sections do not
overlap, so a store into one element leaves the others as they are.
-/

namespace UniHal.Can.Fdcan

def filters : ℕ := 14

def rxFifoSize : ℕ := 32

abbrev txBuffers : ℕ := 3

def stdFilterWords : ℕ := 1
def extFilterWords : ℕ := 2

def ramStdFilters : ℕ := 0
def ramExtFilters : ℕ := ramStdFilters + filters * stdFilterWords
def ramRxFifo0 : ℕ := ramExtFilters + filters * extFilterWords
def ramRxFifo1 (build : Build) : ℕ := ramRxFifo0 + rxFifoSize * elementWords build
def ramTx (build : Build) : ℕ := ramRxFifo1 build + rxFifoSize * elementWords build
def ramUsed (build : Build) : ℕ := ramTx build + txBuffers * elementWords build

def ramBlockWords : Build → ℕ
  | .classic => 320
  | .fd => 1280

def ramWords (build : Build) : Instance → ℕ
  | .can1 => 0
  | .can2 => ramBlockWords build

abbrev MessageRam := ℕ → BitVec 32

/-- `_uni_hal_can_ram` -/
def ramAddress (build : Build) (inst : Instance) (ramSection index words : ℕ) : ℕ :=
  ramWords build inst + ramSection + index * words

def MessageRam.txElement (build : Build) (inst : Instance) (ram : MessageRam) (buffer : Slot) :
    Element :=
  fun word => ram (ramAddress build inst (ramTx build) buffer (elementWords build) + word)

def MessageRam.storeTx (build : Build) (inst : Instance) (ram : MessageRam) (buffer : Slot)
    (write : ℕ × BitVec 32) : MessageRam :=
  Function.update ram
    (ramAddress build inst (ramTx build) buffer (elementWords build) + write.1) write.2

theorem ramUsed_le_block (build : Build) : ramUsed build ≤ ramBlockWords build := by
  cases build <;> decide

theorem blocks_fit_ram (build : Build) : 2 * ramBlockWords build ≤ 2560 := by
  cases build <;> decide

theorem txAddress_injective {build : Build} {inst inst' : Instance} {b b' : Slot} {j j' : ℕ}
    (hj : j < elementWords build) (hj' : j' < elementWords build)
    (h : ramAddress build inst (ramTx build) b (elementWords build) + j =
      ramAddress build inst' (ramTx build) b' (elementWords build) + j') :
    inst = inst' ∧ b = b' ∧ j = j' := by
  have hused := ramUsed_le_block build
  have hb : (b : ℕ) < 3 := b.isLt
  have hb' : (b' : ℕ) < 3 := b'.isLt
  simp only [ramUsed, txBuffers] at hused
  have hpos : 0 < elementWords build := by cases build <;> decide
  have hle (k : ℕ) (hk : k < 3) : k * elementWords build ≤ 2 * elementWords build :=
    Nat.mul_le_mul_right _ (by omega)
  have hend := hle b hb
  have hend' := hle b' hb'
  simp only [ramAddress] at h
  have hinst : inst = inst' := by
    cases inst <;> cases inst' <;> simp only [ramWords] at h <;> first | rfl | omega
  subst hinst
  have hcell : (b : ℕ) * elementWords build + j = b' * elementWords build + j' := by omega
  have hbb : (b : ℕ) = b' := by
    have hdiv := congrArg (· / elementWords build) hcell
    simpa only [Nat.mul_comm _ (elementWords build), Nat.mul_add_div hpos, Nat.div_eq_of_lt hj,
      Nat.div_eq_of_lt hj', Nat.add_zero] using hdiv
  refine ⟨rfl, Fin.ext hbb, ?_⟩
  rw [hbb] at hcell
  omega

/-- A store into the element of a buffer is a store into that element alone. -/
theorem txElement_storeTx {build : Build} {inst : Instance} (ram : MessageRam) {buffer : Slot}
    {write : ℕ × BitVec 32} (hw : write.1 < elementWords build) (b : Slot) {j : ℕ}
    (hj : j < elementWords build) :
    (ram.storeTx build inst buffer write).txElement build inst b j =
      if b = buffer then (ram.txElement build inst b).store write j
      else ram.txElement build inst b j := by
  by_cases hb : b = buffer
  · subst hb
    simp only [MessageRam.txElement, MessageRam.storeTx, Element.store, Function.update_apply,
      Nat.add_left_cancel_iff, if_true]
  · have hne : ramAddress build inst (ramTx build) b (elementWords build) + j ≠
        ramAddress build inst (ramTx build) buffer (elementWords build) + write.1 :=
      fun h => hb (txAddress_injective hj hw h).2.1
    simp only [MessageRam.txElement, MessageRam.storeTx, if_neg hb, Function.update_of_ne hne]

end UniHal.Can.Fdcan
