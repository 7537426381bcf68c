import UniHal.Can.Fdcan.MessageRam

/-! # Queueing a frame on FDCAN

`_uni_hal_can_queue` as one call that nothing interrupts, on the registers, the bookkeeping
and the message RAM that it reads and writes. Every frame that it accepts is read back as
the canonical message, and every frame that it refuses leaves the state as it was.
-/

namespace UniHal.Can.Fdcan

variable {build : Build}

/-- What `_uni_hal_can_queue` reads and writes. -/
structure TxState where
  /-- `CCCR.INIT` -/
  init : Bool
  /-- `TXFQS.TFQF` and `TXFQS.TFQPI` -/
  fifoFull : Bool
  putIndex : ℕ
  /-- `TXBRP`, which a write to `TXBAR` sets -/
  txbrp : Slot → Bool
  /-- `status.tx_ok` -/
  txOk : Slot → Bool
  /-- `tx_inflight` -/
  txInflight : Slot → Bool
  ram : MessageRam

def firstFree (txbrp : Slot → Bool) : Option Slot :=
  (List.finRange txBuffers).find? fun idx => !txbrp idx

def bufferOf (index : ℕ) : Option Slot :=
  if h : index < txBuffers then some ⟨index, h⟩ else none

def selectBuffer (config : Config) (s : TxState) : Option Slot :=
  if config.txFifoPriority then
    if s.fifoFull then none else bufferOf s.putIndex
  else firstFree s.txbrp

/-- The masked section at the end: the bookkeeping and the request. -/
def TxState.request (s : TxState) (buffer : Slot) : TxState :=
  { s with
    txOk := Function.update s.txOk buffer false
    txInflight := Function.update s.txInflight buffer true
    txbrp := Function.update s.txbrp buffer true }

/-- `_uni_hal_can_queue`: the buffer of the frame, or nothing when it is refused. -/
def queue (config : Config) (s : TxState) (msg : Msg build.dataSize) : Option Slot × TxState :=
  if s.init then (none, s)
  else
    match selectBuffer config s with
    | none => (none, s)
    | some buffer =>
      match frameLength config msg with
      | none => (none, s)
      | some (length, dlc) =>
        let ram := (elementWrites config msg length dlc).foldl
          (fun ram write => ram.storeTx build config.inst buffer write) s.ram
        (some buffer, { s with ram := ram }.request buffer)

theorem elementWrites_bound {config : Config} {msg : Msg build.dataSize} {length dlc : ℕ}
    (h : frameLength config msg = some (length, dlc)) :
    ∀ write ∈ elementWrites config msg length dlc, write.1 < elementWords build := by
  intro write hmem
  have hfit : length ≤ build.dataSize := (frameLength_cases h).2.2.2.1
  have hsize : build.dataSize % 4 = 0 := by cases build <;> rfl
  simp only [elementWrites, List.mem_append, List.mem_cons, List.not_mem_nil, or_false,
    List.mem_map, List.mem_range] at hmem
  simp only [elementWords, headerWords]
  rcases hmem with (rfl | rfl) | ⟨word, hword, rfl⟩
  · omega
  · omega
  · simp only [headerWords]
    omega

/-- Stores through the message RAM are stores to the element. -/
theorem txElement_stores {inst : Instance} {buffer : Slot} {writes : List (ℕ × BitVec 32)}
    (hw : ∀ write ∈ writes, write.1 < elementWords build) {ram : MessageRam} {element : Element}
    (hram : ∀ j < elementWords build, ram.txElement build inst buffer j = element j) :
    ∀ j < elementWords build,
      (writes.foldl (fun ram write => ram.storeTx build inst buffer write) ram).txElement build inst
        buffer j = writes.foldl Element.store element j := by
  induction writes generalizing ram element with
  | nil => exact hram
  | cons write writes ih =>
    have hhead := hw write List.mem_cons_self
    apply ih fun w hmem => hw w (List.mem_cons_of_mem _ hmem)
    intro j hj
    rw [txElement_storeTx ram hhead buffer hj, if_pos rfl]
    simp only [Element.store, Function.update_apply, hram j hj]

theorem decode_congr {element element' : Element}
    (h : ∀ j < elementWords build, element j = element' j) :
    decode build element = decode build element' := by
  have hwords : 2 < elementWords build := by cases build <;> decide
  have h0 := h 0 (by omega)
  have h1 := h 1 (by omega)
  simp only [decode, h0, h1]
  congr 1
  apply Vector.ext
  intro i hi
  have hi' : headerWords + i / 4 < elementWords build := by
    have hsize : build.dataSize % 4 = 0 := by cases build <;> rfl
    simp only [elementWords]
    omega
  simp only [Vector.getElem_ofFn, h _ hi']

/-- An accepted frame takes a buffer, and the element of this buffer reads as the canonical
message. -/
theorem queue_accepted {config : Config} {s s' : TxState} {msg : Msg build.dataSize}
    {buffer : Slot} (h : queue config s msg = (some buffer, s')) :
    decode build (s'.ram.txElement build config.inst buffer) = canonical config msg := by
  simp only [queue] at h
  by_cases hinit : s.init = true
  · simp [hinit] at h
  · cases hsel : selectBuffer config s with
    | none => simp [hinit, hsel] at h
    | some chosen =>
      cases hlen : frameLength config msg with
      | none => simp [hinit, hsel, hlen] at h
      | some lengths =>
        obtain ⟨length, dlc⟩ := lengths
        simp only [hinit, hsel, hlen, Bool.false_eq_true, if_false, Prod.mk.injEq,
          Option.some.injEq] at h
        obtain ⟨rfl, rfl⟩ := h
        rw [← decode_writeElement hlen (s.ram.txElement build config.inst chosen)]
        apply decode_congr
        exact txElement_stores (elementWrites_bound hlen) fun _ _ => rfl

/-- A CAN FD frame that has no length code or does not fit, that is remote, or that comes
while the controller is not in FD mode. -/
def Unsendable (config : Config) (msg : Msg build.dataSize) : Prop :=
  msg.fd = true ∧ (config.fd = false ∨ msg.remote = true ∨
    dlcFromLength msg.dlc.toNat true = noDlc ∨ build.dataSize < msg.dlc.toNat)

theorem frameLength_eq_none_iff {config : Config} {msg : Msg build.dataSize} :
    frameLength config msg = none ↔ Unsendable config msg := by
  cases hf : msg.fd with
  | false => simp [frameLength, Unsendable, hf]
  | true =>
    simp only [frameLength, Unsendable, hf, if_true, true_and]
    split
    · next h => simpa [or_assoc] using h
    · next h => simpa [or_assoc] using h

theorem queue_refused {config : Config} {s : TxState} {msg : Msg build.dataSize}
    (h : Unsendable config msg) : queue config s msg = (none, s) := by
  simp only [queue, frameLength_eq_none_iff.mpr h]
  split
  · rfl
  · cases selectBuffer config s <;> rfl

/-- What `_uni_hal_can_queue` accepts is decoded as the canonical message, and what cannot be
sent is refused with nothing written and nothing requested. -/
theorem queue_roundTrip (build : Build) (config : Config) (s : TxState) (msg : Msg build.dataSize) :
    (∀ buffer s', queue config s msg = (some buffer, s') →
      decode build (s'.ram.txElement build config.inst buffer) = canonical config msg) ∧
    (Unsendable config msg → queue config s msg = (none, s)) :=
  ⟨fun _ _ h => queue_accepted h, queue_refused⟩

/-- A CAN FD node with a data bit rate, before its first frame. -/
def fdConfig : Config :=
  { inst := .can1, fd := true, bitrateData := 2000000, autoRetransmission := true,
    autoBusOff := false, txFifoPriority := false }

def idleTx : TxState :=
  { init := false, fifoFull := false, putIndex := 0, txbrp := fun _ => false,
    txOk := fun _ => false, txInflight := fun _ => false, ram := fun _ => 0xFFFFFFFF }

def fdMsg (length : BitVec 8) : Msg Build.fd.dataSize :=
  { Msg.zero Build.fd.dataSize with
    id := 0x123, dlc := length, data := Vector.replicate Build.fd.dataSize 0xA5,
    standardId := true, fd := true, brs := true }

/-- Twelve data bytes make a CAN FD frame, thirteen do not. -/
theorem queue_roundTrip_twelve :
    (∃ s', queue fdConfig idleTx (fdMsg 12) = (some 0, s') ∧
      decode .fd (s'.ram.txElement .fd .can1 0) = canonical fdConfig (fdMsg 12)) ∧
    queue fdConfig idleTx (fdMsg 13) = (none, idleTx) :=
  ⟨⟨_, rfl, (queue_roundTrip .fd fdConfig idleTx (fdMsg 12)).1 _ _ rfl⟩,
    (queue_roundTrip .fd fdConfig idleTx (fdMsg 13)).2 ⟨rfl, .inr (.inr (.inl rfl))⟩⟩

end UniHal.Can.Fdcan
