import UniHal.Spi.Stm32h7.Driver
import Mathlib.Tactic

/-! # Starts during an asynchronous transfer

No function that starts a transfer looks whether one is in process, which is left to the caller
of `uni_hal_spi_is_busy`. What each of them does to a transfer in process: it is refused for its
arguments and leaves everything as it is, or it goes ahead.
-/

namespace UniHal.Spi.Stm32h7

/-- The transfer in process is as it was: its bookkeeping, its chip select, its streams and the
transfer size. -/
structure Untouched (s s' : State) : Prop where
  lastRxData : s'.lastRxData = s.lastRxData
  lastLen : s'.lastLen = s.lastLen
  inProcess : s'.inProcess = s.inProcess
  nss : s'.nss = s.nss
  rx : s'.rx = s.rx
  tx : s'.tx = s.tx
  tsize : s'.tsize = s.tsize

/-- Every call that would start a transfer is refused while one is in process. -/
structure BusyExclusion (c : Config) (s : State) : Prop where
  async : ∀ dataRx dataTx len, (transceiveAsync c dataRx dataTx len s).1 = false ∧
    Untouched s (transceiveAsync c dataRx dataTx len s).2
  transmit : ∀ data len startMs polls r, transmit c data len startMs polls s = some r →
    r.result = false ∧ Untouched s r.state
  receive : ∀ data len startMs polls r, receive c data len startMs polls s = some r →
    r.result = false ∧ Untouched s r.state
  transmitReceive : ∀ txData rxData len startMs polls r,
    transmitReceive c txData rxData len startMs polls s = some r →
      r.result = false ∧ Untouched s r.state

/-- A master in the middle of a transfer of four bytes from the address 0x24000000. -/
def inTransfer : State where
  inited := true
  inProcess := true
  lastRxData := none
  lastLen := 4
  lastErrors := 0
  nss := false
  rx := ⟨false, 0, 0⟩
  tx := ⟨true, 0x24000000, 2⟩
  rxDmaEn := false
  txDmaEn := true
  tsize := 4
  eotIe := true
  txpIe := false
  spe := true
  active := true
  flags := ⟨false, false, false, false, false, false, false⟩

/-- A second request is accepted, and its length becomes the one of the transfer. -/
theorem inTransfer_not_excluded : ¬ ∀ c s, s.isBusy = true → BusyExclusion c s := by
  intro h
  have hexclusion := h ⟨.master, false, true, false, true⟩ inTransfer rfl
  have hrefused := (hexclusion.async none (some 0x24000100) 8).1
  cases hrefused

/-- What `uni_hal_spi_transceive_async` checks: the streams of its buffers, and that there is
something to transfer. -/
def AsyncValid (c : Config) (dataRx dataTx : Option UInt32) (len : UInt32) : Prop :=
  c.HasStreams dataRx dataTx ∧ 0 < len ∧ (dataRx ≠ none ∨ dataTx ≠ none)

instance (c : Config) (dataRx dataTx : Option UInt32) (len : UInt32) :
    Decidable (AsyncValid c dataRx dataTx len) :=
  inferInstanceAs (Decidable (_ ∧ _))

theorem transceiveAsync_eq (c : Config) (dataRx dataTx : Option UInt32) (len : UInt32) {s : State}
    (hinited : s.inited = true) : transceiveAsync c dataRx dataTx len s =
      if AsyncValid c dataRx dataTx len then (true, startAsync c dataRx dataTx len s)
      else (false, s) := by
  by_cases hstreams : c.HasStreams dataRx dataTx <;>
    simp [transceiveAsync, AsyncValid, hinited, hstreams]

/-- What a call that starts a new transfer takes over for it. -/
structure TakenOver (dataRx : Option UInt32) (len : UInt32) (s' : State) : Prop where
  lastRxData : s'.lastRxData = dataRx
  lastLen : s'.lastLen = len
  inProcess : s'.inProcess = true
  tsize : s'.tsize = len &&& 0xFFFF

theorem startAsync_takenOver (c : Config) (dataRx dataTx : Option UInt32) (len : UInt32)
    (s : State) : TakenOver dataRx len (startAsync c dataRx dataTx len s) := by
  unfold startAsync
  constructor
  all_goals simp only [startIfMaster_eq, nssSet_eq, setUpRx_eq, setUpTx_eq, State.enable,
    State.enableItEot, State.setTransferSize, State.begin]

/-- The transfer that a blocking call leaves behind: its streams and its bookkeeping stay, the size
is the one of the call, and the peripheral is off. -/
structure Overrun (len : UInt32) (s s' : State) : Prop where
  lastRxData : s'.lastRxData = s.lastRxData
  lastLen : s'.lastLen = s.lastLen
  rx : s'.rx = s.rx
  tx : s'.tx = s.tx
  tsize : s'.tsize = len &&& 0xFFFF
  spe : s'.spe = false

/-- `uni_hal_spi_transmitreceive` does not touch the chip select and `in_process`. -/
theorem transmitReceive_overrun {c : Config} {txData : Option (ℕ → UInt8)} {rxData : Bool}
    {len startMs : UInt32} {polls : List Poll} {s : State} {r : Outcome}
    (hinited : s.inited = true)
    (hr : transmitReceive c txData rxData len startMs polls s = some r) :
    Overrun len s r.state ∧ r.state.inProcess = s.inProcess ∧ r.state.nss = s.nss := by
  rw [transmitReceive, if_pos hinited, Option.map_eq_some_iff] at hr
  obtain ⟨loops, -, rfl⟩ := hr
  have hover : Overrun len s (State.startIfMaster c ((s.clearFlags.setTransferSize len).enable
      c)).disable.clearFlags := by
    constructor
    all_goals simp only [startIfMaster_eq, State.clearFlags, State.disable, State.enable,
      State.setTransferSize]
  refine ⟨hover, ?_, ?_⟩
  all_goals simp only [startIfMaster_eq, State.clearFlags, State.disable, State.enable,
    State.setTransferSize]

/-- `uni_hal_spi_transmit` ends the transfer in process together with its own. -/
theorem transmit_overrun {c : Config} {data : Option (ℕ → UInt8)} {len startMs : UInt32}
    {polls : List Poll} {s : State} {r : Outcome} (hinited : s.inited = true)
    (hvalid : data ≠ none ∧ 0 < len) (hr : transmit c data len startMs polls s = some r) :
    Overrun len s r.state ∧ r.state.inProcess = false ∧
      (c.softNss = true → r.state.nss = true) := by
  rw [transmit, if_pos ⟨hinited, hvalid⟩, Option.map_eq_some_iff] at hr
  obtain ⟨r', hr', rfl⟩ := hr
  have hselected : (State.nssSet c false { s with inProcess := true }).inited = true := by
    rw [nssSet_eq, hinited]
  obtain ⟨hover, -, -⟩ := transmitReceive_overrun hselected hr'
  have hkept : Overrun len s ((r'.state.nssSet c true).endProcess) := by
    rw [nssSet_eq]
    rw [nssSet_eq] at hover
    exact ⟨hover.lastRxData, hover.lastLen, hover.rx, hover.tx, hover.tsize, hover.spe⟩
  refine ⟨hkept, rfl, fun hsoft => ?_⟩
  simp [nssSet_eq, State.endProcess, hsoft]

/-- What the calls that would start a transfer do to the one in process. -/
structure StartDuringTransfer (c : Config) (s : State) : Prop where
  /-- refused for the arguments, or the start of a new transfer in place of the one in process -/
  async : ∀ dataRx dataTx len,
    (¬ AsyncValid c dataRx dataTx len → transceiveAsync c dataRx dataTx len s = (false, s)) ∧
      (AsyncValid c dataRx dataTx len → (transceiveAsync c dataRx dataTx len s).1 = true ∧
        TakenOver dataRx len (transceiveAsync c dataRx dataTx len s).2)
  /-- refused for the arguments, or the end of the transfer in process -/
  transmit : ∀ data len startMs polls,
    (¬ (data ≠ none ∧ 0 < len) →
      transmit c data len startMs polls s = some ⟨false, [], s⟩) ∧
      (data ≠ none ∧ 0 < len → ∀ r, transmit c data len startMs polls s = some r →
        Overrun len s r.state ∧ r.state.inProcess = false ∧
          (c.softNss = true → r.state.nss = true))
  /-- never refused, and the transfer is stopped while it still counts as in process -/
  receive : ∀ data len startMs polls r, receive c data len startMs polls s = some r →
    Overrun len s r.state ∧ r.state.inProcess = true ∧ r.state.nss = s.nss
  transmitReceive : ∀ txData rxData len startMs polls r,
    transmitReceive c txData rxData len startMs polls s = some r →
      Overrun len s r.state ∧ r.state.inProcess = true ∧ r.state.nss = s.nss

/-- While a transfer is in process, the calls that are refused for their arguments, and only
these, leave it as it is. -/
theorem spi_start_during_transfer (c : Config) (s : State) (hbusy : s.isBusy = true) :
    StartDuringTransfer c s := by
  obtain ⟨hinited, hprocess⟩ := Bool.and_eq_true_iff.mp hbusy
  have hblocking : ∀ txData rxData len startMs polls r,
      transmitReceive c txData rxData len startMs polls s = some r →
        Overrun len s r.state ∧ r.state.inProcess = true ∧ r.state.nss = s.nss := by
    intro txData rxData len startMs polls r hr
    obtain ⟨hover, hkept, hnss⟩ := transmitReceive_overrun hinited hr
    exact ⟨hover, hkept.trans hprocess, hnss⟩
  constructor
  · intro dataRx dataTx len
    rw [transceiveAsync_eq c dataRx dataTx len hinited]
    refine ⟨fun hinvalid => if_neg hinvalid, fun hvalid => ?_⟩
    rw [if_pos hvalid]
    exact ⟨rfl, startAsync_takenOver c dataRx dataTx len s⟩
  · intro data len startMs polls
    refine ⟨fun hinvalid => ?_, fun hvalid r hr => transmit_overrun hinited hvalid hr⟩
    rw [Stm32h7.transmit, if_neg fun h => hinvalid h.2]
  · intro data len startMs polls r hr
    exact hblocking none data len startMs polls r hr
  · exact hblocking

theorem inTransfer_start : StartDuringTransfer ⟨.master, false, true, false, true⟩ inTransfer :=
  spi_start_during_transfer _ inTransfer rfl

end UniHal.Spi.Stm32h7
