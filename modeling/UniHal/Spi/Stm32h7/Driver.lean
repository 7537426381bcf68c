import Mathlib.Data.UInt

/-! # The STM32H7 SPI driver

The blocking and the asynchronous transfers of one SPI: what each function does to the
peripheral, to the chip select and to the status of the context. The asynchronous functions are
composed of the steps that an interrupt can come between.
-/

namespace UniHal.Spi.Stm32h7

/-- `uni_hal_spi_mode_e` -/
inductive Mode
  | master
  | slave
  deriving DecidableEq, Repr

/-- `uni_hal_spi_config_t`: which contexts are given, and what drives the chip select. -/
structure Config where
  mode : Mode
  nssHard : Bool
  pinNss : Bool
  dmaRx : Bool
  dmaTx : Bool
  deriving DecidableEq, Repr

def Config.softNss (c : Config) : Bool := !c.nssHard && c.pinNss

/-- A DMA stream: whether it is enabled, its memory address, and its `NDTR`. -/
structure Stream where
  enabled : Bool
  memory : UInt32
  length : UInt32
  deriving DecidableEq, Repr

/-- The flags of `SR` that the driver reads or clears. -/
structure Flags where
  ovr : Bool
  fre : Bool
  crcErr : Bool
  modf : Bool
  eot : Bool
  txtf : Bool
  udr : Bool
  deriving DecidableEq, Repr

/-- `uni_hal_spi_status_t` and what the driver sets up in the hardware. -/
structure State where
  inited : Bool
  inProcess : Bool
  lastRxData : Option UInt32
  lastLen : UInt32
  lastErrors : UInt32
  /-- the level of `pin_nss`, low when a device is selected -/
  nss : Bool
  rx : Stream
  tx : Stream
  rxDmaEn : Bool
  txDmaEn : Bool
  tsize : UInt32
  eotIe : Bool
  txpIe : Bool
  spe : Bool
  /-- A transfer has been started since `SPE` was set, and has not ended. -/
  active : Bool
  flags : Flags
  deriving DecidableEq, Repr

namespace State

/-- `uni_hal_gpio_pin_set` of the chip select, unless it is in hardware. -/
def nssSet (c : Config) (level : Bool) (s : State) : State :=
  if c.softNss then { s with nss := level } else s

/-- `LL_SPI_SetTransferSize`: `TSIZE` has 16 bits. -/
def setTransferSize (len : UInt32) (s : State) : State := { s with tsize := len &&& 0xFFFF }

/-- `LL_SPI_Enable`: a slave takes part in a transfer from here on. -/
def enable (c : Config) (s : State) : State :=
  { s with spe := true, active := s.active || decide (c.mode = .slave) }

def startMasterTransfer (s : State) : State := { s with active := s.active || s.spe }

def startIfMaster (c : Config) (s : State) : State :=
  if c.mode = .master then s.startMasterTransfer else s

/-- `LL_SPI_Disable` stops the transfer. -/
def disable (s : State) : State := { s with spe := false, active := false }

def clearFlags (s : State) : State :=
  { s with flags := { s.flags with
      ovr := false, fre := false, crcErr := false, modf := false, eot := false, txtf := false } }

def isBusy (s : State) : Bool := s.inited && s.inProcess

/-- The bookkeeping of `uni_hal_spi_transceive_async`. -/
def begin (dataRx : Option UInt32) (len : UInt32) (s : State) : State :=
  { s with inProcess := true, lastRxData := dataRx, lastLen := len, lastErrors := 0 }

def setUpRx (dataRx : Option UInt32) (len : UInt32) (s : State) : State :=
  match dataRx with
  | none => s
  | some address => { s with rx := ⟨true, address, len &&& 0xFFFF⟩, rxDmaEn := true }

def setUpTx (dataTx : Option UInt32) (len : UInt32) (s : State) : State :=
  match dataTx with
  | none => s
  | some address => { s with tx := ⟨true, address, len &&& 0xFFFF⟩, txDmaEn := true }

def enableItEot (s : State) : State := { s with eotIe := true }

def disableItEot (s : State) : State := { s with eotIe := false }

def disableItTxp (s : State) : State := { s with txpIe := false }

/-- `uni_hal_dma_enable` of both streams with false -/
def stopStreams (c : Config) (s : State) : State :=
  { s with
    rx := if c.dmaRx then { s.rx with enabled := false } else s.rx
    tx := if c.dmaTx then { s.tx with enabled := false } else s.tx }

/-- `LL_SPI_DisableDMAReq_RX`, `LL_SPI_DisableDMAReq_TX` -/
def disableDmaReq (s : State) : State := { s with rxDmaEn := false, txDmaEn := false }

def endProcess (s : State) : State := { s with inProcess := false }

/-- The bits of `uni_hal_spi_error_e` that `SPIx_IRQHandler` finds. -/
def errors (s : State) : UInt32 :=
  (if s.lastRxData.isSome && s.flags.crcErr then 1 else 0) |||
    (if s.flags.ovr then 2 else 0) ||| (if s.flags.udr then 4 else 0) |||
    (if s.flags.modf then 8 else 0)

/-- The flags that `SPIx_IRQHandler` clears. -/
def clearIrqFlags (s : State) : State :=
  { s with flags := { s.flags with
      eot := false, txtf := false, udr := false, crcErr := false, ovr := false, modf := false } }

/-- `SPIx_IRQHandler` up to the callback -/
def irqHandler (c : Config) (s : State) : State :=
  let s := s.nssSet c true
  let s := { s with lastErrors := s.errors }
  let s := s.clearIrqFlags.disable.disableItTxp.disableItEot.disableDmaReq
  s.endProcess

end State

section Fields
variable (c : Config) (s : State)

theorem nssSet_eq (level : Bool) :
    s.nssSet c level = { s with nss := if c.softNss then level else s.nss } := by
  unfold State.nssSet
  split <;> rfl

theorem startIfMaster_eq : s.startIfMaster c =
    { s with active := s.active || (decide (c.mode = .master) && s.spe) } := by
  unfold State.startIfMaster
  split
  · rename_i hmaster
    simp [hmaster, State.startMasterTransfer]
  · rename_i hslave
    simp [hslave]

theorem setUpRx_eq (dataRx : Option UInt32) (len : UInt32) : s.setUpRx dataRx len =
    { s with
      rx := dataRx.elim s.rx fun address => ⟨true, address, len &&& 0xFFFF⟩
      rxDmaEn := s.rxDmaEn || dataRx.isSome } := by
  cases dataRx <;> simp [State.setUpRx]

theorem setUpTx_eq (dataTx : Option UInt32) (len : UInt32) : s.setUpTx dataTx len =
    { s with
      tx := dataTx.elim s.tx fun address => ⟨true, address, len &&& 0xFFFF⟩
      txDmaEn := s.txDmaEn || dataTx.isSome } := by
  cases dataTx <;> simp [State.setUpTx]

theorem irqHandler_eq : s.irqHandler c =
    { s with
      inProcess := false
      lastErrors := s.errors
      nss := if c.softNss then true else s.nss
      rxDmaEn := false
      txDmaEn := false
      eotIe := false
      txpIe := false
      spe := false
      active := false
      flags := { s.flags with
        eot := false, txtf := false, udr := false, crcErr := false,
        ovr := false, modf := false } } := by
  simp only [State.irqHandler, nssSet_eq, State.errors, State.clearIrqFlags, State.disable,
    State.disableItTxp, State.disableItEot, State.disableDmaReq, State.endProcess]

end Fields

def Config.HasStreams (c : Config) (dataRx dataTx : Option UInt32) : Prop :=
  (dataRx ≠ none → c.dmaRx = true) ∧ (dataTx ≠ none → c.dmaTx = true)

instance (c : Config) (dataRx dataTx : Option UInt32) : Decidable (c.HasStreams dataRx dataTx) :=
  inferInstanceAs (Decidable (_ ∧ _))

/-- `uni_hal_spi_transceive_async` with an accepted request, step after step. -/
def startAsync (c : Config) (dataRx dataTx : Option UInt32) (len : UInt32) (s : State) : State :=
  let s := (s.begin dataRx len).nssSet c false
  let s := (s.setUpRx dataRx len).setUpTx dataTx len
  let s := (s.setTransferSize len).enableItEot
  (s.enable c).startIfMaster c

def transceiveAsync (c : Config) (dataRx dataTx : Option UInt32) (len : UInt32) (s : State) :
    Bool × State :=
  if s.inited = true ∧ ¬ c.HasStreams dataRx dataTx then (false, s)
  else if s.inited = true ∧ 0 < len ∧ (dataRx ≠ none ∨ dataTx ≠ none) then
    (true, startAsync c dataRx dataTx len s)
  else (false, s)

/-- `uni_hal_spi_abort` of a transfer in process, step after step. -/
def stopAsync (c : Config) (s : State) : State :=
  let s := s.disableItEot.disableItTxp
  let s := (s.stopStreams c).disableDmaReq
  (s.disable.clearFlags.nssSet c true).endProcess

def abort (c : Config) (s : State) : Bool × State :=
  if s.isBusy then (true, stopAsync c s) else (false, s)

/-- What one turn of a loop of `uni_hal_spi_transmitreceive` finds. -/
structure Poll where
  txp : Bool
  rxp : Bool
  data : UInt8
  eot : Bool
  ms : UInt32

structure Progress where
  sent : List UInt8
  received : List UInt8
  activityMs : UInt32

def stallTimeoutMs : UInt32 := 100

def stalls (c : Config) (activityMs ms : UInt32) : Bool :=
  decide (c.mode = .master) && decide (stallTimeoutMs < ms - activityMs)

def turn (txData : Option (ℕ → UInt8)) (len : UInt32) (p : Poll) (q : Progress) : Progress where
  sent :=
    if q.sent.length < len.toNat ∧ p.txp = true then
      q.sent ++ [(txData.map fun f => f q.sent.length).getD 0]
    else q.sent
  received :=
    if q.received.length < len.toNat ∧ p.rxp = true then q.received ++ [p.data] else q.received
  activityMs :=
    if (q.sent.length < len.toNat ∧ p.txp = true) ∨ (q.received.length < len.toNat ∧ p.rxp = true)
    then p.ms else q.activityMs

/-- The first loop, which moves the bytes, with the turns that are left for the second one. It has
no result when it has not ended with the last turn. -/
def exchange (c : Config) (txData : Option (ℕ → UInt8)) (len : UInt32) (q : Progress) :
    List Poll → Option (Bool × Progress × List Poll)
  | [] => if len.toNat ≤ q.sent.length ∧ len.toNat ≤ q.received.length then some (false, q, [])
      else none
  | p :: ps =>
    if len.toNat ≤ q.sent.length ∧ len.toNat ≤ q.received.length then some (false, q, p :: ps)
    else
      let next := turn txData len p q
      if next.sent = q.sent ∧ next.received = q.received ∧ stalls c q.activityMs p.ms = true then
        some (true, next, ps)
      else exchange c txData len next ps

def awaitEot (c : Config) (activityMs : UInt32) : List Poll → Option Bool
  | [] => none
  | p :: ps =>
    if p.eot then some false
    else if stalls c activityMs p.ms then some true
    else awaitEot c activityMs ps

def transferLoops (c : Config) (txData : Option (ℕ → UInt8)) (len startMs : UInt32)
    (polls : List Poll) : Option (Bool × Progress) :=
  (exchange c txData len ⟨[], [], startMs⟩ polls).bind fun r =>
    if r.1 then some (true, r.2.1)
    else (awaitEot c r.2.1.activityMs r.2.2).map fun stalled => (stalled, r.2.1)

/-- The result of a blocking function, what its receive buffer has got, and the state. -/
structure Outcome where
  result : Bool
  received : List UInt8
  state : State

def transmitReceive (c : Config) (txData : Option (ℕ → UInt8)) (rxData : Bool)
    (len startMs : UInt32) (polls : List Poll) (s : State) : Option Outcome :=
  if s.inited then
    let s := s.clearFlags.setTransferSize len
    let s := (s.enable c).startIfMaster c
    (transferLoops c txData len startMs polls).map fun r =>
      ⟨!r.1, if rxData then r.2.received else [], s.disable.clearFlags⟩
  else some ⟨false, [], s⟩

def receive (c : Config) (data : Bool) (len startMs : UInt32) (polls : List Poll) (s : State) :
    Option Outcome :=
  transmitReceive c none data len startMs polls s

def transmit (c : Config) (data : Option (ℕ → UInt8)) (len startMs : UInt32)
    (polls : List Poll) (s : State) : Option Outcome :=
  if s.inited = true ∧ data ≠ none ∧ 0 < len then
    let s := { s with inProcess := true }.nssSet c false
    (transmitReceive c data false len startMs polls s).map fun r =>
      { r with state := (r.state.nssSet c true).endProcess }
  else some ⟨false, [], s⟩

end UniHal.Spi.Stm32h7
