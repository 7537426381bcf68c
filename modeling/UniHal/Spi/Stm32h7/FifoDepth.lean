import UniHal.Foundations.Execution
import UniHal.Spi.Stm32h7.Driver

/-! # Blocking transfers and the depth of the FIFOs

`uni_hal_spi_transmitreceive` on a master, statement after statement, next to a peripheral that
shifts bytes out and in at its own pace. The function keeps the transmit FIFO filled and does not
count the bytes in flight, so that a pause of the loop can be long enough for one byte more than
the receive FIFO holds.
-/

namespace UniHal.Spi.Stm32h7.FifoDepth
open Foundations Execution

/-- A call of `uni_hal_spi_transmitreceive` on a master whose FIFOs hold `depth` bytes each. -/
structure Job where
  config : Config
  master : config.mode = .master
  depth : ℕ
  txData : Option (ℕ → UInt8)
  /-- `rx_data` is given -/
  rxData : Bool
  len : UInt32
  startMs : UInt32
  /-- after how many bytes the peripheral ends a transfer that was started with this length, if
  it ends it at all -/
  size : Option ℕ
  size_eq : len.toNat < 2 ^ 16 → size = if len = 0 then none else some len.toNat

namespace Job

/-- The byte that is written with index `n`. -/
def byte (j : Job) (n : ℕ) : UInt8 := (j.txData.map fun f => f n).getD 0

def clocked (j : Job) : ℕ := min j.len.toNat (j.size.getD j.len.toNat)

end Job

inductive Stage
  | loop
  | testTxp
  | transmit
  | testRxp (progress : Bool)
  | receive
  | time (progress : Bool)
  | testEot
  | timeEot
  | ended (result : Bool)
  deriving DecidableEq

structure State where
  stage : Stage := .loop
  progress : Progress
  txFifo : List UInt8 := []
  shift : Option UInt8 := none
  rxFifo : List UInt8 := []
  /-- the bytes that the shift register has taken, in order -/
  line : List UInt8 := []
  /-- the bytes that have come in, in order -/
  arrived : List UInt8 := []
  /-- a byte came in while the receive FIFO was full -/
  overrun : Bool := false

inductive Action
  /-- the next statement, with what `uni_hal_systick_get_ms` reads in it -/
  | program (ms : UInt32)
  /-- the shift register takes a byte of the transmit FIFO -/
  | load
  /-- it has shifted its byte out and another one in -/
  | finish (b : UInt8)

/-- The peripheral is set up and `activity_ms` is read. -/
def started (j : Job) : State := { progress := ⟨[], [], j.startMs⟩ }

namespace State

def withStage (s : State) (stage : Stage) : State := { s with stage := stage }

/-- `LL_SPI_IsActiveFlag_TXP` -/
def txp (j : Job) (s : State) : Bool := decide (s.txFifo.length < j.depth)

/-- `LL_SPI_IsActiveFlag_RXP` -/
def rxp (s : State) : Bool := !s.rxFifo.isEmpty

/-- `LL_SPI_IsActiveFlag_EOT` -/
def eot (j : Job) (s : State) : Bool := decide (j.size = some s.arrived.length)

/-- `LL_SPI_TransmitData8` and `idx_tx++` -/
def onTransmit (j : Job) (s : State) : State :=
  { s with
    progress := { s.progress with sent := s.progress.sent ++ [j.byte s.progress.sent.length] }
    txFifo := s.txFifo ++ [j.byte s.progress.sent.length] }

/-- `LL_SPI_ReceiveData8` and `idx_rx++` -/
def onReceive (s : State) : State :=
  { s with
    progress := { s.progress with received := s.progress.received ++ [s.rxFifo.head?.getD 0] }
    rxFifo := s.rxFifo.tail }

def onActivity (ms : UInt32) (s : State) : State :=
  { s with progress := { s.progress with activityMs := ms } }

def onLoad (b : UInt8) (s : State) : State :=
  { s with txFifo := s.txFifo.tail, shift := some b, line := s.line ++ [b] }

def onFinish (j : Job) (b : UInt8) (s : State) : State :=
  { s with
    shift := none
    rxFifo := if s.rxFifo.length < j.depth then s.rxFifo ++ [b] else s.rxFifo
    arrived := s.arrived ++ [b]
    overrun := s.overrun || !decide (s.rxFifo.length < j.depth) }

def rxData (j : Job) (s : State) : List UInt8 := if j.rxData then s.progress.received else []

end State

/-- The next statement of `uni_hal_spi_transmitreceive`. -/
def program (j : Job) (ms : UInt32) (s : State) : Option State :=
  match s.stage with
  | .loop =>
    if s.progress.sent.length < j.len.toNat ∨ s.progress.received.length < j.len.toNat then
      some (s.withStage .testTxp)
    else some (s.withStage .testEot)
  | .testTxp =>
    if s.progress.sent.length < j.len.toNat ∧ s.txp j = true then some (s.withStage .transmit)
    else some (s.withStage (.testRxp false))
  | .transmit => some ((s.onTransmit j).withStage (.testRxp true))
  | .testRxp progress =>
    if s.progress.received.length < j.len.toNat ∧ s.rxp = true then some (s.withStage .receive)
    else some (s.withStage (.time progress))
  | .receive => some (s.onReceive.withStage (.time true))
  | .time progress =>
    if progress then some ((s.onActivity ms).withStage .loop)
    else if stalls j.config s.progress.activityMs ms then some (s.withStage (.ended false))
    else some (s.withStage .loop)
  | .testEot =>
    if s.eot j then some (s.withStage (.ended true)) else some (s.withStage .timeEot)
  | .timeEot =>
    if stalls j.config s.progress.activityMs ms then some (s.withStage (.ended false))
    else some (s.withStage .testEot)
  | .ended _ => none

def Stage.enabled : Stage → Bool
  | .ended _ => false
  | _ => true

/-- One statement of the function, or one step of the peripheral. -/
def step (j : Job) (s : State) : Action → Option State
  | .program ms => program j ms s
  | .load =>
    match s.stage.enabled, s.shift, s.txFifo with
    | true, none, b :: _ =>
      if ∀ n ∈ j.size, s.line.length < n then some (s.onLoad b) else none
    | _, _, _ => none
  | .finish b =>
    match s.stage.enabled, s.shift with
    | true, some _ => some (s.onFinish j b)
    | _, _ => none

/-- What a transfer is to do, at whatever point it is. -/
structure Faultless (j : Job) (s : State) : Prop where
  noOverrun : s.overrun = false
  inOrder : s.line = (List.range s.line.length).map j.byte
  rxData : ∀ (i : ℕ) (b : UInt8), (s.rxData j)[i]? = some b → s.arrived[i]? = some b
  complete : s.stage = .ended true →
    s.line.length = j.len.toNat ∧ s.arrived.length = j.len.toNat ∧ s.progress.received = s.arrived

/-- The transfer is faultless whatever comes in, however the function and the peripheral are
paced. -/
def Lossless (j : Job) : Prop :=
  ∀ run s, exec (step j) (started j) run = some s → Faultless j s

/-- What the function has found out when it takes a statement. -/
def Guarded (j : Job) (s : State) : Prop :=
  match s.stage with
  | .transmit => s.progress.sent.length < j.len.toNat ∧ s.txFifo.length < j.depth
  | .receive => s.progress.received.length < j.len.toNat ∧ s.rxFifo ≠ []
  | .testEot | .timeEot =>
    s.progress.sent.length = j.len.toNat ∧ s.progress.received.length = j.len.toNat
  | .ended result => result = true →
    s.progress.sent.length = j.len.toNat ∧ s.progress.received.length = j.len.toNat
  | .loop | .testTxp | .testRxp _ | .time _ => True

/-- Where the bytes are that went out and came in. -/
structure Invariant (j : Job) (s : State) : Prop where
  sent_eq : s.progress.sent = (List.range s.progress.sent.length).map j.byte
  sent_le : s.progress.sent.length ≤ j.len.toNat
  sent_empty : j.depth = 0 → s.progress.sent = []
  out_eq : s.line ++ s.txFifo = s.progress.sent
  shift_eq : s.arrived.length + s.shift.toList.length = s.line.length
  size_le : ∀ n ∈ j.size, s.line.length ≤ n
  received_le : s.progress.received.length ≤ j.len.toNat
  in_eq : s.overrun = false → s.progress.received ++ s.rxFifo = s.arrived
  in_le : s.progress.received.length + s.rxFifo.length ≤ s.arrived.length
  guarded : Guarded j s

variable {j : Job} {s t : State}

theorem invariant_started (j : Job) : Invariant j (started j) where
  sent_eq := rfl
  sent_le := Nat.zero_le _
  sent_empty := fun _ => rfl
  out_eq := rfl
  shift_eq := rfl
  size_le := fun _ _ => Nat.zero_le _
  received_le := Nat.zero_le _
  in_eq := fun _ => rfl
  in_le := Nat.le_refl _
  guarded := trivial

theorem Invariant.withStage (h : Invariant j s) {stage : Stage}
    (hguarded : Guarded j (s.withStage stage)) : Invariant j (s.withStage stage) :=
  { h with guarded := hguarded }

theorem Invariant.onActivity (h : Invariant j s) (ms : UInt32) :
    Invariant j ((s.onActivity ms).withStage .loop) :=
  { h with guarded := trivial }

theorem Invariant.onTransmit (h : Invariant j s) (hstage : s.stage = .transmit) :
    Invariant j ((s.onTransmit j).withStage (.testRxp true)) := by
  have hguarded := h.guarded
  simp only [Guarded, hstage] at hguarded
  have hlength : (s.progress.sent ++ [j.byte s.progress.sent.length]).length =
      s.progress.sent.length + 1 := List.length_append
  refine { h with sent_eq := ?_, sent_le := ?_, sent_empty := ?_, out_eq := ?_, guarded := trivial }
  · change s.progress.sent ++ [j.byte s.progress.sent.length] = (List.range
      (s.progress.sent ++ [j.byte s.progress.sent.length]).length).map j.byte
    rw [hlength, List.range_succ, List.map_append, ← h.sent_eq, List.map_singleton]
  · exact hlength.trans_le hguarded.1
  · intro hdepth
    rw [hdepth] at hguarded
    exact absurd hguarded.2 (Nat.not_lt_zero _)
  · change s.line ++ (s.txFifo ++ [_]) = s.progress.sent ++ [_]
    rw [← List.append_assoc, h.out_eq]

theorem Invariant.onReceive (h : Invariant j s) (hstage : s.stage = .receive) :
    Invariant j (s.onReceive.withStage (.time true)) := by
  have hguarded := h.guarded
  simp only [Guarded, hstage] at hguarded
  obtain ⟨hlt, hne⟩ := hguarded
  obtain ⟨b, rest, hfifo⟩ := List.exists_cons_of_ne_nil hne
  have hhead : s.onReceive.progress.received = s.progress.received ++ [b] := by
    simp [State.onReceive, hfifo]
  have htail : s.onReceive.rxFifo = rest := by rw [State.onReceive, hfifo, List.tail_cons]
  refine { h with received_le := ?_, in_eq := ?_, in_le := ?_, guarded := trivial }
  · change s.onReceive.progress.received.length ≤ _
    rw [hhead, List.length_append]
    exact hlt
  · intro hoverrun
    change s.onReceive.progress.received ++ s.onReceive.rxFifo = s.arrived
    rw [hhead, htail, List.append_assoc, List.singleton_append, ← hfifo]
    exact h.in_eq hoverrun
  · change s.onReceive.progress.received.length + s.onReceive.rxFifo.length ≤ s.arrived.length
    have hle := h.in_le
    rw [hfifo, List.length_cons] at hle
    rw [hhead, htail, List.length_append, List.length_singleton]
    omega

/-- What the function has found out stays true while the peripheral works. -/
theorem Guarded.onLoad (h : Guarded j s) (b : UInt8) : Guarded j (s.onLoad b) := by
  cases hstage : s.stage with
  | transmit =>
    simp only [Guarded, State.onLoad, hstage] at h ⊢
    exact ⟨h.1, (List.length_tail.trans_le (Nat.sub_le _ 1)).trans_lt h.2⟩
  | loop | testTxp | testRxp | time => simp only [Guarded, State.onLoad, hstage]
  | receive | testEot | timeEot | ended =>
    simp only [Guarded, State.onLoad, hstage] at h ⊢
    exact h

theorem Guarded.onFinish (h : Guarded j s) (b : UInt8) : Guarded j (s.onFinish j b) := by
  cases hstage : s.stage with
  | receive =>
    simp only [Guarded, State.onFinish, hstage] at h ⊢
    refine ⟨h.1, ?_⟩
    split
    · exact List.append_ne_nil_of_left_ne_nil h.2 _
    · exact h.2
  | loop | testTxp | testRxp | time => simp only [Guarded, State.onFinish, hstage]
  | transmit | testEot | timeEot | ended =>
    simp only [Guarded, State.onFinish, hstage] at h ⊢
    exact h

theorem Invariant.onLoad (h : Invariant j s) (hshift : s.shift = none) {b : UInt8}
    {rest : List UInt8} (hfifo : s.txFifo = b :: rest)
    (hsize : ∀ n ∈ j.size, s.line.length < n) : Invariant j (s.onLoad b) := by
  have hline : (s.line ++ [b]).length = s.line.length + 1 := List.length_append
  refine { h with out_eq := ?_, shift_eq := ?_, size_le := ?_, guarded := h.guarded.onLoad b }
  · change (s.line ++ [b]) ++ s.txFifo.tail = s.progress.sent
    rw [← h.out_eq, hfifo, List.tail_cons, List.append_assoc, List.singleton_append]
  · have heq := h.shift_eq
    rw [hshift] at heq
    change s.arrived.length + 1 = (s.line ++ [b]).length
    rw [hline, ← heq]
    rfl
  · intro n hn
    exact hline.trans_le (hsize n hn)

theorem Invariant.onFinish (h : Invariant j s) {out : UInt8} (hshift : s.shift = some out)
    (b : UInt8) : Invariant j (s.onFinish j b) := by
  have harrived : (s.arrived ++ [b]).length = s.arrived.length + 1 := List.length_append
  refine { h with shift_eq := ?_, in_eq := ?_, in_le := ?_, guarded := h.guarded.onFinish b }
  · have heq := h.shift_eq
    rw [hshift] at heq
    change (s.arrived ++ [b]).length + 0 = s.line.length
    rw [harrived, ← heq]
    rfl
  · intro hoverrun
    have hclear := Bool.or_eq_false_iff.mp hoverrun
    have hroom : s.rxFifo.length < j.depth := by simpa using hclear.2
    change s.progress.received ++ (if _ then _ else _) = s.arrived ++ [b]
    rw [if_pos hroom, ← List.append_assoc, h.in_eq hclear.1]
  · have hle := h.in_le
    change s.progress.received.length + (if _ then _ else _ : List UInt8).length ≤
      (s.arrived ++ [b]).length
    rw [harrived]
    split
    · rw [List.length_append, List.length_singleton]
      omega
    · omega

theorem invariant_program (h : Invariant j s) {ms : UInt32} (ht : program j ms s = some t) :
    Invariant j t := by
  cases hstage : s.stage with
  | loop =>
    simp only [program, hstage, ← apply_ite some, ← apply_ite s.withStage] at ht
    cases ht
    apply h.withStage
    split
    · trivial
    · rename_i hdone
      have hsent := h.sent_le
      have hreceived := h.received_le
      constructor
      · change s.progress.sent.length = _
        omega
      · change s.progress.received.length = _
        omega
  | testTxp =>
    simp only [program, hstage, ← apply_ite some, ← apply_ite s.withStage] at ht
    cases ht
    apply h.withStage
    split
    · rename_i hgo
      exact ⟨hgo.1, of_decide_eq_true hgo.2⟩
    · trivial
  | transmit =>
    simp only [program, hstage] at ht
    cases ht
    exact h.onTransmit hstage
  | testRxp progress =>
    simp only [program, hstage, ← apply_ite some, ← apply_ite s.withStage] at ht
    cases ht
    apply h.withStage
    split
    · rename_i hgo
      exact ⟨hgo.1, by simpa [State.rxp, State.withStage] using hgo.2⟩
    · trivial
  | receive =>
    simp only [program, hstage] at ht
    cases ht
    exact h.onReceive hstage
  | time progress =>
    simp only [program, hstage] at ht
    split at ht
    · cases ht
      exact h.onActivity ms
    · split at ht
      · cases ht
        exact h.withStage fun hresult => absurd hresult Bool.false_ne_true
      · cases ht
        exact h.withStage trivial
  | testEot =>
    have hguarded := h.guarded
    simp only [Guarded, hstage] at hguarded
    simp only [program, hstage, ← apply_ite some, ← apply_ite s.withStage] at ht
    cases ht
    apply h.withStage
    split
    · exact fun _ => hguarded
    · exact hguarded
  | timeEot =>
    have hguarded := h.guarded
    simp only [Guarded, hstage] at hguarded
    simp only [program, hstage, ← apply_ite some, ← apply_ite s.withStage] at ht
    cases ht
    apply h.withStage
    split
    · exact fun hresult => absurd hresult Bool.false_ne_true
    · exact hguarded
  | ended result =>
    simp only [program, hstage] at ht
    exact absurd ht (by simp)

theorem invariant_step (h : Invariant j s) {a : Action} (ht : step j s a = some t) :
    Invariant j t := by
  cases a with
  | program ms => exact invariant_program h ht
  | load =>
    simp only [step] at ht
    split at ht
    · rename_i b rest _ hshift hfifo
      simp only [Option.ite_none_right_eq_some] at ht
      cases ht.2
      exact h.onLoad hshift hfifo ht.1
    · exact absurd ht (by simp)
  | finish b =>
    simp only [step] at ht
    split at ht
    · rename_i hshift
      cases ht
      exact h.onFinish hshift b
    · exact absurd ht (by simp)

theorem overrun_program {ms : UInt32} (ht : program j ms s = some t) : t.overrun = s.overrun := by
  unfold program at ht
  split at ht
  · split at ht <;> cases ht <;> rfl
  · split at ht <;> cases ht <;> rfl
  · cases ht
    rfl
  · split at ht <;> cases ht <;> rfl
  · cases ht
    rfl
  · split at ht
    · cases ht
      rfl
    · split at ht <;> cases ht <;> rfl
  · split at ht <;> cases ht <;> rfl
  · split at ht <;> cases ht <;> rfl
  · exact absurd ht (by simp)

/-- No more bytes are on the line than fit the receive FIFO. -/
theorem Invariant.line_le (h : Invariant j s) (hfits : j.depth = 0 ∨ j.clocked ≤ j.depth) :
    s.line.length ≤ j.depth := by
  have hsent : s.line.length ≤ s.progress.sent.length := by
    rw [← h.out_eq, List.length_append]
    exact Nat.le_add_right _ _
  rcases hfits with hzero | hclocked
  · rw [h.sent_empty hzero] at hsent
    exact hsent.trans (Nat.zero_le _)
  · refine (le_min (hsent.trans h.sent_le) ?_).trans hclocked
    cases hsize : j.size with
    | none => exact hsent.trans h.sent_le
    | some n => exact h.size_le n hsize

theorem noOverrun_step (hfits : j.depth = 0 ∨ j.clocked ≤ j.depth) (h : Invariant j s)
    (hclear : s.overrun = false) {a : Action} (ht : step j s a = some t) : t.overrun = false := by
  cases a with
  | program ms => exact (overrun_program ht).trans hclear
  | load =>
    simp only [step] at ht
    split at ht
    · simp only [Option.ite_none_right_eq_some] at ht
      cases ht.2
      exact hclear
    · exact absurd ht (by simp)
  | finish b =>
    simp only [step] at ht
    split at ht
    · rename_i hshift
      cases ht
      have hline := h.line_le hfits
      have heq := h.shift_eq
      have hle := h.in_le
      rw [hshift] at heq
      have hroom : s.rxFifo.length < j.depth := by
        simp only [Option.toList_some, List.length_singleton] at heq
        omega
      simp [State.onFinish, hclear, hroom]
    · exact absurd ht (by simp)

theorem Invariant.line_prefix (h : Invariant j s) : s.line <+: s.progress.sent :=
  ⟨s.txFifo, h.out_eq⟩

theorem Invariant.rxData_prefix (h : Invariant j s) (hclear : s.overrun = false) :
    s.rxData j <+: s.arrived := by
  unfold State.rxData
  split
  · exact ⟨s.rxFifo, h.in_eq hclear⟩
  · exact List.nil_prefix

theorem Invariant.faultless (h : Invariant j s) (hclear : s.overrun = false) : Faultless j s where
  noOverrun := hclear
  inOrder := by
    have htake := List.prefix_iff_eq_take.mp h.line_prefix
    rw [h.sent_eq, ← List.map_take, List.take_range, min_eq_left h.line_prefix.length_le] at htake
    exact htake
  rxData := by
    intro i b hb
    obtain ⟨hi, hget⟩ := List.getElem?_eq_some_iff.mp hb
    have hprefix := h.rxData_prefix hclear
    rw [← hget, hprefix.getElem hi]
    exact List.getElem?_eq_getElem (hi.trans_le hprefix.length_le)
  complete := by
    intro hstage
    have hguarded := h.guarded
    simp only [Guarded, hstage] at hguarded
    obtain ⟨hsent, hreceived⟩ := hguarded trivial
    have hin := h.in_eq hclear
    have hout := h.line_prefix.length_le
    have hshift := h.shift_eq
    have hlength : s.progress.received.length + s.rxFifo.length = s.arrived.length := by
      rw [← hin, List.length_append]
    have hempty : s.rxFifo = [] := List.length_eq_zero_iff.mp (by omega)
    refine ⟨by omega, by omega, ?_⟩
    rw [← hin, hempty, List.append_nil]

theorem lossless_of_fits (hfits : j.depth = 0 ∨ j.clocked ≤ j.depth) : Lossless j := by
  intro run s hrun
  have hstart : Invariant j (started j) ∧ (started j).overrun = false := ⟨invariant_started j, rfl⟩
  have hstep : ∀ s a t, Invariant j s ∧ s.overrun = false → step j s a = some t →
      Invariant j t ∧ t.overrun = false :=
    fun s a t hs ht => ⟨invariant_step hs.1 ht, noOverrun_step hfits hs.1 hs.2 ht⟩
  have hinv := exec_invariant_of_step hstep hstart hrun
  exact hinv.1.faultless hinv.2

/-- Once more bytes are in flight than the receive FIFO has room for, the peripheral alone makes
it overrun. -/
theorem overruns_of_inFlight {fifo : List UInt8} {out : UInt8} (hfifo : s.txFifo = fifo)
    (henabled : s.stage.enabled = true) (hshift : s.shift = some out)
    (hsize : ∀ n ∈ j.size, s.line.length + fifo.length ≤ n)
    (hflight : j.depth < s.rxFifo.length + 1 + fifo.length) :
    ∃ t, Reaches (step j) s t ∧ t.overrun = true := by
  induction fifo generalizing s out with
  | nil =>
    have hfull : ¬ s.rxFifo.length < j.depth := by
      rw [List.length_nil] at hflight
      omega
    refine ⟨s.onFinish j 0, Reaches.head (a := .finish 0) ?_ (Reaches.refl _), ?_⟩
    · simp only [step, henabled, hshift]
    · simp [State.onFinish, hfull]
  | cons b rest ih =>
    have hfinish : step j s (.finish 0) = some (s.onFinish j 0) := by
      simp only [step, henabled, hshift]
    by_cases hroom : s.rxFifo.length < j.depth
    · have hload : step j (s.onFinish j 0) .load = some ((s.onFinish j 0).onLoad b) := by
        have hlt : ∀ n ∈ j.size, s.line.length < n := fun n hn => by
          have hle := hsize n hn
          rw [List.length_cons] at hle
          omega
        simp only [step, State.onFinish, henabled, hfifo]
        exact if_pos hlt
      have hrx : ((s.onFinish j 0).onLoad b).rxFifo = s.rxFifo ++ [0] := if_pos hroom
      obtain ⟨t, ht, hoverrun⟩ := ih (s := (s.onFinish j 0).onLoad b)
        (by simp [State.onLoad, State.onFinish, hfifo]) henabled rfl
        (fun n hn => by
          have hle := hsize n hn
          simp only [State.onLoad, State.onFinish, List.length_append, List.length_cons,
            List.length_nil] at hle ⊢
          omega)
        (by
          rw [hrx, List.length_append, List.length_singleton]
          rw [List.length_cons] at hflight
          omega)
      exact ⟨t, (ht.head hload).head hfinish, hoverrun⟩
    · refine ⟨s.onFinish j 0, Reaches.head hfinish (Reaches.refl _), ?_⟩
      simp [State.onFinish, hroom]

def State.onTurn (j : Job) (ms : UInt32) (s : State) : State :=
  ((s.onTransmit j).onActivity ms).withStage .loop

/-- The progress is that of a turn which finds these flags. -/
theorem progress_onTurn (hsent : s.progress.sent.length < j.len.toNat) (ms : UInt32)
    (data : UInt8) (eot : Bool) :
    (s.onTurn j ms).progress = turn j.txData j.len ⟨true, false, data, eot, ms⟩ s.progress := by
  simp [turn, hsent, State.onTurn, State.onTransmit, State.onActivity, State.withStage, Job.byte]

theorem reaches_onTurn (hstage : s.stage = .loop) (hsent : s.progress.sent.length < j.len.toNat)
    (htx : s.txFifo.length < j.depth) (hrx : s.rxFifo = []) (ms : UInt32) :
    Reaches (step j) s (s.onTurn j ms) := by
  have hloop : step j s (.program ms) = some (s.withStage .testTxp) := by
    simp only [step, program, hstage]
    exact if_pos (Or.inl hsent)
  have htest : step j (s.withStage .testTxp) (.program ms) = some (s.withStage .transmit) :=
    if_pos ⟨hsent, decide_eq_true htx⟩
  have hreceive : step j ((s.onTransmit j).withStage (.testRxp true)) (.program ms) =
      some ((s.onTransmit j).withStage (.time true)) :=
    if_neg fun h => by simp [State.rxp, State.withStage, State.onTransmit, hrx] at h
  exact Reaches.head hloop <| Reaches.head htest <|
    Reaches.head (a := .program ms) (u := (s.onTransmit j).withStage (.testRxp true)) rfl <|
    Reaches.head hreceive <| Reaches.head (a := .program ms) rfl (Reaches.refl _)

/-- Turns that the peripheral does not disturb fill the transmit FIFO. -/
theorem reaches_filled (hstage : s.stage = .loop) (hrx : s.rxFifo = []) {n : ℕ}
    (hsent : s.progress.sent.length + n ≤ j.len.toNat) (htx : s.txFifo.length + n ≤ j.depth) :
    ∃ t, Reaches (step j) s t ∧ t.stage = .loop ∧ t.rxFifo = [] ∧ t.shift = s.shift ∧
      t.line = s.line ∧ t.progress.sent.length = s.progress.sent.length + n ∧
      t.txFifo.length = s.txFifo.length + n := by
  induction n generalizing s with
  | zero => exact ⟨s, Reaches.refl s, hstage, hrx, rfl, rfl, rfl, rfl⟩
  | succ n ih =>
    have hturn := reaches_onTurn hstage (show s.progress.sent.length < j.len.toNat by omega)
      (show s.txFifo.length < j.depth by omega) hrx 0
    have hsent' : (s.onTurn j 0).progress.sent.length = s.progress.sent.length + 1 :=
      List.length_append
    have htx' : (s.onTurn j 0).txFifo.length = s.txFifo.length + 1 := List.length_append
    obtain ⟨t, ht, hloop, hempty, hshift, hline, hsentt, htxt⟩ :=
      ih (s := s.onTurn j 0) rfl hrx (by omega) (by omega)
    exact ⟨t, hturn.trans ht, hloop, hempty, hshift, hline, by omega, by omega⟩

theorem not_lossless_of_deep (hdepth : 0 < j.depth) (hclocked : j.depth < j.clocked) :
    ¬ Lossless j := by
  have hlen : j.depth < j.len.toNat := hclocked.trans_le (min_le_left _ _)
  have hsize : ∀ n ∈ j.size, j.depth + 1 ≤ n := by
    intro n hn
    have hle : j.clocked ≤ n := by
      rw [Job.clocked, Option.mem_def.mp hn]
      exact min_le_right _ _
    exact hclocked.trans_le hle
  -- one byte goes to the shift register, and as many as fit follow it
  have hsome : (started j).progress.sent.length < j.len.toNat := Nat.zero_lt_of_lt hlen
  have hfirst : Reaches (step j) (started j) ((started j).onTurn j 0) :=
    reaches_onTurn rfl hsome hdepth rfl 0
  have hload : step j ((started j).onTurn j 0) .load =
      some (((started j).onTurn j 0).onLoad (j.byte 0)) :=
    if_pos fun n hn => Nat.zero_lt_of_lt (hsize n hn)
  obtain ⟨s, hs, hloop, hempty, hshift, hline, -, htx⟩ :=
    reaches_filled (j := j) (s := ((started j).onTurn j 0).onLoad (j.byte 0)) (n := j.depth) rfl rfl
      (by
        change 1 + j.depth ≤ j.len.toNat
        omega)
      (Nat.zero_add _).le
  have htx : s.txFifo.length = j.depth := htx.trans (Nat.zero_add _)
  obtain ⟨t, ht, hoverrun⟩ := overruns_of_inFlight (j := j) rfl (by rw [hloop]; rfl) hshift
    (fun n hn => by
      have hle := hsize n hn
      rw [hline, htx]
      change 1 + j.depth ≤ n
      omega)
    (by
      rw [hempty, htx, List.length_nil]
      omega)
  obtain ⟨run, hrun⟩ := (hfirst.trans (hs.head hload)).trans ht
  exact fun h => absurd (h run t hrun).noOverrun (by simp [hoverrun])

theorem lossless_iff (j : Job) : Lossless j ↔ j.depth = 0 ∨ j.clocked ≤ j.depth := by
  constructor
  · intro h
    by_contra hnot
    obtain ⟨hne, hlt⟩ := not_or.mp hnot
    exact not_lossless_of_deep (Nat.pos_of_ne_zero hne) (Nat.lt_of_not_le hlt) h
  · exact lossless_of_fits

/-- A length that fits `TSIZE` is exchanged as a whole. -/
theorem clocked_of_lt (hlen : j.len.toNat < 2 ^ 16) : j.clocked = j.len.toNat := by
  rw [Job.clocked, j.size_eq hlen]
  split
  · exact min_self _
  · exact min_self _

section Runs

def nineBytes : Job where
  config := ⟨.master, true, false, false, false⟩
  master := rfl
  depth := 8
  txData := some UInt8.ofNat
  rxData := true
  len := 9
  startMs := 0
  size := some 9
  size_eq := fun _ => rfl

/-- The function writes all bytes, pauses until they are exchanged, reads on and gives up. -/
def paused : List Action :=
  List.replicate 5 (.program 0) ++ [.load] ++ List.replicate 40 (.program 0) ++ [.finish 1] ++
    (List.replicate 8 [.load, .finish 2]).flatten ++ List.replicate 43 (.program 0) ++
    [.program 101]

theorem nineBytes_overrun :
    ∃ s, exec (step nineBytes) (started nineBytes) paused = some s ∧ s.arrived.length = 9 ∧
      s.progress.received.length = 8 ∧ s.stage = .ended false ∧ ¬ Faultless nineBytes s :=
  ⟨_, rfl, rfl, rfl, rfl, fun h => Bool.noConfusion h.noOverrun⟩

end Runs

end UniHal.Spi.Stm32h7.FifoDepth
