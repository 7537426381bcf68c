import UniHal.Uart.Stm32h7.Driver
import UniHal.Uart.Stm32l4.Driver

/-! # The bytes on their way through a UART

What the calls accepted is what was written to the data register, the byte that the handler
holds and what is still in the buffer, in this order. Calls of `uni_hal_usart_irq_enable`
change nothing of it.
-/

namespace UniHal.Uart
open Foundations Execution Interleaving Io

variable {B : Type*} [Buffer B]

/-- The bytes of a transmitter whose handler holds the given byte and has not counted the given
number of writes. -/
structure Flow (held : List UInt8) (uncounted : UInt32) (u : Transmitter B) : Prop where
  stream : u.accepted = u.written.map Prod.fst ++ held ++ Buffer.bytes u.bufTx
  sent : u.written.map Prod.fst = u.wire ++ u.shift.toList ++ u.tdr.toList
  txe : ∀ write ∈ u.written, write.2 = true
  counted : u.txTransmited + uncounted = UInt32.ofNat u.written.length

namespace Flow
variable {held : List UInt8} {uncounted : UInt32} {u : Transmitter B}

theorem init {buf : B} (hbuf : Buffer.bytes buf = []) (tc : Bool) :
    Flow [] 0 (Transmitter.init buf tc) where
  stream := hbuf.symm
  sent := rfl
  txe _ h := nomatch h
  counted := rfl

theorem hardware (h : Flow held uncounted u) {e : Hardware} {v : Transmitter B}
    (hv : u.hardware e = some v) : Flow held uncounted v := by
  have hsent := h.sent
  cases e with
  | load =>
    obtain ⟨data, htdr, hshift, rfl⟩ := hardware_load_eq_some.mp hv
    refine ⟨h.stream, ?_, h.txe, h.counted⟩
    simpa only [htdr, hshift, Option.toList_some, Option.toList_none, List.append_nil] using hsent
  | finish =>
    obtain ⟨data, hshift, rfl⟩ := hardware_finish_eq_some.mp hv
    refine ⟨h.stream, ?_, h.txe, h.counted⟩
    simpa only [hshift, Option.toList_some, Option.toList_none, List.append_nil] using hsent

theorem pushTx (h : Flow held uncounted u) (data : List UInt8) :
    Flow held uncounted (u.pushTx data) := by
  constructor
  · simp only [Transmitter.pushTx, Transmitter.accepted, List.flatMap_append,
      List.flatMap_singleton, Buffer.bytes_write]
    rw [show u.transmits.flatMap (fun call => call.1.take call.2) = u.accepted from rfl, h.stream]
    simp only [List.append_assoc]
  · exact h.sent
  · exact h.txe
  · exact h.counted

/-- A byte that the handler takes out of the buffer is the oldest one. -/
theorem pop (h : Flow [] uncounted u) :
    Flow (Buffer.read u.bufTx 1 0).1 uncounted { u with bufTx := (Buffer.read u.bufTx 1 0).2 } := by
  constructor
  · change u.accepted = u.written.map Prod.fst ++ _ ++ _
    rw [Buffer.read_fst, Buffer.bytes_read, List.append_assoc, List.take_append_drop, h.stream,
      List.append_nil]
  · exact h.sent
  · exact h.txe
  · exact h.counted

theorem transmitData8 {data : UInt8} (h : Flow [data] 0 u) (htdr : u.tdr = none) :
    Flow [] 1 (u.transmitData8 data) := by
  constructor
  · change u.accepted = (u.written ++ [(data, u.txe)]).map Prod.fst ++ [] ++ _
    rw [List.map_append, List.map_singleton, List.append_nil]
    exact h.stream
  · have hsent := h.sent
    rw [htdr, Option.toList_none, List.append_nil] at hsent
    simp only [Transmitter.transmitData8, List.map_append, List.map_singleton, hsent,
      Option.toList_some]
  · intro write hwrite
    rcases List.mem_append.mp hwrite with hold | hnew
    · exact h.txe write hold
    · rw [List.mem_singleton.mp hnew, Transmitter.txe, htdr]
      rfl
  · have hcounted := h.counted
    rw [UInt32.add_zero] at hcounted
    simp only [Transmitter.transmitData8, List.length_append, List.length_singleton, hcounted]
    exact (UInt32.ofNat_add _ 1).symm

end Flow

omit [Buffer B] in
/-- The data register stays empty when the hardware makes a step. -/
theorem hardware_tdr {u v : Transmitter B} {e : Hardware} (hv : u.hardware e = some v)
    (htdr : u.tdr = none) : v.tdr = none := by
  cases e with
  | load =>
    obtain ⟨data, hdata, -, -⟩ := hardware_load_eq_some.mp hv
    rw [htdr] at hdata
    cases hdata
  | finish =>
    obtain ⟨data, -, rfl⟩ := hardware_finish_eq_some.mp hv
    exact htdr

theorem tail_read_one {buf : B} {data : UInt8} {rest : List UInt8}
    (h : (Buffer.read buf 1 0).1 = data :: rest) : rest = [] := by
  have hle : (Buffer.read buf 1 0).1.length ≤ 1 := by
    rw [Buffer.read_fst]
    exact List.length_take_le 1 _
  rw [h, List.length_cons] at hle
  exact List.eq_nil_of_length_eq_zero (by omega)

/-- Only flags, interrupt enables and the marks of a transmission may differ. -/
structure SameBytes (u v : Transmitter B) : Prop where
  tdr : v.tdr = u.tdr
  shift : v.shift = u.shift
  bufTx : v.bufTx = u.bufTx
  txTransmited : v.txTransmited = u.txTransmited
  transmits : v.transmits = u.transmits
  written : v.written = u.written
  wire : v.wire = u.wire

omit [Buffer B] in
theorem SameBytes.refl (u : Transmitter B) : SameBytes u u := ⟨rfl, rfl, rfl, rfl, rfl, rfl, rfl⟩

theorem Flow.same {held : List UInt8} {uncounted : UInt32} {u v : Transmitter B}
    (h : Flow held uncounted u) (hsame : SameBytes u v) : Flow held uncounted v := by
  obtain ⟨htdr, hshift, hbuf, hcount, htransmits, hwritten, hwire⟩ := hsame
  constructor
  · rw [Transmitter.accepted, htransmits, hwritten, hbuf]
    exact h.stream
  · rw [hwritten, hwire, hshift, htdr]
    exact h.sent
  · rw [hwritten]
    exact h.txe
  · rw [hcount, hwritten]
    exact h.counted

def Request.push : Request → Transmitter B → Transmitter B
  | .transmitData data, u => u.pushTx data
  | .irqEnable _, u => u

theorem Flow.push {held : List UInt8} {uncounted : UInt32} {u : Transmitter B}
    (h : Flow held uncounted u) (r : Request) : Flow held uncounted (r.push u) := by
  cases r with
  | transmitData data => exact h.pushTx data
  | irqEnable value => exact h

section Handled
variable {H : Type*} (held : Option H → List UInt8) (uncounted : Option H → UInt32)
  (seenTxe : Option H → Prop)

/-- What a step of a handler does with the bytes: it changes flags only, takes a byte out of the
buffer, writes it to the data register, or counts the write. -/
inductive Handled (h : H) (u : Transmitter B) : Transmitter B → Option H → Prop
  | flags {v : Transmitter B} {next : Option H} (same : SameBytes u v)
      (enabled : v.irqEnabled = u.irqEnabled) (hheld : held next = held (some h))
      (huncounted : uncounted next = uncounted (some h))
      (hseen : seenTxe next → seenTxe (some h) ∨ u.tdr = none) : Handled h u v next
  | pop {next : Option H} (hno : held (some h) = [])
      (hheld : held next = (Buffer.read u.bufTx 1 0).1)
      (huncounted : uncounted next = uncounted (some h))
      (hseen : seenTxe next → seenTxe (some h)) :
      Handled h u { u with bufTx := (Buffer.read u.bufTx 1 0).2 } next
  | transmit {data : UInt8} {next : Option H} (hheld : held (some h) = [data])
      (hcounted : uncounted (some h) = 0) (hseen : seenTxe (some h)) (hno : held next = [])
      (huncounted : uncounted next = 1) (hdone : ¬seenTxe next) :
      Handled h u (u.transmitData8 data) next
  | count {next : Option H} (hheld : held next = held (some h))
      (huncounted : uncounted (some h) = 1) (hcounted : uncounted next = 0)
      (hdone : ¬seenTxe next) :
      Handled h u { u with txTransmited := u.txTransmited + 1 } next

variable {held uncounted seenTxe} {h : H} {u v : Transmitter B} {next : Option H}

theorem Handled.flow (hv : Handled held uncounted seenTxe h u v next)
    (hflow : Flow (held (some h)) (uncounted (some h)) u) (htdr : seenTxe (some h) → u.tdr = none) :
    Flow (held next) (uncounted next) v ∧ (seenTxe next → v.tdr = none) := by
  cases hv with
  | flags same _ hheld huncounted hseen =>
    rw [hheld, huncounted, same.tdr]
    exact ⟨hflow.same same, fun hnext => (hseen hnext).elim htdr id⟩
  | pop hno hheld huncounted hseen =>
    rw [hno] at hflow
    rw [hheld, huncounted]
    exact ⟨hflow.pop, fun hnext => htdr (hseen hnext)⟩
  | transmit hheld hcounted hseen hno huncounted hdone =>
    rw [hheld, hcounted] at hflow
    rw [hno, huncounted]
    exact ⟨hflow.transmitData8 (htdr hseen), fun hnext => absurd hnext hdone⟩
  | count hheld huncounted hcounted hdone =>
    rw [huncounted] at hflow
    rw [hheld, hcounted]
    refine ⟨⟨hflow.stream, hflow.sent, hflow.txe, ?_⟩, fun hnext => absurd hnext hdone⟩
    exact (UInt32.add_zero _).trans hflow.counted

theorem Handled.wire (hv : Handled held uncounted seenTxe h u v next) : v.wire = u.wire := by
  cases hv with
  | flags same => exact same.wire
  | pop | transmit | count => rfl

theorem Handled.irqEnabled (hv : Handled held uncounted seenTxe h u v next) :
    v.irqEnabled = u.irqEnabled := by
  cases hv with
  | flags same enabled => exact enabled
  | pop | transmit | count => rfl

end Handled

/-- What a driver does with the bytes: the byte that its handler has taken out of the buffer and
not yet written, whether a write is not yet counted, and whether the handler has seen TXE and
will write to the data register, or not at all. -/
structure Carrying {C H : Type*} (p : Program (Transmitter B) Hardware Request C H) where
  held : Option H → List UInt8
  uncounted : Option H → UInt32
  seenTxe : Option H → Prop
  hardware_eq : p.hardware = Transmitter.hardware
  idle : held none = [] ∧ uncounted none = 0 ∧ ¬seenTxe none
  entry : held (some p.entry) = [] ∧ uncounted (some p.entry) = 0 ∧ ¬seenTxe (some p.entry)
  call : ∀ r u, (p.call r u).1 = r.push u
  resume : ∀ c u, SameBytes u (p.resume c u).1
  serve : ∀ h u, Handled held uncounted seenTxe h u (p.serve h u).1 (p.serve h u).2

section Carrying
variable {C H : Type*} [DecidableEq C] {p : Program (Transmitter B) Hardware Request C H}

/-- The bytes of a world, with what its handler holds. -/
structure Streams (k : Carrying p) (w : World (Transmitter B) C H) : Prop where
  flow : Flow (k.held w.handler) (k.uncounted w.handler) w.shared
  tdr : k.seenTxe w.handler → w.shared.tdr = none

theorem step_streams (k : Carrying p) (w : World (Transmitter B) C H)
    (a : Action Hardware Request C) (w' : World (Transmitter B) C H) (hw : Streams k w)
    (h : step p w a = some w') : Streams k w' := by
  cases a with
  | hardware e =>
    obtain ⟨v, hv, rfl⟩ := step_hardware_eq_some.mp h
    rw [k.hardware_eq] at hv
    exact ⟨hw.flow.hardware hv, fun hseen => hardware_tdr hv (hw.tdr hseen)⟩
  | call r =>
    cases h
    rw [k.call]
    refine ⟨hw.flow.push r, fun hseen => ?_⟩
    cases r <;> exact hw.tdr hseen
  | resume c =>
    obtain ⟨-, rfl⟩ := step_resume_eq_some.mp h
    have hsame := k.resume c w.shared
    exact ⟨hw.flow.same hsame, fun hseen => hsame.tdr.trans (hw.tdr hseen)⟩
  | enter =>
    obtain ⟨hnone, rfl⟩ := step_enter_eq_some.mp h
    obtain ⟨hheld, huncounted, -⟩ := k.idle
    obtain ⟨hheld', huncounted', hseen'⟩ := k.entry
    refine ⟨?_, fun hseen => absurd hseen hseen'⟩
    have hflow := hw.flow
    rw [hnone, hheld, huncounted] at hflow
    rw [hheld', huncounted']
    exact hflow
  | serve =>
    obtain ⟨irq, hirq, rfl⟩ := step_serve_eq_some.mp h
    have hflow := hw.flow
    have htdr := hw.tdr
    rw [hirq] at hflow htdr
    obtain ⟨hflow', htdr'⟩ := (k.serve irq w.shared).flow hflow htdr
    exact ⟨hflow', htdr'⟩

theorem exec_streams (k : Carrying p) {buf : B} (hbuf : Buffer.bytes buf = []) (tc : Bool)
    {run : List (Action Hardware Request C)} {w : World (Transmitter B) C H}
    (hrun : exec (step p) ⟨Transmitter.init buf tc, [], none⟩ run = some w) : Streams k w := by
  refine exec_invariant_of_step (step_streams k) ⟨?_, ?_⟩ hrun
  · obtain ⟨hheld, huncounted, -⟩ := k.idle
    rw [hheld, huncounted]
    exact Flow.init hbuf tc
  · exact fun _ => rfl

omit [DecidableEq C] in
/-- What is not in the buffer of a transmitter that has become empty is on the line. -/
theorem Streams.wire_eq {k : Carrying p} {w : World (Transmitter B) C H} (hw : Streams k w)
    (hhandler : w.handler = none) (hidle : w.shared.Idle)
    (hempty : Buffer.bytes w.shared.bufTx = []) : w.shared.wire = w.shared.accepted := by
  have hsent := hw.flow.sent
  have hstream := hw.flow.stream
  rw [hidle.1, hidle.2, Option.toList_none, List.append_nil, List.append_nil] at hsent
  rw [hhandler, k.idle.1, hempty, List.append_nil, List.append_nil] at hstream
  rw [hstream, hsent]

end Carrying

/-- Without a new call a bounded number of steps is left, and after them everything accepted
has been sent and the transmitter is not busy. -/
def Completes {C H : Type*}
    (step : World (Transmitter B) C H → Action Hardware Request C →
      Option (World (Transmitter B) C H))
    (productive ok : World (Transmitter B) C H → Action Hardware Request C → Prop)
    (w : World (Transmitter B) C H) : Prop :=
  ∃ bound, ∀ rest w', Along step (fun w a => productive w a ∧ ok w a) w rest →
    exec step w rest = some w' →
      rest.length ≤ bound ∧
      ((∀ a, productive w' a → step w' a = none) →
        w'.shared.busy = false ∧ w'.shared.wire = w'.shared.accepted)

namespace Stm32h7

/-- The byte that the handler has taken out of the buffer and not yet written. -/
def held : Option Irq → List UInt8
  | some (.disableTcie data) | some (.readInTransmission data)
  | some (.setInTransmission data) | some (.transmit data) => [data]
  | _ => []

def uncounted : Option Irq → UInt32
  | some .count => 1
  | _ => 0

def seenTxe : Option Irq → Prop
  | some .pop | some (.disableTcie _) | some (.readInTransmission _)
  | some (.setInTransmission _) | some (.transmit _) => True
  | _ => False

theorem call_push (r : Request) (u : Transmitter B) : (call r u).1 = r.push u := by
  match r with
  | .transmitData data => rfl
  | .irqEnable true => rfl
  | .irqEnable false => rfl

omit [Buffer B] in
theorem sameBytes_resume (c : Call) (u : Transmitter B) : SameBytes u (resume c u).1 := by
  cases c <;> exact ⟨rfl, rfl, rfl, rfl, rfl, rfl, rfl⟩

theorem handled_serve (h : Irq) (u : Transmitter B) :
    Handled held uncounted seenTxe h u (serve h u).1 (serve h u).2 := by
  cases h with
  | readTxe =>
    simp only [serve]
    split
    · rename_i htxe
      exact .flags (.refl u) rfl rfl rfl fun _ => Or.inr (Option.isNone_iff_eq_none.mp htxe)
    · exact .flags (.refl u) rfl rfl rfl fun h => nomatch h
  | pop =>
    simp only [serve]
    split
    · rename_i hgot
      exact .pop rfl hgot.symm rfl fun h => nomatch h
    · rename_i data rest hgot
      obtain rfl := tail_read_one hgot
      exact .pop rfl hgot.symm rfl fun _ => trivial
  | transmit data => exact .transmit rfl rfl trivial rfl rfl id
  | count => exact .count rfl rfl rfl id
  | readInTransmission data =>
    simp only [serve]
    split
    · exact .flags (.refl u) rfl rfl rfl Or.inl
    · exact .flags ⟨rfl, rfl, rfl, rfl, rfl, rfl, rfl⟩ rfl rfl rfl Or.inl
  | readTxeie | readTcie | readTc | emptyReadInTransmission | endReadInTransmission
  | endReadBuffer =>
    simp only [serve]
    split <;> exact .flags (.refl u) rfl rfl rfl fun h => nomatch h
  | disableTcie _ | setInTransmission _ | disableTxeie | emptyClearTc | emptyEnableTcie | endClearTc
  | unusedDisableTcie | endDisableTxeie | endDisableTcie | endInTransmission | endCallback
  | moreDisableTcie | moreEnableTxeie =>
    exact .flags ⟨rfl, rfl, rfl, rfl, rfl, rfl, rfl⟩ rfl rfl rfl Or.inl

def carrying : Carrying (program : Program (Transmitter B) Hardware Request Call Irq) where
  held := held
  uncounted := uncounted
  seenTxe := seenTxe
  hardware_eq := program_hardware
  idle := ⟨rfl, rfl, id⟩
  entry := ⟨rfl, rfl, id⟩
  call := call_push
  resume := sameBytes_resume
  serve := handled_serve

end Stm32h7

namespace Stm32l4

/-- The byte that the handler has taken out of the buffer and not yet written. -/
def held : Option Irq → List UInt8
  | some (.transmit data) => [data]
  | _ => []

def uncounted : Option Irq → UInt32
  | some .count => 1
  | _ => 0

def seenTxe : Option Irq → Prop
  | some .readInTransmission | some .setInTransmission | some .pop | some (.transmit _) => True
  | _ => False

theorem call_push (r : Request) (u : Transmitter B) : (call r u).1 = r.push u := by
  match r with
  | .transmitData data => rfl
  | .irqEnable true => rfl
  | .irqEnable false => rfl

omit [Buffer B] in
theorem sameBytes_resume (c : Call) (u : Transmitter B) : SameBytes u (resume c u).1 := by
  cases c <;> exact ⟨rfl, rfl, rfl, rfl, rfl, rfl, rfl⟩

theorem handled_serve (h : Irq) (u : Transmitter B) :
    Handled held uncounted seenTxe h u (serve h u).1 (serve h u).2 := by
  cases h with
  | readTxe =>
    simp only [serve]
    split
    · rename_i htxe
      exact .flags (.refl u) rfl rfl rfl fun _ => Or.inr (Option.isNone_iff_eq_none.mp htxe)
    · exact .flags (.refl u) rfl rfl rfl fun h => nomatch h
  | readInTransmission =>
    simp only [serve]
    split
    · exact .flags (.refl u) rfl rfl rfl Or.inl
    · exact .flags ⟨rfl, rfl, rfl, rfl, rfl, rfl, rfl⟩ rfl rfl rfl Or.inl
  | pop =>
    simp only [serve]
    split
    · rename_i hgot
      exact .pop rfl hgot.symm rfl fun h => nomatch h
    · rename_i data rest hgot
      obtain rfl := tail_read_one hgot
      exact .pop rfl hgot.symm rfl fun _ => trivial
  | transmit data => exact .transmit rfl rfl trivial rfl rfl id
  | count => exact .count rfl rfl rfl id
  | readTxeie | readTcie | readTc | endReadInTransmission =>
    simp only [serve]
    split <;> exact .flags (.refl u) rfl rfl rfl fun h => nomatch h
  | setInTransmission | endDisableTxeie | endDisableTcie | endClearTc | endInTransmission
  | endCallback => exact .flags ⟨rfl, rfl, rfl, rfl, rfl, rfl, rfl⟩ rfl rfl rfl Or.inl

def carrying : Carrying (program : Program (Transmitter B) Hardware Request Call Irq) where
  held := held
  uncounted := uncounted
  seenTxe := seenTxe
  hardware_eq := program_hardware
  idle := ⟨rfl, rfl, id⟩
  entry := ⟨rfl, rfl, id⟩
  call := call_push
  resume := sameBytes_resume
  serve := handled_serve

end Stm32l4

end UniHal.Uart
