import UniHal.Uart.StreamIntegrity
import UniHal.Uart.TunnelAccounts

/-! # Two boards on a cable

The transmitter of one board is wired to the receiver of another one. Both boards go on as they
like, each with its own driver, tasks and interrupts; a byte crosses when its stop bit does. What
the tasks of the second board get is what those of the first one gave, and where none is missed
nothing is missing.
-/

namespace UniHal.Uart.Cable
open Foundations Execution Interleaving Io
open Reception (RxSide Delivery unread ownBytes peerBytes receivedOn)

structure State (C H τ ι B B' : Type) where
  sender : World (Transmitter B) C H
  receiver : Reception.State τ ι B'

inductive Action (C τ ι : Type)
  | sender (a : Interleaving.Action Hardware Request C)
  | receiver (a : Reception.Action τ ι)
  /-- the shift register of the sender has sent its byte, which the receiver has then -/
  | cross

variable {C H τ ι B B' : Type} [DecidableEq C] [DecidableEq τ] [DecidableEq ι] [Buffer B]
  [Buffer B']

def comesIn (io : ι) : Reception.Action τ ι → Bool
  | .byte io' _ => io' = io
  | _ => false

/-- The cable ends at the receiver of the given IO, which gets nothing from elsewhere. -/
def step (p : Program (Transmitter B) Hardware Request C H) (d : Reception.Driver) (io : ι)
    (s : State C H τ ι B B') : Action C τ ι → Option (State C H τ ι B B')
  | .sender a =>
    if a = .hardware .finish then none
    else (Interleaving.step p s.sender a).map fun sender => { s with sender := sender }
  | .receiver a =>
    if comesIn io a then none
    else (Reception.step d s.receiver a).map fun receiver => { s with receiver := receiver }
  | .cross =>
    s.sender.shared.shift.bind fun b =>
      (Interleaving.step p s.sender (.hardware .finish)).bind fun sender =>
        (Reception.step d s.receiver (.byte io b)).map fun receiver => ⟨sender, receiver⟩

/-- How often a byte was missed, as far as the receiver can tell. -/
def missed (r : RxSide ι B') : ℕ := r.overruns + if r.ore then 1 else 0

/-- What came in is what was on the line, but for what was missed. -/
structure Heard (line : List UInt8) (r : RxSide ι B') : Prop where
  arrived : r.arrived.Sublist line
  missed_le : r.arrived.length + missed r ≤ line.length
  whole : missed r = 0 → r.arrived = line

section Receiver
variable {line : List UInt8} {r r' : RxSide ι B'}

omit [DecidableEq ι] [Buffer B'] in
theorem Heard.onByte (h : Heard line r) (b : UInt8) : Heard (line ++ [b]) (r.onByte b) := by
  have hlength := h.missed_le
  rw [missed] at hlength
  by_cases hrxne : r.rxne = true
  · have heq : r.onByte b = { r with ore := true } := if_pos hrxne
    rw [heq]
    refine ⟨h.arrived.trans (List.sublist_append_left ..), ?_, fun hnone => ?_⟩
    · simp only [missed, if_true, List.length_append, List.length_singleton]
      split at hlength <;> omega
    · simp [missed] at hnone
  · have heq : r.onByte b = { r with rxne := true, rdr := b, arrived := r.arrived ++ [b] } :=
      if_neg hrxne
    rw [heq]
    refine ⟨h.arrived.append (List.Sublist.refl _), ?_, fun hnone => ?_⟩
    · simp only [missed, List.length_append, List.length_singleton]
      omega
    · exact congrArg (· ++ [b]) (h.whole hnone)

omit [DecidableEq ι] [Buffer B'] in
theorem Heard.same (h : Heard line r) (harrived : r'.arrived = r.arrived)
    (hmissed : missed r' = missed r) : Heard line r' := by
  constructor
  · rw [harrived]
    exact h.arrived
  · rw [harrived, hmissed]
    exact h.missed_le
  · rw [harrived, hmissed]
    exact h.whole

omit [DecidableEq ι] [Buffer B'] in
theorem overrun_heard (r : RxSide ι B') :
    r.overrun.arrived = r.arrived ∧ missed r.overrun = missed r := by
  unfold RxSide.overrun
  split
  · rename_i hore
    simp [missed, hore]
  · exact ⟨rfl, rfl⟩

omit [DecidableEq ι] in
theorem deliver_heard (d : Delivery ι) (r : RxSide ι B') :
    (r.deliver d).arrived = r.arrived ∧ missed (r.deliver d) = missed r := by
  unfold RxSide.deliver
  split
  · exact ⟨rfl, rfl⟩
  · rw [Reception.push_eq]
    exact ⟨rfl, rfl⟩

/-- No step but a byte on the line changes what was heard. -/
theorem step_heard {d : Reception.Driver} {io : ι} {s t : Reception.State τ ι B'}
    {a : Reception.Action τ ι} (ha : comesIn io a = false) (hs : Reception.step d s a = some t) :
    (t.rx io).arrived = (s.rx io).arrived ∧ missed (t.rx io) = missed (s.rx io) := by
  have hwithRx (s : Reception.State τ ι B') (io' : ι) (r : RxSide ι B')
      (hr : r.arrived = (s.rx io').arrived ∧ missed r = missed (s.rx io')) :
      ((s.withRx io' r).rx io).arrived = (s.rx io).arrived ∧
        missed ((s.withRx io' r).rx io) = missed (s.rx io) := by
    change (Function.update s.rx io' r io).arrived = _ ∧ missed (Function.update s.rx io' r io) = _
    by_cases hio : io = io'
    · subst hio
      rwa [Function.update_self]
    · rw [Function.update_of_ne hio]
      exact ⟨rfl, rfl⟩
  cases a with
  | byte io' b =>
    cases hs
    have hne : io ≠ io' := fun heq => by simp [comesIn, heq] at ha
    change (Function.update s.rx io' _ io).arrived = _ ∧ missed (Function.update s.rx io' _ io) = _
    rw [Function.update_of_ne hne]
    exact ⟨rfl, rfl⟩
  | irq io' =>
    cases hs
    rw [Reception.Driver.irqHandler_eq]
    have hoverrun := overrun_heard (s.rx io')
    unfold Reception.irqHandler
    dsimp only
    split
    · refine hwithRx _ io' _ ?_
      have hdeliver := deliver_heard (Reception.delivery (s.withRx io' (s.rx io').overrun) io'
        (s.rx io').overrun.rdr) (s.rx io').overrun
      exact ⟨hdeliver.1.trans hoverrun.1, hdeliver.2.trans hoverrun.2⟩
    · exact hwithRx s io' _ hoverrun
  | irqEnable io' on =>
    cases hs
    exact hwithRx s io' _ ⟨rfl, rfl⟩
  | read io' dataLen waitMs =>
    cases hs
    refine hwithRx s io' _ ?_
    unfold RxSide.read
    split <;> exact ⟨rfl, rfl⟩
  | clear io' =>
    cases hs
    refine hwithRx s io' _ ?_
    unfold RxSide.clear
    split <;> exact ⟨rfl, rfl⟩
  | pop io' dataLen =>
    cases hs
    exact ⟨rfl, rfl⟩
  | transmit io' data =>
    cases hs
    exact ⟨rfl, rfl⟩
  | tunnelInit c =>
    simp only [Reception.step, Option.map_eq_some_iff] at hs
    obtain ⟨links, -, rfl⟩ := hs
    exact ⟨rfl, rfl⟩

end Receiver

section Runs
variable {p : Program (Transmitter B) Hardware Request C H} {d : Reception.Driver} {io : ι}
  {bufRx bufTx : ι → Option B'}

omit [DecidableEq τ] [DecidableEq ι] [Buffer B'] in
/-- Only the end of a byte changes what has been on the line. -/
theorem sender_wire (k : Carrying p) {w w' : World (Transmitter B) C H}
    {a : Interleaving.Action Hardware Request C} (ha : a ≠ .hardware .finish)
    (hs : Interleaving.step p w a = some w') : w'.shared.wire = w.shared.wire := by
  cases a with
  | hardware e =>
    obtain ⟨v, hv, rfl⟩ := step_hardware_eq_some.mp hs
    rw [k.hardware_eq] at hv
    cases e with
    | load =>
      obtain ⟨data, -, -, rfl⟩ := hardware_load_eq_some.mp hv
      rfl
    | finish => exact absurd rfl ha
  | call r =>
    cases hs
    change (p.call r w.shared).1.wire = w.shared.wire
    rw [k.call]
    cases r <;> rfl
  | resume c =>
    obtain ⟨-, rfl⟩ := step_resume_eq_some.mp hs
    exact (k.resume c w.shared).wire
  | enter =>
    obtain ⟨-, rfl⟩ := step_enter_eq_some.mp hs
    rfl
  | serve =>
    obtain ⟨h, -, rfl⟩ := step_serve_eq_some.mp hs
    exact (k.serve h w.shared).wire

/-- Each board keeps its own books, and they agree about the line. -/
structure Inv (k : Carrying p) (bufRx bufTx : ι → Option B') (io : ι)
    (s : State C H τ ι B B') : Prop where
  sender : Streams k s.sender
  receiver : Reception.Accounted bufRx bufTx s.receiver
  heard : Heard s.sender.shared.wire (s.receiver.rx io)

theorem inv_step (k : Carrying p) (s : State C H τ ι B B') (a : Action C τ ι)
    (t : State C H τ ι B B') (h : Inv k bufRx bufTx io s) (hs : step p d io s a = some t) :
    Inv k bufRx bufTx io t := by
  cases a with
  | sender a =>
    obtain ⟨ha, hsome⟩ := Option.ite_none_left_eq_some.mp hs
    obtain ⟨w, hw, rfl⟩ := Option.map_eq_some_iff.mp hsome
    refine ⟨step_streams k s.sender a w h.sender hw, h.receiver, ?_⟩
    rw [sender_wire k ha hw]
    exact h.heard
  | receiver a =>
    obtain ⟨ha, hsome⟩ := Option.ite_none_left_eq_some.mp hs
    obtain ⟨r, hr, rfl⟩ := Option.map_eq_some_iff.mp hsome
    obtain ⟨harrived, hmissed⟩ := step_heard (Bool.eq_false_of_not_eq_true ha) hr
    exact ⟨h.sender, Reception.accounted_step h.receiver hr, h.heard.same harrived hmissed⟩
  | cross =>
    obtain ⟨b, hshift, hsome⟩ := Option.bind_eq_some_iff.mp hs
    obtain ⟨w, hw, hreceives⟩ := Option.bind_eq_some_iff.mp hsome
    obtain ⟨r, hr, rfl⟩ := Option.map_eq_some_iff.mp hreceives
    refine ⟨step_streams k s.sender _ w h.sender hw, Reception.accounted_step h.receiver hr, ?_⟩
    obtain ⟨v, hv, rfl⟩ := step_hardware_eq_some.mp hw
    rw [k.hardware_eq] at hv
    obtain ⟨data, hdata, rfl⟩ := hardware_finish_eq_some.mp hv
    obtain rfl : b = data := Option.some.inj (hshift.symm.trans hdata)
    have hrx : r.rx io = (s.receiver.rx io).onByte b := by
      cases hr
      exact Function.update_self ..
    rw [hrx]
    exact h.heard.onByte b

/-- What the tasks of the second board get of what those of the first one gave. The bytes that are
not there yet are in the RX register, in the two registers of the transmitter, in the hand of its
handler and in its buffer. -/
structure Conveyed (held : Option H → List UInt8) (io : ι) (s : State C H τ ι B B') : Prop where
  own : ((s.receiver.rx io).taken ++ unread (s.receiver.rx io).buf).Sublist
    s.sender.shared.accepted
  tunneled : ∀ peer, (receivedOn io (s.receiver.tx peer).stored).Sublist s.sender.shared.accepted
  whole : (s.receiver.rx io).rxOverrun = 0 → (s.receiver.rx io).ore = false →
    s.sender.shared.wire.length < 2 ^ 32 →
      s.sender.shared.accepted = (s.receiver.rx io).deliveries.map Delivery.byte ++
        (if (s.receiver.rx io).rxne then [(s.receiver.rx io).rdr] else []) ++
        s.sender.shared.shift.toList ++ s.sender.shared.tdr.toList ++ held s.sender.handler ++
        Buffer.bytes s.sender.shared.bufTx ∧
      (s.receiver.rx io).taken ++ unread (s.receiver.rx io).buf =
        ((s.receiver.rx io).deliveries.filter fun delivery => decide (delivery.result ≠ .ok)).map
          Delivery.byte

omit [DecidableEq C] [DecidableEq τ] [DecidableEq ι] in
theorem taken_append_unread {r : RxSide ι B'} {buf : Option B'} (h : r.Accounted buf)
    (hbuf : unread buf = []) : r.taken ++ unread r.buf = ownBytes r.deliveries := by
  rw [← h.flow, hbuf, List.nil_append, h.stored]

omit [DecidableEq C] [DecidableEq τ] in
theorem Inv.deliveries {k : Carrying p} {s : State C H τ ι B B'} (h : Inv k bufRx bufTx io s) :
    ((s.receiver.rx io).deliveries.map Delivery.byte).Sublist s.sender.shared.accepted := by
  have harrived : ((s.receiver.rx io).deliveries.map Delivery.byte).Sublist
      (s.receiver.rx io).arrived := by
    rw [(h.receiver.rx io).arrived]
    exact List.sublist_append_left ..
  have hwritten : s.sender.shared.wire.Sublist (s.sender.shared.written.map Prod.fst) := by
    rw [h.sender.flow.sent, List.append_assoc]
    exact List.sublist_append_left ..
  have haccepted : (s.sender.shared.written.map Prod.fst).Sublist s.sender.shared.accepted := by
    rw [h.sender.flow.stream, List.append_assoc]
    exact List.sublist_append_left ..
  exact ((harrived.trans h.heard.arrived).trans hwritten).trans haccepted

omit [DecidableEq C] [DecidableEq τ] in
/-- As long as the counter of missed bytes shows none, there are none. -/
theorem Inv.noneMissed {k : Carrying p} {s : State C H τ ι B B'} (h : Inv k bufRx bufTx io s)
    (hoverrun : (s.receiver.rx io).rxOverrun = 0) (hore : (s.receiver.rx io).ore = false)
    (hshort : s.sender.shared.wire.length < 2 ^ 32) :
    missed (s.receiver.rx io) = 0 ∧
      ∀ delivery ∈ (s.receiver.rx io).deliveries, delivery.refused = false := by
  have hle := h.heard.missed_le
  have hrefused := List.countP_le_length (p := Delivery.refused)
    (l := (s.receiver.rx io).deliveries)
  have harrived := congrArg List.length (h.receiver.rx io).arrived
  have hcount := congrArg UInt32.toNat (h.receiver.rx io).overrun
  rw [List.length_append, List.length_map] at harrived
  rw [hoverrun, UInt32.toNat_ofNat', UInt32.toNat_zero] at hcount
  simp only [missed, hore, Bool.false_eq_true, if_false, Nat.add_zero] at hle ⊢
  have hsum : List.countP Delivery.refused (s.receiver.rx io).deliveries +
      (s.receiver.rx io).overruns = 0 := by omega
  refine ⟨by omega, fun delivery hmem => ?_⟩
  have hnone := List.countP_eq_zero.mp (Nat.eq_zero_of_add_eq_zero_right hsum) delivery hmem
  exact Bool.eq_false_of_not_eq_true hnone

omit [DecidableEq C] [DecidableEq τ] in
theorem Inv.conveyed {k : Carrying p} {s : State C H τ ι B B'} (h : Inv k bufRx bufTx io s)
    (hbuf : unread (bufRx io) = []) : Conveyed k.held io s where
  own := by
    rw [taken_append_unread (h.receiver.rx io) hbuf]
    exact (List.filter_sublist.map _).trans h.deliveries
  tunneled peer := by
    rw [h.receiver.tunneled]
    exact (List.filter_sublist.map _).trans h.deliveries
  whole hoverrun hore hshort := by
    obtain ⟨hmissed, hrefused⟩ := h.noneMissed hoverrun hore hshort
    constructor
    · have hline := h.heard.whole hmissed
      rw [h.sender.flow.stream, h.sender.flow.sent, ← hline, (h.receiver.rx io).arrived]
    · rw [taken_append_unread (h.receiver.rx io) hbuf, ownBytes]
      congr 1
      refine List.filter_congr fun delivery hmem => ?_
      have hroom := hrefused delivery hmem
      rw [Delivery.refused] at hroom
      rw [Delivery.own]
      cases hok : decide (delivery.result ≠ .ok) with
      | false => rfl
      | true =>
        rw [hok] at hroom
        simpa using hroom

end Runs

/-- Two bytes are given; the first one goes from the task of one board to that of the other. -/
def oneOfTwo : List (Action Stm32h7.Call ℕ ℕ) :=
  [.receiver (.irqEnable 0 true), .sender (.call (.transmitData [5, 6])),
    .sender (.resume .clearTc), .sender (.resume .disableTcie), .sender (.resume .enableTxeie),
    .sender .enter] ++ List.replicate 9 (.sender .serve) ++
  [.sender (.hardware .load), .cross, .receiver (.irq 0), .receiver (.read 0 1 0)]

end UniHal.Uart.Cable
