import UniHal.Uart.Stream

/-! # Progress of a transmitter

Once nothing new is called, every step of the hardware, of a call in progress or of the handler
brings the transmitter closer to rest, as long as the handler is entered only for an interrupt
that has something to do.
-/

namespace UniHal.Uart
open Foundations Execution Interleaving Io

section Rest
variable {B C H : Type*}

/-- The steps that follow without a new call, with the given interrupts only. -/
def Productive (interrupt : Transmitter B → Bool) (w : World (Transmitter B) C H) :
    Action Hardware Request C → Prop
  | .call _ => False
  | .enter => interrupt w.shared = true
  | _ => True

theorem traffic_of_productive {interrupt : Transmitter B → Bool} {w : World (Transmitter B) C H}
    {a : Action Hardware Request C} (ha : Productive interrupt w a) : Traffic a := by
  cases a with
  | call r => exact ha.elim
  | _ => trivial

/-- The transmitter is empty, nothing runs and none of the interrupts is pending. -/
structure AtRest (interrupt : Transmitter B → Bool) (w : World (Transmitter B) C H) : Prop where
  handler : w.handler = none
  calls : w.calls = []
  idle : w.shared.Idle
  interrupt : interrupt w.shared = false

/-- A transmitter at rest is one on which nothing happens any more. -/
theorem atRest_iff [Buffer B] [DecidableEq C] {p : Program (Transmitter B) Hardware Request C H}
    (hp : p.hardware = Transmitter.hardware) {interrupt : Transmitter B → Bool}
    (w : World (Transmitter B) C H) :
    AtRest interrupt w ↔ ∀ a, Productive interrupt w a → step p w a = none := by
  constructor
  · rintro ⟨hhandler, hcalls, ⟨htdr, hshift⟩, hinterrupt⟩ a ha
    cases a with
    | hardware e =>
      cases e with
      | load => simp [Interleaving.step, hp, Transmitter.hardware, htdr]
      | finish => simp [Interleaving.step, hp, Transmitter.hardware, hshift]
    | call r => exact ha.elim
    | resume c => simp [Interleaving.step, hcalls]
    | enter => exact absurd (hinterrupt.symm.trans ha) (by decide)
    | serve => simp [Interleaving.step, hhandler]
  · intro h
    have hhandler : w.handler = none := by
      by_contra hne
      obtain ⟨irq, hirq⟩ := Option.ne_none_iff_exists'.mp hne
      have := h .serve trivial
      simp [Interleaving.step, hirq] at this
    have hcalls : w.calls = [] := by
      by_contra hne
      obtain ⟨c, rest, hc⟩ := List.exists_cons_of_ne_nil hne
      have := h (.resume c) trivial
      simp [Interleaving.step, hc] at this
    have hshift : w.shared.shift = none := by
      by_contra hne
      obtain ⟨data, hdata⟩ := Option.ne_none_iff_exists'.mp hne
      have := h (.hardware .finish) trivial
      simp [Interleaving.step, hp, Transmitter.hardware, hdata] at this
    have htdr : w.shared.tdr = none := by
      by_contra hne
      obtain ⟨data, hdata⟩ := Option.ne_none_iff_exists'.mp hne
      have := h (.hardware .load) trivial
      simp [Interleaving.step, hp, Transmitter.hardware, hdata, hshift] at this
    refine ⟨hhandler, hcalls, ⟨htdr, hshift⟩, ?_⟩
    by_contra hinterrupt
    have := h .enter (Bool.eq_true_of_not_eq_false hinterrupt)
    simp [Interleaving.step, hhandler] at this

end Rest

variable {B : Type*} [Buffer B] {C H : Type*}

def bytesRank (held : List UInt8) (u : Transmitter B) : ℕ :=
  4 * (Buffer.bytes u.bufTx).length + 3 * held.length + 2 * u.tdr.toList.length +
    u.shift.toList.length

theorem bytesRank_hardware {u v : Transmitter B} {e : Hardware} (hv : u.hardware e = some v)
    (held : List UInt8) : bytesRank held v < bytesRank held u := by
  cases e with
  | load =>
    obtain ⟨data, htdr, hshift, rfl⟩ := hardware_load_eq_some.mp hv
    simp [bytesRank, htdr, hshift]
  | finish =>
    obtain ⟨data, hshift, rfl⟩ := hardware_finish_eq_some.mp hv
    simp [bytesRank, hshift]

/-- A byte on its way from the buffer to the handler, and from there to the data register. -/
theorem bytesRank_pop {u : Transmitter B} {data : UInt8} {rest : List UInt8}
    (h : (Buffer.read u.bufTx 1 0).1 = data :: rest) :
    bytesRank [data] { u with bufTx := (Buffer.read u.bufTx 1 0).2 } < bytesRank [] u := by
  rw [Buffer.read_fst] at h
  have hleft : (Buffer.bytes (Buffer.read u.bufTx 1 0).2).length + 1 =
      (Buffer.bytes u.bufTx).length := by
    rw [Buffer.bytes_read]
    cases hbytes : Buffer.bytes u.bufTx with
    | nil => simp [hbytes] at h
    | cons first rest => simp
  simp only [bytesRank, List.length_singleton, List.length_nil]
  omega

theorem bytesRank_pop_nil {u : Transmitter B} (h : (Buffer.read u.bufTx 1 0).1 = []) :
    Buffer.bytes (Buffer.read u.bufTx 1 0).2 = [] ∧ Buffer.bytes u.bufTx = [] := by
  rw [Buffer.read_fst] at h
  rw [Buffer.bytes_read]
  cases hbytes : Buffer.bytes u.bufTx with
  | nil => exact ⟨rfl, rfl⟩
  | cons first rest => simp [hbytes] at h

theorem bytesRank_transmitData8 (data : UInt8) (u : Transmitter B) :
    bytesRank [] (u.transmitData8 data) < bytesRank [data] u := by
  simp only [Transmitter.transmitData8, bytesRank, List.length_singleton, List.length_nil,
    Option.toList_some]
  omega

theorem bytesRank_same {u v : Transmitter B} (h : SameBytes u v) (held : List UInt8) :
    bytesRank held v = bytesRank held u := by
  rw [bytesRank, h.bufTx, h.tdr, h.shift, bytesRank]

theorem Handled.bytesRank_le {held : Option H → List UInt8} {uncounted : Option H → UInt32}
    {seenTxe : Option H → Prop} {h : H} {u v : Transmitter B} {next : Option H}
    (hv : Handled held uncounted seenTxe h u v next) :
    bytesRank (held next) v ≤ bytesRank (held (some h)) u := by
  cases hv with
  | flags same enabled hheld =>
    rw [hheld, bytesRank_same same]
  | pop hno hheld =>
    rw [hno, hheld]
    cases hgot : (Buffer.read u.bufTx 1 0).1 with
    | nil =>
      obtain ⟨hleft, hempty⟩ := bytesRank_pop_nil hgot
      simp [bytesRank, hleft, hempty]
    | cons data rest =>
      obtain rfl := tail_read_one hgot
      exact (bytesRank_pop hgot).le
  | transmit hheld hcounted hseen hno =>
    rw [hno, hheld]
    exact (bytesRank_transmitData8 _ u).le
  | count hheld =>
    rw [hheld]
    exact le_rfl

/-- A measure of the steps of a driver: those of its calls, and those of a pass of its handler,
of which there are fewer than the bound. A pass comes closer to its end with every step that does
not move a byte. -/
structure Measure [DecidableEq C] {p : Program (Transmitter B) Hardware Request C H}
    (k : Carrying p) (interrupt : Transmitter B → Bool) where
  callRank : C → ℕ
  irqRank : Option H → Transmitter B → ℕ
  bound : ℕ
  irqRank_lt : ∀ h u, irqRank h u < bound
  enter : ∀ u, interrupt u = true → irqRank (some p.entry) u < irqRank none u
  resume : ∀ c u, ((p.resume c u).2.map callRank).getD 0 < callRank c
  serve : ∀ h u,
    bytesRank (k.held (p.serve h u).2) (p.serve h u).1 < bytesRank (k.held (some h)) u ∨
      irqRank (p.serve h u).2 (p.serve h u).1 < irqRank (some h) u

namespace Measure
variable [DecidableEq C] {p : Program (Transmitter B) Hardware Request C H} {k : Carrying p}
  {interrupt : Transmitter B → Bool}

def rank (m : Measure k interrupt) (w : World (Transmitter B) C H) : ℕ :=
  m.bound * (work m.callRank w.calls + bytesRank (k.held w.handler) w.shared) +
    m.irqRank w.handler w.shared

/-- A pass of the handler counts less than a byte or a step of a call. -/
theorem mul_add_lt {bound n n' r r' : ℕ} (hr : r' < bound) (hn : n' < n) :
    bound * n' + r' < bound * n + r := by
  have hle : bound * (n' + 1) ≤ bound * n := Nat.mul_le_mul_left bound hn
  rw [Nat.mul_add, Nat.mul_one] at hle
  omega

theorem rank_step (m : Measure k interrupt) (w : World (Transmitter B) C H)
    (a : Action Hardware Request C) (w' : World (Transmitter B) C H)
    (ha : Productive interrupt w a) (h : step p w a = some w') : m.rank w' < m.rank w := by
  have hlt := m.irqRank_lt w'.handler w'.shared
  cases a with
  | hardware e =>
    obtain ⟨v, hv, rfl⟩ := step_hardware_eq_some.mp h
    rw [k.hardware_eq] at hv
    exact mul_add_lt hlt (Nat.add_lt_add_left (bytesRank_hardware hv _) _)
  | call r => exact ha.elim
  | resume c =>
    obtain ⟨hc, rfl⟩ := step_resume_eq_some.mp h
    refine mul_add_lt hlt ?_
    rw [bytesRank_same (k.resume c w.shared)]
    exact Nat.add_lt_add_right (work_replace_lt hc (m.resume c w.shared)) _
  | enter =>
    obtain ⟨hnone, rfl⟩ := step_enter_eq_some.mp h
    simp only [rank, hnone, k.entry.1, k.idle.1]
    exact Nat.add_lt_add_left (m.enter w.shared ha) _
  | serve =>
    obtain ⟨irq, hirq, rfl⟩ := step_serve_eq_some.mp h
    simp only [rank, hirq]
    have hbytes := (k.serve irq w.shared).bytesRank_le
    rcases hbytes.lt_or_eq with hmoved | hsame
    · exact mul_add_lt hlt (Nat.add_lt_add_left hmoved _)
    · rw [hsame]
      rcases m.serve irq w.shared with hmoved | hless
      · exact absurd hsame hmoved.ne
      · exact Nat.add_lt_add_left hless _

/-- So the transmitter comes to rest within as many steps as the measure tells. -/
theorem length_le_rank (m : Measure k interrupt) {w w' : World (Transmitter B) C H}
    {run : List (Action Hardware Request C)} (hrun : exec (step p) w run = some w')
    (hproductive : Along (step p) (Productive interrupt) w run) : run.length ≤ m.rank w :=
  (Nat.le_add_right _ _).trans (length_le_of_decreasing m.rank_step hproductive hrun)

end Measure
end UniHal.Uart
