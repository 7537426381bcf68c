import UniHal.Uart.Progress

/-! # Transmitters whose interrupts are disabled and enabled

While `uni_hal_usart_irq_enable` runs, and after it has disabled the interrupts, nothing need
keep a transmitter going. What counts is what it finds when it enables them again.
-/

namespace UniHal.Uart
open Foundations Execution Interleaving Io

variable {B : Type*} [Buffer B] {C H : Type*}

/-- The steps of `uni_hal_usart_irq_enable` in a driver; `enabling` is the one with which the
enabling call returns. -/
structure Control {p : Program (Transmitter B) Hardware Request C H} (s : Carrying p) where
  isControl : C → Bool
  enabling : C
  irqEnable : ∀ value u, ∃ c ∈ (p.call (.irqEnable value) u).2, isControl c = true
  control : ∀ c u, isControl c = true → c ≠ enabling →
    (p.resume c u).1.irqEnabled = false ∨ ∃ d ∈ (p.resume c u).2, isControl d = true
  other : ∀ c u, isControl c = false →
    (p.resume c u).1.irqEnabled = u.irqEnabled ∧ ∀ d ∈ (p.resume c u).2, ¬isControl d = true

namespace Control
variable {p : Program (Transmitter B) Hardware Request C H} {s : Carrying p}

/-- The interrupts are enabled and no call of `uni_hal_usart_irq_enable` is in progress. -/
def Running (k : Control s) (w : World (Transmitter B) C H) : Prop :=
  w.shared.irqEnabled = true ∧ ¬Pending (fun c => k.isControl c = true) w.calls

/-- Every step but those of `uni_hal_usart_irq_enable`. -/
def Ordinary (k : Control s) : Action Hardware Request C → Prop
  | .call (.irqEnable _) => False
  | .resume c => k.isControl c = false
  | _ => True

theorem Ordinary.traffic {k : Control s} {a : Action Hardware Request C} (h : k.Ordinary a) :
    Traffic a := by
  cases a with
  | call r =>
    cases r with
    | transmitData data => trivial
    | irqEnable value => exact h.elim
  | _ => trivial

variable [DecidableEq C]

/-- The interrupts are enabled after a step if they were before and the step is an ordinary one,
or it enables them. -/
theorem running_before (k : Control s) {w w' : World (Transmitter B) C H}
    {a : Action Hardware Request C} (h : step p w a = some w') (hrunning : k.Running w') :
    a = .resume k.enabling ∨ k.Ordinary a ∧ k.Running w := by
  obtain ⟨henabled, hno⟩ := hrunning
  cases a with
  | hardware e =>
    obtain ⟨v, hv, rfl⟩ := step_hardware_eq_some.mp h
    rw [s.hardware_eq] at hv
    obtain ⟨-, -, -, -, -, -, hsame⟩ := hardware_software hv
    exact Or.inr ⟨trivial, hsame.symm.trans henabled, hno⟩
  | call r =>
    cases h
    cases r with
    | transmitData data =>
      have hsame := congrArg Transmitter.irqEnabled (s.call (.transmitData data) w.shared)
      refine Or.inr ⟨trivial, hsame.symm.trans henabled, ?_⟩
      exact fun hpending => hno (hpending.append _)
    | irqEnable value =>
      obtain ⟨c, hc, hcontrol⟩ := k.irqEnable value w.shared
      exact absurd ⟨c, List.mem_append_left _ (Option.mem_toList.mpr hc), hcontrol⟩ hno
  | resume c =>
    obtain ⟨-, rfl⟩ := step_resume_eq_some.mp h
    cases hc : k.isControl c with
    | true =>
      left
      by_contra hne
      rcases k.control c w.shared hc fun heq => hne (congrArg Action.resume heq) with
        hoff | ⟨d, hd, hcontrol⟩
      · exact absurd (hoff.symm.trans henabled) (by decide)
      · exact hno ⟨d, List.mem_append_left _ (Option.mem_toList.mpr hd), hcontrol⟩
    | false =>
      obtain ⟨hsame, -⟩ := k.other c w.shared hc
      refine Or.inr ⟨hc, hsame.symm.trans henabled, fun hpending => hno ?_⟩
      exact hpending.replace fun hcontrol => absurd (hc.symm.trans hcontrol) (by decide)
  | enter =>
    obtain ⟨-, rfl⟩ := step_enter_eq_some.mp h
    exact Or.inr ⟨trivial, henabled, hno⟩
  | serve =>
    obtain ⟨irq, -, rfl⟩ := step_serve_eq_some.mp h
    exact Or.inr ⟨trivial, (s.serve irq w.shared).irqEnabled.symm.trans henabled, hno⟩

theorem running_step (k : Control s) {interrupt : Transmitter B → Bool}
    {w w' : World (Transmitter B) C H} {a : Action Hardware Request C} (hw : k.Running w)
    (ha : Productive interrupt w a) (h : step p w a = some w') : k.Running w' := by
  cases a with
  | hardware e =>
    obtain ⟨v, hv, rfl⟩ := step_hardware_eq_some.mp h
    rw [s.hardware_eq] at hv
    obtain ⟨-, -, -, -, -, -, hsame⟩ := hardware_software hv
    exact ⟨hsame.trans hw.1, hw.2⟩
  | call r => exact ha.elim
  | resume c =>
    obtain ⟨hc, rfl⟩ := step_resume_eq_some.mp h
    have hno : k.isControl c = false := by
      by_contra hcontrol
      exact hw.2 ⟨c, hc, Bool.eq_true_of_not_eq_false hcontrol⟩
    obtain ⟨hsame, hnext⟩ := k.other c w.shared hno
    exact ⟨hsame.trans hw.1, not_pending_replace hw.2 hnext⟩
  | enter =>
    obtain ⟨-, rfl⟩ := step_enter_eq_some.mp h
    exact hw
  | serve =>
    obtain ⟨irq, -, rfl⟩ := step_serve_eq_some.mp h
    exact ⟨(s.serve irq w.shared).irqEnabled.trans hw.1, hw.2⟩

end Control

variable [DecidableEq C]

/-- What keeps the output of a driver going while its interrupts are enabled: `live` is kept by
the ordinary steps that `ok` allows, and is found by an enabling call in a `ready` state. -/
structure Liveness {p : Program (Transmitter B) Hardware Request C H} {s : Carrying p}
    (k : Control s) (interrupt : Transmitter B → Bool) where
  live : World (Transmitter B) C H → Prop
  ok : World (Transmitter B) C H → Action Hardware Request C → Prop
  ready : World (Transmitter B) C H → Prop
  step : ∀ w a w', live w → k.Ordinary a → ok w a → Interleaving.step p w a = some w' → live w'
  enabled : ∀ w w', ready w → Interleaving.step p w (.resume k.enabling) = some w' → live w'
  settled : ∀ w, AtRest interrupt w → live w → Settled w.shared

namespace Liveness
variable {p : Program (Transmitter B) Hardware Request C H} {s : Carrying p} {k : Control s}
  {interrupt : Transmitter B → Bool}

/-- While the interrupts are enabled the steps are allowed, and they are enabled again in a ready
state only. -/
def Undisturbed (l : Liveness k interrupt) (w : World (Transmitter B) C H)
    (a : Action Hardware Request C) : Prop :=
  (k.Running w → l.ok w a) ∧ (a = .resume k.enabling → l.ready w)

def Ongoing (l : Liveness k interrupt) (w : World (Transmitter B) C H) : Prop :=
  k.Running w → l.live w

theorem ongoing_step (l : Liveness k interrupt) (w : World (Transmitter B) C H)
    (a : Action Hardware Request C) (w' : World (Transmitter B) C H) (hw : l.Ongoing w)
    (ha : l.Undisturbed w a) (h : Interleaving.step p w a = some w') : l.Ongoing w' := by
  intro hrunning
  rcases k.running_before h hrunning with rfl | ⟨hordinary, hwas⟩
  · exact l.enabled w w' (ha.2 rfl) h
  · exact l.step w a w' (hw hwas) hordinary (ha.1 hwas) h

/-- With the interrupts enabled the output comes to its end without a new call. -/
theorem completes (l : Liveness k interrupt) (m : Measure s interrupt) {buf : B}
    (hbuf : Buffer.bytes buf = []) (tc : Bool)
    (hstart : l.live ⟨Transmitter.init buf tc, [], none⟩) {run : List (Action Hardware Request C)}
    (hok : Along (Interleaving.step p) l.Undisturbed ⟨Transmitter.init buf tc, [], none⟩ run)
    {w : World (Transmitter B) C H}
    (hrun : exec (Interleaving.step p) ⟨Transmitter.init buf tc, [], none⟩ run = some w)
    (hrunning : k.Running w) :
    Completes (Interleaving.step p) (Productive interrupt) l.Undisturbed w := by
  refine ⟨m.rank w, fun rest w' hrestOk hrest => ?_⟩
  have hproductive : Along (Interleaving.step p) (Productive interrupt) w rest :=
    hrestOk.mono fun _ _ h => h.1
  have hundisturbed : Along (Interleaving.step p) l.Undisturbed w rest :=
    hrestOk.mono fun _ _ h => h.2
  refine ⟨m.length_le_rank hrest hproductive, fun hend => ?_⟩
  have hongoing : l.Ongoing w := exec_invariant l.ongoing_step (fun _ => hstart) hok hrun
  have hongoing' : l.Ongoing w' := exec_invariant l.ongoing_step hongoing hundisturbed hrest
  have hrunning' : k.Running w' :=
    exec_invariant (fun _ _ _ => k.running_step) hrunning hproductive hrest
  have hatRest := (atRest_iff s.hardware_eq w').mpr hend
  have hsettled := l.settled w' hatRest (hongoing' hrunning')
  have hwhole : exec (Interleaving.step p) ⟨Transmitter.init buf tc, [], none⟩ (run ++ rest) =
      some w' := by
    rw [exec_append, hrun]
    exact hrest
  exact ⟨(busy_eq_false_iff _).mpr hsettled,
    (exec_streams s hbuf tc hwhole).wire_eq hatRest.handler hatRest.idle hsettled.1⟩

end Liveness
end UniHal.Uart
