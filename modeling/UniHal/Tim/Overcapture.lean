import UniHal.Tim.CaptureRun

/-! # Captures that are overwritten

The capture handler of the STM32L4 driver tests the overcapture flag and reads the captured value
in two steps, and an edge may come between any two steps. The edges of a channel are numbered, so
that a period that is published stands next to the two edges that it was measured between. No
such period spans an edge whose capture was overwritten, unless an edge comes on a channel with
a reference between the test of the flag and the read of the register.
-/

namespace UniHal.Tim.Overcapture
open Foundations Execution

inductive Stage
  | idle
  /-- `TIM1_UP_TIM16_IRQHandler`, the overflow counted and the flag still set -/
  | updating
  /-- `_uni_hal_tim_irq_cc_chan` is called -/
  | entered (c : Channel)
  /-- the overcapture flag was not set -/
  | tested (c : Channel)
  /-- the overcapture flag was set and the channel is reset, the flags are not -/
  | discarding (c : Channel)
  /-- the overcapture flag is cleared -/
  | cleared (c : Channel)
  /-- the value is read, with the overflows; `edge` is the number of its edge -/
  | captured (c : Channel) (value overflowCount : UInt32) (edge : ℕ)
  /-- the counter is read -/
  | counted (c : Channel) (value overflowCount currentCounter : UInt32) (edge : ℕ)
  deriving DecidableEq

/-- A channel with a record of its edges, which are numbered from 0. -/
structure Line where
  capture : UInt32 := 0
  captureFlag : Bool := false
  overcaptureFlag : Bool := false
  state : ChannelState := {}
  /-- how many edges there were -/
  edges : ℕ := 0
  /-- the edges whose capture was overwritten -/
  overwritten : List ℕ := []
  /-- the edge whose capture the channel holds -/
  reference : ℕ := 0
  /-- the edges between which a period was published as valid -/
  published : List (ℕ × ℕ) := []

structure State where
  counter : UInt32
  update : Bool := false
  overflowCount : UInt32 := 0
  stage : Stage := .idle
  line : Channel → Line := fun _ => {}

/-- `uni_hal_tim_start` with the counter where it is. -/
def started (counter : UInt32) : State := { counter }

inductive Action
  /-- the counter takes a step -/
  | tick
  /-- the input of a channel has an edge -/
  | edge (c : Channel)
  /-- the update handler sees its flag and counts the overflow -/
  | countOverflow
  /-- `uni_hal_tim_period_elapsed` clears the flag -/
  | clearUpdate
  /-- the capture handler sees the flag of a channel -/
  | enter (c : Channel)
  /-- `_uni_hal_tim_ll_overcapture_get`, and the reset of the channel where it is set -/
  | testOvercapture
  /-- `_uni_hal_tim_ll_overcapture_clear` -/
  | clearOvercapture
  /-- `_uni_hal_tim_ll_capture_clear` -/
  | clearCapture
  /-- `_uni_hal_tim_ll_capture_get`, which clears the flag -/
  | readCapture
  /-- `LL_TIM_GetCounter` -/
  | readCounter
  /-- `LL_TIM_IsActiveFlag_UPDATE` and the rest of the handler -/
  | readUpdate (ms : UInt32)

namespace Line

def onEdge (counter : UInt32) (l : Line) : Line :=
  { l with
    capture := counter
    captureFlag := true
    overcaptureFlag := l.overcaptureFlag || l.captureFlag
    edges := l.edges + 1
    overwritten := if l.captureFlag then (l.edges - 1) :: l.overwritten else l.overwritten }

def onOvercapture (l : Line) : Line := { l with state := overcapture l.state }

def onClearOvercapture (l : Line) : Line := { l with overcaptureFlag := false }

def onClearCapture (l : Line) : Line := { l with captureFlag := false }

def onServed (reload : UInt32) (capture : Capture) (ms : UInt32) (edge : ℕ) (l : Line) : Line :=
  { l with
    state := irqCcChan reload capture ms l.state
    reference := edge
    published :=
      if l.state.seen && (irqCcChan reload capture ms l.state).valid then
        (l.reference, edge) :: l.published
      else l.published }

end Line

namespace State

def withLine (s : State) (c : Channel) (l : Line) : State :=
  { s with line := Function.update s.line c l }

def withStage (s : State) (stage : Stage) : State := { s with stage := stage }

end State

def tick (reload : Reload) (s : State) : Option State :=
  if reload.value = 0 then none
  else if s.counter = reload.value then some { s with counter := 0, update := true }
  else some { s with counter := s.counter + 1 }

def step (reload : Reload) (s : State) : Action → Option State
  | .tick => tick reload s
  | .edge c => some (s.withLine c ((s.line c).onEdge s.counter))
  | .countOverflow =>
    if s.stage = .idle ∧ s.update = true then
      some { s with overflowCount := s.overflowCount + 1, stage := .updating }
    else none
  | .clearUpdate =>
    if s.stage = .updating then some { s with update := false, stage := .idle } else none
  | .enter c =>
    if s.stage = .idle ∧ (s.line c).captureFlag = true then some (s.withStage (.entered c))
    else none
  | .testOvercapture =>
    match s.stage with
    | .entered c =>
      if (s.line c).overcaptureFlag then
        some ((s.withLine c (s.line c).onOvercapture).withStage (.discarding c))
      else some (s.withStage (.tested c))
    | _ => none
  | .clearOvercapture =>
    match s.stage with
    | .discarding c => some ((s.withLine c (s.line c).onClearOvercapture).withStage (.cleared c))
    | _ => none
  | .clearCapture =>
    match s.stage with
    | .cleared c => some ((s.withLine c (s.line c).onClearCapture).withStage .idle)
    | _ => none
  | .readCapture =>
    match s.stage with
    | .tested c =>
      some ((s.withLine c (s.line c).onClearCapture).withStage
        (.captured c (s.line c).capture s.overflowCount ((s.line c).edges - 1)))
    | _ => none
  | .readCounter =>
    match s.stage with
    | .captured c value overflowCount edge =>
      some (s.withStage (.counted c value overflowCount s.counter edge))
    | _ => none
  | .readUpdate ms =>
    match s.stage with
    | .counted c value overflowCount currentCounter edge =>
      let capture := getCapture reload.value overflowCount currentCounter s.update value
      some ((s.withLine c ((s.line c).onServed reload.value capture ms edge)).withStage .idle)
    | _ => none

/-- No period that was published as valid spans an edge whose capture was overwritten. -/
def Line.Sound (l : Line) : Prop :=
  ∀ p ∈ l.published, ∀ k ∈ l.overwritten, ¬ (p.1 < k ∧ k < p.2)

/-- An edge comes between the test of the overcapture flag and the read of the register, on a
channel that holds a reference. -/
def InWindow (s : State) : Action → Prop
  | .edge c => s.stage = .tested c ∧ (s.line c).state.seen = true
  | _ => False

instance (s : State) (a : Action) : Decidable (InWindow s a) :=
  match a with
  | .edge _ => inferInstanceAs (Decidable (_ ∧ _))
  | .tick | .countOverflow | .clearUpdate | .enter _ | .testOvercapture | .clearOvercapture
  | .clearCapture | .readCapture | .readCounter | .readUpdate _ => .isFalse id

/-- What holds of a channel wherever the handlers are. -/
structure Ordered (l : Line) : Prop where
  sound : l.Sound
  captured : l.captureFlag = true → 1 ≤ l.edges
  /-- an overwritten capture is followed by the one in the register -/
  overwritten_lt : ∀ k ∈ l.overwritten, k + 1 < l.edges
  /-- periods end with captures that were read -/
  published_lt : ∀ p ∈ l.published, p.2 + l.captureFlag.toNat < l.edges
  /-- what is overwritten after the reference shows in the flag -/
  flagged : l.state.seen = true → l.overcaptureFlag = false →
    ∀ k ∈ l.overwritten, k < l.reference

def Serving (l : Line) (c : Channel) : Stage → Prop
  | .idle | .updating => True
  | .entered d => d = c → l.captureFlag = true
  | .tested d => d = c → l.captureFlag = true ∧
      (l.state.seen = true → ∀ k ∈ l.overwritten, k < l.reference)
  | .discarding d | .cleared d => d = c → l.state.seen = false
  | .captured d _ _ edge | .counted d _ _ _ edge => d = c →
      edge + l.captureFlag.toNat < l.edges ∧
      (l.state.seen = true → ∀ k ∈ l.overwritten, k < l.reference ∨ edge ≤ k) ∧
      (l.overcaptureFlag = false → ∀ k ∈ l.overwritten, k < edge)

structure Invariant (s : State) : Prop where
  ordered : ∀ c, Ordered (s.line c)
  serving : ∀ c, Serving (s.line c) c s.stage

def Stage.channel : Stage → Option Channel
  | .idle | .updating => none
  | .entered c | .tested c | .discarding c | .cleared c | .captured c _ _ _ | .counted c _ _ _ _ =>
    some c

variable {reload : Reload} {s t : State} {c : Channel} {l : Line} {stage : Stage}

theorem serving_of_channel_ne (h : stage.channel ≠ some c) : Serving l c stage := by
  have hne : ∀ d, stage.channel = some d → d ≠ c := fun d hd heq => h (heq ▸ hd)
  cases stage with
  | idle => trivial
  | updating => trivial
  | entered d => exact fun heq => absurd heq (hne d rfl)
  | tested d => exact fun heq => absurd heq (hne d rfl)
  | discarding d => exact fun heq => absurd heq (hne d rfl)
  | cleared d => exact fun heq => absurd heq (hne d rfl)
  | captured d value overflowCount edge => exact fun heq => absurd heq (hne d rfl)
  | counted d value overflowCount currentCounter edge => exact fun heq => absurd heq (hne d rfl)

/-- An edge overwrites the capture that it finds unread, and no other. -/
theorem Line.mem_overwritten_onEdge {counter : UInt32} {k : ℕ}
    (hk : k ∈ (l.onEdge counter).overwritten) :
    k ∈ l.overwritten ∨ (l.captureFlag = true ∧ k = l.edges - 1) := by
  simp only [Line.onEdge] at hk
  split at hk
  · rename_i hflag
    rcases List.mem_cons.mp hk with rfl | hk
    · exact Or.inr ⟨hflag, rfl⟩
    · exact Or.inl hk
  · exact Or.inl hk

theorem Ordered.onEdge (h : Ordered l) (counter : UInt32) : Ordered (l.onEdge counter) := by
  constructor
  · intro p hp k hk
    rcases Line.mem_overwritten_onEdge hk with hk | ⟨hflag, rfl⟩
    · exact h.sound p hp k hk
    · -- the capture in the register is newer than all that were read
      have hlt := h.published_lt p hp
      rw [hflag, Bool.toNat_true] at hlt
      omega
  · exact fun _ => Nat.succ_pos l.edges
  · intro k hk
    rcases Line.mem_overwritten_onEdge hk with hk | ⟨hflag, rfl⟩
    · exact (h.overwritten_lt k hk).trans (Nat.lt_succ_self _)
    · have hpos := h.captured hflag
      change l.edges - 1 + 1 < l.edges + 1
      omega
  · intro p hp
    have hlt := h.published_lt p hp
    change p.2 + 1 < l.edges + 1
    omega
  · intro hseen hflag k hk
    have hclear : l.overcaptureFlag = false ∧ l.captureFlag = false := Bool.or_eq_false_iff.mp hflag
    rcases Line.mem_overwritten_onEdge hk with hk | ⟨hcaptured, -⟩
    · exact h.flagged hseen hclear.1 k hk
    · rw [hclear.2] at hcaptured
      exact absurd hcaptured Bool.false_ne_true

theorem Ordered.onOvercapture (h : Ordered l) : Ordered l.onOvercapture :=
  ⟨h.sound, h.captured, h.overwritten_lt, h.published_lt,
    fun hseen => absurd hseen Bool.false_ne_true⟩

theorem Ordered.onClearOvercapture (h : Ordered l) (hseen : l.state.seen = false) :
    Ordered l.onClearOvercapture :=
  ⟨h.sound, h.captured, h.overwritten_lt, h.published_lt, fun hs => by
    rw [Line.onClearOvercapture, hseen] at hs
    exact absurd hs Bool.false_ne_true⟩

theorem Ordered.onClearCapture (h : Ordered l) : Ordered l.onClearCapture :=
  ⟨h.sound, fun hflag => absurd hflag Bool.false_ne_true, h.overwritten_lt,
    fun p hp => (Nat.le_add_right _ _).trans_lt (h.published_lt p hp), h.flagged⟩

/-- A period between the reference and a capture with nothing overwritten in between. -/
theorem Ordered.onServed (h : Ordered l) {edge : ℕ} (hedge : edge + l.captureFlag.toNat < l.edges)
    (hbetween : l.state.seen = true → ∀ k ∈ l.overwritten, k < l.reference ∨ edge ≤ k)
    (hbefore : l.overcaptureFlag = false → ∀ k ∈ l.overwritten, k < edge) (reload : UInt32)
    (capture : Capture) (ms : UInt32) : Ordered (l.onServed reload capture ms edge) := by
  have hnew : ∀ p ∈ (l.onServed reload capture ms edge).published, p ∈ l.published ∨
      (l.state.seen = true ∧ p = (l.reference, edge)) := by
    intro p hp
    simp only [Line.onServed] at hp
    split at hp
    · rename_i hvalid
      rcases List.mem_cons.mp hp with rfl | hp
      · exact Or.inr ⟨(Bool.and_eq_true_iff.mp hvalid).1, rfl⟩
      · exact Or.inl hp
    · exact Or.inl hp
  constructor
  · intro p hp k hk
    rcases hnew p hp with hp | ⟨hseen, rfl⟩
    · exact h.sound p hp k hk
    · have hcase := hbetween hseen k hk
      dsimp only
      omega
  · exact h.captured
  · exact h.overwritten_lt
  · intro p hp
    rcases hnew p hp with hp | ⟨-, rfl⟩
    · exact h.published_lt p hp
    · exact hedge
  · exact fun _ hflag => hbefore hflag

/-- What is overwritten after the register was read is not older than the value that was read. -/
theorem Line.read_onEdge {counter : UInt32} {edge : ℕ}
    (h : edge + l.captureFlag.toNat < l.edges ∧
      (l.state.seen = true → ∀ k ∈ l.overwritten, k < l.reference ∨ edge ≤ k) ∧
      (l.overcaptureFlag = false → ∀ k ∈ l.overwritten, k < edge)) :
    edge + (l.onEdge counter).captureFlag.toNat < (l.onEdge counter).edges ∧
      ((l.onEdge counter).state.seen = true → ∀ k ∈ (l.onEdge counter).overwritten,
        k < (l.onEdge counter).reference ∨ edge ≤ k) ∧
      ((l.onEdge counter).overcaptureFlag = false → ∀ k ∈ (l.onEdge counter).overwritten,
        k < edge) := by
  obtain ⟨hedge, hbetween, hbefore⟩ := h
  refine ⟨?_, ?_, ?_⟩
  · change edge + 1 < l.edges + 1
    omega
  · intro hseen k hk
    rcases Line.mem_overwritten_onEdge hk with hk | ⟨hflag, rfl⟩
    · exact hbetween hseen k hk
    · rw [hflag, Bool.toNat_true] at hedge
      exact Or.inr (by omega)
  · intro hflag k hk
    have hclear : l.overcaptureFlag = false ∧ l.captureFlag = false := Bool.or_eq_false_iff.mp hflag
    rcases Line.mem_overwritten_onEdge hk with hk | ⟨hcaptured, -⟩
    · exact hbefore hclear.1 k hk
    · rw [hclear.2] at hcaptured
      exact absurd hcaptured Bool.false_ne_true

/-- An edge outside of the window takes nothing from what the handler relies on. -/
theorem Serving.onEdge (h : Serving l c stage)
    (hwindow : ¬ (stage = .tested c ∧ l.state.seen = true)) (counter : UInt32) :
    Serving (l.onEdge counter) c stage := by
  cases stage with
  | idle => trivial
  | updating => trivial
  | entered d => exact fun _ => rfl
  | tested d =>
    intro hd
    subst hd
    exact ⟨rfl, fun hseen => absurd ⟨rfl, hseen⟩ hwindow⟩
  | discarding d => exact h
  | cleared d => exact h
  | captured d value overflowCount edge => exact fun hd => Line.read_onEdge (h hd)
  | counted d value overflowCount currentCounter edge => exact fun hd => Line.read_onEdge (h hd)

@[simp]
theorem State.withLine_line (s : State) (c : Channel) (l : Line) :
    (s.withLine c l).line = Function.update s.line c l :=
  rfl

@[simp]
theorem State.withStage_line (s : State) (stage : Stage) : (s.withStage stage).line = s.line :=
  rfl

@[simp]
theorem State.withStage_stage (s : State) (stage : Stage) : (s.withStage stage).stage = stage :=
  rfl

/-- A step of the handler that changes the channel it serves. -/
theorem Invariant.of_line (h : Invariant s) (hline : t.line = Function.update s.line c l)
    (hchannel : ∀ d, t.stage.channel = some d → d = c) (hordered : Ordered l)
    (hserving : Serving l c t.stage) : Invariant t := by
  constructor
  · intro d
    rw [hline]
    rcases eq_or_ne d c with rfl | hne
    · rwa [Function.update_self]
    · rw [Function.update_of_ne hne]
      exact h.ordered d
  · intro d
    rw [hline]
    rcases eq_or_ne d c with rfl | hne
    · rwa [Function.update_self]
    · exact serving_of_channel_ne fun hd => hne (hchannel d hd)

theorem Invariant.of_stage (h : Invariant s) (hline : t.line = s.line)
    (hchannel : ∀ d, t.stage.channel = some d → d = c) (hserving : Serving (s.line c) c t.stage) :
    Invariant t :=
  h.of_line (by rw [hline, Function.update_eq_self]) hchannel (h.ordered c) hserving

theorem Invariant.of_idle (h : Invariant s) (hline : t.line = s.line)
    (hstage : t.stage = s.stage ∨ t.stage.channel = none) : Invariant t := by
  constructor
  · rw [hline]
    exact h.ordered
  · intro c
    rcases hstage with hstage | hstage
    · rw [hline, hstage]
      exact h.serving c
    · exact serving_of_channel_ne (by simp [hstage])

theorem tick_frame (h : tick reload s = some t) : t.line = s.line ∧ t.stage = s.stage := by
  simp only [tick] at h
  split at h
  · exact absurd h (by simp)
  · split at h
    · cases h
      exact ⟨rfl, rfl⟩
    · cases h
      exact ⟨rfl, rfl⟩

theorem Invariant.onEdge (h : Invariant s) (hwindow : ¬ InWindow s (.edge c)) :
    Invariant (s.withLine c ((s.line c).onEdge s.counter)) := by
  constructor
  · intro d
    rw [State.withLine_line]
    rcases eq_or_ne d c with rfl | hne
    · rw [Function.update_self]
      exact (h.ordered d).onEdge s.counter
    · rw [Function.update_of_ne hne]
      exact h.ordered d
  · intro d
    rw [State.withLine_line]
    rcases eq_or_ne d c with rfl | hne
    · rw [Function.update_self]
      exact (h.serving d).onEdge hwindow s.counter
    · rw [Function.update_of_ne hne]
      exact h.serving d

/-- The channel is reset when its flag is set, and left for the read of the register when not. -/
theorem Invariant.testOvercapture (h : Invariant s) (hstage : s.stage = .entered c) :
    Invariant (if (s.line c).overcaptureFlag then
      (s.withLine c (s.line c).onOvercapture).withStage (.discarding c)
      else s.withStage (.tested c)) := by
  have hserving := h.serving c
  rw [hstage] at hserving
  split
  · exact h.of_line rfl (fun d hd => (Option.some.inj hd).symm) (h.ordered c).onOvercapture
      fun _ => rfl
  · rename_i hflag
    exact h.of_stage rfl (fun d hd => (Option.some.inj hd).symm) fun _ =>
      ⟨hserving rfl, fun hseen => (h.ordered c).flagged hseen (Bool.not_eq_true _ ▸ hflag)⟩

/-- The value that is read is that of the last edge, and no other capture than the ones before the
reference was overwritten. -/
theorem Invariant.readCapture (h : Invariant s) (hstage : s.stage = .tested c) :
    Invariant ((s.withLine c (s.line c).onClearCapture).withStage
      (.captured c (s.line c).capture s.overflowCount ((s.line c).edges - 1))) := by
  have hserving := h.serving c
  rw [hstage] at hserving
  obtain ⟨hflag, hbefore⟩ := hserving rfl
  have hedges := (h.ordered c).captured hflag
  refine h.of_line rfl (fun d hd => (Option.some.inj hd).symm) (h.ordered c).onClearCapture
    fun _ => ⟨?_, ?_, ?_⟩
  · exact Nat.sub_lt hedges Nat.one_pos
  · exact fun hseen k hk => Or.inl (hbefore hseen k hk)
  · intro _ k hk
    have hlt := (h.ordered c).overwritten_lt k hk
    omega

theorem Invariant.readUpdate {value overflowCount currentCounter : UInt32} {edge : ℕ}
    (h : Invariant s) (hstage : s.stage = .counted c value overflowCount currentCounter edge)
    (reload : UInt32) (capture : Capture) (ms : UInt32) :
    Invariant ((s.withLine c ((s.line c).onServed reload capture ms edge)).withStage .idle) := by
  have hserving := h.serving c
  rw [hstage] at hserving
  obtain ⟨hedge, hbetween, hbefore⟩ := hserving rfl
  exact h.of_line rfl (by rintro d ⟨⟩)
    ((h.ordered c).onServed hedge hbetween hbefore reload capture ms) trivial

theorem invariant_step (h : Invariant s) {a : Action} (hwindow : ¬ InWindow s a)
    (ht : step reload s a = some t) : Invariant t := by
  cases a with
  | tick =>
    obtain ⟨hline, hstage⟩ := tick_frame ht
    exact h.of_idle hline (Or.inl hstage)
  | edge d =>
    cases ht
    exact h.onEdge hwindow
  | countOverflow =>
    simp only [step, Option.ite_none_right_eq_some] at ht
    cases ht.2
    exact h.of_idle rfl (Or.inr rfl)
  | clearUpdate =>
    simp only [step, Option.ite_none_right_eq_some] at ht
    cases ht.2
    exact h.of_idle rfl (Or.inr rfl)
  | enter d =>
    simp only [step, Option.ite_none_right_eq_some] at ht
    cases ht.2
    exact h.of_stage rfl (fun d hd => (Option.some.inj hd).symm) fun _ => ht.1.2
  | testOvercapture =>
    cases hstage : s.stage with
    | entered d =>
      simp only [step, hstage, ← apply_ite some] at ht
      cases ht
      exact h.testOvercapture hstage
    | _ => simp [step, hstage] at ht
  | clearOvercapture =>
    cases hstage : s.stage with
    | discarding d =>
      have hserving := h.serving d
      rw [hstage] at hserving
      simp only [step, hstage] at ht
      cases ht
      exact h.of_line rfl (fun d hd => (Option.some.inj hd).symm)
        ((h.ordered d).onClearOvercapture (hserving rfl)) fun _ => hserving rfl
    | _ => simp [step, hstage] at ht
  | clearCapture =>
    cases hstage : s.stage with
    | cleared d =>
      simp only [step, hstage] at ht
      cases ht
      exact h.of_line rfl (by rintro d ⟨⟩) (h.ordered d).onClearCapture trivial
    | _ => simp [step, hstage] at ht
  | readCapture =>
    cases hstage : s.stage with
    | tested d =>
      simp only [step, hstage] at ht
      cases ht
      exact h.readCapture hstage
    | _ => simp [step, hstage] at ht
  | readCounter =>
    cases hstage : s.stage with
    | captured d value overflowCount edge =>
      have hserving := h.serving d
      rw [hstage] at hserving
      simp only [step, hstage] at ht
      cases ht
      exact h.of_stage rfl (fun d hd => (Option.some.inj hd).symm) hserving
    | _ => simp [step, hstage] at ht
  | readUpdate ms =>
    cases hstage : s.stage with
    | counted d value overflowCount currentCounter edge =>
      simp only [step, hstage] at ht
      cases ht
      exact h.readUpdate hstage reload.value _ ms
    | _ => simp [step, hstage] at ht

theorem invariant_started (counter : UInt32) : Invariant (started counter) :=
  ⟨fun _ => ⟨fun _ hp => absurd hp List.not_mem_nil, fun hflag => absurd hflag Bool.false_ne_true,
    fun _ hk => absurd hk List.not_mem_nil, fun _ hp => absurd hp List.not_mem_nil,
    fun hseen => absurd hseen Bool.false_ne_true⟩, fun _ => trivial⟩

/-- An edge in the window makes the handler publish a period over the capture that it overwrites,
whenever what it computes is a period at all. -/
theorem spans_of_inWindow (hwindow : InWindow s (.edge c)) (hflag : (s.line c).captureFlag = true)
    (hnewer : (s.line c).reference < (s.line c).edges - 1) {ms : UInt32}
    (hvalid : (irqCcChan reload.value
      (getCapture reload.value s.overflowCount s.counter s.update s.counter) ms
      (s.line c).state).valid = true) :
    ∃ t, exec (step reload) s [.edge c, .readCapture, .readCounter, .readUpdate ms] = some t ∧
      ¬ (t.line c).Sound := by
  obtain ⟨hstage, hseen⟩ := hwindow
  have hpublish : ((s.line c).state.seen && (irqCcChan reload.value
      (getCapture reload.value s.overflowCount s.counter s.update s.counter) ms
      (s.line c).state).valid) = true := by rw [hseen, hvalid]; rfl
  refine ⟨_, by simp [step, hstage, State.withLine, State.withStage]; rfl, fun hsound => ?_⟩
  refine hsound ((s.line c).reference, (s.line c).edges) ?_ ((s.line c).edges - 1) ?_
    ⟨hnewer, ?_⟩
  · simp [Line.onServed, Line.onClearCapture, Line.onEdge, hpublish]
  · simp [Line.onServed, Line.onClearCapture, Line.onEdge, hflag]
  · dsimp only
    omega

theorem overcapture_never_spans (reload : Reload) (counter : UInt32) (run : List Action)
    (hok : Along (step reload) (fun s a => ¬ InWindow s a) (started counter) run)
    (hrun : exec (step reload) (started counter) run = some s) (c : Channel) :
    (s.line c).Sound :=
  have hinv : Invariant s := exec_invariant (fun _ _ _ h hwindow ht => invariant_step h hwindow ht)
    (invariant_started counter) hok hrun
  (hinv.ordered c).sound

section Runs

def serve : List Action := [.enter .channel1, .testOvercapture, .readCapture, .readCounter,
  .readUpdate 0]

/-- The third of five edges overwrites the second, and the channel starts again. -/
def overwrittenOnce : List Action :=
  [.edge .channel1] ++ serve ++ [.tick, .edge .channel1, .tick, .edge .channel1, .enter .channel1,
    .testOvercapture, .clearOvercapture, .clearCapture, .tick, .edge .channel1] ++ serve ++
    [.tick, .edge .channel1] ++ serve

theorem overcapture_never_spans_overwrittenOnce :
    ∃ s, exec (step ⟨9, rfl⟩) (started 0) overwrittenOnce = some s ∧
      (s.line .channel1).published = [(3, 4)] ∧ (s.line .channel1).overwritten = [1] ∧
      (s.line .channel1).Sound :=
  ⟨_, rfl, rfl, rfl, overcapture_never_spans ⟨9, rfl⟩ 0 overwrittenOnce (by decide) rfl .channel1⟩

/-- The third edge comes after the flag was tested for the second. -/
def overwrittenInWindow : List Action :=
  [.edge .channel1] ++ serve ++ [.tick, .edge .channel1, .enter .channel1, .testOvercapture, .tick,
    .edge .channel1, .readCapture, .readCounter, .readUpdate 0]

theorem overcapture_spans :
    ∃ s, exec (step ⟨9, rfl⟩) (started 0) overwrittenInWindow = some s ∧
      (s.line .channel1).state.valid = true ∧ (s.line .channel1).state.period = 2 ∧
      (s.line .channel1).published = [(0, 2)] ∧ (s.line .channel1).overwritten = [1] ∧
      ¬ (s.line .channel1).Sound :=
  ⟨_, rfl, rfl, rfl, rfl, rfl, fun h =>
    h (0, 2) List.mem_cons_self 1 List.mem_cons_self (by decide)⟩

end Runs

/-- Where a stage is in the model that tests the flag and reads the value in one step. -/
def Stage.handler : Stage → Option Handler
  | .idle => some .idle
  | .updating => some .updating
  | .captured c value overflowCount _ => some (.captured c value overflowCount)
  | .counted c value overflowCount currentCounter _ =>
    some (.counted c value overflowCount currentCounter)
  | .entered _ | .tested _ | .discarding _ | .cleared _ => none

/-- The same registers, and the same entry in the context of the driver. -/
structure SameLine (lane : Lane) (l : Line) : Prop where
  capture : lane.capture = l.capture
  captureFlag : lane.captureFlag = l.captureFlag
  overcaptureFlag : lane.overcaptureFlag = l.overcaptureFlag
  state : lane.state = l.state

structure SameState (s : Tim.State) (t : State) : Prop where
  counter : s.counter = t.counter
  update : s.update = t.update
  overflowCount : s.overflowCount = t.overflowCount
  handler : t.stage.handler = some s.handler
  line : ∀ c, SameLine (s.lane c) (t.line c)

section Coarse
variable {s' u : Tim.State}

theorem Stage.eq_idle (h : stage.handler = some .idle) : stage = .idle := by
  cases stage <;> simp [Stage.handler] at h ⊢

theorem Stage.eq_updating (h : stage.handler = some .updating) : stage = .updating := by
  cases stage <;> simp [Stage.handler] at h ⊢

theorem Stage.eq_captured {value overflowCount : UInt32}
    (h : stage.handler = some (.captured c value overflowCount)) :
    ∃ edge, stage = .captured c value overflowCount edge := by
  cases stage <;> simp [Stage.handler] at h ⊢
  exact h

theorem Stage.eq_counted {value overflowCount currentCounter : UInt32}
    (h : stage.handler = some (.counted c value overflowCount currentCounter)) :
    ∃ edge, stage = .counted c value overflowCount currentCounter edge := by
  cases stage <;> simp [Stage.handler] at h ⊢
  exact h

theorem sameLine_update (h : SameState s' t) {lane : Lane} {l : Line} (hl : SameLine lane l)
    (c d : Channel) :
    SameLine (Function.update s'.lane c lane d) (Function.update t.line c l d) := by
  rcases eq_or_ne d c with rfl | hne
  · rwa [Function.update_self, Function.update_self]
  · rw [Function.update_of_ne hne, Function.update_of_ne hne]
    exact h.line d

theorem SameState.tick (h : SameState s' t) (ht : Tim.tick reload s' = some u) :
    ∃ t', Overcapture.tick reload t = some t' ∧ SameState u t' := by
  rw [Tim.tick] at ht
  rw [Overcapture.tick, ← h.counter]
  split at ht
  · cases ht
  · rename_i hpos
    rw [if_neg hpos]
    split at ht
    · rename_i heq
      cases ht
      rw [if_pos heq]
      exact ⟨_, rfl, ⟨rfl, rfl, h.overflowCount, h.handler, h.line⟩⟩
    · rename_i hne
      cases ht
      rw [if_neg hne]
      exact ⟨_, rfl, ⟨rfl, h.update, h.overflowCount, h.handler, h.line⟩⟩

theorem SameLine.onEdge {lane : Lane} (h : SameLine lane l) (counter : UInt32) (now : ℕ) :
    SameLine (lane.onEdge counter now) (l.onEdge counter) :=
  ⟨rfl, rfl, by simp only [Lane.onEdge, Line.onEdge, h.captureFlag, h.overcaptureFlag], h.state⟩

theorem SameState.edge (h : SameState s' t) (c : Channel) :
    SameState (s'.withLane c ((s'.lane c).onEdge s'.counter s'.now))
      (t.withLine c ((t.line c).onEdge t.counter)) :=
  ⟨h.counter, h.update, h.overflowCount, h.handler,
    sameLine_update h (h.counter ▸ (h.line c).onEdge s'.counter s'.now) c⟩

/-- A capture that overwrote another resets the channel, in four steps. -/
theorem SameState.discard (h : SameState s' t) (hidle : t.stage = .idle)
    (hcaptured : (t.line c).captureFlag = true) (hover : (t.line c).overcaptureFlag = true) :
    ∃ t', exec (step reload) t [.enter c, .testOvercapture, .clearOvercapture, .clearCapture] =
        some t' ∧
      SameState (s'.withLane c (s'.lane c).onOvercapture) t' := by
  refine ⟨{ t with
    stage := .idle
    line := Function.update t.line c
      (t.line c).onOvercapture.onClearOvercapture.onClearCapture }, ?_, ?_⟩
  · simp [step, hidle, hcaptured, hover, State.withStage, State.withLine]
  · refine ⟨h.counter, h.update, h.overflowCount, ?_, sameLine_update h ?_ c⟩
    · have hhandler := h.handler
      rw [hidle] at hhandler
      exact hhandler
    · refine ⟨(h.line c).capture, rfl, rfl, ?_⟩
      change overcapture (s'.lane c).state = overcapture (t.line c).state
      rw [(h.line c).state]

theorem SameState.read (h : SameState s' t) (hidle : t.stage = .idle)
    (hcaptured : (t.line c).captureFlag = true) (hover : (t.line c).overcaptureFlag = false) :
    ∃ t', exec (step reload) t [.enter c, .testOvercapture, .readCapture] = some t' ∧
      SameState ((s'.withLane c (s'.lane c).onRead).withHandler
        (.captured c (s'.lane c).capture s'.overflowCount)) t' := by
  refine ⟨{ t with
    stage := .captured c (t.line c).capture t.overflowCount ((t.line c).edges - 1)
    line := Function.update t.line c (t.line c).onClearCapture }, ?_, ?_⟩
  · simp [step, hidle, hcaptured, hover, State.withStage, State.withLine]
  · refine ⟨h.counter, h.update, h.overflowCount, ?_, sameLine_update h ?_ c⟩
    · simp only [Stage.handler, Tim.State.withHandler, (h.line c).capture, h.overflowCount]
    · exact ⟨(h.line c).capture, rfl, (h.line c).overcaptureFlag, (h.line c).state⟩

theorem SameState.readCapture (h : SameState s' t)
    (hu : Tim.step reload s' (.readCapture c) = some u) :
    ∃ bs t', exec (step reload) t bs = some t' ∧ SameState u t' := by
  rw [Tim.step] at hu
  split at hu
  · rename_i hready
    have hidle : t.stage = .idle := Stage.eq_idle (hready.1 ▸ h.handler)
    have hcaptured : (t.line c).captureFlag = true := (h.line c).captureFlag ▸ hready.2
    split at hu
    · rename_i hover
      cases hu
      exact ⟨_, h.discard hidle hcaptured ((h.line c).overcaptureFlag ▸ hover)⟩
    · rename_i hover
      cases hu
      rw [(h.line c).overcaptureFlag, Bool.not_eq_true] at hover
      exact ⟨_, h.read hidle hcaptured hover⟩
  · cases hu

theorem SameState.readCounter (h : SameState s' t) (hu : Tim.step reload s' .readCounter = some u) :
    ∃ t', step reload t .readCounter = some t' ∧ SameState u t' := by
  rw [Tim.step] at hu
  split at hu
  · rename_i d value overflowCount hhandler
    cases hu
    obtain ⟨edge, hstage⟩ := Stage.eq_captured (hhandler ▸ h.handler)
    rw [step, hstage]
    refine ⟨_, rfl, h.counter, h.update, h.overflowCount, ?_, h.line⟩
    simp only [Stage.handler, State.withStage, Tim.State.withHandler, h.counter]
  · cases hu

theorem SameState.readUpdate {ms : UInt32} (h : SameState s' t)
    (hu : Tim.step reload s' (.readUpdate ms) = some u) :
    ∃ t', step reload t (.readUpdate ms) = some t' ∧ SameState u t' := by
  rw [Tim.step] at hu
  split at hu
  · rename_i d value overflowCount currentCounter hhandler
    cases hu
    obtain ⟨edge, hstage⟩ := Stage.eq_counted (hhandler ▸ h.handler)
    rw [step, hstage]
    refine ⟨_, rfl, h.counter, h.update, h.overflowCount, rfl, sameLine_update h ?_ d⟩
    refine ⟨(h.line d).capture, (h.line d).captureFlag, (h.line d).overcaptureFlag, ?_⟩
    simp only [Lane.onServed, Line.onServed, h.update, (h.line d).state]
  · cases hu

theorem SameState.step (h : SameState s' t) {a : Tim.Action} (hu : Tim.step reload s' a = some u) :
    ∃ bs t', exec (step reload) t bs = some t' ∧ SameState u t' := by
  -- all but the read of the capture is one step here too
  have one : ∀ {b t'}, Overcapture.step reload t b = some t' →
      exec (Overcapture.step reload) t [b] =
      some t' := fun hb => exec_cons_eq_some.mpr ⟨_, hb, rfl⟩
  cases a with
  | tick =>
    obtain ⟨t', ht, hsame⟩ := h.tick hu
    exact ⟨[.tick], t', one ht, hsame⟩
  | edge c =>
    cases hu
    exact ⟨[.edge c], _, one rfl, h.edge c⟩
  | countOverflow =>
    simp only [Tim.step, Option.ite_none_right_eq_some, Option.some.injEq] at hu
    obtain ⟨⟨hidle, hupdate⟩, rfl⟩ := hu
    refine ⟨[.countOverflow], _, one (if_pos ⟨Stage.eq_idle (hidle ▸ h.handler),
      h.update ▸ hupdate⟩), h.counter, h.update, ?_, rfl, h.line⟩
    exact congrArg (· + 1) h.overflowCount
  | clearUpdate =>
    simp only [Tim.step, Option.ite_none_right_eq_some, Option.some.injEq] at hu
    obtain ⟨hupdating, rfl⟩ := hu
    exact ⟨[.clearUpdate], _, one (if_pos (Stage.eq_updating (hupdating ▸ h.handler))), h.counter,
      rfl, h.overflowCount, rfl, h.line⟩
  | readCapture c => exact h.readCapture hu
  | readCounter =>
    obtain ⟨t', ht, hsame⟩ := h.readCounter hu
    exact ⟨[.readCounter], t', one ht, hsame⟩
  | readUpdate ms =>
    obtain ⟨t', ht, hsame⟩ := h.readUpdate hu
    exact ⟨[.readUpdate ms], t', one ht, hsame⟩

/-- Every run of the handler that tests the flag and reads the value in one step is a run of this
one: what a channel publishes there, it publishes here. -/
theorem exists_run_of_run {counter : UInt32} {run : List Tim.Action}
    (hrun : exec (Tim.step reload) (Tim.started counter) run = some u) :
    ∃ run' t, exec (Overcapture.step reload) (started counter) run' = some t ∧ SameState u t :=
  have hstart : SameState (Tim.started counter) (started counter) :=
    ⟨rfl, rfl, rfl, rfl, fun _ => ⟨rfl, rfl, rfl, rfl⟩⟩
  exec_refines (fun _ _ _ _ h hu => h.step hu) hstart hrun

end Coarse

end UniHal.Tim.Overcapture
