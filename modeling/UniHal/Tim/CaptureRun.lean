import UniHal.Foundations.Execution
import UniHal.Tim.Capture

/-! # Input capture over a whole run

TIM1 counts, wraps and captures the edges of its inputs while two handlers of one priority serve
the wraps and the captures. What the capture handler publishes for a channel against the ticks
between the edges, for every order in which edges, wraps and handlers follow each other.
-/

namespace UniHal.Tim
open Foundations Execution WrappingCounter

/-- The channels of `uni_hal_tim_channel_num_e` that can capture. -/
inductive Channel
  | channel1 | channel2 | channel3 | channel4
  deriving DecidableEq

theorem Channel.forall_iff {p : Channel → Prop} :
    (p .channel1 ∧ p .channel2 ∧ p .channel3 ∧ p .channel4) ↔ ∀ c, p c := by
  constructor
  · intro h c
    cases c with
    | channel1 => exact h.1
    | channel2 => exact h.2.1
    | channel3 => exact h.2.2.1
    | channel4 => exact h.2.2.2
  · exact fun h => ⟨h _, h _, h _, h _⟩

instance (p : Channel → Prop) [DecidablePred p] : Decidable (∀ c, p c) :=
  decidable_of_iff _ Channel.forall_iff

inductive Handler
  | idle
  /-- `TIM1_UP_TIM16_IRQHandler`, the overflow counted and the flag still set -/
  | updating
  /-- `_uni_hal_tim_irq_cc_chan`, with the captured value and the overflows -/
  | captured (chan : Channel) (value overflowCount : UInt32)
  /-- the same, with the counter -/
  | counted (chan : Channel) (value overflowCount currentCounter : UInt32)
  deriving DecidableEq

/-- One channel: its capture register and flags, its entry in the context of the driver, and
the ticks of all its edges, the last one first. -/
structure Lane where
  capture : UInt32 := 0
  captureFlag : Bool := false
  overcaptureFlag : Bool := false
  state : ChannelState := {}
  edges : List ℕ := []

/-- The timer with its channels, the overflows that the driver has counted, and a record of what
happened: the ticks and the wraps since the start, and the tick of the last wrap. -/
structure State where
  counter : UInt32
  update : Bool := false
  overflowCount : UInt32 := 0
  handler : Handler := .idle
  lane : Channel → Lane := fun _ => {}
  now : ℕ
  wraps : ℕ := 0
  lastWrap : ℕ := 0

/-- `uni_hal_tim_start` leaves the counter where it is; ticks are taken from its last zero. -/
def started (counter : UInt32) : State := { counter, now := counter.toNat }

namespace State

def withLane (s : State) (c : Channel) (l : Lane) : State :=
  { s with lane := Function.update s.lane c l }

def withHandler (s : State) (h : Handler) : State := { s with handler := h }

end State

inductive Action
  /-- the counter takes a step -/
  | tick
  /-- the input of a channel has an edge -/
  | edge (c : Channel)
  /-- the update handler sees its flag and counts the overflow -/
  | countOverflow
  /-- `uni_hal_tim_period_elapsed` clears the flag -/
  | clearUpdate
  /-- the capture handler reads the overcapture flag, the captured value and the overflows -/
  | readCapture (c : Channel)
  /-- the capture handler reads the counter -/
  | readCounter
  /-- the capture handler reads the update flag and ends -/
  | readUpdate (ms : UInt32)

namespace Lane

def onEdge (counter : UInt32) (now : ℕ) (l : Lane) : Lane :=
  { l with
    capture := counter
    captureFlag := true
    overcaptureFlag := l.overcaptureFlag || l.captureFlag
    edges := now :: l.edges }

def onRead (l : Lane) : Lane := { l with captureFlag := false }

def onOvercapture (l : Lane) : Lane :=
  { l with captureFlag := false, overcaptureFlag := false, state := overcapture l.state }

def onServed (reload : UInt32) (capture : Capture) (ms : UInt32) (l : Lane) : Lane :=
  { l with state := irqCcChan reload capture ms l.state }

end Lane

namespace State

def onCount (s : State) : State := { s with counter := s.counter + 1, now := s.now + 1 }

def onWrap (s : State) : State :=
  { s with
    counter := 0
    update := true
    now := s.now + 1
    wraps := s.wraps + 1
    lastWrap := s.now + 1 }

def onCountOverflow (s : State) : State :=
  { s with overflowCount := s.overflowCount + 1, handler := .updating }

def onClearUpdate (s : State) : State := { s with update := false, handler := .idle }

end State

def tick (reload : Reload) (s : State) : Option State :=
  if reload.value = 0 then none
  else if s.counter = reload.value then some s.onWrap
  else some s.onCount

def step (reload : Reload) (s : State) : Action → Option State
  | .tick => tick reload s
  | .edge c => some (s.withLane c ((s.lane c).onEdge s.counter s.now))
  | .countOverflow =>
    if s.handler = .idle ∧ s.update = true then some s.onCountOverflow else none
  | .clearUpdate => if s.handler = .updating then some s.onClearUpdate else none
  | .readCapture c =>
    if s.handler = .idle ∧ (s.lane c).captureFlag = true then
      if (s.lane c).overcaptureFlag then some (s.withLane c (s.lane c).onOvercapture)
      else
        some ((s.withLane c (s.lane c).onRead).withHandler
          (.captured c (s.lane c).capture s.overflowCount))
    else none
  | .readCounter =>
    match s.handler with
    | .captured c value overflowCount =>
      some (s.withHandler (.counted c value overflowCount s.counter))
    | _ => none
  | .readUpdate ms =>
    match s.handler with
    | .counted c value overflowCount currentCounter =>
      let capture := getCapture reload.value overflowCount currentCounter s.update value
      some ((s.withLane c ((s.lane c).onServed reload.value capture ms)).withHandler .idle)
    | _ => none

def Handler.serving (h : Handler) (c : Channel) : Bool :=
  match h with
  | .captured d _ _ | .counted d _ _ _ => decide (d = c)
  | _ => false

namespace State

def unserved (s : State) (c : Channel) : ℕ :=
  (s.lane c).captureFlag.toNat + (s.handler.serving c).toNat

def servedEdges (s : State) (c : Channel) : List ℕ := (s.lane c).edges.drop (s.unserved c)

def servingEdge (s : State) (c : Channel) : Option ℕ :=
  if s.handler.serving c then ((s.lane c).edges.drop (s.lane c).captureFlag.toNat).head? else none

end State

/-- Less than half a period passes from a wrap to the reads of its handler and from an edge to the
last read of its handler, no capture is overwritten before it is read, and the wraps since the
start fit 32 bits. -/
def Proviso (reload : Reload) (s : State) : Action → Prop
  | .tick =>
    (s.update = true → 2 * (s.now + 1 - s.lastWrap) < reload.period) ∧
      (s.counter = reload.value → s.wraps + 1 < 2 ^ 32)
  | .edge c => (s.lane c).captureFlag = false
  | .readUpdate _ => ∀ c, ∀ e ∈ s.servingEdge c, 2 * (s.now - e) < reload.period
  | _ => True

instance (reload : Reload) (s : State) (a : Action) : Decidable (Proviso reload s a) :=
  match a with
  | .tick => inferInstanceAs (Decidable (_ ∧ _))
  | .edge _ => inferInstanceAs (Decidable (_ = _))
  | .readUpdate _ => inferInstanceAs (Decidable (∀ _, _))
  | .countOverflow | .clearUpdate | .readCapture _ | .readCounter => .isTrue trivial

/-- The captured value that the handler has read lies in the middle of an odd period. -/
def Handler.AtCentre (reload : Reload) : Handler → Prop
  | .counted _ value _ _ => Central reload.period value.toNat
  | _ => False

instance (reload : Reload) (h : Handler) : Decidable (h.AtCentre reload) :=
  match h with
  | .counted _ value _ _ => inferInstanceAs (Decidable (Central reload.period value.toNat))
  | .idle | .updating | .captured _ _ _ => .isFalse id

/-- The handler is about to decide on a capture in the middle of an odd period while a wrap is
not counted yet. -/
def AtCentre (reload : Reload) (s : State) : Action → Prop
  | .readUpdate _ => s.update = true ∧ s.handler.AtCentre reload
  | _ => False

instance (reload : Reload) (s : State) (a : Action) : Decidable (AtCentre reload s a) :=
  match a with
  | .readUpdate _ => inferInstanceAs (Decidable (_ ∧ _))
  | .tick | .edge _ | .countOverflow | .clearUpdate | .readCapture _ | .readCounter => .isFalse id

/-- What a channel publishes once its edges have been served: the ticks between the last two. -/
def Publishes (st : ChannelState) : List ℕ → Prop
  | e₁ :: e₀ :: _ =>
    (st.valid = true → st.period.toNat = e₁ - e₀) ∧
      (0 < e₁ - e₀ → e₁ - e₀ < 2 ^ 32 → st.valid = true)
  | _ => st.valid = false

end UniHal.Tim
