import UniHal.Tim.CaptureRun

/-! # Input capture measures the ticks between edges

The invariant of a run: the counter, the overflows that the driver has counted and the flag of a
wrap say how many ticks have passed, and each channel holds where the counter was at the last
edge served. Every step of the timer, of an input or of a handler keeps it.
-/

namespace UniHal.Tim
open Foundations Execution WrappingCounter

variable {reload : Reload}

def Stored (reload : Reload) (e : ℕ) (st : ChannelState) : Prop :=
  st.counter.toNat = e % reload.period ∧ st.overflowCount.toNat = e / reload.period

def Measured (reload : Reload) (st : ChannelState) : List ℕ → Prop
  | [] => st.seen = false ∧ st.valid = false
  | e :: es => st.seen = true ∧ Stored reload e st ∧ Publishes st (e :: es)

theorem Measured.publishes {st : ChannelState} {es : List ℕ} (h : Measured reload st es) :
    Publishes st es := by
  cases es with
  | nil => exact h.2
  | cons e es => exact h.2.2

/-- The difference of two captures is the number of ticks between their edges. -/
theorem getCaptureDelta_of_stored {e₀ e₁ : ℕ} {capture : Capture} {st : ChannelState}
    (hst : Stored reload e₀ st) (hcounter : capture.counter.toNat = e₁ % reload.period)
    (hcount : capture.overflowCount.toNat = e₁ / reload.period) (hle : e₀ ≤ e₁) :
    getCaptureDelta reload.value capture st =
      if 0 < e₁ - e₀ ∧ e₁ - e₀ < 2 ^ 32 then some (UInt32.ofNat (e₁ - e₀)) else none := by
  have hwraps : st.overflowCount ≤ capture.overflowCount := by
    rw [UInt32.le_iff_toNat_le, hst.2, hcount]
    exact Nat.div_le_div_right hle
  have hst_lt : st.counter.toNat < reload.period := by
    rw [hst.1]
    exact Nat.mod_lt _ reload.period_pos
  have hcapture_lt : capture.counter.toNat < reload.period := by
    rw [hcounter]
    exact Nat.mod_lt _ reload.period_pos
  rw [getCaptureDelta_eq reload hwraps hst_lt hcapture_lt, hst.1, hst.2, hcounter, hcount,
    elapsed_eq reload.period_pos hle]

/-- Serving an edge keeps what the channel holds and publishes. -/
theorem measured_irqCcChan {e : ℕ} {es : List ℕ} {capture : Capture} {st : ChannelState}
    (ms : UInt32) (h : Measured reload st es)
    (hcounter : capture.counter.toNat = e % reload.period)
    (hcount : capture.overflowCount.toNat = e / reload.period) (hlast : ∀ e₀ ∈ es, e₀ ≤ e) :
    Measured reload (irqCcChan reload.value capture ms st) (e :: es) := by
  cases es with
  | nil =>
    rw [irqCcChan, if_neg (by simp [h.1])]
    exact ⟨rfl, ⟨hcounter, hcount⟩, h.2⟩
  | cons e₀ es =>
    obtain ⟨hseen, hstored, -⟩ := h
    have hdelta := getCaptureDelta_of_stored hstored hcounter hcount (hlast e₀ List.mem_cons_self)
    rw [irqCcChan, if_pos hseen, hdelta]
    split_ifs with hticks
    · refine ⟨hseen, ⟨hcounter, hcount⟩, fun _ => ?_, fun _ _ => rfl⟩
      exact UInt32.toNat_ofNat_of_lt' hticks.2
    · refine ⟨hseen, ⟨hcounter, hcount⟩, fun hvalid => ?_, fun hpos hlt => ?_⟩
      · exact absurd hvalid Bool.false_ne_true
      · exact absurd ⟨hpos, hlt⟩ hticks

def State.pendingWrap (s : State) : Bool := s.update && decide (s.handler ≠ .updating)

/-- The counter, the overflows and the update flag against the ticks since the start. -/
structure Timed (reload : Reload) (s : State) : Prop where
  now_eq : s.now = s.wraps * reload.period + s.counter.toNat
  counter_lt : s.counter.toNat < reload.period
  wraps_lt : s.wraps < 2 ^ 32
  count : s.overflowCount.toNat + s.pendingWrap.toNat = s.wraps
  wrap : s.update = true → s.lastWrap = s.wraps * reload.period
  near : s.update = true → 2 * (s.now - s.lastWrap) < reload.period
  updating : s.handler = .updating → s.update = true

/-- What the handler has read while it serves the capture of an edge. -/
def Reading (reload : Reload) (s : State) (e : ℕ) : Prop :=
  match s.handler with
  | .captured _ value overflowCount =>
    value.toNat = e % reload.period ∧ overflowCount = s.overflowCount
  | .counted _ value overflowCount currentCounter =>
    value.toNat = e % reload.period ∧ overflowCount = s.overflowCount ∧
      ∃ t, e ≤ t ∧ t ≤ s.now ∧ currentCounter.toNat = t % reload.period ∧
        (s.update = false → t / reload.period = s.wraps)
  | _ => True

/-- The edges of a channel are the one in its register, the one that the handler serves and the
served ones. -/
structure Follows (reload : Reload) (s : State) (c : Channel) (unread serving : Option ℕ)
    (served : List ℕ) : Prop where
  edges : (s.lane c).edges = unread.toList ++ serving.toList ++ served
  flag : (s.lane c).captureFlag = unread.isSome
  handler : s.handler.serving c = serving.isSome
  intact : (s.lane c).overcaptureFlag = false
  ordered : (s.now :: (s.lane c).edges).Pairwise (· ≥ ·)
  capture : ∀ e ∈ unread, (s.lane c).capture.toNat = e % reload.period
  reading : ∀ e ∈ serving, Reading reload s e
  measured : Measured reload (s.lane c).state served

structure Invariant (reload : Reload) (s : State) : Prop where
  timed : Timed reload s
  follows : ∀ c, ∃ unread serving served, Follows reload s c unread serving served

theorem Timed.div_mod {s : State} (h : Timed reload s) :
    s.now / reload.period = s.wraps ∧ s.now % reload.period = s.counter.toNat :=
  div_mod_of_wraps h.now_eq h.counter_lt

theorem toNat_isSome (o : Option ℕ) : o.isSome.toNat = o.toList.length := by
  cases o <;> rfl

theorem eq_none_of_isSome_eq {o : Option ℕ} (h : o.isSome = false) : o = none :=
  Option.isNone_iff_eq_none.mp (Option.isSome_eq_false_iff.mp h)

section Follows
variable {s : State} {c : Channel} {unread serving : Option ℕ} {served : List ℕ}

theorem Follows.unserved (h : Follows reload s c unread serving served) :
    s.unserved c = (unread.toList ++ serving.toList).length := by
  rw [State.unserved, h.flag, h.handler, toNat_isSome, toNat_isSome, List.length_append]

theorem Follows.servedEdges (h : Follows reload s c unread serving served) :
    s.servedEdges c = served := by
  rw [State.servedEdges, h.unserved, h.edges, List.drop_left]

theorem Follows.servingEdge (h : Follows reload s c unread serving served) :
    s.servingEdge c = serving := by
  rw [State.servingEdge, h.handler, h.flag, toNat_isSome, h.edges, List.append_assoc,
    List.drop_left]
  cases serving <;> rfl

theorem Follows.past (h : Follows reload s c unread serving served) {e : ℕ}
    (he : e ∈ (s.lane c).edges) : e ≤ s.now :=
  List.rel_of_pairwise_cons h.ordered he

/-- What has been read stays true while time passes, as long as no wrap goes unseen. -/
theorem Reading.later {t : State} {e : ℕ} (h : Reading reload s e)
    (hhandler : t.handler = s.handler) (hcount : t.overflowCount = s.overflowCount)
    (hnow : s.now ≤ t.now)
    (hwraps : t.update = false → s.update = false ∧ t.wraps = s.wraps) : Reading reload t e := by
  unfold Reading at h ⊢
  rw [hhandler, hcount]
  cases hs : s.handler with
  | idle => trivial
  | updating => trivial
  | captured d value overflowCount =>
    rw [hs] at h
    exact h
  | counted d value overflowCount currentCounter =>
    rw [hs] at h
    obtain ⟨hvalue, hoverflow, r, her, hrs, hcurrent, hread⟩ := h
    refine ⟨hvalue, hoverflow, r, her, hrs.trans hnow, hcurrent, fun hupdate => ?_⟩
    obtain ⟨hupdate, heq⟩ := hwraps hupdate
    rw [heq]
    exact hread hupdate

/-- Frame rule: a step that leaves a channel alone and takes no time. -/
theorem Follows.frame {t : State} (h : Follows reload s c unread serving served)
    (hlane : t.lane c = s.lane c) (hnow : t.now = s.now)
    (hserving : t.handler.serving c = s.handler.serving c)
    (hreading : ∀ e ∈ serving, Reading reload t e) :
    Follows reload t c unread serving served where
  edges := hlane ▸ h.edges
  flag := hlane ▸ h.flag
  handler := hserving.trans h.handler
  intact := hlane ▸ h.intact
  ordered := by
    rw [hlane, hnow]
    exact h.ordered
  capture := hlane ▸ h.capture
  reading := hreading
  measured := hlane ▸ h.measured

theorem Follows.of_lane {l : Lane} (hlane : s.lane c = l)
    (hedges : l.edges = unread.toList ++ serving.toList ++ served)
    (hflag : l.captureFlag = unread.isSome) (hhandler : s.handler.serving c = serving.isSome)
    (hintact : l.overcaptureFlag = false) (hordered : (s.now :: l.edges).Pairwise (· ≥ ·))
    (hcapture : ∀ e ∈ unread, l.capture.toNat = e % reload.period)
    (hreading : ∀ e ∈ serving, Reading reload s e) (hmeasured : Measured reload l.state served) :
    Follows reload s c unread serving served := by
  subst hlane
  exact ⟨hedges, hflag, hhandler, hintact, hordered, hcapture, hreading, hmeasured⟩

end Follows

variable {s t : State} {c : Channel}

theorem tick_cases (hs : tick reload s = some t) :
    (s.counter = reload.value ∧ t = s.onWrap) ∨ (s.counter ≠ reload.value ∧ t = s.onCount) := by
  unfold tick at hs
  split_ifs at hs with hzero hwrap
  · exact .inl ⟨hwrap, (Option.some.inj hs).symm⟩
  · exact .inr ⟨hwrap, (Option.some.inj hs).symm⟩

/-- When the counter wraps, the last wrap has been counted: its deadline has passed. -/
theorem Timed.update_of_wrap (h : Timed reload s) (hwrap : s.counter = reload.value)
    (hok : Proviso reload s .tick) : s.update = false := by
  apply Bool.eq_false_iff.mpr
  intro hupdate
  have hnow := h.now_eq
  have hnear := hok.1 hupdate
  rw [h.wrap hupdate] at hnear
  rw [hwrap] at hnow
  simp only [Reload.period] at hnow hnear
  omega

theorem Timed.onWrap (h : Timed reload s) (hwrap : s.counter = reload.value)
    (hok : Proviso reload s .tick) : Timed reload s.onWrap := by
  have hupdate := h.update_of_wrap hwrap hok
  have hidle : s.handler ≠ .updating := fun hh => by simp [h.updating hh] at hupdate
  have hcount := h.count
  have hnow : s.now + 1 = (s.wraps + 1) * reload.period := by
    rw [h.now_eq, hwrap, Nat.succ_mul]
    rfl
  constructor
  · exact hnow
  · exact reload.period_pos
  · exact hok.2 hwrap
  · simp only [State.pendingWrap, hupdate, Bool.false_and, Bool.toNat_false] at hcount
    simp [State.onWrap, State.pendingWrap, hidle, ← hcount]
  · exact fun _ => hnow
  · intro _
    simp [State.onWrap, reload.period_pos]
  · exact fun _ => rfl

theorem Timed.onCount (h : Timed reload s) (hwrap : s.counter ≠ reload.value)
    (hok : Proviso reload s .tick) : Timed reload s.onCount := by
  have hlt := h.counter_lt
  have hne : s.counter.toNat ≠ reload.value.toNat := fun heq => hwrap (UInt32.toNat_inj.mp heq)
  have hbound := reload.period_le
  have hcounter : (s.counter + 1).toNat = s.counter.toNat + 1 := by
    rw [UInt32.toNat_add]
    exact Nat.mod_eq_of_lt (by simp; omega)
  constructor
  · change s.now + 1 = s.wraps * reload.period + (s.counter + 1).toNat
    rw [hcounter, h.now_eq, Nat.add_assoc]
  · change (s.counter + 1).toNat < reload.period
    rw [Reload.period] at hlt ⊢
    omega
  · exact h.wraps_lt
  · exact h.count
  · exact h.wrap
  · exact hok.1
  · exact h.updating

theorem Follows.tick {unread serving : Option ℕ} {served : List ℕ}
    (h : Follows reload s c unread serving served)
    (hs : UniHal.Tim.tick reload s = some t) : Follows reload t c unread serving served := by
  have hordered : ((s.now + 1) :: (s.lane c).edges).Pairwise (· ≥ ·) := by
    obtain ⟨hpast, hedges⟩ := List.pairwise_cons.mp h.ordered
    exact List.pairwise_cons.mpr ⟨fun e he => (hpast e he).trans s.now.le_succ, hedges⟩
  rcases tick_cases hs with ⟨-, rfl⟩ | ⟨-, rfl⟩
  · refine ⟨h.edges, h.flag, h.handler, h.intact, hordered, h.capture, ?_, h.measured⟩
    exact fun e he => (h.reading e he).later rfl rfl s.now.le_succ
      fun hupdate => absurd hupdate.symm Bool.false_ne_true
  · refine ⟨h.edges, h.flag, h.handler, h.intact, hordered, h.capture, ?_, h.measured⟩
    exact fun e he => (h.reading e he).later rfl rfl s.now.le_succ fun hupdate => ⟨hupdate, rfl⟩

theorem invariant_tick (h : Invariant reload s) (hok : Proviso reload s .tick)
    (hs : tick reload s = some t) : Invariant reload t where
  timed := by
    rcases tick_cases hs with ⟨hwrap, rfl⟩ | ⟨hwrap, rfl⟩
    · exact h.timed.onWrap hwrap hok
    · exact h.timed.onCount hwrap hok
  follows c := by
    obtain ⟨unread, serving, served, hc⟩ := h.follows c
    exact ⟨unread, serving, served, hc.tick hs⟩

theorem Timed.withLane (h : Timed reload s) (c : Channel) (l : Lane) :
    Timed reload (s.withLane c l) :=
  ⟨h.now_eq, h.counter_lt, h.wraps_lt, h.count, h.wrap, h.near, h.updating⟩

theorem Timed.withHandler (h : Timed reload s) (hs : s.handler ≠ .updating) {handler : Handler}
    (hh : handler ≠ .updating) : Timed reload (s.withHandler handler) := by
  have hpending : (s.withHandler handler).pendingWrap = s.pendingWrap := by
    simp [State.pendingWrap, State.withHandler, hs, hh]
  exact ⟨h.now_eq, h.counter_lt, h.wraps_lt, hpending ▸ h.count, h.wrap, h.near,
    fun heq => absurd heq hh⟩

theorem lane_withLane_self (s : State) (c : Channel) (l : Lane) :
    (s.withLane c l).lane c = l := by
  simp [State.withLane]

theorem lane_withHandler_self (s : State) (c : Channel) (l : Lane) (h : Handler) :
    ((s.withLane c l).withHandler h).lane c = l :=
  lane_withLane_self s c l

theorem lane_withLane_of_ne (s : State) {c d : Channel} (l : Lane) (h : d ≠ c) :
    (s.withLane c l).lane d = s.lane d := by
  simp [State.withLane, h]

theorem Follows.edge {serving : Option ℕ} {served : List ℕ} (ht : Timed reload s)
    (h : Follows reload s c none serving served) :
    Follows reload (s.withLane c ((s.lane c).onEdge s.counter s.now)) c (some s.now) serving
      served := by
  apply Follows.of_lane (lane_withLane_self s c _)
  case hedges => exact congrArg (s.now :: ·) h.edges
  case hflag => rfl
  case hhandler => exact h.handler
  case hintact =>
    rw [Lane.onEdge, h.intact, h.flag]
    rfl
  case hordered =>
    apply List.pairwise_cons.mpr
    refine ⟨fun e he => ?_, h.ordered⟩
    rcases List.mem_cons.mp he with rfl | he
    · exact le_rfl
    · exact h.past he
  case hcapture =>
    intro e he
    obtain rfl := Option.some.inj he
    exact ht.div_mod.2.symm
  case hreading => exact h.reading
  case hmeasured => exact h.measured

/-- Frame rule: a step that leaves a channel, the time and the handler alone. -/
theorem Follows.withLane_of_ne {d : Channel} {unread serving : Option ℕ} {served : List ℕ}
    (h : Follows reload s d unread serving served) (hd : d ≠ c) (l : Lane) :
    Follows reload (s.withLane c l) d unread serving served :=
  h.frame (lane_withLane_of_ne s l hd) rfl rfl fun e he => h.reading e he

theorem invariant_edge (h : Invariant reload s) (hok : Proviso reload s (.edge c)) :
    Invariant reload (s.withLane c ((s.lane c).onEdge s.counter s.now)) where
  timed := h.timed.withLane c _
  follows d := by
    obtain ⟨unread, serving, served, hd⟩ := h.follows d
    by_cases heq : d = c
    · subst heq
      obtain rfl : unread = none := eq_none_of_isSome_eq (hd.flag.symm.trans hok)
      exact ⟨some s.now, serving, served, hd.edge h.timed⟩
    · exact ⟨unread, serving, served, hd.withLane_of_ne heq _⟩

/-- No channel is served while the handler does not serve captures. -/
theorem Follows.serving_eq_none {unread serving : Option ℕ} {served : List ℕ}
    (h : Follows reload s c unread serving served) (hs : s.handler.serving c = false) :
    serving = none :=
  eq_none_of_isSome_eq (h.handler.symm.trans hs)

/-- Frame rule: a step of a handler that serves no capture, before and after. -/
theorem Follows.frame_idle {unread serving : Option ℕ} {served : List ℕ}
    (h : Follows reload s c unread serving served) (hlane : t.lane c = s.lane c)
    (hnow : t.now = s.now) (hs : s.handler.serving c = false) (ht : t.handler.serving c = false) :
    Follows reload t c unread serving served := by
  obtain rfl := h.serving_eq_none hs
  exact h.frame hlane hnow (ht.trans hs.symm) fun e he => absurd he (Option.not_mem_none e)

theorem Timed.onCountOverflow (h : Timed reload s) (hs : s.handler = .idle)
    (hupdate : s.update = true) : Timed reload s.onCountOverflow := by
  have hcount := h.count
  have hlt := h.wraps_lt
  simp only [State.pendingWrap, hs, hupdate, Bool.true_and, ne_eq, reduceCtorEq, not_false_eq_true,
    decide_true, Bool.toNat_true] at hcount
  refine ⟨h.now_eq, h.counter_lt, hlt, ?_, h.wrap, h.near, fun _ => hupdate⟩
  have hsucc : (s.overflowCount + 1).toNat = s.overflowCount.toNat + 1 := by
    rw [UInt32.toNat_add]
    exact Nat.mod_eq_of_lt (by simp; omega)
  simp [State.onCountOverflow, State.pendingWrap, hsucc, hcount]

theorem invariant_countOverflow (h : Invariant reload s) (hs : s.handler = .idle)
    (hupdate : s.update = true) : Invariant reload s.onCountOverflow where
  timed := h.timed.onCountOverflow hs hupdate
  follows c := by
    obtain ⟨unread, serving, served, hc⟩ := h.follows c
    exact ⟨unread, serving, served, hc.frame_idle rfl rfl (by rw [hs]; rfl) rfl⟩

theorem Timed.onClearUpdate (h : Timed reload s) (hs : s.handler = .updating) :
    Timed reload s.onClearUpdate := by
  have hcount := h.count
  simp only [State.pendingWrap, hs, ne_eq, not_true_eq_false, decide_false, Bool.and_false]
    at hcount
  refine ⟨h.now_eq, h.counter_lt, h.wraps_lt, hcount, ?_, ?_, ?_⟩
  · exact fun hupdate => absurd hupdate Bool.false_ne_true
  · exact fun hupdate => absurd hupdate Bool.false_ne_true
  · exact fun hhandler => absurd hhandler (by simp [State.onClearUpdate])

theorem invariant_clearUpdate (h : Invariant reload s) (hs : s.handler = .updating) :
    Invariant reload s.onClearUpdate where
  timed := h.timed.onClearUpdate hs
  follows c := by
    obtain ⟨unread, serving, served, hc⟩ := h.follows c
    exact ⟨unread, serving, served, hc.frame_idle rfl rfl (by rw [hs]; rfl) rfl⟩

theorem Follows.readCapture {e : ℕ} {served : List ℕ}
    (h : Follows reload s c (some e) none served) :
    Follows reload ((s.withLane c (s.lane c).onRead).withHandler
      (.captured c (s.lane c).capture s.overflowCount)) c none (some e) served := by
  apply Follows.of_lane (lane_withHandler_self s c _ _)
  case hedges => exact h.edges
  case hflag => rfl
  case hhandler => exact decide_eq_true rfl
  case hintact => exact h.intact
  case hordered => exact h.ordered
  case hcapture => exact fun e' he' => absurd he' (Option.not_mem_none e')
  case hreading =>
    intro e' he'
    obtain rfl := Option.some.inj he'
    exact ⟨h.capture e rfl, rfl⟩
  case hmeasured => exact h.measured

theorem invariant_readCapture (h : Invariant reload s) (hs : s.handler = .idle)
    (hflag : (s.lane c).captureFlag = true) :
    Invariant reload ((s.withLane c (s.lane c).onRead).withHandler
      (.captured c (s.lane c).capture s.overflowCount)) where
  timed := (h.timed.withLane c _).withHandler (by simp [State.withLane, hs]) (by simp)
  follows d := by
    obtain ⟨unread, serving, served, hd⟩ := h.follows d
    have hidle : s.handler.serving d = false := by
      rw [hs]
      rfl
    by_cases heq : d = c
    · subst heq
      obtain rfl := hd.serving_eq_none hidle
      obtain ⟨e, rfl⟩ := Option.isSome_iff_exists.mp (hd.flag.symm.trans hflag)
      exact ⟨none, some e, served, hd.readCapture⟩
    · exact ⟨unread, serving, served, hd.frame_idle (lane_withLane_of_ne s _ heq) rfl hidle
        (decide_eq_false (Ne.symm heq))⟩

theorem invariant_readCounter {value overflowCount : UInt32} (h : Invariant reload s)
    (hs : s.handler = .captured c value overflowCount) :
    Invariant reload (s.withHandler (.counted c value overflowCount s.counter)) where
  timed := h.timed.withHandler (by simp [hs]) (by simp)
  follows d := by
    obtain ⟨unread, serving, served, hd⟩ := h.follows d
    refine ⟨unread, serving, served, hd.frame rfl rfl (by rw [hs]; rfl) fun e he => ?_⟩
    have hreading := hd.reading e he
    rw [Reading, hs] at hreading
    have hpast : e ≤ s.now := hd.past (by
      rw [hd.edges, Option.mem_def.mp he]
      simp)
    obtain ⟨hdiv, hmod⟩ := h.timed.div_mod
    exact ⟨hreading.1, hreading.2, s.now, hpast, le_rfl, hmod.symm, fun _ => hdiv⟩

/-- The handler finds the wraps before the edge that it serves, unless the captured value lies in
the middle of an odd period. -/
theorem toNat_getCapture_of_reading {e : ℕ} {value overflowCount currentCounter : UInt32}
    (ht : Timed reload s) (hs : s.handler = .counted c value overflowCount currentCounter)
    (hreading : Reading reload s e) (hnear : 2 * (s.now - e) < reload.period)
    (hcentre : s.update = true → ¬ Central reload.period value.toNat) :
    (getCapture reload.value overflowCount currentCounter s.update value).overflowCount.toNat =
      e / reload.period := by
  rw [Reading, hs] at hreading
  obtain ⟨hvalue, rfl, r, her, hrs, hcurrent, hread⟩ := hreading
  obtain ⟨hdiv, hmod⟩ := ht.div_mod
  have hcount := ht.count
  have hpending : s.pendingWrap = s.update := by simp [State.pendingWrap, hs]
  rw [hpending] at hcount
  rw [toNat_getCapture reload _ _ _ _ (hcount ▸ ht.wraps_lt), hcurrent, hvalue]
  apply wrapsAt_eq reload.period_pos her hrs hnear (hcount.trans hdiv.symm)
  · intro hupdate
    have hlate := ht.near hupdate
    have hnow := ht.now_eq
    rw [ht.wrap hupdate] at hlate
    rw [← hvalue, hmod]
    exact ⟨by omega, hcentre hupdate⟩
  · exact fun hupdate => (hread hupdate).trans hdiv.symm

theorem Follows.readUpdate {unread : Option ℕ} {e : ℕ} {served : List ℕ} {capture : Capture}
    (ms : UInt32) (h : Follows reload s c unread (some e) served)
    (hcounter : capture.counter.toNat = e % reload.period)
    (hcount : capture.overflowCount.toNat = e / reload.period) :
    Follows reload ((s.withLane c ((s.lane c).onServed reload.value capture ms)).withHandler .idle)
      c unread none (e :: served) := by
  have hsorted := (List.pairwise_cons.mp h.ordered).2
  rw [h.edges, Option.toList_some, List.append_assoc] at hsorted
  apply Follows.of_lane (lane_withHandler_self s c _ _)
  case hedges => exact h.edges.trans (by simp)
  case hflag => exact h.flag
  case hhandler => rfl
  case hintact => exact h.intact
  case hordered => exact h.ordered
  case hcapture => exact h.capture
  case hreading => exact fun e' he' => absurd he' (Option.not_mem_none e')
  case hmeasured =>
    apply measured_irqCcChan ms h.measured hcounter hcount
    intro e₀ he₀
    exact List.rel_of_pairwise_cons (List.pairwise_append.mp hsorted).2.1 he₀

theorem invariant_readUpdate {value overflowCount currentCounter : UInt32} (ms : UInt32)
    (h : Invariant reload s) (hs : s.handler = .counted c value overflowCount currentCounter)
    (hok : Proviso reload s (.readUpdate ms))
    (hcentre : s.update = true → ¬ Central reload.period value.toNat) :
    Invariant reload ((s.withLane c ((s.lane c).onServed reload.value
      (getCapture reload.value overflowCount currentCounter s.update value) ms)).withHandler
        .idle) where
  timed := (h.timed.withLane c _).withHandler (by simp [State.withLane, hs]) (by simp)
  follows d := by
    obtain ⟨unread, serving, served, hd⟩ := h.follows d
    by_cases heq : d = c
    · subst heq
      have hserving : s.handler.serving d = true := by
        rw [hs]
        exact decide_eq_true rfl
      obtain ⟨e, rfl⟩ := Option.isSome_iff_exists.mp (hd.handler.symm.trans hserving)
      have hreading := hd.reading e rfl
      have hcount := toNat_getCapture_of_reading h.timed hs hreading
        (hok d e hd.servingEdge) hcentre
      rw [Reading, hs] at hreading
      refine ⟨unread, none, e :: served, hd.readUpdate ms ?_ hcount⟩
      rw [getCapture_counter]
      exact hreading.1
    · have hother : s.handler.serving d = false := by
        rw [hs]
        exact decide_eq_false (Ne.symm heq)
      exact ⟨unread, serving, served,
        hd.frame_idle (lane_withLane_of_ne s _ heq) rfl hother rfl⟩

theorem invariant_step {a : Action} (h : Invariant reload s) (hok : Proviso reload s a)
    (hcentre : ¬ AtCentre reload s a) (hs : step reload s a = some t) : Invariant reload t := by
  cases a with
  | tick => exact invariant_tick h hok hs
  | edge c =>
    obtain rfl := Option.some.inj hs
    exact invariant_edge h hok
  | countOverflow =>
    simp only [step, Option.ite_none_right_eq_some, Option.some.injEq] at hs
    obtain ⟨⟨hidle, hupdate⟩, rfl⟩ := hs
    exact invariant_countOverflow h hidle hupdate
  | clearUpdate =>
    simp only [step, Option.ite_none_right_eq_some, Option.some.injEq] at hs
    obtain ⟨hupdating, rfl⟩ := hs
    exact invariant_clearUpdate h hupdating
  | readCapture c =>
    obtain ⟨unread, serving, served, hc⟩ := h.follows c
    simp only [step, hc.intact, Bool.false_eq_true, if_false, Option.ite_none_right_eq_some,
      Option.some.injEq] at hs
    obtain ⟨⟨hidle, hflag⟩, rfl⟩ := hs
    exact invariant_readCapture h hidle hflag
  | readCounter =>
    cases hhandler : s.handler with
    | captured c value overflowCount =>
      simp only [step, hhandler, Option.some.injEq] at hs
      exact hs ▸ invariant_readCounter h hhandler
    | idle => simp [step, hhandler] at hs
    | updating => simp [step, hhandler] at hs
    | counted c value overflowCount currentCounter => simp [step, hhandler] at hs
  | readUpdate ms =>
    cases hhandler : s.handler with
    | counted c value overflowCount currentCounter =>
      simp only [step, hhandler, Option.some.injEq] at hs
      refine hs ▸ invariant_readUpdate ms h hhandler hok fun hupdate hmid => hcentre ⟨hupdate, ?_⟩
      rw [hhandler]
      exact hmid
    | idle => simp [step, hhandler] at hs
    | updating => simp [step, hhandler] at hs
    | captured c value overflowCount => simp [step, hhandler] at hs

theorem invariant_started {counter : UInt32} (h : counter ≤ reload.value) :
    Invariant reload (started counter) where
  timed := by
    constructor
    · simp [started]
    · exact Nat.lt_succ_iff.mpr (UInt32.le_iff_toNat_le.mp h)
    · simp [started]
    · rfl
    · exact fun hupdate => absurd hupdate Bool.false_ne_true
    · exact fun hupdate => absurd hupdate Bool.false_ne_true
    · exact fun hupdating => absurd hupdating (by simp [started])
  follows c := by
    refine ⟨none, none, [], ?_⟩
    constructor
    · rfl
    · rfl
    · rfl
    · rfl
    · exact List.pairwise_singleton _ _
    · exact fun e he => absurd he (Option.not_mem_none e)
    · exact fun e he => absurd he (Option.not_mem_none e)
    · exact ⟨rfl, rfl⟩

theorem publishes_of_invariant (h : Invariant reload s) (c : Channel) :
    Publishes (s.lane c).state (s.servedEdges c) := by
  obtain ⟨unread, serving, served, hc⟩ := h.follows c
  rw [hc.servedEdges]
  exact hc.measured.publishes

/-- Whatever the reload value and the order of edges, wraps and handlers, a channel publishes the
ticks between two consecutive edges, whenever there are any and their number fits 32 bits. -/
theorem publishes_ticks (reload : Reload) (counter : UInt32) (run : List Action)
    (hcounter : counter ≤ reload.value)
    (hok : Along (step reload) (fun s a => Proviso reload s a ∧ ¬ AtCentre reload s a)
      (started counter) run)
    (hrun : exec (step reload) (started counter) run = some s) (c : Channel) :
    Publishes (s.lane c).state (s.servedEdges c) := by
  have hstep : ∀ s a t, Invariant reload s → Proviso reload s a ∧ ¬ AtCentre reload s a →
      step reload s a = some t → Invariant reload t :=
    fun _ _ _ h hok => invariant_step h hok.1 hok.2
  exact publishes_of_invariant (exec_invariant hstep (invariant_started hcounter) hok hrun) c

section Runs

def serve : List Action := [.readCapture .channel1, .readCounter, .readUpdate 0]

/-- Two edges four ticks apart, and a wrap that is counted after the second one. -/
def fourTicks : List Action :=
  [.edge .channel1] ++ serve ++ [.tick, .tick, .tick, .tick, .edge .channel1] ++ serve ++
    [.countOverflow, .clearUpdate]

theorem publishes_ticks_fourTicks :
    ∃ s, exec (step ⟨3, rfl⟩) (started 0) fourTicks = some s ∧
      s.servedEdges .channel1 = [4, 0] ∧
      Publishes (s.lane .channel1).state (s.servedEdges .channel1) :=
  ⟨_, rfl, rfl, publishes_ticks ⟨3, rfl⟩ 0 fourTicks (by decide) (by decide) rfl .channel1⟩

def edgesInOneTick : List Action := [.edge .channel1] ++ serve ++ [.edge .channel1] ++ serve

/-- No period is published for two edges in one tick, and a capture in the middle of a period of
three ticks misses the wrap before it. -/
theorem publishes_ticks_fails :
    (∃ s, Along (step ⟨3, rfl⟩) (Proviso ⟨3, rfl⟩) (started 0) edgesInOneTick ∧
      exec (step ⟨3, rfl⟩) (started 0) edgesInOneTick = some s ∧
      s.servedEdges .channel1 = [0, 0] ∧ (s.lane .channel1).state.valid = false) ∧
    (∃ s, Along (step ⟨2, rfl⟩) (Proviso ⟨2, rfl⟩) (started 0) fourTicks ∧
      exec (step ⟨2, rfl⟩) (started 0) fourTicks = some s ∧
      s.servedEdges .channel1 = [4, 0] ∧ (s.lane .channel1).state.valid = true ∧
      (s.lane .channel1).state.period = 1) :=
  ⟨⟨_, by decide, rfl, rfl, rfl⟩, ⟨_, by decide, rfl, rfl, rfl, rfl⟩⟩

end Runs

end UniHal.Tim
