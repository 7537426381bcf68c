import UniHal.Gpio.Exti

/-! # Whose callback an edge reaches

The owner table and the selected port of a line agree except while the line is being taken over,
and so do the owner and the edges that have latched the flag. Only a handler that serves the line
during a takeover can call the new pin for an edge of the port before.
-/

namespace UniHal.Gpio.Exti
open Foundations Execution

variable {κ : Type*}

theorem gpioIndex_pinMask : ∀ i, gpioIndex (pinMask i) = some i := by decide

/-- The drivers find the line and the index of a pin in two ways. -/
theorem gpioIndex_of_extiLine {mask : UInt32} {i : Line} (h : extiLine mask = some i) :
    gpioIndex mask = some i := by
  have hmask := List.find?_some h
  rw [of_decide_eq_true hmask, gpioIndex_pinMask]

def TakingOver : Option (Pc κ) → Line → Prop
  | some (.register r stage), i => stage.TakesOver ∧ r.line = i
  | _, _ => False

def Unrouted : Option (Pc κ) → Line → Prop
  | some (.register r .setSource), i => r.line = i
  | _, _ => False

theorem Unrouted.takingOver {call : Option (Pc κ)} {i : Line} (h : Unrouted call i) :
    TakingOver call i := by
  cases call with
  | none => exact h
  | some pc =>
    cases pc with
    | register r stage =>
      cases stage with
      | setSource => exact ⟨trivial, h⟩
      | _ => exact h.elim
    | _ => exact h

theorem takingOver_iff {call : Option (Pc κ)} {i : Line} : TakingOver call i ↔
    ∃ r stage, call = some (.register r stage) ∧ stage.TakesOver ∧ r.line = i := by
  constructor
  · intro h
    match call, h with
    | some (.register r stage), h => exact ⟨r, stage, rfl, h⟩
  · rintro ⟨r, stage, rfl, h⟩
    exact h

/-- The pin is one of that line, ready for its edges. -/
structure Owner (pins : κ → Pin) (s : State κ) (i : Line) (p : κ) : Prop where
  line : extiLine (pins p).mask = some i
  inited : s.inited p = true
  registered : s.registered i = some p
  bank : ∃ port, (pins p).bank = .port port

theorem Owner.frame {pins : κ → Pin} {s s' : State κ} {i : Line} {p : κ} (h : Owner pins s i p)
    (hinited : s'.inited p = s.inited p) (hregistered : s'.registered i = s.registered i) :
    Owner pins s' i p :=
  ⟨h.line, hinited.trans h.inited, hregistered.trans h.registered, h.bank⟩

structure LineInv (pins : κ → Pin) (s : State κ) (i : Line) : Prop where
  owner : ∀ p, s.table i = some p → Owner pins s i p
  routed : ∀ p, s.table i = some p → ¬ Unrouted s.call i → (pins p).bank = .port (s.source i)
  latched : ∀ p, s.table i = some p → ¬ TakingOver s.call i →
    ∀ port ∈ s.latched i, (pins p).bank = .port port
  enabled : s.imr i = true → s.table i ≠ none

def Stage.Stored : Stage → Prop
  | .storeCallback | .storeCookie | .storeTable => False
  | _ => True

structure Registering (pins : κ → Pin) (s : State κ) (r : Registration κ) (stage : Stage) :
    Prop where
  bank : (pins r.pin).bank = .port r.port
  line : extiLine (pins r.pin).mask = some r.line
  index : r.index = r.line
  inited : s.inited r.pin = true
  stored : stage.Stored → s.table r.line = some r.pin

theorem Stage.TakesOver.stored {stage : Stage} (h : stage.TakesOver) : stage.Stored := by
  cases stage with
  | storeCallback | storeCookie | storeTable => exact h.elim
  | _ => trivial

def CallInv (pins : κ → Pin) (s : State κ) : Pc κ → Prop
  | .disableIt p i => s.table i = some p
  | .tableNull p i => s.table i = some p ∧ s.imr i = false
  | .callbackNull p | .cookieNull p | .notInited p => ∀ i, s.table i ≠ some p
  | .register r stage => Registering pins s r stage

structure Inv (pins : κ → Pin) (s : State κ) : Prop where
  lines : ∀ i, LineInv pins s i
  call : ∀ pc, s.call = some pc → CallInv pins s pc

theorem start_inv (pins : κ → Pin) : Inv pins (start : State κ) where
  lines := by
    intro i
    constructor
    all_goals simp [start]
  call := fun pc hpc => by cases hpc

theorem LineInv.frame {pins : κ → Pin} {s s' : State κ} {i : Line} (h : LineInv pins s i)
    (htable : s'.table i = s.table i) (hregistered : s'.registered i = s.registered i)
    (hinited : ∀ p, s.table i = some p → s'.inited p = s.inited p)
    (hsource : s'.source i = s.source i) (hlatched : ∀ port ∈ s'.latched i, port ∈ s.latched i)
    (himr : s'.imr i = true → s.imr i = true)
    (hunrouted : Unrouted s.call i → Unrouted s'.call i)
    (htaking : TakingOver s.call i → TakingOver s'.call i) : LineInv pins s' i where
  owner := by
    intro p hp
    rw [htable] at hp
    exact (h.owner p hp).frame (hinited p hp) hregistered
  routed := by
    intro p hp hrouted
    rw [htable] at hp
    rw [hsource]
    exact h.routed p hp fun hun => hrouted (hunrouted hun)
  latched := by
    intro p hp hsettled port hport
    rw [htable] at hp
    exact h.latched p hp (fun htake => hsettled (htaking htake)) port (hlatched port hport)
  enabled := by
    intro hin
    rw [htable]
    exact h.enabled (himr hin)

theorem LineInv.settled {pins : κ → Pin} {s s' : State κ} {i : Line} (h : LineInv pins s i)
    (hsettled : ¬ TakingOver s.call i) (htable : s'.table i = s.table i)
    (hregistered : s'.registered i = s.registered i)
    (hinited : ∀ p, s.table i = some p → s'.inited p = s.inited p)
    (hsource : s'.source i = s.source i) (hlatched : ∀ port ∈ s'.latched i, port ∈ s.latched i)
    (himr : s'.imr i = true → s.imr i = true) : LineInv pins s' i :=
  h.frame htable hregistered hinited hsource hlatched himr
    (fun hun => absurd hun.takingOver hsettled) (fun htake => absurd htake hsettled)

theorem LineInv.unchanged {pins : κ → Pin} {s : State κ} {i : Line} (h : LineInv pins s i)
    (hsettled : ¬ TakingOver s.call i) {callback : κ → Option ℕ} {cookie : κ → ℕ}
    {nvic : Irq → Bool} {call : Option (Pc κ)} :
    LineInv pins { s with callback, cookie, nvic, call } i :=
  h.settled hsettled rfl rfl (fun _ _ => rfl) rfl (fun _ hq => hq) id

theorem CallInv.frame {pins : κ → Pin} {s s' : State κ} {pc : Pc κ} (h : CallInv pins s pc)
    (htable : s'.table = s.table) (himr : s'.imr = s.imr) (hinited : s'.inited = s.inited) :
    CallInv pins s' pc := by
  cases pc with
  | register r stage =>
    exact ⟨h.bank, h.line, h.index, hinited ▸ h.inited, htable ▸ h.stored⟩
  | disableIt p i | tableNull p i | callbackNull p | cookieNull p | notInited p =>
    simpa only [CallInv, htable, himr] using h

theorem settled_of_call {s : State κ} {call : Option (Pc κ)} (hcall : s.call = call)
    (hsettled : ∀ i, ¬ TakingOver call i) (i : Line) : ¬ TakingOver s.call i := by
  rw [hcall]
  exact hsettled i

theorem Inv.not_owner {pins : κ → Pin} {s : State κ} (h : Inv pins s) {p : κ}
    (hp : s.inited p = false) (i : Line) : s.table i ≠ some p := by
  intro howner
  have hin := ((h.lines i).owner p howner).inited
  rw [hp] at hin
  cases hin

variable [DecidableEq κ] {pins : κ → Pin} {s : State κ}

section Registration
variable {r : Registration κ} {stage : Stage}

omit [DecidableEq κ] in
theorem not_takingOver_of_ne (hcall : s.call = some (.register r stage)) {i : Line}
    (hi : i ≠ r.line) : ¬ TakingOver s.call i := by
  intro htake
  rw [hcall] at htake
  exact hi htake.2.symm

omit [DecidableEq κ] in
theorem not_takingOver_of_stage (hcall : s.call = some (.register r stage))
    (hstage : ¬ stage.TakesOver) (i : Line) : ¬ TakingOver s.call i := by
  intro htake
  rw [hcall] at htake
  exact hstage htake.1

omit [DecidableEq κ] in
/-- A registration goes on with a table in which its pin is the owner. -/
theorem Registering.goTo (h : Registering pins s r stage) {s' : State κ} {stage' : Stage}
    (hcall : s'.call = some (.register r stage')) (hinited : s'.inited r.pin = s.inited r.pin)
    (hstored : stage'.Stored → s'.table r.line = some r.pin) :
    ∀ pc, s'.call = some pc → CallInv pins s' pc := by
  intro pc hpc
  obtain rfl : Pc.register r stage' = pc := Option.some.inj (hcall.symm.trans hpc)
  exact ⟨h.bank, h.line, h.index, hinited.trans h.inited, hstored⟩

theorem storeTable_line (hlines : ∀ i, LineInv pins s i) (h : Registering pins s r .storeTable)
    (hcall : s.call = some (.register r .storeTable)) (i : Line) :
    LineInv pins (s.registerStep r .storeTable) i := by
  by_cases hi : i = r.line
  · subst hi
    have htable : (s.registerStep r .storeTable).table r.line = some r.pin := by
      simp [State.registerStep, State.goTo, h.index]
    have hregistered : (s.registerStep r .storeTable).registered r.line = some r.pin := by
      simp [State.registerStep, State.goTo, h.index]
    refine ⟨fun p hp => ?_, fun p _ hrouted => absurd rfl hrouted,
      fun p _ hsettled => absurd ⟨trivial, rfl⟩ hsettled, fun _ => ?_⟩
    · obtain rfl : r.pin = p := Option.some.inj (htable.symm.trans hp)
      exact ⟨h.line, h.inited, hregistered, _, h.bank⟩
    · rw [htable]
      exact Option.some_ne_none _
  · have hne : i ≠ r.index := fun heq => hi (heq.trans h.index)
    exact (hlines i).settled (not_takingOver_of_ne hcall hi) (Function.update_of_ne hne _ _)
      (Function.update_of_ne hne _ _) (fun _ _ => rfl) rfl (fun _ hq => hq) id

theorem setSource_line (hlines : ∀ i, LineInv pins s i) (h : Registering pins s r .setSource)
    (hcall : s.call = some (.register r .setSource)) (i : Line) :
    LineInv pins (s.registerStep r .setSource) i := by
  by_cases hi : i = r.line
  · subst hi
    have hsource : (s.registerStep r .setSource).source r.line = r.port := by
      simp [State.registerStep, State.goTo]
    refine ⟨fun p hp => ?_, fun p hp _ => ?_,
      fun p _ hsettled => absurd ⟨trivial, rfl⟩ hsettled, (hlines r.line).enabled⟩
    · exact ((hlines r.line).owner p hp).frame rfl rfl
    · obtain rfl : r.pin = p := Option.some.inj ((h.stored trivial).symm.trans hp)
      rw [hsource, h.bank]
  · exact (hlines i).settled (not_takingOver_of_ne hcall hi) rfl rfl (fun _ _ => rfl)
      (Function.update_of_ne hi _ _) (fun _ hq => hq) id

omit [DecidableEq κ] in
theorem enableIt_line (hlines : ∀ i, LineInv pins s i) (h : Registering pins s r stage)
    (hcall : s.call = some (.register r stage)) (hstored : stage.Stored) {stage' : Stage}
    (hunrouted : Unrouted s.call r.line → Unrouted (some (.register r stage')) r.line)
    (htaking : stage.TakesOver → stage'.TakesOver) (i : Line) :
    LineInv pins ((s.enableIt r.line).goTo (.register r stage')) i := by
  by_cases hi : i = r.line
  · subst hi
    have hkeep : LineInv pins (s.goTo (.register r stage')) r.line := by
      refine (hlines r.line).frame rfl rfl (fun _ _ => rfl) rfl (fun _ hq => hq) id hunrouted
        fun htake => ?_
      rw [hcall] at htake
      exact ⟨htaking htake.1, htake.2⟩
    refine ⟨fun p hp => ?_, hkeep.routed, hkeep.latched, fun _ => ?_⟩
    · exact (hkeep.owner p hp).frame rfl rfl
    · have htable : s.table r.line = some r.pin := h.stored hstored
      exact fun hnone => by simp [State.goTo, State.enableIt, htable] at hnone
  · refine (hlines i).settled (not_takingOver_of_ne hcall hi) rfl rfl (fun _ _ => rfl) rfl
      (fun _ hq => hq) fun himr => ?_
    simpa [State.goTo, State.enableIt, hi] using himr

/-- The flag is cleared, and every edge from here on is one of the new port. -/
theorem clearFlag_line (hlines : ∀ i, LineInv pins s i)
    (hcall : s.call = some (.register r .clearFlag)) (i : Line) :
    LineInv pins (s.registerStep r .clearFlag) i := by
  by_cases hi : i = r.line
  · subst hi
    have hinv := hlines r.line
    have hclear : (s.registerStep r .clearFlag).latched r.line = [] := by
      simp [State.registerStep, State.goTo, State.clearFlag]
    refine ⟨fun p hp => ?_, fun p hp _ => ?_, fun p _ _ port hport => ?_, hinv.enabled⟩
    · exact (hinv.owner p hp).frame rfl rfl
    · refine hinv.routed p hp ?_
      rw [hcall]
      exact id
    · rw [hclear] at hport
      cases hport
  · refine (hlines i).settled (not_takingOver_of_ne hcall hi) rfl rfl (fun _ _ => rfl) rfl
      (fun port hport => ?_) id
    simpa [State.registerStep, State.goTo, State.clearFlag, hi] using hport

theorem Inv.registerStep (h : Inv pins s) (hcall : s.call = some (.register r stage)) :
    Inv pins (s.registerStep r stage) := by
  have hreg : Registering pins s r stage := h.call _ hcall
  cases stage with
  | storeCallback =>
    refine ⟨fun i => ?_, hreg.goTo rfl rfl False.elim⟩
    exact (h.lines i).unchanged (not_takingOver_of_stage hcall id i)
  | storeCookie =>
    refine ⟨fun i => ?_, hreg.goTo rfl rfl False.elim⟩
    exact (h.lines i).unchanged (not_takingOver_of_stage hcall id i)
  | storeTable =>
    refine ⟨storeTable_line h.lines hreg hcall, hreg.goTo rfl rfl fun _ => ?_⟩
    simp [State.registerStep, State.goTo, hreg.index]
  | setSource => exact ⟨setSource_line h.lines hreg hcall, hreg.goTo rfl rfl hreg.stored⟩
  | initIt =>
    refine ⟨enableIt_line h.lines hreg hcall trivial ?_ id, hreg.goTo rfl rfl hreg.stored⟩
    rw [hcall]
    exact id
  | initTrigger =>
    refine ⟨fun i => ?_, hreg.goTo rfl rfl hreg.stored⟩
    refine (h.lines i).frame rfl rfl (fun _ _ => rfl) rfl (fun _ hq => hq) id ?_ ?_
    all_goals
      rw [hcall]
      exact id
  | clearFlag => exact ⟨clearFlag_line h.lines hcall, hreg.goTo rfl rfl hreg.stored⟩
  | enableIt =>
    refine ⟨enableIt_line h.lines hreg hcall trivial ?_ id, hreg.goTo rfl rfl hreg.stored⟩
    rw [hcall]
    exact id
  | irqEnable =>
    refine ⟨fun i => ?_, fun pc hpc => by cases hpc⟩
    exact (h.lines i).unchanged (not_takingOver_of_stage hcall id i)

end Registration

omit [DecidableEq κ] in
/-- A call that registers nothing leaves every line as it is. -/
theorem Inv.goTo (h : Inv pins s) (hsettled : ∀ i, ¬ TakingOver s.call i) {pc : Pc κ}
    (hpc : CallInv pins s pc) : Inv pins (s.goTo pc) where
  lines := fun i => (h.lines i).unchanged (hsettled i)
  call := by
    intro qc hqc
    obtain rfl : pc = qc := Option.some.inj hqc
    exact hpc.frame rfl rfl rfl

theorem Inv.setInited (h : Inv pins s) (hsettled : ∀ i, ¬ TakingOver s.call i) {p : κ}
    (hp : ∀ i, s.table i ≠ some p) (value : Bool) :
    Inv pins { s.setInited p value with call := none } where
  lines := by
    intro i
    refine (h.lines i).settled (hsettled i) rfl rfl (fun q hq => ?_) rfl (fun _ hq => hq) id
    have hne : q ≠ p := fun heq => hp i (heq ▸ hq)
    exact Function.update_of_ne hne _ _
  call := fun pc hpc => by cases hpc

theorem Inv.pinInit (h : Inv pins s) (hcall : s.call = none) (p : κ) (configured : Bool) :
    Inv pins (s.pinInit pins p configured) := by
  rw [State.pinInit]
  split
  · exact h
  · rename_i hin
    have hsettled : ∀ i, ¬ TakingOver s.call i := settled_of_call hcall fun _ => id
    have hset := h.setInited hsettled (h.not_owner (Bool.eq_false_iff.mpr hin))
    have hkeep : ∀ value, { s.setInited p value with call := none } = s.setInited p value :=
      fun value => by rw [State.setInited, hcall]
    exact hkeep _ ▸ hset _

/-- A pin that is about to lose its initialisation owns no line, or the statements before have
taken its line away. -/
theorem Inv.pinDeinit (h : Inv pins s) (hcall : s.call = none) (p : κ) :
    Inv pins (s.pinDeinit pins p) := by
  have hsettled : ∀ i, ¬ TakingOver s.call i := settled_of_call hcall fun _ => id
  have howner : ∀ i, s.table i = some p → s.inited p = true ∧
      (∃ port, (pins p).bank = .port port) ∧ gpioIndex (pins p).mask = some i := by
    intro i hi
    obtain ⟨hline, hinited, -, hbank⟩ := (h.lines i).owner p hi
    exact ⟨hinited, hbank, gpioIndex_of_extiLine hline⟩
  rw [State.pinDeinit]
  split
  · split
    · split
      · rename_i index hindex
        split
        · rename_i htable
          exact h.goTo hsettled htable
        · rename_i htable
          refine h.goTo hsettled fun i hi => htable ?_
          obtain rfl : index = i := Option.some.inj (hindex.symm.trans (howner i hi).2.2)
          exact hi
      · rename_i hindex
        refine h.goTo hsettled fun i hi => ?_
        have hsome := (howner i hi).2.2
        rw [hindex] at hsome
        cases hsome
    all_goals
      rename_i hbank
      refine h.goTo hsettled fun i hi => ?_
      obtain ⟨port, hport⟩ := (howner i hi).2.1
      rw [hbank] at hport
      cases hport
  · rename_i hin
    exact h.goTo hsettled (h.not_owner (Bool.eq_false_iff.mpr hin))

omit [DecidableEq κ] in
theorem Inv.setInterruptCallback (h : Inv pins s) (hcall : s.call = none) (p : κ) (edge : Edge)
    (callback : Option ℕ) (cookie : ℕ) :
    Inv pins (s.setInterruptCallback pins p edge callback cookie) := by
  have hsettled : ∀ i, ¬ TakingOver s.call i := settled_of_call hcall fun _ => id
  rw [State.setInterruptCallback]
  split
  · rename_i hinited
    split
    · rename_i port line index hport hline hindex
      have hbank : (pins p).bank = .port port := by
        cases hb : (pins p).bank with
        | port q =>
          rw [hb] at hport
          rw [Option.some.inj hport]
        | _ =>
          rw [hb] at hport
          cases hport
      have hsame : index = line :=
        Option.some.inj (hindex.symm.trans (gpioIndex_of_extiLine hline))
      exact h.goTo hsettled ⟨hbank, hline, hsame, hinited, False.elim⟩
    · exact h
  · exact h

theorem Inv.disableIt (h : Inv pins s) {p : κ} {i : Line}
    (hcall : s.call = some (.disableIt p i)) :
    Inv pins (s.resume pins (.disableIt p i)) := by
  have howner : s.table i = some p := h.call _ hcall
  have hline : extiLine (pins p).mask = some i := ((h.lines i).owner p howner).line
  have hsettled : ∀ j, ¬ TakingOver s.call j := settled_of_call hcall fun _ => id
  rw [State.resume, hline]
  refine ⟨fun j => ?_, fun pc hpc => ?_⟩
  · refine (h.lines j).settled (hsettled j) rfl rfl (fun _ _ => rfl) rfl (fun _ hq => hq)
      fun himr => ?_
    by_cases hj : j = i
    · simp [State.goTo, State.disableIt, hj] at himr
    · simpa [State.goTo, State.disableIt, hj] using himr
  · cases hpc
    refine ⟨howner, ?_⟩
    simp [State.goTo, State.disableIt]

theorem Inv.tableNull (h : Inv pins s) {p : κ} {i : Line}
    (hcall : s.call = some (.tableNull p i)) :
    Inv pins (s.resume pins (.tableNull p i)) := by
  obtain ⟨howner, hmasked⟩ : s.table i = some p ∧ s.imr i = false := h.call _ hcall
  have hline : extiLine (pins p).mask = some i := ((h.lines i).owner p howner).line
  have hsettled : ∀ j, ¬ TakingOver s.call j := settled_of_call hcall fun _ => id
  have hnone : (s.resume pins (.tableNull p i)).table i = none := by
    simp [State.resume, State.goTo]
  have hother : ∀ j, j ≠ i → (s.resume pins (.tableNull p i)).table j = s.table j :=
    fun j hj => Function.update_of_ne hj _ _
  refine ⟨fun j => ?_, fun pc hpc => ?_⟩
  · by_cases hj : j = i
    · subst hj
      have hfree : ∀ q, (s.resume pins (.tableNull p j)).table j ≠ some q := by
        intro q hq
        rw [hnone] at hq
        cases hq
      refine ⟨fun q hq => absurd hq (hfree q), fun q hq => absurd hq (hfree q),
        fun q hq => absurd hq (hfree q), fun himr => ?_⟩
      have hin : s.imr j = true := himr
      rw [hmasked] at hin
      cases hin
    · exact (h.lines j).settled (hsettled j) (hother j hj) rfl (fun _ _ => rfl) rfl
        (fun _ hq => hq) id
  · cases hpc
    intro j hj
    by_cases hji : j = i
    · rw [hji, hnone] at hj
      cases hj
    · -- the pin has one line only
      rw [hother j hji] at hj
      have hjline := ((h.lines j).owner p hj).line
      exact hji (Option.some.inj (hjline.symm.trans hline))

theorem Inv.resume (h : Inv pins s) {pc : Pc κ} (hcall : s.call = some pc) :
    Inv pins (s.resume pins pc) := by
  have hpc := h.call pc hcall
  cases pc with
  | register r stage => exact h.registerStep hcall
  | disableIt p i => exact h.disableIt hcall
  | tableNull p i => exact h.tableNull hcall
  | callbackNull p =>
    refine ⟨fun i => (h.lines i).unchanged (settled_of_call hcall (fun _ => id) i), ?_⟩
    intro qc hqc
    cases hqc
    exact hpc
  | cookieNull p =>
    refine ⟨fun i => (h.lines i).unchanged (settled_of_call hcall (fun _ => id) i), ?_⟩
    intro qc hqc
    cases hqc
    exact hpc
  | notInited p => exact h.setInited (settled_of_call hcall fun _ => id) hpc false

omit [DecidableEq κ] in
/-- The invariant says nothing about the handler and what it has delivered. -/
theorem Inv.setHandler (h : Inv pins s) (handler : List Line) (delivered : List (Delivery κ)) :
    Inv pins { s with handler, delivered } where
  lines := fun i => (h.lines i).frame rfl rfl (fun _ _ => rfl) rfl (fun _ hq => hq) id id id
  call := fun pc hpc => (h.call pc hpc).frame rfl rfl rfl

omit [DecidableEq κ] in
/-- Flags come and go, as long as the flag of a line with an owner is one of its port. -/
theorem Inv.setLatched (h : Inv pins s) {latched : Line → List Port}
    (hlatched : ∀ i p, s.table i = some p → ¬ TakingOver s.call i →
      ∀ port ∈ latched i, (pins p).bank = .port port) : Inv pins { s with latched } where
  lines := by
    intro i
    refine ⟨fun p hp => ?_, (h.lines i).routed, hlatched i, (h.lines i).enabled⟩
    exact ((h.lines i).owner p hp).frame rfl rfl
  call := fun pc hpc => (h.call pc hpc).frame rfl rfl rfl

omit [DecidableEq κ] in
theorem Inv.edge (h : Inv pins s) (port : Port) (i : Line) (rising : Bool) :
    Inv pins (s.edge port i rising) := by
  by_cases hsource : s.source i = port ∧
      (if rising then (s.trigger i).rising else (s.trigger i).falling) = true
  · rw [State.edge, if_pos hsource]
    refine h.setLatched fun j p hp hsettled q hq => ?_
    by_cases hj : j = i
    · subst hj
      rw [Function.update_self] at hq
      rcases List.mem_cons.mp hq with rfl | hold
      · have hrouted := (h.lines j).routed p hp fun hun => hsettled hun.takingOver
        rw [hrouted, hsource.1]
      · exact (h.lines j).latched p hp hsettled q hold
    · rw [Function.update_of_ne hj] at hq
      exact (h.lines j).latched p hp hsettled q hq
  · rw [State.edge, if_neg hsource]
    exact h

omit [DecidableEq κ] in
theorem Inv.clearFlag (h : Inv pins s) (i : Line) : Inv pins (s.clearFlag i) := by
  refine h.setLatched fun j p hp hsettled q hq => ?_
  by_cases hj : j = i
  · rw [hj, Function.update_self] at hq
    cases hq
  · rw [Function.update_of_ne hj] at hq
    exact (h.lines j).latched p hp hsettled q hq

omit [DecidableEq κ] in
/-- What `EXTIX_IRQHandler` does: it clears the flag, and calls the owner's callback. -/
theorem extiHandler_eq (i : Line) : s.extiHandler i =
    { (if s.isActiveFlag i then s.clearFlag i else s) with
      delivered := (s.extiHandler i).delivered } := by
  unfold State.extiHandler
  split
  · cases htable : s.table i with
    | none => simp [State.clearFlag, htable]
    | some p =>
      by_cases hcb : s.callback p = none <;> simp [State.clearFlag, htable, hcb]
  · rfl

omit [DecidableEq κ] in
theorem Inv.extiHandler (h : Inv pins s) (i : Line) (rest : List Line) :
    Inv pins { s.extiHandler i with handler := rest } := by
  rw [extiHandler_eq]
  split
  · exact (h.clearFlag i).setHandler rest _
  · exact h.setHandler rest _

theorem Inv.step (h : Inv pins s) {s' : State κ} {a : Action κ}
    (hstep : step pins s a = some s') : Inv pins s' := by
  cases a with
  | pinInit p configured =>
    obtain ⟨hcall, -, rfl⟩ := step_pinInit_eq_some.mp hstep
    exact h.pinInit hcall p configured
  | pinDeinit p =>
    obtain ⟨hcall, -, rfl⟩ := step_pinDeinit_eq_some.mp hstep
    exact h.pinDeinit hcall p
  | setInterruptCallback p edge callback cookie =>
    obtain ⟨hcall, -, rfl⟩ := step_setInterruptCallback_eq_some.mp hstep
    exact h.setInterruptCallback hcall p edge callback cookie
  | resume =>
    obtain ⟨-, pc, hcall, rfl⟩ := step_resume_eq_some.mp hstep
    exact h.resume hcall
  | edge port line rising =>
    obtain rfl := Option.some.inj hstep
    exact h.edge port line rising
  | enter v =>
    obtain ⟨-, rfl⟩ := step_enter_eq_some.mp hstep
    exact h.setHandler _ _
  | serve =>
    obtain ⟨i, rest, -, rfl⟩ := step_serve_eq_some.mp hstep
    exact h.extiHandler i rest

omit [DecidableEq κ] in
/-- Between the calls every enabled line has its owner, and the owner's port. -/
theorem Inv.routed (h : Inv pins s) (hcall : s.call = none) : Routed pins s := by
  intro i himr
  obtain ⟨p, hp⟩ := Option.ne_none_iff_exists'.mp ((h.lines i).enabled himr)
  have hrouted : ¬ Unrouted s.call i := by
    rw [hcall]
    exact id
  exact ⟨p, s.source i, hp, (h.lines i).routed p hp hrouted, rfl⟩

omit [DecidableEq κ] in
theorem mem_extiHandler_delivered {i : Line} {d : Delivery κ} :
    d ∈ (s.extiHandler i).delivered ↔ d ∈ s.delivered ∨ s.latched i ≠ [] ∧
      ∃ p, s.table i = some p ∧ s.callback p ≠ none ∧
        d = ⟨p, s.latched i, s.inited p, s.registered i⟩ := by
  by_cases hflag : s.latched i = []
  · simp [State.extiHandler, State.isActiveFlag, hflag]
  · cases htable : s.table i with
    | none => simp [State.extiHandler, State.isActiveFlag, State.clearFlag, hflag, htable]
    | some p =>
      by_cases hcb : s.callback p = none <;>
        simp [State.extiHandler, State.isActiveFlag, State.clearFlag, hflag, htable, hcb, or_comm]

omit [DecidableEq κ] in
/-- The owner of a line is called for edges of its own port, unless the line is being taken
over. -/
theorem Inv.own_of_served (h : Inv pins s) {i : Line} {rest : List Line}
    (hhandler : s.handler = i :: rest) (hok : ServesOwnEdges s .serve) {p : κ}
    (htable : s.table i = some p) (hcb : s.callback p ≠ none) (hlatched : s.latched i ≠ []) :
    (Delivery.mk p (s.latched i) (s.inited p) (s.registered i)).Own pins := by
  obtain ⟨-, hinited, hregistered, port, hport⟩ := (h.lines i).owner p htable
  have hmem : port ∈ s.latched i := by
    by_cases htake : TakingOver s.call i
    · obtain ⟨r, stage, hcall, hstage, rfl⟩ := takingOver_iff.mp htake
      have hreg : Registering pins s r stage := h.call _ hcall
      obtain rfl : r.pin = p := Option.some.inj ((hreg.stored hstage.stored).symm.trans htable)
      obtain rfl : r.port = port := Bank.port.inj (hreg.bank.symm.trans hport)
      have hspares : Spares s (some (.register r stage)) := hcall ▸ hok
      exact hspares hstage (by rw [hhandler, List.head?_cons]) hcb hlatched
    · obtain ⟨q, hq⟩ := List.exists_mem_of_ne_nil _ hlatched
      have hown := (h.lines i).latched p htable htake q hq
      rw [hport] at hown
      exact Bank.port.inj hown ▸ hq
  exact ⟨⟨port, hport, hmem⟩, hinited, hregistered⟩

theorem step_delivered {s' : State κ} {a : Action κ} (hstep : step pins s a = some s')
    (ha : a ≠ .serve) : s'.delivered = s.delivered := by
  cases a with
  | pinInit p configured =>
    obtain ⟨-, -, rfl⟩ := step_pinInit_eq_some.mp hstep
    rw [State.pinInit]
    split <;> rfl
  | pinDeinit p =>
    obtain ⟨-, -, rfl⟩ := step_pinDeinit_eq_some.mp hstep
    rw [State.pinDeinit]
    split
    · split
      · split <;> rfl
      all_goals rfl
    · rfl
  | setInterruptCallback p edge callback cookie =>
    obtain ⟨-, -, rfl⟩ := step_setInterruptCallback_eq_some.mp hstep
    rw [State.setInterruptCallback]
    split
    · split <;> rfl
    · rfl
  | resume =>
    obtain ⟨-, pc, -, rfl⟩ := step_resume_eq_some.mp hstep
    cases pc with
    | disableIt p index =>
      rw [State.resume]
      cases extiLine (pins p).mask <;> rfl
    | register r stage => cases stage <;> rfl
    | _ => rfl
  | edge port line rising =>
    obtain rfl := Option.some.inj hstep
    by_cases hsource : s.source line = port ∧
        (if rising then (s.trigger line).rising else (s.trigger line).falling) = true
    · rw [State.edge, if_pos hsource]
    · rw [State.edge, if_neg hsource]
  | enter v =>
    obtain ⟨-, rfl⟩ := step_enter_eq_some.mp hstep
    rfl
  | serve => exact absurd rfl ha

theorem delivered_step (h : Inv pins s) (hd : ∀ d ∈ s.delivered, d.Own pins) {s' : State κ}
    {a : Action κ} (hok : ServesOwnEdges s a) (hstep : step pins s a = some s') :
    ∀ d ∈ s'.delivered, d.Own pins := by
  by_cases ha : a = .serve
  · subst ha
    obtain ⟨i, rest, hhandler, rfl⟩ := step_serve_eq_some.mp hstep
    intro d hmem
    rcases mem_extiHandler_delivered.mp hmem with hold | ⟨hlatched, p, htable, hcb, rfl⟩
    · exact hd d hold
    · exact h.own_of_served hhandler hok htable hcb hlatched
  · rw [step_delivered hstep ha]
    exact hd

/-- In every run in which no line is served for another port while it is being taken over, each
edge reaches the pin it belongs to; the lines are routed to their owners in every run. -/
theorem gpio_edges_reach_own_pin (pins : κ → Pin) (acts : List (Action κ)) (s : State κ)
    (hok : Along (step pins) ServesOwnEdges start acts)
    (hrun : exec (step pins) start acts = some s) : Sound pins s := by
  have hkeep : ∀ (s : State κ) a s', Inv pins s ∧ (∀ d ∈ s.delivered, d.Own pins) →
      ServesOwnEdges s a → step pins s a = some s' →
        Inv pins s' ∧ ∀ d ∈ s'.delivered, d.Own pins :=
    fun s a s' h hok hstep => ⟨h.1.step hstep, delivered_step h.1 h.2 hok hstep⟩
  have hstart : Inv pins (start : State κ) ∧ ∀ d ∈ (start : State κ).delivered, d.Own pins :=
    ⟨start_inv pins, fun d hd => by cases hd⟩
  obtain ⟨hinv, hdelivered⟩ := exec_invariant hkeep hstart hok hrun
  exact ⟨hdelivered, hinv.routed⟩

def pinsZero : Bool → Pin
  | false => ⟨.port .a, 1⟩
  | true => ⟨.port .b, 1⟩

/-- Both pins are initialised, the one of port A is registered, and the registration of the other
one has come to its entry into the table. -/
def takeover : List (Action Bool) :=
  [.pinInit false true, .pinInit true true, .setInterruptCallback false .rising (some 1) 0] ++
    List.replicate 9 .resume ++ [.setInterruptCallback true .rising (some 2) 0] ++
    List.replicate 3 .resume

def takeoverInTime : List (Action Bool) :=
  takeover ++ List.replicate 6 .resume ++ [.edge .b 0 true, .enter .exti0, .serve]

theorem gpio_edges_reach_own_pin_zero :
    ∃ s, exec (step pinsZero) start takeoverInTime = some s ∧
      s.delivered = [⟨true, [.b], true, some true⟩] ∧ Sound pinsZero s := by
  have hok : Along (step pinsZero) ServesOwnEdges start takeoverInTime := by decide
  exact ⟨_, rfl, rfl, gpio_edges_reach_own_pin pinsZero takeoverInTime _ hok rfl⟩

/-- An edge on the pin of port A comes before the port of the line is changed: the callback of the
pin of port B is called. -/
theorem takeover_misdelivers : ¬ ∀ pins acts (s : State Bool),
    exec (step pins) start acts = some s → Sound pins s := by
  intro h
  have hsound := h pinsZero (takeover ++ [.edge .a 0 true, .enter .exti0, .serve]) _ rfl
  obtain ⟨port, hport, hmem⟩ := (hsound.delivered ⟨true, [.a], true, some true⟩
    List.mem_cons_self).port
  rw [List.mem_singleton.mp hmem] at hport
  cases hport

omit [DecidableEq κ] in
theorem not_spares_iff {call : Option (Pc κ)} : ¬ Spares s call ↔
    ∃ r stage, call = some (.register r stage) ∧ stage.TakesOver ∧
      s.handler.head? = some r.line ∧ s.callback r.pin ≠ none ∧ s.latched r.line ≠ [] ∧
        r.port ∉ s.latched r.line := by
  constructor
  · intro h
    match call, h with
    | some (.register r stage), h => exact ⟨r, stage, rfl, by simpa [Spares] using h⟩
    | none, h | some (.disableIt _ _), h | some (.tableNull _ _), h | some (.callbackNull _), h
    | some (.cookieNull _), h | some (.notInited _), h => exact absurd trivial h
  · rintro ⟨r, stage, rfl, hstage, hhead, hcb, hlatched, hother⟩ hspares
    exact hother (hspares hstage hhead hcb hlatched)

/-- After every run, a handler that serves a line against the condition calls the new pin for the
edges of other ports. -/
theorem not_sound_of_served {before : List (Action κ)}
    (hrun : exec (step pins) start before = some s) {a : Action κ} (hbad : ¬ ServesOwnEdges s a)
    {s' : State κ} (hstep : step pins s a = some s') : ¬ Sound pins s' := by
  have h : Inv pins s := exec_invariant_of_step (fun _ _ _ h => h.step) (start_inv pins) hrun
  cases a with
  | serve =>
    rw [ServesOwnEdges, not_spares_iff] at hbad
    obtain ⟨r, stage, hcall, hstage, hhead, hcb, hlatched, hother⟩ := hbad
    have hreg : Registering pins s r stage := h.call _ hcall
    obtain ⟨i, rest, hhandler, rfl⟩ := step_serve_eq_some.mp hstep
    obtain rfl : i = r.line := by
      rw [hhandler, List.head?_cons] at hhead
      exact Option.some.inj hhead
    intro hsound
    have hmem := mem_extiHandler_delivered.mpr
      (.inr ⟨hlatched, r.pin, hreg.stored hstage.stored, hcb, rfl⟩)
    obtain ⟨port, hport, hin⟩ := (hsound.delivered _ hmem).port
    exact hother (Bank.port.inj (hreg.bank.symm.trans hport) ▸ hin)
  | _ => exact absurd trivial hbad

end UniHal.Gpio.Exti
