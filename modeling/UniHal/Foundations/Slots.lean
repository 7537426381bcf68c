import Mathlib.Tactic

/-! # Slots of a transmitter

A client fills a slot and raises a request; the device serves the request with whatever the
slot holds then, and the request ends with an outcome. The history of a slot records both. It
is serial when no request is raised before the one ahead of it ended, and when each request
was served with what it asked for. An account compares the outcomes with those that were
reported.
-/

namespace UniHal.Foundations

/-- A request was raised for `m`; a request ended, served with `f`. -/
inductive SlotEvent (M F : Type)
  | accepted (m : M)
  | finished (ok : Bool) (f : F)
  deriving DecidableEq

structure Slots (I M F W : Type) where
  words : I → W
  request : I → Option M
  history : I → List (SlotEvent M F)

variable {I M F W : Type}

namespace Slots

def pending (s : Slots I M F W) (b : I) : Bool := (s.request b).isSome

def fresh (words : I → W) : Slots I M F W :=
  { words := words, request := fun _ => none, history := fun _ => [] }

theorem pending_eq_false {s : Slots I M F W} {b : I} :
    s.pending b = false ↔ s.request b = none := by
  simp [pending]

variable [DecidableEq I]

def write (s : Slots I M F W) (b : I) (w : W) : Slots I M F W :=
  { s with words := Function.update s.words b w }

def accept (s : Slots I M F W) (b : I) (m : M) : Slots I M F W :=
  { s with
    request := Function.update s.request b (some m)
    history := Function.update s.history b (s.history b ++ [.accepted m]) }

def finish (s : Slots I M F W) (b : I) (ok : Bool) (f : F) : Slots I M F W :=
  { s with
    request := Function.update s.request b none
    history := Function.update s.history b (s.history b ++ [.finished ok f]) }

@[simp] theorem write_request (s : Slots I M F W) (b : I) (w : W) :
    (s.write b w).request = s.request := rfl
@[simp] theorem write_history (s : Slots I M F W) (b : I) (w : W) :
    (s.write b w).history = s.history := rfl
@[simp] theorem write_words_self (s : Slots I M F W) (b : I) (w : W) :
    (s.write b w).words b = w := Function.update_self ..
theorem write_words_of_ne (s : Slots I M F W) {b c : I} (w : W) (h : c ≠ b) :
    (s.write b w).words c = s.words c := Function.update_of_ne h ..

@[simp] theorem accept_request_self (s : Slots I M F W) (b : I) (m : M) :
    (s.accept b m).request b = some m := Function.update_self ..
theorem accept_request_of_ne (s : Slots I M F W) {b c : I} (m : M) (h : c ≠ b) :
    (s.accept b m).request c = s.request c := Function.update_of_ne h ..
@[simp] theorem accept_history_self (s : Slots I M F W) (b : I) (m : M) :
    (s.accept b m).history b = s.history b ++ [.accepted m] := Function.update_self ..
theorem accept_history_of_ne (s : Slots I M F W) {b c : I} (m : M) (h : c ≠ b) :
    (s.accept b m).history c = s.history c := Function.update_of_ne h ..

@[simp] theorem finish_request_self (s : Slots I M F W) (b : I) (ok : Bool) (f : F) :
    (s.finish b ok f).request b = none := Function.update_self ..
theorem finish_request_of_ne (s : Slots I M F W) {b c : I} (ok : Bool) (f : F) (h : c ≠ b) :
    (s.finish b ok f).request c = s.request c := Function.update_of_ne h ..
@[simp] theorem finish_history_self (s : Slots I M F W) (b : I) (ok : Bool) (f : F) :
    (s.finish b ok f).history b = s.history b ++ [.finished ok f] := Function.update_self ..
theorem finish_history_of_ne (s : Slots I M F W) {b c : I} (ok : Bool) (f : F) (h : c ≠ b) :
    (s.finish b ok f).history c = s.history c := Function.update_of_ne h ..

@[simp] theorem accept_pending_self (s : Slots I M F W) (b : I) (m : M) :
    (s.accept b m).pending b = true := by
  simp [pending]
theorem accept_pending_of_ne (s : Slots I M F W) {b c : I} (m : M) (h : c ≠ b) :
    (s.accept b m).pending c = s.pending c := by
  simp only [pending, accept_request_of_ne s m h]
@[simp] theorem finish_pending_self (s : Slots I M F W) (b : I) (ok : Bool) (f : F) :
    (s.finish b ok f).pending b = false := by
  simp [pending]
theorem finish_pending_of_ne (s : Slots I M F W) {b c : I} (ok : Bool) (f : F) (h : c ≠ b) :
    (s.finish b ok f).pending c = s.pending c := by
  simp only [pending, finish_request_of_ne s ok f h]

theorem accept_history_prefix (s : Slots I M F W) (b c : I) (m : M) :
    s.history c <+: (s.accept b m).history c := by
  by_cases hc : c = b
  · subst hc
    rw [accept_history_self]
    exact List.prefix_append _ _
  · rw [accept_history_of_ne s m hc]

theorem finish_history_prefix (s : Slots I M F W) (b c : I) (ok : Bool) (f : F) :
    s.history c <+: (s.finish b ok f).history c := by
  by_cases hc : c = b
  · subst hc
    rw [finish_history_self]
    exact List.prefix_append _ _
  · rw [finish_history_of_ne s ok f hc]

end Slots

/-- From one pending request, or none, to another: a request is raised while none is pending,
and ends, served with what `R` allows for it, before the next one. -/
inductive Serial (R : M → F → Prop) (start : Option M) :
    List (SlotEvent M F) → Option M → Prop
  | nil : Serial R start [] start
  | accepted {h : List (SlotEvent M F)} {m : M} :
    Serial R start h none → Serial R start (h ++ [.accepted m]) (some m)
  | finished {h : List (SlotEvent M F)} {m : M} {ok : Bool} {f : F} :
    Serial R start h (some m) → R m f → Serial R start (h ++ [.finished ok f]) none

/-- Once a request was raised it is pending, and none was before. -/
theorem serial_accepted_iff {R : M → F → Prop} {start request : Option M}
    {h : List (SlotEvent M F)} {m : M} :
    Serial R start (h ++ [.accepted m]) request ↔ request = some m ∧ Serial R start h none := by
  constructor
  · intro hs
    generalize hevents : h ++ [SlotEvent.accepted m] = events at hs
    cases hs with
    | nil => simp at hevents
    | accepted hbefore =>
      obtain ⟨rfl, hlast⟩ := List.append_inj' hevents rfl
      cases hlast
      exact ⟨rfl, hbefore⟩
    | finished => simp at hevents
  · rintro ⟨rfl, hbefore⟩
    exact .accepted hbefore

/-- Two requests in a row are not served one after the other. -/
theorem not_serial_accepted_twice {R : M → F → Prop} {start request : Option M}
    {h : List (SlotEvent M F)} {m m' : M} :
    ¬ Serial R start (h ++ [.accepted m, .accepted m']) request := by
  intro hs
  rw [List.append_cons, serial_accepted_iff, serial_accepted_iff] at hs
  cases hs.2.1

namespace Slots
variable {R : M → F → Prop} {sent : W → F} {s : Slots I M F W} {b : I}

/-- The history of a slot is serial, and a pending request will be served with what it asked
for. -/
structure Owned (R : M → F → Prop) (sent : W → F) (s : Slots I M F W) (b : I) : Prop where
  serial : Serial R none (s.history b) (s.request b)
  served : ∀ m, s.request b = some m → R m (sent (s.words b))

theorem owned_fresh (words : I → W) (b : I) :
    Owned R sent (fresh words) b where
  serial := .nil
  served := by simp [fresh]

variable [DecidableEq I]

theorem Owned.write (h : Owned R sent s b) {c : I} (w : W) (hc : s.pending c = false) :
    Owned R sent (s.write c w) b where
  serial := h.serial
  served := by
    intro m hm
    have hne : b ≠ c := by
      rintro rfl
      rw [write_request, pending_eq_false.mp hc] at hm
      cases hm
    rw [write_words_of_ne s w hne]
    exact h.served m hm

/-- A request is raised once the one before it has ended and the slot holds what it asks for. -/
theorem Owned.accept (h : Owned R sent s b) {c : I} {m : M} (hc : s.pending c = false)
    (hsent : R m (sent (s.words c))) : Owned R sent (s.accept c m) b := by
  by_cases hb : b = c
  · subst hb
    constructor
    · rw [accept_history_self, accept_request_self]
      apply Serial.accepted
      have hserial := h.serial
      rwa [pending_eq_false.mp hc] at hserial
    · intro m' hm'
      rw [accept_request_self, Option.some.injEq] at hm'
      exact hm' ▸ hsent
  · constructor
    · rw [accept_history_of_ne s m hb, accept_request_of_ne s m hb]
      exact h.serial
    · rw [accept_request_of_ne s m hb]
      exact h.served

theorem Owned.finish (h : Owned R sent s b) {c : I} (ok : Bool) (hc : s.pending c = true) :
    Owned R sent (s.finish c ok (sent (s.words c))) b := by
  by_cases hb : b = c
  · subst hb
    obtain ⟨m, hm⟩ := Option.isSome_iff_exists.mp hc
    constructor
    · rw [finish_history_self, finish_request_self]
      have hserial := h.serial
      rw [hm] at hserial
      exact .finished hserial (h.served m hm)
    · intro m' hm'
      rw [finish_request_self] at hm'
      cases hm'
  · constructor
    · rw [finish_history_of_ne s ok _ hb, finish_request_of_ne s ok _ hb]
      exact h.serial
    · rw [finish_request_of_ne s ok _ hb]
      exact h.served

end Slots

namespace Slots
variable {X : Type} {R : M → X → Prop} {sent : W → X} {s : Slots I M F W}

def Served (R : M → X → Prop) (sent : W → X) (s : Slots I M F W) : Prop :=
  ∀ b m, s.request b = some m → R m (sent (s.words b))

theorem served_fresh (words : I → W) : Served R sent (fresh words : Slots I M F W) := by
  simp [Served, fresh]

variable [DecidableEq I]

theorem Served.write (h : Served R sent s) {c : I} (w : W) (hc : s.pending c = false) :
    Served R sent (s.write c w) := by
  intro b m hm
  have hne : b ≠ c := by
    rintro rfl
    rw [write_request, pending_eq_false.mp hc] at hm
    cases hm
  rw [write_words_of_ne s w hne]
  exact h b m hm

theorem Served.accept (h : Served R sent s) {c : I} {m : M} (hsent : R m (sent (s.words c))) :
    Served R sent (s.accept c m) := by
  intro b m' hm'
  by_cases hb : b = c
  · subst hb
    rw [accept_request_self, Option.some.injEq] at hm'
    exact hm' ▸ hsent
  · rw [accept_request_of_ne s m hb] at hm'
    exact h b m' hm'

theorem Served.finish (h : Served R sent s) (c : I) (ok : Bool) (f : F) :
    Served R sent (s.finish c ok f) := by
  intro b m hm
  by_cases hb : b = c
  · subst hb
    rw [finish_request_self] at hm
    cases hm
  · rw [finish_request_of_ne s ok f hb] at hm
    exact h b m hm

omit [DecidableEq I] in
/-- The request that is pending is in the history of its slot. -/
theorem Owned.accepted_mem {Q : M → F → Prop} {give : W → F} {b : I} (h : Owned Q give s b) {m : M}
    (hm : s.request b = some m) : .accepted m ∈ s.history b := by
  have hserial := h.serial
  rw [hm] at hserial
  generalize s.history b = events at hserial
  cases hserial with
  | accepted => simp

end Slots

def outcomes (events : List (SlotEvent M F)) : List Bool :=
  events.filterMap fun event =>
    match event with
    | .accepted _ => none
    | .finished ok _ => some ok

@[simp] theorem outcomes_accepted (events : List (SlotEvent M F)) (m : M) :
    outcomes (events ++ [.accepted m]) = outcomes events := by
  simp [outcomes]

@[simp] theorem outcomes_finished (events : List (SlotEvent M F)) (ok : Bool) (f : F) :
    outcomes (events ++ [.finished ok f]) = outcomes events ++ [ok] := by
  simp [outcomes]

structure Account (M F : Type) where
  start : Option M
  events : List (SlotEvent M F)
  reports : List Bool

namespace Account

def opened (start : Option M) : Account M F := ⟨start, [], []⟩

def record (account : Account M F) (event : SlotEvent M F) : Account M F :=
  { account with events := account.events ++ [event] }

def report (account : Account M F) (ok : Bool) : Account M F :=
  { account with reports := account.reports ++ [ok] }

/-- Every outcome was reported once and in order, but for the one that the bookkeeping still
holds; and while a request is pending there is none of these. -/
structure Balanced (account : Account M F) (request : Option M) (unseen : Option Bool) : Prop where
  serial : Serial (fun _ _ => True) account.start account.events request
  outcomes_eq : outcomes account.events = account.reports ++ unseen.toList
  seen : request.isSome = true → unseen = none

variable {account : Account M F} {request : Option M} {unseen : Option Bool}

theorem balanced_opened (request : Option M) :
    Balanced (opened request : Account M F) request none :=
  ⟨.nil, rfl, fun _ => rfl⟩

theorem Balanced.accept (h : Balanced account none none) (m : M) :
    Balanced (account.record (.accepted m)) (some m) none where
  serial := .accepted h.serial
  outcomes_eq := by simp only [record, outcomes_accepted, h.outcomes_eq]
  seen _ := rfl

theorem Balanced.finish (h : Balanced account request unseen) (hr : request.isSome = true)
    (ok : Bool) (f : F) : Balanced (account.record (.finished ok f)) none (some ok) where
  serial := by
    obtain ⟨m, rfl⟩ := Option.isSome_iff_exists.mp hr
    exact .finished h.serial trivial
  outcomes_eq := by
    simp only [record, outcomes_finished, h.outcomes_eq, h.seen hr, Option.toList_none,
      Option.toList_some, List.append_nil]
  seen := by simp

theorem Balanced.report {ok : Bool} (h : Balanced account request (some ok)) :
    Balanced (account.report ok) request none where
  serial := h.serial
  outcomes_eq := by
    simp only [Account.report, h.outcomes_eq, Option.toList_none, Option.toList_some,
      List.append_nil]
  seen _ := rfl

end Account

end UniHal.Foundations
