import UniHal.Can.Message
import UniHal.Foundations.Execution
import UniHal.Foundations.Slots

/-! # What a CAN driver owes to those who send

Both drivers put frames into one of three slots, and both can be interrupted between any two
accesses by an interrupt whose callbacks queue frames themselves. Here is what that must not
break, in terms of the slots alone.
-/

namespace UniHal.Can
open Foundations

variable {M W : Type}

/-- No two calls own a slot at once: accepted frames are served one after the other, each as
the canonical frame of its message; a slot that a call has chosen and not yet requested is not
pending; and the task and the interrupt have not chosen the same one. -/
structure Exclusive (canonical : M → M) (slots : Slots Slot M M W) (task isr : Option Slot) :
    Prop where
  serial : ∀ b, Serial (fun m f => f = canonical m) none (slots.history b) (slots.request b)
  task_free : ∀ b, task = some b → slots.pending b = false
  isr_free : ∀ b, isr = some b → slots.pending b = false
  apart : ∀ b, task = some b → isr ≠ some b

/-- The words of a pending slot stay as they are. -/
def Untouched (slots slots' : Slots Slot M M W) : Prop :=
  ∀ b, slots.pending b = true → slots'.words b = slots.words b

/-- What a call of `uni_hal_can_transmit` came back with. The frame of the call was accepted as
event `index` of the history of its slot. -/
structure Return (M : Type) where
  slot : Slot
  index : ℕ
  msg : M
  result : Bool

/-- What the abort after a timeout cancelled: the event that accepted the frame which was
pending. -/
structure Timeout (M : Type) where
  slot : Slot
  index : ℕ
  msg : M
  victim : Option ℕ

def pendingEvent (slots : Slots Slot M M W) (b : Slot) : Option ℕ :=
  if slots.pending b then some ((slots.history b).length - 1) else none

def Return.Sound (canonical : M → M) (history : Slot → List (SlotEvent M M)) (r : Return M) :
    Prop :=
  r.result = true →
    (history r.slot)[r.index]? = some (.accepted r.msg) ∧
      (history r.slot)[r.index + 1]? = some (.finished true (canonical r.msg))

/-- An abort cancels no frame but the one of its call. -/
def Timeout.Sound (history : Slot → List (SlotEvent M M)) (t : Timeout M) : Prop :=
  ∀ victim, t.victim = some victim →
    victim = t.index ∧ (history t.slot)[victim]? = some (.accepted t.msg)

/-- What has become of the frame that event `index` of slot `b` accepted, while nobody else
uses the slot. -/
inductive Awaited (canonical : M → M) (sent : W → M) (slots : Slots Slot M M W) (b : Slot) (msg : M)
    (index : ℕ) : Option Bool → Prop
  | pending {before : List (SlotEvent M M)} (hrequest : slots.request b = some msg)
    (hhistory : slots.history b = before ++ [.accepted msg]) (hindex : before.length = index)
    (hsent : sent (slots.words b) = canonical msg) : Awaited canonical sent slots b msg index none
  | done {before : List (SlotEvent M M)} {ok : Bool} (hrequest : slots.request b = none)
    (hhistory : slots.history b = before ++ [.accepted msg, .finished ok (canonical msg)])
    (hindex : before.length = index) : Awaited canonical sent slots b msg index (some ok)

section Awaited
variable {canonical : M → M} {sent : W → M} {slots slots' : Slots Slot M M W} {b c : Slot} {msg : M}
  {index : ℕ} {outcome : Option Bool}

theorem Awaited.congr (h : Awaited canonical sent slots b msg index outcome)
    (hwords : slots'.words b = slots.words b) (hhist : slots'.history b = slots.history b)
    (hreq : slots'.request b = slots.request b) :
    Awaited canonical sent slots' b msg index outcome := by
  cases h with
  | pending hrequest hhistory hindex hsent =>
    exact .pending (hreq.trans hrequest) (hhist.trans hhistory) hindex (hwords ▸ hsent)
  | done hrequest hhistory hindex =>
    exact .done (hreq.trans hrequest) (hhist.trans hhistory) hindex

theorem Awaited.accept (hsent : sent (slots.words b) = canonical msg) :
    Awaited canonical sent (slots.accept b msg) b msg (slots.history b).length none :=
  .pending (slots.accept_request_self b msg) (slots.accept_history_self b msg) rfl hsent

/-- The end of a request is the one that is awaited, or that of another slot. -/
theorem Awaited.finish (h : Awaited canonical sent slots b msg index outcome) (ok : Bool)
    (hc : slots.pending c = true) :
    Awaited canonical sent (slots.finish c ok (sent (slots.words c))) b msg index
      (if c = b then some ok else outcome) := by
  by_cases hcb : c = b
  · subst hcb
    rw [if_pos rfl]
    cases h with
    | pending hrequest hhistory hindex hsent =>
      apply Awaited.done (slots.finish_request_self c ok _) _ hindex
      rw [slots.finish_history_self, hhistory, hsent, List.append_assoc]
      rfl
    | done hrequest =>
      rw [Slots.pending_eq_false.mpr hrequest] at hc
      cases hc
  · rw [if_neg hcb]
    exact h.congr rfl (slots.finish_history_of_ne ok _ (Ne.symm hcb))
      (slots.finish_request_of_ne ok _ (Ne.symm hcb))

theorem Awaited.return_sound (h : Awaited canonical sent slots b msg index outcome) {result : Bool}
    (hresult : result = true → outcome = some true) :
    Return.Sound canonical slots.history ⟨b, index, msg, result⟩ := by
  intro hr
  rw [hresult hr] at h
  cases h with
  | done hrequest hhistory hindex =>
    subst hindex
    simp [hhistory]

/-- What is pending in the slot can only be the awaited frame. -/
theorem Awaited.timeout_sound (h : Awaited canonical sent slots b msg index outcome) :
    Timeout.Sound slots.history ⟨b, index, msg, pendingEvent slots b⟩ := by
  intro victim hvictim
  cases h with
  | pending hrequest hhistory hindex hsent =>
    subst hindex
    simp only [pendingEvent, Slots.pending, hrequest, Option.isSome_some, if_true, hhistory,
      List.length_append, List.length_singleton, Nat.add_sub_cancel, Option.some.injEq] at hvictim
    subst hvictim
    simp [hhistory]
  | done hrequest => simp [pendingEvent, Slots.pending, hrequest] at hvictim

end Awaited

/-- What is in a history stays where it is when the history grows. -/
theorem event_kept {events later : List (SlotEvent M M)} (h : events <+: later) {i : ℕ}
    {event : SlotEvent M M} (hi : events[i]? = some event) : later[i]? = some event := by
  obtain ⟨rest, rfl⟩ := h
  rw [List.getElem?_append_left (List.getElem?_eq_some_iff.mp hi).1, hi]

section Growth
variable {canonical : M → M} {history history' : Slot → List (SlotEvent M M)}

theorem Return.Sound.mono {r : Return M} (h : r.Sound canonical history)
    (hgrow : ∀ b, history b <+: history' b) : r.Sound canonical history' := fun hr =>
  ⟨event_kept (hgrow _) (h hr).1, event_kept (hgrow _) (h hr).2⟩

theorem Timeout.Sound.mono {t : Timeout M} (h : t.Sound history)
    (hgrow : ∀ b, history b <+: history' b) : t.Sound history' := fun victim hv =>
  ⟨(h victim hv).1, event_kept (hgrow _) (h victim hv).2⟩

end Growth

def waitsTurn (done : Slot → Bool) (todo : List Slot) (b : Slot) : Bool :=
  decide (b ∈ todo) && done b

section WaitsTurn
variable {done : Slot → Bool} {todo : List Slot} {b c : Slot}

@[simp] theorem waitsTurn_nil : waitsTurn done [] b = false := rfl

@[simp] theorem waitsTurn_all : waitsTurn done (List.finRange 3) b = done b := by
  simp [waitsTurn]

@[simp] theorem waitsTurn_head : waitsTurn done (b :: todo) b = done b := by
  simp [waitsTurn]

theorem waitsTurn_cons_of_ne (h : c ≠ b) :
    waitsTurn done (b :: todo) c = waitsTurn done todo c := by
  simp [waitsTurn, h]

theorem waitsTurn_cons_of_not_done (h : done b = false) :
    waitsTurn done (b :: todo) c = waitsTurn done todo c := by
  by_cases hc : c = b
  · subst hc
    simp [waitsTurn, h]
  · exact waitsTurn_cons_of_ne hc

theorem waitsTurn_of_not_mem (h : b ∉ todo) : waitsTurn done todo b = false := by
  simp [waitsTurn, h]

end WaitsTurn

structure Listener (M : Type) where
  live : Bool
  account : Slot → Account M M

namespace Listener

def none (M : Type) : Listener M := ⟨false, fun _ => .opened .none⟩

def start (slots : Slots Slot M M W) : Listener M := ⟨true, fun b => .opened (slots.request b)⟩

def stop (l : Listener M) : Listener M := { l with live := false }

def record (l : Listener M) (b : Slot) (event : SlotEvent M M) : Listener M :=
  if l.live then { l with account := Function.update l.account b ((l.account b).record event) }
  else l

def report (l : Listener M) (b : Slot) (ok : Bool) : Listener M :=
  if l.live then { l with account := Function.update l.account b ((l.account b).report ok) } else l

variable (l : Listener M) (b : Slot) (event : SlotEvent M M) (ok : Bool)

@[simp] theorem record_live : (l.record b event).live = l.live := by
  by_cases h : l.live = true <;> simp [record, h]

@[simp] theorem report_live : (l.report b ok).live = l.live := by
  by_cases h : l.live = true <;> simp [report, h]

variable {l}

theorem record_account_self (h : l.live = true) :
    (l.record b event).account b = (l.account b).record event := by
  simp [record, h]

theorem report_account_self (h : l.live = true) :
    (l.report b ok).account b = (l.account b).report ok := by
  simp [report, h]

variable {b} {c : Slot}

theorem record_account_of_ne (h : c ≠ b) : (l.record b event).account c = l.account c := by
  by_cases hl : l.live = true <;> simp [record, hl, h]

theorem report_account_of_ne (h : c ≠ b) : (l.report b ok).account c = l.account c := by
  by_cases hl : l.live = true <;> simp [report, hl, h]

end Listener

/-- What the listener of a slot knows: the frames accepted since it listens were served one
after the other, what it was told are their outcomes in this order, nothing is left to tell
while the next frame is pending, and at most one outcome is left, none once all is quiet. -/
structure Accounted (account : Account M M) (request : Option M) (quiet : Prop) : Prop where
  serial : Serial (fun _ _ => True) account.start account.events request
  told : account.reports <+: outcomes account.events
  at_most_one : (outcomes account.events).length ≤ account.reports.length + 1
  before_next : request.isSome = true → account.reports = outcomes account.events
  all_told : quiet → account.reports = outcomes account.events

theorem Accounted.of_balanced {account : Account M M} {request : Option M} {unseen : Option Bool}
    {quiet : Prop} (h : account.Balanced request unseen) (hquiet : quiet → unseen = none) :
    Accounted account request quiet := by
  have hall (hu : unseen = none) : account.reports = outcomes account.events := by
    rw [h.outcomes_eq, hu, Option.toList_none, List.append_nil]
  exact {
    serial := h.serial
    told := by
      rw [h.outcomes_eq]
      exact List.prefix_append _ _
    at_most_one := by
      rw [h.outcomes_eq, List.length_append]
      cases unseen <;> simp
    before_next := fun hr => hall (h.seen hr)
    all_told := fun hq => hall (hquiet hq) }

end UniHal.Can
