import UniHal.Can.Transmit

/-! # Two callers over the slots

The task and the interrupt each have at most one call in hand, which fills a slot in steps of its
own and requests it. What a driver has to show about a single step of a call, and what follows from
it for both callers, whichever registers the steps write.
-/

namespace UniHal.Can
open Foundations

variable {C M W A : Type}

structure Caller (C M W : Type) where
  slot : C → Option Slot
  Prepared : Slots Slot M M W → C → Prop
  prepared_of_slot : ∀ slots call, slot call = none → Prepared slots call
  free : ∀ slots call b, Prepared slots call → slot call = some b → slots.pending b = false
  congr : ∀ slots slots' call, Prepared slots call →
    (∀ b, slot call = some b → slots'.pending b = slots.pending b ∧
      slots'.words b = slots.words b) → Prepared slots' call

/-- One step of a call, after which it has come to `next`; it may have chosen one of the given
slots. -/
structure Caller.Step (k : Caller C M W) (canonical : M → M) (sent : W → M)
    (slots : Slots Slot M M W) (call : C) (slots' : Slots Slot M M W) (next : Option C)
    (chosen : Slot → Prop) : Prop where
  frame : ∀ b, k.slot call ≠ some b →
    slots'.pending b = slots.pending b ∧ slots'.words b = slots.words b
  owned : k.Prepared slots call → ∀ b, slots.Owned (fun m f => f = canonical m) sent b →
    slots'.Owned (fun m f => f = canonical m) sent b
  prepared : ∀ call', next = some call' → k.Prepared slots call →
    (∀ b, chosen b → slots.pending b = false) → k.Prepared slots' call'
  slot : ∀ call', next = some call' → ∀ b, k.slot call' = some b → k.slot call = some b ∨ chosen b

/-- What a call has in hand after a step, it had before or has just chosen. -/
theorem Caller.Step.slot_next {k : Caller C M W} {canonical : M → M} {sent : W → M}
    {slots slots' : Slots Slot M M W} {call : C} {next : Option C} {chosen : Slot → Prop}
    (hs : k.Step canonical sent slots call slots' next chosen) {b : Slot}
    (hb : next.bind k.slot = some b) : k.slot call = some b ∨ chosen b := by
  obtain ⟨call', hc', hslot⟩ := Option.bind_eq_some_iff.mp hb
  exact hs.slot call' hc' b hslot

/-- Every slot is owned by one frame at a time, and the two callers by different slots. -/
structure Owning (k : Caller C M W) (canonical : M → M) (sent : W → M) (slots : Slots Slot M M W)
    (task isr : Option C) : Prop where
  owned : ∀ b, slots.Owned (fun m f => f = canonical m) sent b
  task_prepared : ∀ call, task = some call → k.Prepared slots call
  isr_prepared : ∀ call, isr = some call → k.Prepared slots call
  apart : ∀ b, task.bind k.slot = some b → isr.bind k.slot ≠ some b

namespace Owning
variable {k : Caller C M W} {canonical : M → M} {sent : W → M} {slots slots' : Slots Slot M M W}
  {task task' isr isr' : Option C}

theorem fresh (words : Slot → W) : Owning k canonical sent (.fresh words) none none where
  owned := Slots.owned_fresh words
  task_prepared := nofun
  isr_prepared := nofun
  apart := nofun

/-- A caller goes on as it is, or takes up a call that has no slot yet. -/
theorem quiet (h : Owning k canonical sent slots task isr)
    (htask : task' = task ∨ ∀ call, task' = some call → k.slot call = none)
    (hisr : isr' = isr ∨ ∀ call, isr' = some call → k.slot call = none) :
    Owning k canonical sent slots task' isr' where
  owned := h.owned
  task_prepared call hc := by
    rcases htask with rfl | hnone
    · exact h.task_prepared call hc
    · exact k.prepared_of_slot slots call (hnone call hc)
  isr_prepared call hc := by
    rcases hisr with rfl | hnone
    · exact h.isr_prepared call hc
    · exact k.prepared_of_slot slots call (hnone call hc)
  apart b hb hi := by
    obtain ⟨call, hc, hslot⟩ := Option.bind_eq_some_iff.mp hb
    obtain ⟨call', hc', hslot'⟩ := Option.bind_eq_some_iff.mp hi
    rcases htask with rfl | hnone
    · rcases hisr with rfl | hnone
      · exact h.apart b hb hi
      · cases hslot'.symm.trans (hnone call' hc')
    · cases hslot.symm.trans (hnone call hc)

/-- A completion is not about a slot that a caller has in hand. -/
theorem prepared_finish (k : Caller C M W) {call : C} (h : k.Prepared slots call) {b : Slot}
    (ok : Bool) (f : M) (hb : slots.pending b = true) : k.Prepared (slots.finish b ok f) call := by
  apply k.congr slots _ call h
  intro c hc
  have hne : c ≠ b := by
    rintro rfl
    rw [k.free slots call c h hc] at hb
    cases hb
  exact ⟨slots.finish_pending_of_ne ok f hne, rfl⟩

theorem finish (h : Owning k canonical sent slots task isr) {b : Slot} (ok : Bool)
    (hb : slots.pending b = true) :
    Owning k canonical sent (slots.finish b ok (sent (slots.words b))) task isr where
  owned c := (h.owned c).finish ok hb
  task_prepared call hc := prepared_finish k (h.task_prepared call hc) ok _ hb
  isr_prepared call hc := prepared_finish k (h.isr_prepared call hc) ok _ hb
  apart := h.apart

variable {call : C} {next : Option C} {chosen : Slot → Prop}

/-- One step of a call of the task, while the interrupt makes none. -/
theorem taskCall (h : Owning k canonical sent slots task isr) (hisr : isr = none)
    (htask : task = some call) (hs : k.Step canonical sent slots call slots' next chosen)
    (hfree : ∀ b, chosen b → slots.pending b = false) :
    Owning k canonical sent slots' next isr := by
  subst hisr
  constructor
  · exact fun b => hs.owned (h.task_prepared call htask) b (h.owned b)
  · exact fun call' hc' => hs.prepared call' hc' (h.task_prepared call htask) hfree
  · exact nofun
  · exact fun _ _ => nofun

/-- One step of a call of a callback, which chooses no slot that the task has in hand. -/
theorem isrCall (h : Owning k canonical sent slots task isr) (hisr : isr = some call)
    (hs : k.Step canonical sent slots call slots' next chosen)
    (hfree : ∀ b, chosen b → slots.pending b = false)
    (hapart : ∀ b, chosen b → task.bind k.slot ≠ some b) :
    Owning k canonical sent slots' task next := by
  have hother (b : Slot) (hb : task.bind k.slot = some b) : k.slot call ≠ some b := by
    intro hslot
    apply h.apart b hb
    rw [hisr, Option.bind_some, hslot]
  constructor
  · exact fun b => hs.owned (h.isr_prepared call hisr) b (h.owned b)
  · intro call' hc'
    refine k.congr slots slots' call' (h.task_prepared call' hc') fun b hb =>
      hs.frame b (hother b ?_)
    rw [hc', Option.bind_some, hb]
  · exact fun call' hc' => hs.prepared call' hc' (h.isr_prepared call hisr) hfree
  · intro b hb hi
    rcases hs.slot_next hi with hold | hnew
    · exact hother b hb hold
    · exact hapart b hnew hb

theorem exclusive (h : Owning k canonical sent slots task isr) :
    Exclusive canonical slots (task.bind k.slot) (isr.bind k.slot) where
  serial b := (h.owned b).serial
  task_free b hb := by
    obtain ⟨call, hc, hslot⟩ := Option.bind_eq_some_iff.mp hb
    exact k.free slots call b (h.task_prepared call hc) hslot
  isr_free b hb := by
    obtain ⟨call, hc, hslot⟩ := Option.bind_eq_some_iff.mp hb
    exact k.free slots call b (h.isr_prepared call hc) hslot
  apart := h.apart

end Owning

def Filled (store : W → A → W) (writes : List A) (words : W) (rest : List A) : Prop :=
  ∃ written before, writes = written ++ rest ∧ words = written.foldl store before

namespace Filled
variable {store : W → A → W} {writes rest : List A} {words : W} {write : A}

theorem chosen (words : W) : Filled store writes words writes := ⟨[], words, rfl, rfl⟩

theorem stored (h : Filled store writes words (write :: rest)) :
    Filled store writes (store words write) rest := by
  obtain ⟨written, before, hwrites, rfl⟩ := h
  refine ⟨written ++ [write], before, ?_, ?_⟩
  · rw [hwrites, List.append_assoc, List.singleton_append]
  · rw [List.foldl_append, List.foldl_cons, List.foldl_nil]

theorem done (h : Filled store writes words []) : ∃ before, words = writes.foldl store before := by
  obtain ⟨written, before, hwrites, rfl⟩ := h
  exact ⟨before, by rw [hwrites, List.append_nil]⟩

end Filled

/-- The frame of a blocking call is pending, or it has ended; and nothing says that it was sent
unless it was. -/
def Watched (canonical : M → M) (sent : W → M) (slots : Slots Slot M M W) (b : Slot) (msg : M)
    (index : ℕ) (vouched : Prop) : Prop :=
  ∃ outcome, Awaited canonical sent slots b msg index outcome ∧ (vouched → outcome = some true)

namespace Watched
variable {canonical : M → M} {sent : W → M} {slots slots' : Slots Slot M M W} {b c : Slot} {msg : M}
  {index : ℕ} {vouched vouched' : Prop}

theorem congr (h : Watched canonical sent slots b msg index vouched)
    (hsame : slots'.words b = slots.words b ∧ slots'.history b = slots.history b ∧
      slots'.request b = slots.request b) (hvouched : vouched' → vouched) :
    Watched canonical sent slots' b msg index vouched' := by
  obtain ⟨outcome, hawaited, houtcome⟩ := h
  obtain ⟨hwords, hhistory, hrequest⟩ := hsame
  exact ⟨outcome, hawaited.congr hwords hhistory hrequest, fun h => houtcome (hvouched h)⟩

/-- A completion ends the awaited frame or concerns another slot. -/
theorem finish (h : Watched canonical sent slots b msg index vouched) (ok : Bool)
    (hc : slots.pending c = true) (hself : c = b → vouched' → ok = true ∨ vouched)
    (hother : c ≠ b → vouched' → vouched) :
    Watched canonical sent (slots.finish c ok (sent (slots.words c))) b msg index vouched' := by
  obtain ⟨outcome, hawaited, houtcome⟩ := h
  refine ⟨_, hawaited.finish ok hc, fun hvouched => ?_⟩
  by_cases hcb : c = b
  · rw [if_pos hcb]
    rcases hself hcb hvouched with rfl | hold
    · rfl
    · -- the frame was pending, so nothing was said about it
      have hsome := houtcome hold
      subst hsome hcb
      cases hawaited with
      | done hrequest =>
        rw [Slots.pending_eq_false.mpr hrequest] at hc
        cases hc
  · rw [if_neg hcb]
    exact houtcome (hother hcb hvouched)

theorem return_sound (h : Watched canonical sent slots b msg index vouched) (result : Bool)
    (hresult : result = true → vouched) :
    Return.Sound canonical slots.history ⟨b, index, msg, result⟩ :=
  h.elim fun _ h => h.1.return_sound fun hr => h.2 (hresult hr)

theorem timeout_sound (h : Watched canonical sent slots b msg index vouched) :
    Timeout.Sound slots.history ⟨b, index, msg, pendingEvent slots b⟩ :=
  h.elim fun _ h => h.1.timeout_sound

end Watched

/-- What the blocking calls have told so far is true of their own frames. -/
structure Truthful (canonical : M → M) (history : Slot → List (SlotEvent M M))
    (returns : List (Return M)) (timeouts : List (Timeout M)) : Prop where
  returns : ∀ r ∈ returns, r.Sound canonical history
  timeouts : ∀ t ∈ timeouts, t.Sound history

namespace Truthful
variable {canonical : M → M} {history history' : Slot → List (SlotEvent M M)}
  {returns : List (Return M)} {timeouts : List (Timeout M)}

theorem mono (h : Truthful canonical history returns timeouts)
    (hgrow : ∀ b, history b <+: history' b) : Truthful canonical history' returns timeouts where
  returns r hr := (h.returns r hr).mono hgrow
  timeouts t ht := (h.timeouts t ht).mono hgrow

theorem addReturn (h : Truthful canonical history returns timeouts) {r : Return M}
    (hr : r.Sound canonical history) : Truthful canonical history (returns ++ [r]) timeouts where
  returns r' hr' := by
    rcases List.mem_append.mp hr' with hold | hnew
    · exact h.returns r' hold
    · exact List.mem_singleton.mp hnew ▸ hr
  timeouts := h.timeouts

theorem addTimeout (h : Truthful canonical history returns timeouts) {t : Timeout M}
    (ht : t.Sound history) : Truthful canonical history returns (timeouts ++ [t]) where
  returns := h.returns
  timeouts t' ht' := by
    rcases List.mem_append.mp ht' with hold | hnew
    · exact h.timeouts t' hold
    · exact List.mem_singleton.mp hnew ▸ ht

end Truthful

end UniHal.Can
