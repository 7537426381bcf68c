import UniHal.Can.Fdcan.TransmitOwnership

/-! # Completions on FDCAN

The bitmap `tx_inflight` holds the buffers whose completion is still to be reported. Together
with the flags and the handler it accounts for every outcome, as long as no buffer is requested
again while the bitmap or the running handler still holds its completion, and no frame
completes unnoticed while the callback is being registered.
-/

namespace UniHal.Can.Fdcan.Transmit
open Foundations Foundations.Execution

variable {build : Build} {config : Config}

/-- The outcome of a buffer that waits its turn in the handler. -/
def Isr.waiting : Isr → Slot → Option Bool
  | .report done success todo, b | .callback done success todo, b =>
    if waitsTurn done todo b then some (success b) else none
  | _, _ => none

def Call.requests : Call build → Option Slot
  | .fill b _ [] => some b
  | _ => none

def State.requests (s : State build) : Action build → Option Slot
  | .taskStep _ _ => s.task.call.bind Call.requests
  | .isrStep _ => s.call.bind Call.requests
  | _ => none

/-- A completion that leaves no flag behind: it comes between the look at the pending requests
and the reset of the flags, or raises none because its interrupt is not enabled yet. -/
def State.unnoticed (s : State build) : Action build → Bool
  | .complete b ok =>
    match s.task with
    | .setCallback _ .clearFlags => true
    | .setCallback _ .enableTransmitted | .setCallback _ .enableCancelled =>
      !s.dev.raisesFlag b ok
    | _ => false
  | _ => false

/-- While a callback is registered, no buffer is requested whose completion is still in
`tx_inflight` or in the running handler, and no frame completes unnoticed. -/
def KeepsBooks (s : State build) (action : Action build) : Prop :=
  s.dev.listener.live = true →
    (∀ b, s.requests action = some b → s.dev.txInflight b = false ∧ s.isr.waiting b = none) ∧
      s.unnoticed action = false

instance (s : State build) : DecidablePred (KeepsBooks s) := fun action =>
  inferInstanceAs (Decidable (_ → (∀ b, s.requests action = some b → _ ∧ _) ∧ _))

def Isr.looksAt : Isr → Slot → Bool
  | .acknowledge tc tcf, _ => tc || tcf
  | .receive tx, _ => tx
  | .snapshot, _ => true
  | .transmitted done, b => done b
  | _, _ => false

def unseen (s : Dev build) (isr : Isr) (b : Slot) : Option Bool :=
  if s.txInflight b && !s.pending b then some (s.txbto b) else isr.waiting b

def Isr.Knows (s : Dev build) : Isr → Prop
  | .transmitted done => ∀ b, done b = true → s.txInflight b = true ∧ s.pending b = false
  | .report _ _ todo | .callback _ _ todo => todo.Nodup
  | _ => True

/-- The bookkeeping accounts for every outcome. -/
structure Books (s : Dev build) (isr : Isr) : Prop where
  callback : s.callback = true
  balanced : ∀ b, (s.listener.account b).Balanced (s.slots.request b) (unseen s isr b)
  inflight : ∀ b, s.pending b = true → s.txInflight b = true
  noticed : ∀ b, s.txInflight b = true → s.pending b = false →
    (s.tc || s.tcf) = true ∨ isr.looksAt b = true
  waiting : ∀ b, isr.waiting b ≠ none → s.txInflight b = false
  knows : isr.Knows s

def Enabled (s : Dev build) : Task build → Prop
  | .setCallback _ .clearFlags => ∀ b, s.txInflight b = true → s.pending b = true
  | .setCallback _ .enableTransmitted => True
  | .setCallback _ .enableCancelled => s.txbtie = true
  | _ => s.txbtie = true ∧ s.txbcie = true

/-- A stage of the registration that a registered callback can be in. -/
def Task.Registered : Task build → Prop
  | .setCallback _ .assign | .setCallback _ .snapshot | .setCallback _ .disableTransmitted
  | .setCallback _ .disableCancelled => False
  | _ => True

theorem Enabled.congr {s s' : Dev build} {task : Task build} (h : Enabled s task)
    (hrequest : s'.slots.request = s.slots.request) (hinflight : s'.txInflight = s.txInflight)
    (htie : s'.txbtie = s.txbtie) (hcie : s'.txbcie = s.txbcie) : Enabled s' task := by
  have hpending : s'.pending = s.pending := by
    funext b
    simp only [Dev.pending, Slots.pending, hrequest]
  cases task with
  | setCallback callback stage =>
    cases stage with
    | enableTransmitted => trivial
    | _ => simpa only [Enabled, hpending, hinflight, htie, hcie] using h
  | _ => simpa only [Enabled, htie, hcie] using h

structure LiveInv (s : State build) : Prop where
  live : s.dev.listener.live = true
  books : Books s.dev s.isr
  enabled : Enabled s.dev s.task
  registered : s.task.Registered

theorem Books.congr {s s' : Dev build} {isr : Isr} (h : Books s isr)
    (hrequest : s'.slots.request = s.slots.request) (htxbto : s'.txbto = s.txbto)
    (hinflight : s'.txInflight = s.txInflight) (htc : s'.tc = s.tc) (htcf : s'.tcf = s.tcf)
    (hcallback : s'.callback = s.callback) (hlistener : s'.listener = s.listener) :
    Books s' isr := by
  have hpending : s'.pending = s.pending := by
    funext b
    simp only [Dev.pending, Slots.pending, hrequest]
  have hknows : isr.Knows s' := by
    have hold := h.knows
    cases isr with
    | transmitted done => simpa only [Isr.Knows, hinflight, hpending] using hold
    | report | callback => exact hold
    | _ => trivial
  exact {
    callback := hcallback.trans h.callback
    balanced := by
      intro b
      simpa only [unseen, hrequest, htxbto, hinflight, hpending, hlistener] using h.balanced b
    inflight := by simpa only [hpending, hinflight] using h.inflight
    noticed := by simpa only [hpending, hinflight, htc, htcf] using h.noticed
    waiting := by simpa only [hinflight] using h.waiting
    knows := hknows }

theorem unseen_eq_none {s : Dev build} {isr : Isr} {b : Slot}
    (hb : s.txInflight b = true → s.pending b = true) (hw : isr.waiting b = none) :
    unseen s isr b = none := by
  cases hi : s.txInflight b with
  | true => simp [unseen, hb hi, hw]
  | false => simp [unseen, hi, hw]

theorem pending_complete_self (s : Dev build) (b : Slot) (ok : Bool) :
    (s.complete b ok).pending b = false := Slots.finish_pending_self ..

theorem pending_complete_of_ne (s : Dev build) {b c : Slot} (ok : Bool) (h : c ≠ b) :
    (s.complete b ok).pending c = s.pending c := Slots.finish_pending_of_ne _ _ _ h

theorem pending_request_self (s : Dev build) (b : Slot) (msg : Msg build.dataSize) :
    (s.request b msg).pending b = true := Slots.accept_pending_self ..

theorem pending_request_of_ne (s : Dev build) {b c : Slot} (msg : Msg build.dataSize)
    (h : c ≠ b) : (s.request b msg).pending c = s.pending c := Slots.accept_pending_of_ne _ _ h

theorem Books.complete {s : Dev build} {isr : Isr} (h : Books s isr)
    (hlive : s.listener.live = true) {b : Slot} {ok : Bool} (hb : s.pending b = true)
    (hflag : s.raisesFlag b ok = true) : Books (s.complete b ok) isr := by
  have hinflight := h.inflight b hb
  have hflag' : ((s.complete b ok).tc || (s.complete b ok).tcf) = true := by
    simp only [Dev.complete]
    simp only [Dev.raisesFlag, Bool.or_eq_true] at hflag
    rcases hflag with hsent | hcancelled
    · simp [hsent]
    · simp [hcancelled]
  exact {
    callback := h.callback
    balanced := by
      intro c
      by_cases hc : c = b
      · subst hc
        have hunseen : unseen (s.complete c ok) isr c = some ok := by
          have hinflight' : (s.complete c ok).txInflight c = true := hinflight
          have htxbto : (s.complete c ok).txbto c = ok := Function.update_self ..
          simp only [unseen, hinflight', pending_complete_self, htxbto, Bool.not_false,
            Bool.and_self, if_true]
        rw [hunseen]
        simp only [Dev.complete, Listener.record_account_self _ _ hlive, Slots.finish_request_self]
        exact (h.balanced c).finish hb ok _
      · have hunseen : unseen (s.complete b ok) isr c = unseen s isr c := by
          simp only [unseen, pending_complete_of_ne s ok hc]
          simp only [Dev.complete, Function.update_of_ne hc]
        rw [hunseen]
        simp only [Dev.complete, Listener.record_account_of_ne _ hc,
          Slots.finish_request_of_ne _ _ _ hc]
        exact h.balanced c
    inflight := by
      intro c hc
      by_cases hcb : c = b
      · subst hcb
        exact hinflight
      · rw [pending_complete_of_ne s ok hcb] at hc
        exact h.inflight c hc
    noticed := fun _ _ _ => .inl hflag'
    waiting := h.waiting
    knows := by
      have hold := h.knows
      cases isr with
      | transmitted done =>
        intro c hc
        have hne : c ≠ b := by
          rintro rfl
          rw [(hold c hc).2] at hb
          cases hb
        exact ⟨(hold c hc).1, (pending_complete_of_ne s ok hne).trans (hold c hc).2⟩
      | report | callback => exact hold
      | _ => trivial }

/-- A request of a buffer that has nothing left to report. -/
theorem Books.request {s : Dev build} {isr : Isr} (h : Books s isr)
    (hlive : s.listener.live = true) {b : Slot} {msg : Msg build.dataSize}
    (hfree : s.txInflight b = false) (hwait : isr.waiting b = none) :
    Books (s.request b msg) isr := by
  have hnone : s.slots.request b = none := by
    rw [← Slots.pending_eq_false]
    by_contra hp
    rw [h.inflight b (by simpa [Dev.pending] using hp)] at hfree
    cases hfree
  have hself : (s.request b msg).txInflight b = true := Function.update_self ..
  have hother {c : Slot} (hc : c ≠ b) : (s.request b msg).txInflight c = s.txInflight c :=
    Function.update_of_ne hc ..
  exact {
    callback := h.callback
    balanced := by
      intro c
      by_cases hc : c = b
      · subst hc
        have hbefore : unseen s isr c = none := by simp [unseen, hfree, hwait]
        have hunseen : unseen (s.request c msg) isr c = none := by
          simp only [unseen, pending_request_self, Bool.not_true, Bool.and_false,
            Bool.false_eq_true, if_false, hwait]
        have hold := h.balanced c
        rw [hnone, hbefore] at hold
        rw [hunseen]
        simp only [Dev.request, Listener.record_account_self _ _ hlive, Slots.accept_request_self]
        exact hold.accept msg
      · have hunseen : unseen (s.request b msg) isr c = unseen s isr c := by
          simp only [unseen, pending_request_of_ne s msg hc, hother hc]
          simp only [Dev.request, Function.update_of_ne hc]
        rw [hunseen]
        simp only [Dev.request, Listener.record_account_of_ne _ hc,
          Slots.accept_request_of_ne _ _ hc]
        exact h.balanced c
    inflight := by
      intro c hc
      by_cases hcb : c = b
      · subst hcb
        exact hself
      · rw [pending_request_of_ne s msg hcb] at hc
        rw [hother hcb]
        exact h.inflight c hc
    noticed := by
      intro c hi hp
      by_cases hcb : c = b
      · subst hcb
        rw [pending_request_self] at hp
        cases hp
      · rw [pending_request_of_ne s msg hcb] at hp
        rw [hother hcb] at hi
        exact h.noticed c hi hp
    waiting := by
      intro c hc
      have hcb : c ≠ b := by
        rintro rfl
        exact hc hwait
      rw [hother hcb]
      exact h.waiting c hc
    knows := by
      have hold := h.knows
      cases isr with
      | transmitted done =>
        intro c hc
        have hcb : c ≠ b := by
          rintro rfl
          rw [(hold c hc).1] at hfree
          cases hfree
        rw [hother hcb, pending_request_of_ne s msg hcb]
        exact hold c hc
      | report | callback => exact hold
      | _ => trivial }

theorem Books.start {s : Dev build} (hcallback : s.callback = true) :
    Books { s with txInflight := s.pending, listener := .start s.slots } .idle where
  callback := hcallback
  balanced := by
    intro b
    have hunseen : unseen { s with txInflight := s.pending, listener := .start s.slots } .idle b =
        none := unseen_eq_none id rfl
    rw [hunseen]
    exact Account.balanced_opened _
  inflight _ := id
  noticed := by
    intro b hi hp
    have hpending : s.pending b = true := hi
    rw [show s.pending b = false from hp] at hpending
    cases hpending
  waiting _ hb := absurd rfl hb
  knows := trivial

/-- The flags are not needed while everything on the books is pending. -/
theorem Books.clearFlags {s : Dev build} (h : Books s .idle)
    (hpending : ∀ b, s.txInflight b = true → s.pending b = true) :
    Books { s with tc := false, tcf := false } .idle where
  callback := h.callback
  balanced := h.balanced
  inflight := h.inflight
  noticed := by
    intro b hi hp
    have hold : s.pending b = true := hpending b hi
    rw [show s.pending b = false from hp] at hold
    cases hold
  waiting := h.waiting
  knows := trivial

theorem Books.goto {s : Dev build} {isr isr' : Isr} (h : Books s isr)
    (hwaiting : ∀ b, isr'.waiting b = isr.waiting b)
    (hlooks : ∀ b, s.txInflight b = true → s.pending b = false → isr.looksAt b = true →
      isr'.looksAt b = true) (hknows : isr'.Knows s) : Books s isr' where
  callback := h.callback
  balanced b := by
    rw [unseen, hwaiting]
    exact h.balanced b
  inflight := h.inflight
  noticed b hi hp := (h.noticed b hi hp).imp id (hlooks b hi hp)
  waiting b hb := h.waiting b (by rwa [← hwaiting])
  knows := hknows

theorem Books.acknowledge {s : Dev build} {tc tcf : Bool} (h : Books s (.acknowledge tc tcf)) :
    Books { s with tc := s.tc && !tc, tcf := s.tcf && !tcf } (.receive (tc || tcf)) where
  callback := h.callback
  balanced := h.balanced
  inflight := h.inflight
  noticed b hi hp := by
    have hold := h.noticed b hi hp
    simp only [Isr.looksAt] at hold ⊢
    cases tc <;> cases tcf <;> simp_all
  waiting := h.waiting
  knows := trivial

/-- The buffers that are done leave the bitmap and wait for their turn. -/
theorem Books.transmitted {s : Dev build} {done : Slot → Bool} (h : Books s (.transmitted done)) :
    Books { s with txInflight := fun b => s.txInflight b && !done b }
      (.report done s.txbto (List.finRange txBuffers)) := by
  have hdone : ∀ b, done b = true → s.txInflight b = true ∧ s.pending b = false := h.knows
  exact {
    callback := h.callback
    balanced := by
      intro b
      have hunseen : unseen { s with txInflight := fun b => s.txInflight b && !done b }
          (.report done s.txbto (List.finRange txBuffers)) b = unseen s (.transmitted done) b := by
        have hpending : ({ s with txInflight := fun b => s.txInflight b && !done b } :
          Dev build).pending b = s.pending b := rfl
        cases hb : done b with
        | true =>
          obtain ⟨hi, hp⟩ := hdone b hb
          simp [unseen, Isr.waiting, hpending, hb, hi, hp]
        | false => simp [unseen, Isr.waiting, hpending, hb]
      rw [hunseen]
      exact h.balanced b
    inflight := by
      intro b hp
      have hpending : s.pending b = true := hp
      have hnot : done b = false := by
        by_contra hd
        rw [(hdone b (by simpa using hd)).2] at hpending
        cases hpending
      simp only [h.inflight b hpending, hnot, Bool.not_false, Bool.and_self]
    noticed := by
      intro b hi hp
      simp only [Bool.and_eq_true, Bool.not_eq_true'] at hi
      rcases h.noticed b hi.1 hp with hflag | hlooks
      · exact .inl hflag
      · rw [Isr.looksAt, hi.2] at hlooks
        cases hlooks
    waiting := by
      intro b hb
      cases hd : done b with
      | true => simp [hd]
      | false => simp [Isr.waiting, hd] at hb
    knows := List.nodup_finRange _ }

theorem Books.report {s : Dev build} {done success : Slot → Bool} {b : Slot} {todo : List Slot}
    (h : Books s (.report done success (b :: todo))) (hlive : s.listener.live = true)
    (hb : done b = true) : Books (s.report b (success b)) (.callback done success todo) := by
  have hnodup : (b :: todo).Nodup := h.knows
  obtain ⟨hnot, htodo⟩ := List.nodup_cons.mp hnodup
  have hwait : Isr.waiting (.report done success (b :: todo)) b = some (success b) := by
    simp [Isr.waiting, hb]
  have hfree : s.txInflight b = false := h.waiting b (by simp [hwait])
  have hgone : Isr.waiting (.callback done success todo) b = none := by
    simp [Isr.waiting, waitsTurn_of_not_mem hnot]
  have hother {c : Slot} (hc : c ≠ b) : Isr.waiting (.report done success (b :: todo)) c =
      Isr.waiting (.callback done success todo) c := by
    simp only [Isr.waiting, waitsTurn_cons_of_ne hc]
  exact {
    callback := h.callback
    balanced := by
      intro c
      by_cases hc : c = b
      · subst hc
        have hbefore : unseen s (.report done success (c :: todo)) c = some (success c) := by
          simp [unseen, hfree, hwait]
        have hunseen : unseen (s.report c (success c)) (.callback done success todo) c = none := by
          simp [unseen, Dev.report, hfree, hgone]
        have hold := h.balanced c
        rw [hbefore] at hold
        rw [hunseen]
        simp only [Dev.report, h.callback, if_true, Listener.report_account_self _ _ hlive]
        exact hold.report
      · have hunseen : unseen (s.report b (success b)) (.callback done success todo) c =
            unseen s (.report done success (b :: todo)) c := by
          rw [unseen, unseen, hother hc]
          rfl
        rw [hunseen]
        simp only [Dev.report, h.callback, if_true, Listener.report_account_of_ne _ hc]
        exact h.balanced c
    inflight := h.inflight
    noticed := by
      intro c hi hp
      have hold := h.noticed c hi hp
      simp only [Isr.looksAt, Bool.false_eq_true, or_false] at hold ⊢
      exact hold
    waiting := by
      intro c hc
      have hcb : c ≠ b := by
        rintro rfl
        exact hc hgone
      rw [← hother hcb] at hc
      exact h.waiting c hc
    knows := htodo }

theorem IsrStep.books {s dev : Dev build} {isr isr' : Isr} (hs : IsrStep s isr dev isr')
    (h : Books s isr) (hlive : s.listener.live = true) : Books dev isr' := by
  cases hs with
  | entry => exact h.goto (fun _ => rfl) (fun _ _ _ hl => by cases hl) trivial
  | acknowledge => exact h.acknowledge
  | @receive tx =>
    cases tx with
    | true => exact h.goto (fun _ => rfl) (fun _ _ _ _ => rfl) trivial
    | false => exact h.goto (fun _ => rfl) (fun _ _ _ hl => by cases hl) trivial
  | snapshot =>
    refine h.goto (fun _ => rfl) ?_ ?_
    · intro b hi hp _
      simp [Isr.looksAt, hi, hp]
    · intro b hb
      simpa using hb
  | transmitted => exact h.transmitted
  | reported hdone =>
    rw [h.callback, if_pos rfl]
    exact h.report hlive hdone
  | @skipped done success b todo hdone =>
    have hnodup : (b :: todo).Nodup := h.knows
    have hwaiting (c : Slot) : Isr.waiting (.report done success todo) c =
        Isr.waiting (.report done success (b :: todo)) c := by
      simp only [Isr.waiting, waitsTurn_cons_of_not_done hdone]
    exact h.goto hwaiting (fun _ _ _ hl => by cases hl) (List.nodup_cons.mp hnodup).2
  | finished =>
    exact h.goto (fun _ => by simp [Isr.waiting]) (fun _ _ _ hl => by cases hl) trivial
  | callback => exact h.goto (fun _ => rfl) (fun _ _ _ hl => by cases hl) h.knows
  | errors => exact h.goto (fun _ => rfl) (fun _ _ _ hl => by cases hl) trivial

def Assigned (s : Dev build) : Task build → Prop
  | .setCallback _ .snapshot => s.callback = true
  | _ => True

structure CompleteInv (s : State build) : Prop where
  live : s.dev.listener.live = true → LiveInv s
  assigned : Assigned s.dev s.task

/-- One step of a call keeps the books, unless it requests a buffer that is not settled. -/
theorem CallStep.books {put : ℕ} {s s' : Dev build} {isr : Isr} {call : Call build}
    {progress : Progress build} (hs : CallStep config put s call s' progress) (h : Books s isr)
    (hlive : s.listener.live = true)
    (hok : ∀ b, call.requests = some b → s.txInflight b = false ∧ isr.waiting b = none) :
    Books s' isr := by
  cases hs with
  | refused | moved | chosen => exact h
  | stored => exact h.congr rfl rfl rfl rfl rfl rfl rfl
  | requested =>
    obtain ⟨hfree, hwait⟩ := hok _ rfl
    exact h.request hlive hfree hwait

/-- A call leaves the interrupt enables and the callback alone. -/
theorem CallStep.settings {put : ℕ} {s s' : Dev build} {call : Call build}
    {progress : Progress build} (hs : CallStep config put s call s' progress) :
    s'.txbtie = s.txbtie ∧ s'.txbcie = s.txbcie ∧ s'.callback = s.callback ∧
      s'.listener.live = s.listener.live := by
  cases hs with
  | refused | moved | chosen | stored => exact ⟨rfl, rfl, rfl, rfl⟩
  | requested => simp [Dev.request]

theorem CallStep.enabled {put : ℕ} {s s' : Dev build} {call : Call build}
    {progress : Progress build} {task : Task build}
    (hs : CallStep config put s call s' progress) (h : Enabled s task) : Enabled s' task := by
  obtain ⟨htie, hcie, -, -⟩ := hs.settings
  cases task with
  | setCallback callback stage =>
    cases stage with
    | clearFlags =>
      cases hs with
      | refused | moved | chosen | stored => exact h
      | @requested buffer msg =>
        intro b hb
        by_cases hbb : b = buffer
        · subst hbb
          exact pending_request_self s b msg
        · rw [pending_request_of_ne s msg hbb]
          apply h b
          simpa only [Dev.request, Function.update_of_ne hbb] using hb
    | enableTransmitted => trivial
    | enableCancelled => exact htie.trans h
    | _ => exact ⟨htie.trans h.1, hcie.trans h.2⟩
  | _ => exact ⟨htie.trans h.1, hcie.trans h.2⟩

/-- The handler leaves the interrupt enables, the callback and the requests alone. -/
theorem IsrStep.settings {s dev : Dev build} {isr isr' : Isr} (h : IsrStep s isr dev isr') :
    dev.txbtie = s.txbtie ∧ dev.txbcie = s.txbcie ∧ dev.callback = s.callback ∧
      dev.listener.live = s.listener.live := by
  cases h with
  | reported =>
    refine ⟨rfl, rfl, rfl, ?_⟩
    cases hc : s.callback <;> simp [Dev.report, hc]
  | _ => exact ⟨rfl, rfl, rfl, rfl⟩

theorem IsrStep.inflight {s dev : Dev build} {isr isr' : Isr} (h : IsrStep s isr dev isr')
    {b : Slot} (hb : dev.txInflight b = true) : s.txInflight b = true := by
  cases h with
  | transmitted => exact (Bool.and_eq_true_iff.mp hb).1
  | _ => exact hb

theorem IsrStep.enabled {s dev : Dev build} {isr isr' : Isr} {task : Task build}
    (hs : IsrStep s isr dev isr') (h : Enabled s task) : Enabled dev task := by
  obtain ⟨htie, hcie, -, -⟩ := hs.settings
  cases task with
  | setCallback callback stage =>
    cases stage with
    | clearFlags =>
      intro b hb
      rw [Dev.pending, hs.slots]
      exact h b (hs.inflight hb)
    | enableTransmitted => trivial
    | enableCancelled => exact htie.trans h
    | _ => exact ⟨htie.trans h.1, hcie.trans h.2⟩
  | _ => exact ⟨htie.trans h.1, hcie.trans h.2⟩

theorem Assigned.congr {s s' : Dev build} {task : Task build} (h : Assigned s task)
    (hcallback : s'.callback = s.callback) : Assigned s' task := by
  cases task with
  | setCallback callback stage =>
    cases stage with
    | snapshot => exact hcallback.trans h
    | _ => trivial
  | _ => trivial

theorem CompleteInv.complete {s : State build} (h : CompleteInv s) {b : Slot} {ok : Bool}
    (hb : s.dev.pending b = true) (hok : KeepsBooks s (.complete b ok)) :
    CompleteInv { s with dev := s.dev.complete b ok } where
  live := by
    intro hl
    have hlive : s.dev.listener.live = true := by simpa [Dev.complete] using hl
    have hold := h.live hlive
    obtain ⟨-, hnoticed⟩ := hok hlive
    have hflag (htie : s.dev.txbtie = true) (hcie : s.dev.txbcie = true) :
        s.dev.raisesFlag b ok = true := by
      cases ok <;> simp [Dev.raisesFlag, htie, hcie]
    have henabled := hold.enabled
    have hraises : s.dev.raisesFlag b ok = true := by
      cases htask : s.task with
      | setCallback callback stage =>
        rw [htask] at henabled
        cases stage with
        | clearFlags => simp [State.unnoticed, htask] at hnoticed
        | enableTransmitted | enableCancelled => simpa [State.unnoticed, htask] using hnoticed
        | _ => exact hflag henabled.1 henabled.2
      | _ =>
        rw [htask] at henabled
        exact hflag henabled.1 henabled.2
    exact {
      live := hl
      books := hold.books.complete hlive hb hraises
      enabled := by
        cases htask : s.task with
        | setCallback callback stage =>
          rw [htask] at henabled
          cases stage with
          | clearFlags => simp [State.unnoticed, htask] at hnoticed
          | _ => exact henabled
        | _ =>
          rw [htask] at henabled
          exact henabled
      registered := hold.registered }
  assigned := h.assigned.congr rfl

theorem CompleteInv.keep {s t : State build} (h : CompleteInv s) (htask : t.task = s.task)
    (hlive : t.dev.listener.live = s.dev.listener.live)
    (hcallback : t.dev.callback = s.dev.callback)
    (hbooks : s.dev.listener.live = true → Books s.dev s.isr → Books t.dev t.isr)
    (henabled : Enabled s.dev s.task → Enabled t.dev s.task) : CompleteInv t where
  live hl :=
    have hold := h.live (hlive.symm.trans hl)
    { live := hl
      books := hbooks hold.live hold.books
      enabled := htask ▸ henabled hold.enabled
      registered := htask ▸ hold.registered }
  assigned := htask ▸ h.assigned.congr hcallback

theorem State.goto_completeInv (s : State build) (dev : Dev build) (task : Task build)
    (returns : List (Return (Msg build.dataSize)))
    (timeouts : List (Timeout (Msg build.dataSize)))
    (hlive : dev.listener.live = s.dev.listener.live)
    (hbooks : s.dev.listener.live = true → Books dev s.isr)
    (henabled : s.dev.listener.live = true → Enabled dev task) (hregistered : task.Registered)
    (hassigned : Assigned dev task) :
    CompleteInv { s with dev := dev, task := task, returns := returns, timeouts := timeouts } where
  live hl :=
    have hold := hlive.symm.trans hl
    { live := hl, books := hbooks hold, enabled := henabled hold, registered := hregistered }
  assigned := hassigned

theorem setCallbackStep_completeInv {s : State build} (h : CompleteInv s) (hidle : s.isr = .idle)
    {callback : Bool} {stage : Stage} (htask : s.task = .setCallback callback stage) :
    CompleteInv { s with
      dev := (setCallbackStep s.dev callback stage).1
      task := (setCallbackStep s.dev callback stage).2 } := by
  have hlive (hl : s.dev.listener.live = true) : LiveInv s := h.live hl
  cases stage with
  | disable => exact ⟨(fun hl => by cases hl), trivial⟩
  | assign =>
    constructor
    · intro hl
      have hregistered := (hlive hl).registered
      rw [htask] at hregistered
      exact hregistered.elim
    · cases callback <;> trivial
  | snapshot =>
    have hcallback : s.dev.callback = true := by
      have hassigned := h.assigned
      rwa [htask] at hassigned
    refine ⟨fun hl => ?_, trivial⟩
    exact ⟨hl, hidle ▸ Books.start hcallback, fun _ => id, trivial⟩
  | clearFlags =>
    refine ⟨fun hl => ?_, trivial⟩
    have hold := hlive hl
    have hpending := hold.enabled
    rw [htask] at hpending
    have hbooks := hold.books
    rw [hidle] at hbooks
    exact ⟨hl, hidle ▸ hbooks.clearFlags hpending, trivial, trivial⟩
  | enableTransmitted =>
    refine ⟨fun hl => ?_, trivial⟩
    exact ⟨hl, (hlive hl).books.congr rfl rfl rfl rfl rfl rfl rfl, rfl, trivial⟩
  | enableCancelled =>
    refine ⟨fun hl => ?_, trivial⟩
    have henabled := (hlive hl).enabled
    rw [htask] at henabled
    exact ⟨hl, (hlive hl).books.congr rfl rfl rfl rfl rfl rfl rfl, ⟨henabled, rfl⟩, trivial⟩
  | enable =>
    refine ⟨fun hl => ?_, trivial⟩
    have henabled := (hlive hl).enabled
    rw [htask] at henabled
    exact ⟨hl, (hlive hl).books.congr rfl rfl rfl rfl rfl rfl rfl, henabled, trivial⟩
  | disableTransmitted | disableCancelled =>
    refine ⟨fun hl => ?_, trivial⟩
    have hregistered := (hlive hl).registered
    rw [htask] at hregistered
    exact hregistered.elim

theorem taskStep_completeInv {put : ℕ} {expired : Bool} {s t : State build} (h : CompleteInv s)
    (hidle : s.isr = .idle) (hok : KeepsBooks s (.taskStep put expired))
    (hs : taskStep config put expired s = some t) : CompleteInv t := by
  have hbooks (hl : s.dev.listener.live = true) : Books s.dev s.isr := (h.live hl).books
  have henabled (hl : s.dev.listener.live = true) : Enabled s.dev s.task := (h.live hl).enabled
  have hcalls {call : Call build} {dev : Dev build} {progress : Progress build}
      (hcall : s.task.call = some call) (hstep : CallStep config put s.dev call dev progress)
      (hl : s.dev.listener.live = true) : Books dev s.isr := by
    apply hstep.books (hbooks hl) hl
    intro b hb
    apply (hok hl).1 b
    simp only [State.requests, hcall, Option.bind_some, hb]
  cases htask : s.task with
  | idle => simp [taskStep, htask] at hs
  | nowait call | transmit call =>
    rw [htask] at henabled
    cases hcs : callStep config put s.dev call with
    | mk dev progress =>
      have hstep := callStep_spec hcs
      obtain ⟨htie, hcie, hcallback, hlive⟩ := hstep.settings
      have hcall : s.task.call = some call := by rw [htask]; rfl
      have hplain (hl : s.dev.listener.live = true) : dev.txbtie = true ∧ dev.txbcie = true :=
        ⟨htie.trans (henabled hl).1, hcie.trans (henabled hl).2⟩
      cases progress <;>
        simp only [taskStep, htask, hcs, Option.some.injEq] at hs <;>
        subst hs <;>
        exact s.goto_completeInv dev _ s.returns s.timeouts hlive (hcalls hcall hstep) hplain
          trivial trivial
  | poll b msg index =>
    rw [htask] at henabled
    cases hb : s.dev.pending b <;>
      simp only [taskStep, htask, hb, Bool.false_eq_true, if_true, if_false,
        Option.some.injEq] at hs <;>
      subst hs <;>
      exact s.goto_completeInv s.dev _ s.returns s.timeouts rfl hbooks henabled trivial trivial
  | deadline b msg index =>
    rw [htask] at henabled
    simp only [taskStep, htask, Option.some.injEq] at hs
    subst hs
    cases expired with
    | true =>
      exact s.goto_completeInv s.dev (.abort b msg index) s.returns s.timeouts rfl hbooks henabled
        trivial trivial
    | false =>
      exact s.goto_completeInv s.dev (.poll b msg index) s.returns s.timeouts rfl hbooks henabled
        trivial trivial
  | abort b msg index =>
    rw [htask] at henabled
    simp only [taskStep, htask, Option.some.injEq] at hs
    subst hs
    exact s.goto_completeInv _ .idle _ _ rfl
      (fun hl => (hbooks hl).congr rfl rfl rfl rfl rfl rfl rfl) henabled trivial trivial
  | outcome b msg index =>
    rw [htask] at henabled
    simp only [taskStep, htask, Option.some.injEq] at hs
    subst hs
    exact s.goto_completeInv s.dev .idle _ s.timeouts rfl hbooks henabled trivial trivial
  | setCallback callback stage =>
    simp only [taskStep, htask, Option.some.injEq] at hs
    subst hs
    exact setCallbackStep_completeInv h hidle htask

theorem CompleteInv.start {s : State build} (h : CompleteInv s) (hidle : s.task.isIdle = true)
    {task : Task build}
    (henabled : s.dev.txbtie = true ∧ s.dev.txbcie = true → Enabled s.dev task)
    (hregistered : task.Registered) (hassigned : Assigned s.dev task) :
    CompleteInv { s with task := task } := by
  have hplain (hl : s.dev.listener.live = true) : Enabled s.dev task := by
    have hold := (h.live hl).enabled
    cases htask : s.task with
    | idle =>
      rw [htask] at hold
      exact henabled hold
    | _ =>
      rw [htask] at hidle
      cases hidle
  exact s.goto_completeInv s.dev task s.returns s.timeouts rfl (fun hl => (h.live hl).books)
    hplain hregistered hassigned

theorem step_completeInv {s t : State build} {action : Action build} (h : CompleteInv s)
    (hok : KeepsBooks s action) (hs : step config s action = some t) : CompleteInv t := by
  cases action with
  | complete b ok =>
    simp only [step, Option.ite_none_right_eq_some, Option.some.injEq, Bool.and_eq_true] at hs
    exact hs.2 ▸ h.complete hs.1.1 hok
  | setInit init | abort =>
    simp only [step, Option.some.injEq] at hs
    subst hs
    exact h.keep rfl rfl rfl (fun _ hbooks => hbooks.congr rfl rfl rfl rfl rfl rfl rfl)
      fun he => he.congr rfl rfl rfl rfl
  | nowait msg | transmit msg | setCallback callback =>
    simp only [step, Option.ite_none_right_eq_some, Option.some.injEq, Bool.and_eq_true] at hs
    exact hs.2 ▸ h.start hs.1.2 id trivial trivial
  | taskStep put expired =>
    simp only [step, Option.ite_none_right_eq_some, Bool.and_eq_true, State.taskRuns] at hs
    exact taskStep_completeInv h (Isr.eq_idle hs.1.1.1) hok hs.2
  | irq =>
    simp only [step, Option.ite_none_right_eq_some, Option.some.injEq, Bool.and_eq_true,
      State.taskRuns] at hs
    obtain ⟨⟨hidle, -⟩, rfl⟩ := hs
    refine h.keep rfl rfl rfl (fun _ hbooks => ?_) id
    rw [Isr.eq_idle hidle] at hbooks
    exact hbooks.goto (fun _ => rfl) (fun _ _ _ hlooks => by cases hlooks) trivial
  | callback msg =>
    simp only [step, Option.ite_none_right_eq_some, Option.some.injEq] at hs
    obtain ⟨-, rfl⟩ := hs
    exact h.keep rfl rfl rfl (fun _ => id) id
  | isrStep put =>
    cases hcall : s.call with
    | none =>
      simp only [step, hcall, Option.map_eq_some_iff] at hs
      obtain ⟨⟨dev, isr⟩, hisr, rfl⟩ := hs
      have hstep := isrStep_spec hisr
      obtain ⟨-, -, hcallback, hlive⟩ := hstep.settings
      exact h.keep rfl hlive hcallback (fun hl hbooks => hstep.books hbooks hl) hstep.enabled
    | some call =>
      simp only [step, hcall, Option.ite_none_right_eq_some] at hs
      obtain ⟨hput, hs⟩ := hs
      cases hcs : callStep config put s.dev call with
      | mk dev progress =>
        have hstep := callStep_spec hcs
        obtain ⟨-, -, hcallback, hlive⟩ := hstep.settings
        have hnext (next : Option (Call build)) :
            CompleteInv { s with dev := dev, call := next } := by
          refine h.keep rfl hlive hcallback (fun hl hbooks => hstep.books hbooks hl ?_)
            hstep.enabled
          intro b hb
          apply (hok hl).1 b
          simp only [State.requests, hcall, Option.bind_some, hb]
        cases progress <;>
          simp only [hcs, Option.some.injEq] at hs <;>
          subst hs <;>
          exact hnext _

theorem initial_completeInv (words : Slot → Element) :
    CompleteInv (initial words : State build) :=
  ⟨(fun hl => by cases hl), trivial⟩

/-- All flags are down and the handler is idle. -/
def State.Quiet (s : State build) : Prop :=
  s.isr = .idle ∧ s.dev.tc = false ∧ s.dev.tcf = false

/-- In every run that keeps the books, the callback learns the outcome of every frame, and a
buffer in `tx_inflight` without a request has its flag raised or its handler looking at it. -/
theorem exec_accounted {words : Slot → Element} {run : List (Action build)} {s : State build}
    (hok : Along (step config) KeepsBooks (initial words) run)
    (hrun : exec (step config) (initial words) run = some s) (hlive : s.dev.listener.live = true)
    (b : Slot) :
    Accounted (s.dev.listener.account b) (s.dev.slots.request b) s.Quiet ∧
      (s.dev.txInflight b = true → s.dev.pending b = false →
        (s.dev.tc || s.dev.tcf) = true ∨ s.isr.looksAt b = true) := by
  have hinv : CompleteInv s :=
    exec_invariant (fun _ _ _ h hok hs => step_completeInv h hok hs) (initial_completeInv words)
      hok hrun
  have hbooks := (hinv.live hlive).books
  refine ⟨.of_balanced (hbooks.balanced b) ?_, hbooks.noticed b⟩
  rintro ⟨hidle, htc, htcf⟩
  apply unseen_eq_none
  · intro hi
    by_contra hp
    rcases hbooks.noticed b hi (by simpa using hp) with hflag | hlooks
    · simp [htc, htcf] at hflag
    · rw [hidle] at hlooks
      cases hlooks
  · rw [hidle]
    rfl

end UniHal.Can.Fdcan.Transmit
