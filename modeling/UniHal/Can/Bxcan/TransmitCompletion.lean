import UniHal.Can.Bxcan.TransmitOwnership

/-! # Completions on bxCAN

The status register keeps the completion of a mailbox until the interrupt acknowledges it, and
from there on the handler keeps it until its turn comes. Together they account for every
outcome, as long as no mailbox is requested again while one of them still holds its completion.
-/

namespace UniHal.Can.Bxcan.Transmit
open Foundations Foundations.Execution

variable {build : Build} {config : Config}

/-- The outcome of a mailbox that waits its turn in the handler. -/
def Isr.waiting : Isr → Slot → Option Bool
  | .report done success todo, b | .callback done success todo, b =>
    if waitsTurn done todo b then some (success b) else none
  | _, _ => none

def Call.requests : Call build → Option Slot
  | .raise b _ _ => some b
  | _ => none

def State.requests (s : State build) : Action build → Option Slot
  | .taskStep _ _ => s.task.call.bind Call.requests
  | .isrStep _ => s.call.bind Call.requests
  | _ => none

/-- No request, no completion flag and no turn in the handler is left of the frame before. -/
def State.settled (s : State build) (b : Slot) : Prop :=
  s.dev.pending b = false ∧ s.dev.rqcp b = false ∧ s.isr.waiting b = none

instance (s : State build) (b : Slot) : Decidable (s.settled b) :=
  inferInstanceAs (Decidable (_ ∧ _ ∧ _))

/-- While a callback is registered, no mailbox is requested whose completion is still in the
status register or in the running handler. -/
def KeepsBooks (s : State build) (action : Action build) : Prop :=
  s.dev.listener.live = true → ∀ b, s.requests action = some b → s.settled b

instance (s : State build) : DecidablePred (KeepsBooks s) := fun action =>
  inferInstanceAs (Decidable (_ → ∀ b, s.requests action = some b → s.settled b))

def unseen (s : Dev build) (isr : Isr) (b : Slot) : Option Bool :=
  if s.rqcp b then some (s.txok b) else isr.waiting b

def Isr.Knows (s : Dev build) : Isr → Prop
  | .acknowledge done success =>
    ∀ b, done b = true → s.rqcp b = true ∧ s.txok b = success b
  | .report _ _ todo | .callback _ _ todo => todo.Nodup
  | _ => True

/-- The bookkeeping accounts for every outcome. -/
structure Books (s : Dev build) (isr : Isr) : Prop where
  callback : s.callback = true
  balanced : ∀ b, (s.listener.account b).Balanced (s.slots.request b) (unseen s isr b)
  waiting : ∀ b, isr.waiting b ≠ none → s.rqcp b = false
  knows : isr.Knows s

/-- A stage of the registration that a registered callback can be in. -/
def Task.Registered : Task build → Prop
  | .setCallback _ .assign | .setCallback _ .clearFlags => False
  | _ => True

def Assigned (s : Dev build) : Task build → Prop
  | .setCallback _ .clearFlags => s.callback = true
  | _ => True

structure CompleteInv (s : State build) : Prop where
  books : s.dev.listener.live = true → Books s.dev s.isr
  registered : s.dev.listener.live = true → s.task.Registered
  assigned : Assigned s.dev s.task

theorem Books.congr {s s' : Dev build} {isr : Isr} (h : Books s isr)
    (hrequest : s'.slots.request = s.slots.request) (hrqcp : s'.rqcp = s.rqcp)
    (htxok : s'.txok = s.txok) (hcallback : s'.callback = s.callback)
    (hlistener : s'.listener = s.listener) : Books s' isr where
  callback := hcallback.trans h.callback
  balanced := by
    intro b
    simpa only [unseen, hrequest, hrqcp, htxok, hlistener] using h.balanced b
  waiting := by simpa only [hrqcp] using h.waiting
  knows := by
    have hold := h.knows
    cases isr with
    | acknowledge done success => simpa only [Isr.Knows, hrqcp, htxok] using hold
    | report | callback => exact hold
    | _ => trivial

/-- A pending mailbox has no completion that is still to be reported. -/
theorem Books.settled {s : Dev build} {isr : Isr} (h : Books s isr) {b : Slot}
    (hb : s.pending b = true) : s.rqcp b = false ∧ isr.waiting b = none := by
  have hseen := (h.balanced b).seen hb
  cases hr : s.rqcp b with
  | true => simp [unseen, hr] at hseen
  | false => simpa [unseen, hr] using hseen

/-- What the handler knows of the other mailboxes does not change with one that is settled. -/
theorem Books.handler_of_ne {s s' : Dev build} {isr : Isr} (h : Books s isr) {b : Slot}
    (hfree : s.rqcp b = false) (hwait : isr.waiting b = none)
    (hother : ∀ {c}, c ≠ b → s'.rqcp c = s.rqcp c ∧ s'.txok c = s.txok c) :
    (∀ c, isr.waiting c ≠ none → s'.rqcp c = false) ∧ isr.Knows s' := by
  refine ⟨fun c hc => ?_, ?_⟩
  · have hcb : c ≠ b := by
      rintro rfl
      exact hc hwait
    rw [(hother hcb).1]
    exact h.waiting c hc
  · have hold := h.knows
    cases isr with
    | acknowledge done success =>
      intro c hc
      have hcb : c ≠ b := by
        rintro rfl
        rw [(hold c hc).1] at hfree
        cases hfree
      rw [(hother hcb).1, (hother hcb).2]
      exact hold c hc
    | report | callback => exact hold
    | _ => trivial

theorem Books.complete {s : Dev build} {isr : Isr} (h : Books s isr)
    (hlive : s.listener.live = true) {b : Slot} {ok : Bool} (hb : s.pending b = true) :
    Books (s.complete b ok) isr := by
  obtain ⟨hfree, hwait⟩ := h.settled hb
  have hother {c : Slot} (hc : c ≠ b) :
      (s.complete b ok).rqcp c = s.rqcp c ∧ (s.complete b ok).txok c = s.txok c :=
    ⟨Function.update_of_ne hc .., Function.update_of_ne hc ..⟩
  exact {
    callback := h.callback
    balanced := by
      intro c
      by_cases hc : c = b
      · subst hc
        have hunseen : unseen (s.complete c ok) isr c = some ok := by
          simp [unseen, Dev.complete]
        rw [hunseen]
        simp only [Dev.complete, Listener.record_account_self _ _ hlive, Slots.finish_request_self]
        exact (h.balanced c).finish hb ok _
      · have hunseen : unseen (s.complete b ok) isr c = unseen s isr c := by
          simp only [unseen, (hother hc).1, (hother hc).2]
        rw [hunseen]
        simp only [Dev.complete, Listener.record_account_of_ne _ hc,
          Slots.finish_request_of_ne _ _ _ hc]
        exact h.balanced c
    waiting := (h.handler_of_ne hfree hwait hother).1
    knows := (h.handler_of_ne hfree hwait hother).2 }

/-- A request of a mailbox that has nothing left to report. -/
theorem Books.request {s : Dev build} {isr : Isr} (h : Books s isr)
    (hlive : s.listener.live = true) {b : Slot} {msg : Msg build.dataSize} {tir : BitVec 32}
    (hnone : s.pending b = false) (hfree : s.rqcp b = false) (hwait : isr.waiting b = none) :
    Books (s.request b msg tir) isr := by
  have hother {c : Slot} (hc : c ≠ b) : (s.request b msg tir).rqcp c = s.rqcp c ∧
      (s.request b msg tir).txok c = s.txok c :=
    ⟨Function.update_of_ne hc .., Function.update_of_ne hc ..⟩
  have hself : (s.request b msg tir).rqcp b = false := Function.update_self ..
  exact {
    callback := by
      by_cases hp : s.pending b = true <;> simp [Dev.request, Dev.store, hp, h.callback]
    balanced := by
      intro c
      by_cases hc : c = b
      · subst hc
        have hbefore : unseen s isr c = none := by simp [unseen, hfree, hwait]
        have hunseen : unseen (s.request c msg tir) isr c = none := by
          simp [unseen, hself, hwait]
        have hold := h.balanced c
        rw [Slots.pending_eq_false.mp hnone, hbefore] at hold
        rw [hunseen]
        simp only [Dev.request, Listener.record_account_self _ _ hlive, Slots.accept_request_self]
        exact hold.accept msg
      · have hunseen : unseen (s.request b msg tir) isr c = unseen s isr c := by
          simp only [unseen, (hother hc).1, (hother hc).2]
        rw [hunseen]
        simp only [Dev.request, Listener.record_account_of_ne _ hc,
          Slots.accept_request_of_ne _ _ hc, store_request]
        exact h.balanced c
    waiting := (h.handler_of_ne hfree hwait hother).1
    knows := (h.handler_of_ne hfree hwait hother).2 }

/-- The books open with the requests that are pending, and without their flags. -/
theorem Books.start {s : Dev build} (hcallback : s.callback = true) :
    Books { s with rqcp := fun _ => false, txok := fun _ => false, listener := .start s.slots }
      .idle where
  callback := hcallback
  balanced _ := Account.balanced_opened _
  waiting _ _ := rfl
  knows := trivial

/-- The handler moves on without a look at the mailboxes. -/
theorem Books.goto {s : Dev build} {isr isr' : Isr} (h : Books s isr)
    (hwaiting : ∀ b, isr'.waiting b = isr.waiting b) (hknows : isr'.Knows s) : Books s isr' where
  callback := h.callback
  balanced b := by
    rw [unseen, hwaiting]
    exact h.balanced b
  waiting b hb := h.waiting b (by rwa [← hwaiting])
  knows := hknows

/-- The completions that are acknowledged wait for their turn. -/
theorem Books.acknowledge {s : Dev build} {done success : Slot → Bool}
    (h : Books s (.acknowledge done success)) :
    Books { s with
        rqcp := fun b => s.rqcp b && !done b
        txok := fun b => s.txok b && !done b }
      (.report done success (List.finRange txMailboxes)) := by
  have hdone : ∀ b, done b = true → s.rqcp b = true ∧ s.txok b = success b := h.knows
  exact {
    callback := h.callback
    balanced := by
      intro b
      have hunseen : unseen { s with
            rqcp := fun b => s.rqcp b && !done b
            txok := fun b => s.txok b && !done b }
          (.report done success (List.finRange txMailboxes)) b =
          unseen s (.acknowledge done success) b := by
        cases hb : done b with
        | true =>
          obtain ⟨hrqcp, htxok⟩ := hdone b hb
          simp [unseen, Isr.waiting, hb, hrqcp, htxok]
        | false => simp [unseen, Isr.waiting, hb]
      rw [hunseen]
      exact h.balanced b
    waiting := by
      intro b hb
      cases hd : done b with
      | true => simp [hd]
      | false => simp [Isr.waiting, hd] at hb
    knows := List.nodup_finRange _ }

theorem Books.report {s : Dev build} {done success : Slot → Bool} {b : Slot} {todo : List Slot}
    (h : Books s (.report done success (b :: todo))) (hlive : s.listener.live = true)
    (hb : done b = true) : Books (s.report b (success b)) (.callback done success todo) := by
  have hnodup : (b :: todo).Nodup := h.knows
  obtain ⟨hnot, htodo⟩ := List.nodup_cons.mp hnodup
  have hwait : Isr.waiting (.report done success (b :: todo)) b = some (success b) := by
    simp [Isr.waiting, hb]
  have hfree : s.rqcp b = false := h.waiting b (by simp [hwait])
  have hgone : Isr.waiting (.callback done success todo) b = none := by
    simp [Isr.waiting, waitsTurn_of_not_mem hnot]
  have hother {c : Slot} (hc : c ≠ b) : Isr.waiting (.report done success (b :: todo)) c =
      Isr.waiting (.callback done success todo) c := by
    simp only [Isr.waiting, waitsTurn_cons_of_ne hc]
  exact {
    callback := h.callback
    balanced := by
      intro c
      by_cases hc : c = b
      · subst hc
        have hbefore : unseen s (.report done success (c :: todo)) c = some (success c) := by
          simp [unseen, hfree, hwait]
        have hunseen : unseen (s.report c (success c)) (.callback done success todo) c = none := by
          simp [unseen, Dev.report, hfree, hgone]
        have hold := h.balanced c
        rw [hbefore] at hold
        rw [hunseen]
        simp only [Dev.report, h.callback, if_true, Listener.report_account_self _ _ hlive]
        exact hold.report
      · have hunseen : unseen (s.report b (success b)) (.callback done success todo) c =
            unseen s (.report done success (b :: todo)) c := by
          rw [unseen, unseen, hother hc]
          rfl
        rw [hunseen]
        simp only [Dev.report, h.callback, if_true, Listener.report_account_of_ne _ hc]
        exact h.balanced c
    waiting := by
      intro c hc
      have hcb : c ≠ b := by
        rintro rfl
        exact hc hgone
      rw [← hother hcb] at hc
      exact h.waiting c hc
    knows := htodo }

theorem IsrStep.books {s dev : Dev build} {isr isr' : Isr} (hs : IsrStep s isr dev isr')
    (h : Books s isr) (hlive : s.listener.live = true) : Books dev isr' := by
  cases hs with
  | entry => exact h.goto (fun _ => rfl) fun b hb => ⟨hb, rfl⟩
  | acknowledge => exact h.acknowledge
  | reported hdone =>
    rw [h.callback, if_pos rfl]
    exact h.report hlive hdone
  | @skipped done success b todo hdone =>
    have hnodup : (b :: todo).Nodup := h.knows
    have hwaiting (c : Slot) : Isr.waiting (.report done success todo) c =
        Isr.waiting (.report done success (b :: todo)) c := by
      simp only [Isr.waiting, waitsTurn_cons_of_not_done hdone]
    exact h.goto hwaiting (List.nodup_cons.mp hnodup).2
  | finished => exact h.goto (fun _ => by simp [Isr.waiting]) trivial
  | callback => exact h.goto (fun _ => rfl) h.knows
  | errors => exact h.goto (fun _ => rfl) trivial

/-- One step of a call keeps the books, unless it requests a mailbox that is not settled. -/
theorem CallStep.books {code : ℕ} {s s' : Dev build} {isr : Isr} {call : Call build}
    {progress : Progress build} (hs : CallStep code s call s' progress) (h : Books s isr)
    (hlive : s.listener.live = true)
    (hok : ∀ b, call.requests = some b →
      s.pending b = false ∧ s.rqcp b = false ∧ isr.waiting b = none) :
    Books s' isr := by
  cases hs with
  | refused | moved | chosen | read => exact h
  | reset => exact h.congr rfl rfl rfl rfl rfl
  | @stored mailbox msg write rest =>
    by_cases hp : s.pending mailbox = true
    · rwa [Dev.store, if_pos hp]
    · rw [Dev.store, if_neg hp]
      exact h.congr rfl rfl rfl rfl rfl
  | requested =>
    obtain ⟨hnone, hfree, hwait⟩ := hok _ rfl
    exact h.request hlive hnone hfree hwait

theorem CallStep.settings {code : ℕ} {s s' : Dev build} {call : Call build}
    {progress : Progress build} (hs : CallStep code s call s' progress) :
    s'.callback = s.callback ∧ s'.listener.live = s.listener.live := by
  cases hs with
  | refused | moved | chosen | reset | read => exact ⟨rfl, rfl⟩
  | @stored mailbox msg write rest =>
    by_cases hp : s.pending mailbox = true <;> simp [Dev.store, hp]
  | @requested mailbox msg tir =>
    by_cases hp : s.pending mailbox = true <;> simp [Dev.request, Dev.store, hp]

theorem IsrStep.settings {s dev : Dev build} {isr isr' : Isr} (h : IsrStep s isr dev isr') :
    dev.callback = s.callback ∧ dev.listener.live = s.listener.live := by
  cases h with
  | reported =>
    refine ⟨rfl, ?_⟩
    cases hc : s.callback <;> simp [Dev.report, hc]
  | _ => exact ⟨rfl, rfl⟩

theorem Assigned.congr {s s' : Dev build} {task : Task build} (h : Assigned s task)
    (hcallback : s'.callback = s.callback) : Assigned s' task := by
  cases task with
  | setCallback callback stage =>
    cases stage with
    | clearFlags => exact hcallback.trans h
    | _ => trivial
  | _ => trivial

/-- A step that keeps the books and stays out of the registration. -/
theorem CompleteInv.move {s t : State build} (h : CompleteInv s)
    (hlive : t.dev.listener.live = s.dev.listener.live)
    (hbooks : s.dev.listener.live = true → Books s.dev s.isr → Books t.dev t.isr)
    (hregistered : t.task.Registered) (hassigned : Assigned t.dev t.task) : CompleteInv t where
  books hl :=
    have hold := hlive.symm.trans hl
    hbooks hold (h.books hold)
  registered _ := hregistered
  assigned := hassigned

theorem CompleteInv.keep {s t : State build} (h : CompleteInv s) (htask : t.task = s.task)
    (hlive : t.dev.listener.live = s.dev.listener.live)
    (hcallback : t.dev.callback = s.dev.callback)
    (hbooks : s.dev.listener.live = true → Books s.dev s.isr → Books t.dev t.isr) :
    CompleteInv t where
  books hl :=
    have hold := hlive.symm.trans hl
    hbooks hold (h.books hold)
  registered hl := htask ▸ h.registered (hlive.symm.trans hl)
  assigned := htask ▸ h.assigned.congr hcallback

theorem setCallbackStep_completeInv {s : State build} (h : CompleteInv s) (hidle : s.isr = .idle)
    {callback : Bool} {stage : Stage} (htask : s.task = .setCallback callback stage) :
    CompleteInv { s with
      dev := (setCallbackStep s.dev callback stage).1
      task := (setCallbackStep s.dev callback stage).2 } := by
  have hregistered (hl : s.dev.listener.live = true) : (Task.setCallback callback stage :
      Task build).Registered := htask ▸ h.registered hl
  cases stage with
  | disable => exact ⟨(fun hl => by cases hl), fun hl => (by cases hl), trivial⟩
  | assign =>
    refine ⟨fun hl => (hregistered hl).elim, fun hl => (hregistered hl).elim, ?_⟩
    cases callback with
    | true => exact rfl
    | false => trivial
  | clearFlags =>
    have hcallback : s.dev.callback = true := by
      have hassigned := h.assigned
      rwa [htask] at hassigned
    exact ⟨fun _ => hidle ▸ Books.start hcallback, fun _ => trivial, trivial⟩
  | enable =>
    exact h.move rfl (fun _ hbooks => hbooks.congr rfl rfl rfl rfl rfl) trivial trivial

theorem taskStep_completeInv {code : ℕ} {expired : Bool} {s t : State build} (h : CompleteInv s)
    (hidle : s.isr = .idle) (hok : KeepsBooks s (.taskStep code expired))
    (hs : taskStep code expired s = some t) : CompleteInv t := by
  have hcalls {call : Call build} {dev : Dev build} {progress : Progress build}
      (hcall : s.task.call = some call) (hstep : CallStep code s.dev call dev progress)
      (hl : s.dev.listener.live = true) (hbooks : Books s.dev s.isr) : Books dev s.isr := by
    apply hstep.books hbooks hl
    intro b hb
    apply hok hl b
    simp only [State.requests, hcall, Option.bind_some, hb]
  cases htask : s.task with
  | idle => simp [taskStep, htask] at hs
  | nowait call | transmit call =>
    cases hcs : callStep code s.dev call with
    | mk dev progress =>
      have hstep := callStep_spec hcs
      have hcall : s.task.call = some call := by rw [htask]; rfl
      cases progress <;>
        simp only [taskStep, htask, hcs, Option.some.injEq] at hs <;>
        subst hs <;>
        exact h.move hstep.settings.2 (hcalls hcall hstep) trivial trivial
  | poll b msg index =>
    cases hb : s.dev.pending b <;>
      simp only [taskStep, htask, hb, Bool.false_eq_true, if_true, if_false,
        Option.some.injEq] at hs <;>
      subst hs <;>
      exact h.move rfl (fun _ => id) trivial trivial
  | deadline b msg index =>
    simp only [taskStep, htask, Option.some.injEq] at hs
    subst hs
    cases expired <;> exact h.move rfl (fun _ => id) trivial trivial
  | abort b msg index =>
    simp only [taskStep, htask, Option.some.injEq] at hs
    subst hs
    exact h.move rfl (fun _ hbooks => hbooks.congr rfl rfl rfl rfl rfl) trivial trivial
  | outcome b msg index =>
    cases hb : s.dev.txok b <;>
      simp only [taskStep, htask, hb, Bool.false_eq_true, if_true, if_false,
        Option.some.injEq] at hs <;>
      subst hs <;>
      exact h.move rfl (fun _ => id) trivial trivial
  | kept b msg index =>
    simp only [taskStep, htask, Option.some.injEq] at hs
    subst hs
    exact h.move rfl (fun _ => id) trivial trivial
  | setCallback callback stage =>
    simp only [taskStep, htask, Option.some.injEq] at hs
    subst hs
    exact setCallbackStep_completeInv h hidle htask

theorem step_completeInv {s t : State build} {action : Action build} (h : CompleteInv s)
    (hok : KeepsBooks s action) (hs : step config s action = some t) : CompleteInv t := by
  cases action with
  | complete b ok =>
    simp only [step, Option.ite_none_right_eq_some, Option.some.injEq, Bool.and_eq_true] at hs
    obtain ⟨⟨hb, -⟩, rfl⟩ := hs
    exact h.keep rfl (by simp [Dev.complete]) rfl fun hl hbooks => hbooks.complete hl hb
  | setInak inak | abort =>
    simp only [step, Option.some.injEq] at hs
    subst hs
    exact h.keep rfl rfl rfl fun _ hbooks => hbooks.congr rfl rfl rfl rfl rfl
  | nowait msg | transmit msg | setCallback callback =>
    simp only [step, Option.ite_none_right_eq_some, Option.some.injEq] at hs
    obtain ⟨-, rfl⟩ := hs
    exact h.move rfl (fun _ => id) trivial trivial
  | taskStep code expired =>
    simp only [step, Option.ite_none_right_eq_some, Bool.and_eq_true, State.taskRuns] at hs
    exact taskStep_completeInv h (Isr.eq_idle hs.1.1.1) hok hs.2
  | pend =>
    simp only [step, Option.ite_none_right_eq_some, Option.some.injEq] at hs
    obtain ⟨-, rfl⟩ := hs
    exact h.keep rfl rfl rfl fun _ => id
  | txIrq | errorIrq =>
    simp only [step, Option.ite_none_right_eq_some, Option.some.injEq, Bool.and_eq_true,
      State.taskRuns] at hs
    obtain ⟨hruns, rfl⟩ := hs
    refine h.keep rfl rfl rfl fun _ hbooks => ?_
    have hidle : s.isr = .idle := Isr.eq_idle (by simp_all)
    rw [hidle] at hbooks
    exact hbooks.goto (fun _ => rfl) trivial
  | callback msg =>
    simp only [step, Option.ite_none_right_eq_some, Option.some.injEq] at hs
    obtain ⟨-, rfl⟩ := hs
    exact h.keep rfl rfl rfl fun _ => id
  | isrStep code =>
    cases hcall : s.call with
    | none =>
      simp only [step, hcall, Option.map_eq_some_iff] at hs
      obtain ⟨⟨dev, isr⟩, hisr, rfl⟩ := hs
      have hstep := isrStep_spec hisr
      obtain ⟨hcallback, hlive⟩ := hstep.settings
      exact h.keep rfl hlive hcallback fun hl hbooks => hstep.books hbooks hl
    | some call =>
      simp only [step, hcall, Option.ite_none_right_eq_some] at hs
      obtain ⟨hcode, hs⟩ := hs
      cases hcs : callStep code s.dev call with
      | mk dev progress =>
        have hstep := callStep_spec hcs
        obtain ⟨hcallback, hlive⟩ := hstep.settings
        have hnext (next : Option (Call build)) :
            CompleteInv { s with dev := dev, call := next } := by
          refine h.keep rfl hlive hcallback fun hl hbooks => hstep.books hbooks hl ?_
          intro b hb
          apply hok hl b
          simp only [State.requests, hcall, Option.bind_some, hb]
        cases progress <;>
          simp only [hcs, Option.some.injEq] at hs <;>
          subst hs <;>
          exact hnext _

theorem initial_completeInv (words : Slot → TxMailbox) :
    CompleteInv (initial words : State build) :=
  ⟨(fun hl => by cases hl), fun hl => (by cases hl), trivial⟩

/-- All completions are acknowledged and the handler is idle. -/
def State.Quiet (s : State build) : Prop := s.isr = .idle ∧ ∀ b, s.dev.rqcp b = false

/-- In every run that keeps the books, the callback learns the outcome of every frame. -/
theorem exec_accounted {words : Slot → TxMailbox} {run : List (Action build)} {s : State build}
    (hok : Along (step config) KeepsBooks (initial words) run)
    (hrun : exec (step config) (initial words) run = some s) (hlive : s.dev.listener.live = true)
    (b : Slot) : Accounted (s.dev.listener.account b) (s.dev.slots.request b) s.Quiet := by
  have hinv : CompleteInv s :=
    exec_invariant (fun _ _ _ h hok hs => step_completeInv h hok hs) (initial_completeInv words)
      hok hrun
  refine .of_balanced ((hinv.books hlive).balanced b) ?_
  rintro ⟨hidle, hrqcp⟩
  simp [unseen, hrqcp b, hidle, Isr.waiting]

end UniHal.Can.Bxcan.Transmit
