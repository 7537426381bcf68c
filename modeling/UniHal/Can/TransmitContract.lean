import UniHal.Can.Fdcan.TransmitBlocking
import UniHal.Can.Fdcan.TransmitCompletion
import UniHal.Can.Bxcan.TransmitBlocking
import UniHal.Can.Bxcan.TransmitCompletion

/-! # What both drivers owe to those who send

Ownership of the slots, the results of blocking calls and the reports of completions hold in
every run that keeps to the conditions of the drivers. Each condition is followed by a run that
breaks it, and with it the property.
-/

namespace UniHal.Can
open Foundations Foundations.Execution

def plainConfig : Config :=
  { inst := .can1, fd := false, bitrateData := 0, autoRetransmission := false,
    autoBusOff := false, txFifoPriority := false }

def plainMsg (id : BitVec 32) : Msg Build.classic.dataSize :=
  { Msg.zero Build.classic.dataSize with id := id, standardId := true }

namespace Fdcan.Transmit

def taskSteps (put n : ℕ) : List (Action .classic) := List.replicate n (.taskStep put false)

def isrSteps (put n : ℕ) : List (Action .classic) := List.replicate n (.isrStep put)

def listening : List (Action .classic) := .setInit false :: .setCallback true :: taskSteps 0 7

def queueing (put : ℕ) (id : BitVec 32) : List (Action .classic) :=
  .nowait (plainMsg id) :: taskSteps put 5

def nesting (put : ℕ) (id : BitVec 32) : List (Action .classic) :=
  .callback (plainMsg id) :: isrSteps put 5

def after (run : List (Action .classic)) : Option (State .classic) :=
  exec (step plainConfig) (initial fun _ _ => 0) run

end Fdcan.Transmit

namespace Bxcan.Transmit

def taskSteps (code n : ℕ) : List (Action .classic) := List.replicate n (.taskStep code false)

def isrSteps (code n : ℕ) : List (Action .classic) := List.replicate n (.isrStep code)

def listening : List (Action .classic) := .setInak false :: .setCallback true :: taskSteps 0 4

def queueing (code : ℕ) (id : BitVec 32) : List (Action .classic) :=
  .nowait (plainMsg id) :: taskSteps code 9

def nesting (code : ℕ) (id : BitVec 32) : List (Action .classic) :=
  .callback (plainMsg id) :: isrSteps code 9

def after (run : List (Action .classic)) : Option (State .classic) :=
  exec (step plainConfig) (initial fun _ => ⟨0, 0, 0, 0⟩) run

end Bxcan.Transmit

/-- In every run in which no callback chooses the slot that the interrupted call has chosen,
and on FDCAN no call of the task chooses from a full FIFO, the slots are owned by one call at a
time and the words of pending slots stay as they are. -/
theorem transmit_owned (build : Build) (config : Config) :
    (∀ (words : Slot → Fdcan.Element) (run : List (Fdcan.Transmit.Action build))
      (s : Fdcan.Transmit.State build),
      Along (Fdcan.Transmit.step config) (Fdcan.Transmit.KeepsApart config)
        (Fdcan.Transmit.initial words) run →
      exec (Fdcan.Transmit.step config) (Fdcan.Transmit.initial words) run = some s →
      Exclusive (Fdcan.canonical config) s.dev.slots s.task.slot s.isrSlot ∧
        ∀ action t, Fdcan.Transmit.step config s action = some t →
          Untouched s.dev.slots t.dev.slots) ∧
    (∀ (words : Slot → Bxcan.TxMailbox) (run : List (Bxcan.Transmit.Action build))
      (s : Bxcan.Transmit.State build),
      Along (Bxcan.Transmit.step config) Bxcan.Transmit.KeepsApart
        (Bxcan.Transmit.initial words) run →
      exec (Bxcan.Transmit.step config) (Bxcan.Transmit.initial words) run = some s →
      Exclusive Bxcan.canonical s.dev.slots s.task.slot s.isrSlot ∧
        ∀ action t, Bxcan.Transmit.step config s action = some t →
          Untouched s.dev.slots t.dev.slots) :=
  ⟨fun _ _ _ => Fdcan.Transmit.exec_exclusive, fun _ _ _ => Bxcan.Transmit.exec_exclusive⟩

/-- While a call of the task fills slot 1, frame 1 leaves slot 0, and the callback queues frame
3 there. -/
def Fdcan.Transmit.apartRun : List (Action .classic) :=
  listening ++ queueing 0 1 ++ .nowait (plainMsg 2) :: taskSteps 1 2 ++
    [.complete 0 true, .irq] ++ isrSteps 0 6 ++ nesting 0 3 ++ isrSteps 2 5 ++ taskSteps 2 3

def Bxcan.Transmit.apartRun : List (Action .classic) :=
  listening ++ queueing 0 1 ++ .nowait (plainMsg 2) :: taskSteps 1 2 ++
    [.complete 0 true, .pend, .txIrq] ++ isrSteps 0 3 ++ nesting 0 3 ++ isrSteps 2 4 ++
    taskSteps 2 7

theorem transmit_owned_nested :
    (∃ s, Fdcan.Transmit.after Fdcan.Transmit.apartRun = some s ∧
      s.dev.slots.request 0 = some (plainMsg 3) ∧ s.dev.slots.request 1 = some (plainMsg 2) ∧
      Exclusive (Fdcan.canonical plainConfig) s.dev.slots s.task.slot s.isrSlot) ∧
    (∃ s, Bxcan.Transmit.after Bxcan.Transmit.apartRun = some s ∧
      s.dev.slots.request 0 = some (plainMsg 3) ∧ s.dev.slots.request 1 = some (plainMsg 2) ∧
      Exclusive Bxcan.canonical s.dev.slots s.task.slot s.isrSlot) :=
  ⟨⟨_, rfl, rfl, rfl, ((transmit_owned .classic plainConfig).1 (fun _ _ => 0)
      Fdcan.Transmit.apartRun _ (by decide) rfl).1⟩,
    ⟨_, rfl, rfl, rfl, ((transmit_owned .classic plainConfig).2 (fun _ => ⟨0, 0, 0, 0⟩)
      Bxcan.Transmit.apartRun _ (by decide) rfl).1⟩⟩

/-- A call of the task has chosen slot 0 for frame 3 when frame 2 leaves slot 1, and the
callback queues frame 4 in slot 0. -/
def Fdcan.Transmit.sharedRun : List (Action .classic) :=
  listening ++ queueing 0 1 ++ queueing 1 2 ++ [.complete 0 true, .irq] ++ isrSteps 2 11 ++
    .nowait (plainMsg 3) :: taskSteps 0 2 ++ [.complete 1 true, .irq] ++ isrSteps 0 7 ++
    nesting 0 4 ++ isrSteps 1 4 ++ taskSteps 1 3

def Bxcan.Transmit.sharedRun : List (Action .classic) :=
  listening ++ queueing 0 1 ++ queueing 1 2 ++ [.complete 0 true, .pend, .txIrq] ++
    isrSteps 2 7 ++ .nowait (plainMsg 3) :: taskSteps 0 2 ++ [.complete 1 true, .pend, .txIrq] ++
    isrSteps 0 4 ++ nesting 0 4 ++ isrSteps 1 3 ++ taskSteps 1 7

theorem Fdcan.Transmit.sharedRun_end : ∃ s, after sharedRun = some s ∧
    s.dev.slots.history 0 =
      [.accepted (plainMsg 1), .finished true (plainMsg 1)] ++
        [.accepted (plainMsg 4), .accepted (plainMsg 3)] :=
  ⟨_, rfl, rfl⟩

theorem Bxcan.Transmit.sharedRun_end : ∃ s, after sharedRun = some s ∧
    s.dev.slots.history 0 =
      [.accepted (plainMsg 1), .finished true (plainMsg 1)] ++
        [.accepted (plainMsg 4), .accepted (plainMsg 3)] :=
  ⟨_, rfl, rfl⟩

/-- Both frames are reported as queued, and own the same slot at the same time. -/
theorem transmit_owned_shared :
    (∃ s, Fdcan.Transmit.after Fdcan.Transmit.sharedRun = some s ∧
      ¬ Exclusive (Fdcan.canonical plainConfig) s.dev.slots s.task.slot s.isrSlot) ∧
    (∃ s, Bxcan.Transmit.after Bxcan.Transmit.sharedRun = some s ∧
      ¬ Exclusive Bxcan.canonical s.dev.slots s.task.slot s.isrSlot) := by
  constructor
  · obtain ⟨s, hrun, hhistory⟩ := Fdcan.Transmit.sharedRun_end
    refine ⟨s, hrun, fun h => ?_⟩
    have hserial := h.serial 0
    rw [hhistory] at hserial
    exact not_serial_accepted_twice hserial
  · obtain ⟨s, hrun, hhistory⟩ := Bxcan.Transmit.sharedRun_end
    refine ⟨s, hrun, fun h => ?_⟩
    have hserial := h.serial 0
    rw [hhistory] at hserial
    exact not_serial_accepted_twice hserial

/-- In every run in which no callback chooses the slot of a blocking call before the call is
over, FDCAN does not choose from a full FIFO, and bxCAN does not bring an earlier success into
`tx_ok`, a result of true and an abort are about the frame of the call. -/
theorem transmit_returns_own (build : Build) (config : Config) :
    (∀ (words : Slot → Fdcan.Element) (run : List (Fdcan.Transmit.Action build))
      (s : Fdcan.Transmit.State build),
      Along (Fdcan.Transmit.step config) (Fdcan.Transmit.KeepsOff config)
        (Fdcan.Transmit.initial words) run →
      exec (Fdcan.Transmit.step config) (Fdcan.Transmit.initial words) run = some s →
      (∀ r ∈ s.returns, r.Sound (Fdcan.canonical config) s.dev.slots.history) ∧
        ∀ t ∈ s.timeouts, t.Sound s.dev.slots.history) ∧
    (∀ (words : Slot → Bxcan.TxMailbox) (run : List (Bxcan.Transmit.Action build))
      (s : Bxcan.Transmit.State build),
      Along (Bxcan.Transmit.step config) Bxcan.Transmit.KeepsOff
        (Bxcan.Transmit.initial words) run →
      exec (Bxcan.Transmit.step config) (Bxcan.Transmit.initial words) run = some s →
      (∀ r ∈ s.returns, r.Sound Bxcan.canonical s.dev.slots.history) ∧
        ∀ t ∈ s.timeouts, t.Sound s.dev.slots.history) :=
  ⟨fun _ _ _ => Fdcan.Transmit.exec_returns_sound, fun _ _ _ => Bxcan.Transmit.exec_returns_sound⟩

/-- A blocking call waits for slot 1 while the callback queues frame 3 in slot 0, and returns
true; another one times out. -/
def Fdcan.Transmit.blockingRun : List (Action .classic) :=
  listening ++ queueing 0 1 ++ .transmit (plainMsg 2) :: taskSteps 1 5 ++
    [.complete 0 true, .irq] ++ isrSteps 0 6 ++ nesting 0 3 ++ isrSteps 2 5 ++
    [.complete 1 true] ++ taskSteps 1 2 ++ .transmit (plainMsg 4) :: taskSteps 1 5 ++
    [.taskStep 2 false, .taskStep 2 true, .taskStep 2 true]

def Bxcan.Transmit.blockingRun : List (Action .classic) :=
  listening ++ queueing 0 1 ++ .transmit (plainMsg 2) :: taskSteps 1 9 ++
    [.complete 0 true, .pend, .txIrq] ++ isrSteps 0 3 ++ nesting 0 3 ++ isrSteps 2 4 ++
    [.complete 1 true] ++ taskSteps 1 2 ++ .transmit (plainMsg 4) :: taskSteps 1 9 ++
    [.taskStep 2 false, .taskStep 2 true, .taskStep 2 true]

theorem transmit_returns_own_nested :
    (∃ s, Fdcan.Transmit.after Fdcan.Transmit.blockingRun = some s ∧
      s.returns.map Return.result = [true, false] ∧ s.timeouts.map Timeout.victim = [some 2] ∧
      (∀ r ∈ s.returns, r.Sound (Fdcan.canonical plainConfig) s.dev.slots.history) ∧
        ∀ t ∈ s.timeouts, t.Sound s.dev.slots.history) ∧
    (∃ s, Bxcan.Transmit.after Bxcan.Transmit.blockingRun = some s ∧
      s.returns.map Return.result = [true, false] ∧ s.timeouts.map Timeout.victim = [some 2] ∧
      (∀ r ∈ s.returns, r.Sound Bxcan.canonical s.dev.slots.history) ∧
        ∀ t ∈ s.timeouts, t.Sound s.dev.slots.history) :=
  ⟨⟨_, rfl, rfl, rfl, (transmit_returns_own .classic plainConfig).1 (fun _ _ => 0)
      Fdcan.Transmit.blockingRun _ (by decide) rfl⟩,
    ⟨_, rfl, rfl, rfl, (transmit_returns_own .classic plainConfig).2 (fun _ => ⟨0, 0, 0, 0⟩)
      Bxcan.Transmit.blockingRun _ (by decide) rfl⟩⟩

/-- The time is up for frame 1 when it leaves slot 0 after all; the callback queues frame 2
there before the abort. -/
def Fdcan.Transmit.abortedRun : List (Action .classic) :=
  listening ++ .transmit (plainMsg 1) :: taskSteps 0 5 ++ [.taskStep 1 false, .taskStep 1 true] ++
    [.complete 0 true, .irq] ++ isrSteps 1 6 ++ nesting 0 2 ++ isrSteps 1 5 ++ taskSteps 1 1

/-- Frame 1 is lost; the callback queues frame 2 in the same mailbox, which is sent before the
call looks again. -/
def Bxcan.Transmit.mistakenRun : List (Action .classic) :=
  listening ++ .transmit (plainMsg 1) :: taskSteps 0 9 ++ [.complete 0 false, .pend, .txIrq] ++
    isrSteps 0 3 ++ nesting 0 2 ++ isrSteps 1 4 ++ [.complete 0 true] ++ taskSteps 0 2

theorem Fdcan.Transmit.abortedRun_end : ∃ s, after abortedRun = some s ∧
    s.timeouts = [⟨0, 0, plainMsg 1, some 2⟩] :=
  ⟨_, rfl, rfl⟩

theorem Bxcan.Transmit.mistakenRun_end : ∃ s, after mistakenRun = some s ∧
    s.returns = [⟨0, 0, plainMsg 1, true⟩] ∧
    s.dev.slots.history 0 = [.accepted (plainMsg 1), .finished false (plainMsg 1),
      .accepted (plainMsg 2), .finished true (plainMsg 2)] :=
  ⟨_, rfl, rfl, rfl⟩

/-- On FDCAN the abort hits the frame of the callback; on bxCAN the call returns true for a
frame that was lost. -/
theorem transmit_returns_other :
    (∃ s, Fdcan.Transmit.after Fdcan.Transmit.abortedRun = some s ∧
      ¬ ∀ t ∈ s.timeouts, t.Sound s.dev.slots.history) ∧
    (∃ s, Bxcan.Transmit.after Bxcan.Transmit.mistakenRun = some s ∧
      ¬ ∀ r ∈ s.returns, r.Sound Bxcan.canonical s.dev.slots.history) := by
  constructor
  · obtain ⟨s, hrun, htimeouts⟩ := Fdcan.Transmit.abortedRun_end
    refine ⟨s, hrun, fun h => ?_⟩
    rw [htimeouts] at h
    have hvictim := (h _ List.mem_cons_self 2 rfl).1
    cases hvictim
  · obtain ⟨s, hrun, hreturns, hhistory⟩ := Bxcan.Transmit.mistakenRun_end
    refine ⟨s, hrun, fun h => ?_⟩
    rw [hreturns] at h
    have hsent := (h _ List.mem_cons_self rfl).2
    rw [hhistory] at hsent
    cases hsent

/-- In every run in which no slot is requested again while its last completion is still to be
reported, and on FDCAN no frame completes unnoticed while a callback is being registered, the
callback learns the outcome of every frame, once and before the next one. -/
theorem transmit_accounted (build : Build) (config : Config) :
    (∀ (words : Slot → Fdcan.Element) (run : List (Fdcan.Transmit.Action build))
      (s : Fdcan.Transmit.State build),
      Along (Fdcan.Transmit.step config) Fdcan.Transmit.KeepsBooks
        (Fdcan.Transmit.initial words) run →
      exec (Fdcan.Transmit.step config) (Fdcan.Transmit.initial words) run = some s →
      s.dev.listener.live = true →
      ∀ b, Accounted (s.dev.listener.account b) (s.dev.slots.request b) s.Quiet ∧
        (s.dev.txInflight b = true → s.dev.pending b = false →
          (s.dev.tc || s.dev.tcf) = true ∨ s.isr.looksAt b = true)) ∧
    (∀ (words : Slot → Bxcan.TxMailbox) (run : List (Bxcan.Transmit.Action build))
      (s : Bxcan.Transmit.State build),
      Along (Bxcan.Transmit.step config) Bxcan.Transmit.KeepsBooks
        (Bxcan.Transmit.initial words) run →
      exec (Bxcan.Transmit.step config) (Bxcan.Transmit.initial words) run = some s →
      s.dev.listener.live = true →
      ∀ b, Accounted (s.dev.listener.account b) (s.dev.slots.request b) s.Quiet) :=
  ⟨fun _ _ _ => Fdcan.Transmit.exec_accounted, fun _ _ _ => Bxcan.Transmit.exec_accounted⟩

def Fdcan.Transmit.reportedRun : List (Action .classic) :=
  listening ++ queueing 0 1 ++ [.complete 0 true, .irq] ++ isrSteps 0 6 ++ nesting 0 2 ++
    isrSteps 1 5 ++ [.complete 0 false, .irq] ++ isrSteps 0 11

def Bxcan.Transmit.reportedRun : List (Action .classic) :=
  listening ++ queueing 0 1 ++ [.complete 0 true, .pend, .txIrq] ++ isrSteps 0 3 ++ nesting 0 2 ++
    isrSteps 1 4 ++ [.complete 0 false, .pend, .txIrq] ++ isrSteps 0 7

theorem transmit_accounted_nested :
    (∃ s, Fdcan.Transmit.after Fdcan.Transmit.reportedRun = some s ∧ s.Quiet ∧
      (s.dev.listener.account 0).reports = [true, false] ∧
      Accounted (s.dev.listener.account 0) (s.dev.slots.request 0) s.Quiet) ∧
    (∃ s, Bxcan.Transmit.after Bxcan.Transmit.reportedRun = some s ∧ s.Quiet ∧
      (s.dev.listener.account 0).reports = [true, false] ∧
      Accounted (s.dev.listener.account 0) (s.dev.slots.request 0) s.Quiet) :=
  ⟨⟨_, rfl, ⟨rfl, rfl, rfl⟩, rfl, ((transmit_accounted .classic plainConfig).1 (fun _ _ => 0)
      Fdcan.Transmit.reportedRun _ (by decide) rfl rfl 0).1⟩,
    ⟨_, rfl, ⟨rfl, by decide⟩, rfl,
      (transmit_accounted .classic plainConfig).2 (fun _ => ⟨0, 0, 0, 0⟩)
        Bxcan.Transmit.reportedRun _ (by decide) rfl rfl 0⟩⟩

/-- An error callback of the same interrupt queues frame 2 in slot 0 before the transmit part
looks at frame 1. -/
def Fdcan.Transmit.unreportedRun : List (Action .classic) :=
  listening ++ queueing 0 1 ++ [.complete 0 true, .irq] ++ isrSteps 0 2 ++ nesting 0 2 ++
    isrSteps 1 8 ++ [.complete 0 true, .irq] ++ isrSteps 0 11

def Bxcan.Transmit.unreportedRun : List (Action .classic) :=
  listening ++ queueing 0 1 ++ [.complete 0 true, .pend, .errorIrq] ++ nesting 0 2 ++
    isrSteps 1 1 ++ [.complete 0 true, .txIrq] ++ isrSteps 0 7

theorem Fdcan.Transmit.unreportedRun_end : ∃ s, after unreportedRun = some s ∧ s.Quiet ∧
    (s.dev.listener.account 0).reports = [true] ∧
    outcomes (s.dev.listener.account 0).events = [true, true] :=
  ⟨_, rfl, ⟨rfl, rfl, rfl⟩, rfl, rfl⟩

theorem Bxcan.Transmit.unreportedRun_end : ∃ s, after unreportedRun = some s ∧ s.Quiet ∧
    (s.dev.listener.account 0).reports = [true] ∧
    outcomes (s.dev.listener.account 0).events = [true, true] :=
  ⟨_, rfl, ⟨rfl, by decide⟩, rfl, rfl⟩

/-- Two frames were sent from slot 0 since the callback listens, and it was called once. -/
theorem transmit_accounted_lost :
    (∃ s, Fdcan.Transmit.after Fdcan.Transmit.unreportedRun = some s ∧
      ¬ Accounted (s.dev.listener.account 0) (s.dev.slots.request 0) s.Quiet) ∧
    (∃ s, Bxcan.Transmit.after Bxcan.Transmit.unreportedRun = some s ∧
      ¬ Accounted (s.dev.listener.account 0) (s.dev.slots.request 0) s.Quiet) := by
  constructor
  · obtain ⟨s, hrun, hquiet, hreports, houtcomes⟩ := Fdcan.Transmit.unreportedRun_end
    refine ⟨s, hrun, fun h => ?_⟩
    have htold := h.all_told hquiet
    rw [hreports, houtcomes] at htold
    cases htold
  · obtain ⟨s, hrun, hquiet, hreports, houtcomes⟩ := Bxcan.Transmit.unreportedRun_end
    refine ⟨s, hrun, fun h => ?_⟩
    have htold := h.all_told hquiet
    rw [hreports, houtcomes] at htold
    cases htold

end UniHal.Can
