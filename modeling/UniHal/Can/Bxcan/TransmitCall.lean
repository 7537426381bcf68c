import UniHal.Can.Bxcan.Transmit
import UniHal.Can.Ownership

/-! # What a call of the queue function does on bxCAN

A call chooses a mailbox that has no request pending, writes its registers one after the
other, and requests the mailbox with the last write. As long as nobody else touches its
mailbox, what the peripheral then sends is the message.
-/

namespace UniHal.Can.Bxcan.Transmit
open Foundations Foundations.Execution

variable {build : Build}

/-- The cases of `callStep`: nothing happens to the mailboxes until one is chosen, then its
registers are written, then it is requested. -/
inductive CallStep (code : ℕ) (s : Dev build) : Call build → Dev build → Progress build → Prop
  | refused {call : Call build} (h : call.slot = none) : CallStep code s call s .refused
  | moved {msg : Msg build.dataSize} (hfd : msg.fd = false) :
    CallStep code s (.started msg) s (.running (.select msg))
  | chosen {msg : Msg build.dataSize} {mailbox : Slot}
    (hchoose : choose code s (.select msg) = some mailbox) :
    CallStep code s (.select msg) s (.running (.reset mailbox msg))
  | reset {mailbox : Slot} {msg : Msg build.dataSize} :
    CallStep code s (.reset mailbox msg) (s.resetTxOk mailbox)
      (.running (.fill mailbox msg (mailboxWrites msg)))
  | stored {mailbox : Slot} {msg : Msg build.dataSize} {write : TxRegister × BitVec 32}
    {rest : List (TxRegister × BitVec 32)} :
    CallStep code s (.fill mailbox msg (write :: rest)) (s.store mailbox write)
      (.running (.fill mailbox msg rest))
  | read {mailbox : Slot} {msg : Msg build.dataSize} :
    CallStep code s (.fill mailbox msg []) s
      (.running (.raise mailbox msg (s.slots.words mailbox).tir))
  | requested {mailbox : Slot} {msg : Msg build.dataSize} {tir : BitVec 32} :
    CallStep code s (.raise mailbox msg tir) (s.request mailbox msg tir) (.accepted mailbox msg)

theorem callStep_spec {code : ℕ} {s s' : Dev build} {call : Call build} {progress : Progress build}
    (h : callStep code s call = (s', progress)) : CallStep code s call s' progress := by
  cases call with
  | started msg =>
    cases hstop : s.inak || msg.fd with
    | true =>
      simp only [callStep, hstop, if_true, Prod.mk.injEq] at h
      obtain ⟨rfl, rfl⟩ := h
      exact .refused rfl
    | false =>
      simp only [callStep, hstop, Bool.false_eq_true, if_false, Prod.mk.injEq] at h
      obtain ⟨rfl, rfl⟩ := h
      exact .moved (Bool.or_eq_false_iff.mp hstop).2
  | select msg =>
    cases hchoose : choose code s (.select msg) with
    | none =>
      simp only [callStep, hchoose, Prod.mk.injEq] at h
      obtain ⟨rfl, rfl⟩ := h
      exact .refused rfl
    | some mailbox =>
      simp only [callStep, hchoose, Prod.mk.injEq] at h
      obtain ⟨rfl, rfl⟩ := h
      exact .chosen hchoose
  | reset mailbox msg =>
    simp only [callStep, Prod.mk.injEq] at h
    obtain ⟨rfl, rfl⟩ := h
    exact .reset
  | fill mailbox msg rest =>
    cases rest with
    | nil =>
      simp only [callStep, Prod.mk.injEq] at h
      obtain ⟨rfl, rfl⟩ := h
      exact .read
    | cons write rest =>
      simp only [callStep, Prod.mk.injEq] at h
      obtain ⟨rfl, rfl⟩ := h
      exact .stored
  | raise mailbox msg tir =>
    simp only [callStep, Prod.mk.injEq] at h
    obtain ⟨rfl, rfl⟩ := h
    exact .requested

/-- `TSR` names a free mailbox. -/
theorem choose_free {code : ℕ} {s : Dev build} {call : Call build} {b : Slot}
    (h : choose code s call = some b) (hcode : validCode s code = true) :
    s.slots.pending b = false := by
  cases call with
  | select msg =>
    cases hall : s.allPending with
    | true => simp [choose, hall] at h
    | false =>
      simp only [choose, hall, Bool.false_eq_true, if_false] at h
      simpa [validCode, hall, h, Dev.pending] using hcode
  | _ => simp [choose] at h

def Filling (box : TxMailbox) (msg : Msg build.dataSize)
    (rest : List (TxRegister × BitVec 32)) : Prop :=
  Filled TxMailbox.store (mailboxWrites msg) box rest

/-- Once all registers are written and the request bit is set, the mailbox is that of the
frame. -/
theorem Filling.done {box : TxMailbox} {msg : Msg build.dataSize} (h : Filling box msg []) :
    sent build (box.store (.tir, box.tir ||| identifierTxrq)) = canonical msg := by
  obtain ⟨before, rfl⟩ := Filled.done h
  exact sent_mailboxFor msg before

def Prepared (slots : TxSlots build) : Call build → Prop
  | .reset mailbox _ => slots.pending mailbox = false
  | .fill mailbox msg rest =>
    slots.pending mailbox = false ∧ Filling (slots.words mailbox) msg rest
  | .raise mailbox msg tir =>
    slots.pending mailbox = false ∧ Filling (slots.words mailbox) msg [] ∧
      tir = (slots.words mailbox).tir
  | _ => True

theorem prepared_of_slot {slots : TxSlots build} {call : Call build} (h : call.slot = none) :
    Prepared slots call := by
  cases call with
  | started | select => trivial
  | _ => cases h

theorem Prepared.free {slots : TxSlots build} {call : Call build} (h : Prepared slots call)
    {b : Slot} (hb : call.slot = some b) : slots.pending b = false := by
  cases call with
  | reset => cases hb; exact h
  | fill => cases hb; exact h.1
  | raise => cases hb; exact h.1
  | _ => cases hb

theorem Prepared.congr {slots slots' : TxSlots build} {call : Call build} (h : Prepared slots call)
    (hsame : ∀ b, call.slot = some b → slots'.pending b = slots.pending b ∧
      slots'.words b = slots.words b) : Prepared slots' call := by
  cases call with
  | reset mailbox msg => exact (hsame mailbox rfl).1.trans h
  | fill mailbox msg rest =>
    obtain ⟨hpending, hwords⟩ := hsame mailbox rfl
    exact ⟨hpending.trans h.1, hwords ▸ h.2⟩
  | raise mailbox msg tir =>
    obtain ⟨hpending, hwords⟩ := hsame mailbox rfl
    exact ⟨hpending.trans h.1, hwords ▸ h.2.1, hwords ▸ h.2.2⟩
  | _ => trivial

def caller : Caller (Call build) (Msg build.dataSize) TxMailbox where
  slot := Call.slot
  Prepared := Prepared
  prepared_of_slot _ _ := prepared_of_slot
  free _ _ _ h := h.free
  congr _ _ _ h := h.congr

theorem store_of_free {s : Dev build} {b : Slot} (h : s.slots.pending b = false)
    (write : TxRegister × BitVec 32) :
    s.store b write = { s with slots := s.slots.write b ((s.slots.words b).store write) } := by
  simp only [Dev.store, Dev.pending, h, Bool.false_eq_true, if_false]

theorem store_frame (s : Dev build) (b : Slot) (write : TxRegister × BitVec 32) {c : Slot}
    (hc : c ≠ b) : (s.store b write).slots.words c = s.slots.words c := by
  by_cases hb : s.pending b = true
  · simp only [Dev.store, hb, if_true]
  · simp only [Dev.store, if_neg hb]
    exact s.slots.write_words_of_ne _ hc

theorem store_request (s : Dev build) (b : Slot) (write : TxRegister × BitVec 32) :
    (s.store b write).slots.request = s.slots.request := by
  by_cases hb : s.pending b = true <;> simp [Dev.store, hb]

theorem store_history (s : Dev build) (b : Slot) (write : TxRegister × BitVec 32) :
    (s.store b write).slots.history = s.slots.history := by
  by_cases hb : s.pending b = true <;> simp [Dev.store, hb]

theorem store_untouched (s : Dev build) (b : Slot) (write : TxRegister × BitVec 32) :
    Untouched s.slots (s.store b write).slots := by
  intro c hc
  by_cases hcb : c = b
  · subst hcb
    have hpending : s.pending c = true := hc
    simp only [Dev.store, hpending, if_true]
  · exact store_frame s b write hcb

theorem CallStep.untouched {code : ℕ} {s s' : Dev build} {call : Call build}
    {progress : Progress build} (h : CallStep code s call s' progress) :
    Untouched s.slots s'.slots := by
  cases h with
  | refused | moved | chosen | reset | read => exact fun _ _ => rfl
  | stored => exact store_untouched s _ _
  | requested => exact store_untouched s _ _

/-- A call that keeps to its mailbox leaves the others alone. -/
theorem CallStep.frame {code : ℕ} {s s' : Dev build} {call : Call build}
    {progress : Progress build} (h : CallStep code s call s' progress) {b : Slot}
    (hb : call.slot ≠ some b) :
    s'.slots.words b = s.slots.words b ∧ s'.slots.history b = s.slots.history b ∧
      s'.slots.request b = s.slots.request b := by
  cases h with
  | refused | moved | chosen | reset | read => exact ⟨rfl, rfl, rfl⟩
  | @stored mailbox msg write rest =>
    have hne : b ≠ mailbox := fun heq => hb (congrArg some heq.symm)
    rw [store_request, store_history]
    exact ⟨store_frame s _ _ hne, rfl, rfl⟩
  | @requested mailbox msg tir =>
    have hne : b ≠ mailbox := fun heq => hb (congrArg some heq.symm)
    refine ⟨store_frame s _ _ hne, ?_, ?_⟩
    · simp only [Dev.request, Slots.accept_history_of_ne _ msg hne, store_history]
    · simp only [Dev.request, Slots.accept_request_of_ne _ msg hne, store_request]

/-- A call that found its mailbox free keeps every mailbox owned by one frame at a time. -/
theorem CallStep.owned {code : ℕ} {s s' : Dev build} {call : Call build}
    {progress : Progress build} (h : CallStep code s call s' progress)
    (hprep : Prepared s.slots call) {b : Slot}
    (howned : s.slots.Owned (fun m f => f = canonical m) (sent build) b) :
    s'.slots.Owned (fun m f => f = canonical m) (sent build) b := by
  cases h with
  | refused | moved | chosen | reset | read => exact howned
  | stored =>
    rw [store_of_free hprep.1]
    exact howned.write _ hprep.1
  | @requested mailbox msg tir =>
    obtain ⟨hfree, hfill, rfl⟩ := hprep
    simp only [Dev.request, store_of_free hfree]
    apply (howned.write _ hfree).accept hfree
    rw [Slots.write_words_self]
    exact hfill.done

theorem CallStep.prepared {code : ℕ} {s s' : Dev build} {call call' : Call build}
    (h : CallStep code s call s' (.running call')) (hprep : Prepared s.slots call)
    (hfree : ∀ b, choose code s call = some b → s.slots.pending b = false) :
    Prepared s'.slots call' := by
  cases h with
  | moved => trivial
  | chosen hchoose => exact hfree _ hchoose
  | reset => exact ⟨hprep, Filled.chosen _⟩
  | @stored mailbox msg write rest =>
    rw [store_of_free hprep.1]
    constructor
    · exact hprep.1
    · change Filling ((s.slots.write mailbox _).words mailbox) msg rest
      rw [Slots.write_words_self]
      exact Filled.stored hprep.2
  | read => exact ⟨hprep.1, hprep.2, rfl⟩

/-- The mailbox of a call is the one it has just chosen or the one it had. -/
theorem CallStep.slot {code : ℕ} {s s' : Dev build} {call call' : Call build} {b : Slot}
    (h : CallStep code s call s' (.running call')) (hb : call'.slot = some b) :
    call.slot = some b ∨ choose code s call = some b := by
  cases h with
  | moved => cases hb
  | chosen hchoose =>
    right
    rw [hchoose]
    exact hb
  | reset | stored | read =>
    left
    exact hb

theorem CallStep.caller {code : ℕ} {s s' : Dev build} {call : Call build}
    {progress : Progress build} (h : CallStep code s call s' progress) {next : Option (Call build)}
    (hnext : ∀ call', next = some call' → progress = .running call') :
    caller.Step canonical (sent build) s.slots call s'.slots next
      fun b => choose code s call = some b where
  frame b hb := by
    obtain ⟨hwords, -, hrequest⟩ := h.frame hb
    exact ⟨by simp only [Slots.pending, hrequest], hwords⟩
  owned hprep _ hb := h.owned hprep hb
  prepared call' hc hprep hfree := by
    obtain rfl := hnext call' hc
    exact h.prepared hprep hfree
  slot call' hc b hb := by
    obtain rfl := hnext call' hc
    exact h.slot hb

end UniHal.Can.Bxcan.Transmit
