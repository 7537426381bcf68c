import UniHal.Can.Fdcan.Transmit
import UniHal.Can.Ownership

/-! # What a call of the queue function does on FDCAN

A call chooses a buffer that has no request pending, writes the element of its frame word by
word, and requests the buffer only then. It touches no other buffer, and as long as nobody
else touches its own, the element it requests is that of its frame.
-/

namespace UniHal.Can.Fdcan.Transmit
open Foundations Foundations.Execution

variable {build : Build} {config : Config}

/-- The cases of `callStep`: nothing happens to the peripheral until a buffer is chosen, then
its element is written word by word, then it is requested. -/
inductive CallStep (config : Config) (put : ℕ) (s : Dev build) :
    Call build → Dev build → Progress build → Prop
  | refused {call : Call build} (h : call.slot = none) : CallStep config put s call s .refused
  | moved {call call' : Call build} (h : call.slot = none) (h' : call'.slot = none)
    (hroom : ∀ msg, call' = .select msg → config.txFifoPriority = true → s.fifoFull = false) :
    CallStep config put s call s (.running call')
  | chosen {msg : Msg build.dataSize} {buffer : Slot} {length dlc : ℕ}
    (hchoose : choose config put s (.select msg) = some buffer)
    (hlength : frameLength config msg = some (length, dlc)) :
    CallStep config put s (.select msg) s
      (.running (.fill buffer msg (elementWrites config msg length dlc)))
  | stored {buffer : Slot} {msg : Msg build.dataSize} {write : ℕ × BitVec 32}
    {rest : List (ℕ × BitVec 32)} :
    CallStep config put s (.fill buffer msg (write :: rest)) (s.store buffer write)
      (.running (.fill buffer msg rest))
  | requested {buffer : Slot} {msg : Msg build.dataSize} :
    CallStep config put s (.fill buffer msg []) (s.request buffer msg) (.accepted buffer msg)

theorem callStep_spec {put : ℕ} {s s' : Dev build} {call : Call build} {progress : Progress build}
    (h : callStep config put s call = (s', progress)) :
    CallStep config put s call s' progress := by
  cases call with
  | started msg =>
    cases hinit : s.init with
    | true =>
      simp only [callStep, hinit, if_true, Prod.mk.injEq] at h
      obtain ⟨rfl, rfl⟩ := h
      exact .refused rfl
    | false =>
      simp only [callStep, hinit, Bool.false_eq_true, if_false, Prod.mk.injEq] at h
      obtain ⟨rfl, rfl⟩ := h
      cases hfifo : config.txFifoPriority with
      | true => exact .moved rfl rfl (by simp)
      | false => exact .moved rfl rfl (by simp [hfifo])
  | fifoStatus msg =>
    cases hfull : s.fifoFull with
    | true =>
      simp only [callStep, hfull, if_true, Prod.mk.injEq] at h
      obtain ⟨rfl, rfl⟩ := h
      exact .refused rfl
    | false =>
      simp only [callStep, hfull, Bool.false_eq_true, if_false, Prod.mk.injEq] at h
      obtain ⟨rfl, rfl⟩ := h
      exact .moved rfl rfl fun _ _ _ => hfull
  | select msg =>
    cases hchoose : choose config put s (.select msg) with
    | none =>
      simp only [callStep, hchoose, Prod.mk.injEq] at h
      obtain ⟨rfl, rfl⟩ := h
      exact .refused rfl
    | some buffer =>
      cases hlength : frameLength config msg with
      | none =>
        simp only [callStep, hchoose, hlength, Prod.mk.injEq] at h
        obtain ⟨rfl, rfl⟩ := h
        exact .refused rfl
      | some lengths =>
        simp only [callStep, hchoose, hlength, Prod.mk.injEq] at h
        obtain ⟨rfl, rfl⟩ := h
        exact .chosen hchoose hlength
  | fill buffer msg rest =>
    cases rest with
    | nil =>
      simp only [callStep, Prod.mk.injEq] at h
      obtain ⟨rfl, rfl⟩ := h
      exact .requested
    | cons write rest =>
      simp only [callStep, Prod.mk.injEq] at h
      obtain ⟨rfl, rfl⟩ := h
      exact .stored

theorem fifoFull_eq_false {s : Dev build} : s.fifoFull = false ↔ ∃ b, s.pending b = false := by
  simp [Dev.fifoFull]

theorem firstFree_free {pending : Slot → Bool} {b : Slot} (h : firstFree pending = some b) :
    pending b = false := by
  have := List.find?_some h
  simpa using this

theorem choose_free {put : ℕ} {s : Dev build} {call : Call build} {b : Slot}
    (h : choose config put s call = some b) (hput : validPut s put = true)
    (hroom : config.txFifoPriority = true → s.fifoFull = false) : s.slots.pending b = false := by
  cases call with
  | select msg =>
    cases hsend : (frameLength config msg).isSome with
    | false => simp [choose, hsend] at h
    | true =>
      cases hfifo : config.txFifoPriority with
      | true =>
        simp only [choose, hsend, hfifo, if_true] at h
        simpa [validPut, hroom hfifo, h, Dev.pending] using hput
      | false =>
        simp only [choose, hsend, hfifo, if_true, Bool.false_eq_true, if_false] at h
        exact firstFree_free h
  | _ => simp [choose] at h

def Filling (config : Config) (words : Element) (msg : Msg build.dataSize)
    (rest : List (ℕ × BitVec 32)) : Prop :=
  ∃ length dlc, frameLength config msg = some (length, dlc) ∧
    Filled Element.store (elementWrites config msg length dlc) words rest

/-- Once all words are written, the element is that of the frame. -/
theorem Filling.done {words : Element} {msg : Msg build.dataSize}
    (h : Filling config words msg []) : decode build words = canonical config msg := by
  obtain ⟨length, dlc, hlength, hfilled⟩ := h
  obtain ⟨before, rfl⟩ := hfilled.done
  exact decode_writeElement hlength before

def Prepared (config : Config) (slots : TxSlots build) : Call build → Prop
  | .fill buffer msg rest =>
    slots.pending buffer = false ∧ Filling config (slots.words buffer) msg rest
  | _ => True

theorem prepared_of_slot {slots : TxSlots build} {call : Call build} (h : call.slot = none) :
    Prepared config slots call := by
  cases call with
  | fill => cases h
  | _ => trivial

theorem Prepared.free {slots : TxSlots build} {call : Call build} (h : Prepared config slots call)
    {b : Slot} (hb : call.slot = some b) : slots.pending b = false := by
  cases call with
  | fill => cases hb; exact h.1
  | _ => cases hb

theorem Prepared.congr {slots slots' : TxSlots build} {call : Call build}
    (h : Prepared config slots call)
    (hsame : ∀ b, call.slot = some b → slots'.pending b = slots.pending b ∧
      slots'.words b = slots.words b) : Prepared config slots' call := by
  cases call with
  | fill buffer msg rest =>
    obtain ⟨hpending, hwords⟩ := hsame buffer rfl
    exact ⟨hpending.trans h.1, hwords ▸ h.2⟩
  | _ => trivial

def caller (config : Config) : Caller (Call build) (Msg build.dataSize) Element where
  slot := Call.slot
  Prepared := Prepared config
  prepared_of_slot _ _ := prepared_of_slot
  free _ _ _ h := h.free
  congr _ _ _ h := h.congr

/-- A call that keeps to its buffer leaves the others alone. -/
theorem CallStep.frame {put : ℕ} {s s' : Dev build} {call : Call build}
    {progress : Progress build} (h : CallStep config put s call s' progress) {b : Slot}
    (hb : call.slot ≠ some b) :
    s'.slots.pending b = s.slots.pending b ∧ s'.slots.words b = s.slots.words b ∧
      s'.slots.history b = s.slots.history b ∧ s'.slots.request b = s.slots.request b := by
  cases h with
  | refused | moved | chosen => exact ⟨rfl, rfl, rfl, rfl⟩
  | @stored buffer msg write rest =>
    have hne : b ≠ buffer := fun heq => hb (congrArg some heq.symm)
    exact ⟨rfl, s.slots.write_words_of_ne _ hne, rfl, rfl⟩
  | @requested buffer msg =>
    have hne : b ≠ buffer := fun heq => hb (congrArg some heq.symm)
    exact ⟨s.slots.accept_pending_of_ne msg hne, rfl, s.slots.accept_history_of_ne msg hne,
      s.slots.accept_request_of_ne msg hne⟩

theorem CallStep.untouched {put : ℕ} {s s' : Dev build} {call : Call build}
    {progress : Progress build} (h : CallStep config put s call s' progress)
    (hprep : Prepared config s.slots call) : Untouched s.slots s'.slots := by
  intro b hb
  cases h with
  | refused | moved | chosen | requested => rfl
  | @stored buffer msg write rest =>
    have hne : b ≠ buffer := by
      rintro rfl
      rw [hprep.1] at hb
      cases hb
    exact s.slots.write_words_of_ne _ hne

/-- A call that found its buffer free keeps every buffer owned by one frame at a time. -/
theorem CallStep.owned {put : ℕ} {s s' : Dev build} {call : Call build}
    {progress : Progress build} (h : CallStep config put s call s' progress)
    (hprep : Prepared config s.slots call) {b : Slot}
    (howned : s.slots.Owned (fun m f => f = canonical config m) (decode build) b) :
    s'.slots.Owned (fun m f => f = canonical config m) (decode build) b := by
  cases h with
  | refused | moved | chosen => exact howned
  | stored => exact howned.write _ hprep.1
  | requested => exact howned.accept hprep.1 hprep.2.done

theorem CallStep.prepared {put : ℕ} {s s' : Dev build} {call call' : Call build}
    (h : CallStep config put s call s' (.running call')) (hprep : Prepared config s.slots call)
    (hfree : ∀ b, choose config put s call = some b → s.slots.pending b = false) :
    Prepared config s'.slots call' := by
  cases h with
  | moved _ h' _ => exact prepared_of_slot h'
  | chosen hchoose hlength => exact ⟨hfree _ hchoose, _, _, hlength, Filled.chosen _⟩
  | @stored buffer msg write rest =>
    constructor
    · exact hprep.1
    · change Filling config ((s.slots.write buffer _).words buffer) msg rest
      rw [Slots.write_words_self]
      obtain ⟨-, length, dlc, hlength, hfilled⟩ := hprep
      exact ⟨length, dlc, hlength, hfilled.stored⟩

/-- The buffer of a call is the one it has just chosen or the one it had. -/
theorem CallStep.slot {put : ℕ} {s s' : Dev build} {call call' : Call build} {b : Slot}
    (h : CallStep config put s call s' (.running call')) (hb : call'.slot = some b) :
    call.slot = some b ∨ choose config put s call = some b := by
  cases h with
  | moved _ h' _ =>
    rw [h'] at hb
    cases hb
  | chosen hchoose _ =>
    right
    rw [hchoose]
    exact hb
  | stored =>
    left
    exact hb

theorem CallStep.caller {put : ℕ} {s s' : Dev build} {call : Call build}
    {progress : Progress build} (h : CallStep config put s call s' progress)
    {next : Option (Call build)} (hnext : ∀ call', next = some call' → progress = .running call') :
    (caller config).Step (canonical config) (decode build) s.slots call s'.slots next
      fun b => choose config put s call = some b where
  frame b hb := ⟨(h.frame hb).1, (h.frame hb).2.1⟩
  owned hprep _ hb := h.owned hprep hb
  prepared call' hc hprep hfree := by
    obtain rfl := hnext call' hc
    exact h.prepared hprep hfree
  slot call' hc b hb := by
    obtain rfl := hnext call' hc
    exact h.slot hb

end UniHal.Can.Fdcan.Transmit
