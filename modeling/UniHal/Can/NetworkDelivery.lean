import UniHal.Can.Network
import UniHal.Can.ReceiveTrace
import UniHal.Can.TransmitContract

/-! # What a classic CAN bus delivers

Whatever the order of the steps, an application receives only messages that the driver of another
node has accepted, and receives them as they were accepted: no stale word of a slot, of the
message RAM or of a mailbox shows. Each transfer of the bus is received once at most, and the
messages of one hardware FIFO come in the order in which their frames were on the bus.
-/

namespace UniHal.Can
open Foundations Foundations.Execution Foundations.Broadcast

namespace Fdcan.Transmit
variable {build : Build} {config : Config}

/-- Once all words are written, a classic message has its frame. -/
theorem Filling.frame {words : Element} {msg : Msg build.dataSize}
    (h : Filling config words msg []) (hclassic : msg.fd = false) : frameOf words = msg.frame := by
  obtain ⟨length, dlc, hlength, hfilled⟩ := h
  obtain ⟨before, rfl⟩ := hfilled.done
  exact frameOf_writeElement hlength hclassic before

abbrev Loaded (slots : TxSlots build) : Prop :=
  slots.Served (fun msg frame => msg.fd = false → frame = msg.frame) frameOf

theorem CallStep.loaded {put : ℕ} {s s' : Dev build} {call : Call build}
    {progress : Progress build} (h : CallStep config put s call s' progress)
    (hprep : Prepared config s.slots call) (hloaded : Loaded s.slots) : Loaded s'.slots := by
  cases h with
  | refused | moved | chosen => exact hloaded
  | stored => exact hloaded.write _ hprep.1
  | requested => exact hloaded.accept hprep.2.frame

theorem SlotStep.loaded {s t : State build} {action : Action build}
    (h : SlotStep config s action t) (hinv : OwnInv config s) (hloaded : Loaded s.dev.slots) :
    Loaded t.dev.slots := by
  cases h with
  | quiet hslots =>
    rw [hslots]
    exact hloaded
  | @complete b ok => exact hloaded.finish b ok _
  | task _ _ htask hs _ => exact hs.loaded (hinv.owning.task_prepared _ htask) hloaded
  | isr _ hcall hs _ => exact hs.loaded (hinv.owning.isr_prepared _ hcall) hloaded

theorem SlotStep.history {s t : State build} {action : Action build}
    (h : SlotStep config s action t) (b : Slot) :
    s.dev.slots.history b <+: t.dev.slots.history b := by
  cases h with
  | quiet hslots => rw [hslots]
  | @complete c ok => exact s.dev.slots.finish_history_prefix c b ok _
  | task _ _ _ hs _ => exact hs.history b
  | isr _ _ hs _ => exact hs.history b

/-- A classic frame on offer is that of a message which the driver has accepted. -/
theorem offer_accepted {s : State build} (hinv : OwnInv config s) (hloaded : Loaded s.dev.slots)
    {b : Slot} {frame : Frame} (h : (transmitter build config).offer s b = some frame) :
    ∃ msg, (transmitter build config).accepted s msg ∧ frame = msg.frame := by
  simp only [transmitter, Option.ite_none_right_eq_some, Bool.and_eq_true, Bool.not_eq_true',
    Option.some.injEq] at h
  obtain ⟨⟨hpending, hfdf⟩, rfl⟩ := h
  obtain ⟨msg, hmsg⟩ := Option.isSome_iff_exists.mp hpending
  have hclassic : msg.fd = false := by
    have hsent := congrArg Msg.fd ((hinv.owning.owned b).served msg hmsg)
    exact hsent.symm.trans hfdf
  exact ⟨msg, ⟨b, (hinv.owning.owned b).accepted_mem hmsg⟩, hloaded b msg hmsg hclassic⟩

end Fdcan.Transmit

namespace Bxcan.Transmit
variable {build : Build} {config : Config}

theorem Filling.frame {box : TxMailbox} {msg : Msg build.dataSize} (h : Filling box msg []) :
    frameOf (box.store (.tir, box.tir ||| identifierTxrq)) = msg.frame := by
  obtain ⟨before, rfl⟩ := Filled.done h
  exact frameOf_requested msg before

abbrev Loaded (slots : TxSlots build) : Prop :=
  slots.Served (fun msg frame => frame = msg.frame) frameOf

theorem CallStep.loaded {code : ℕ} {s s' : Dev build} {call : Call build}
    {progress : Progress build} (h : CallStep code s call s' progress)
    (hprep : Prepared s.slots call) (hloaded : Loaded s.slots) : Loaded s'.slots := by
  cases h with
  | refused | moved | chosen | reset | read => exact hloaded
  | stored =>
    rw [store_of_free hprep.1]
    exact hloaded.write _ hprep.1
  | requested =>
    obtain ⟨hfree, hfill, rfl⟩ := hprep
    simp only [Dev.request, store_of_free hfree]
    apply (hloaded.write _ hfree).accept
    rw [Slots.write_words_self]
    exact hfill.frame

theorem SlotStep.loaded {s t : State build} {action : Action build} (h : SlotStep s action t)
    (hinv : OwnInv s) (hloaded : Loaded s.dev.slots) : Loaded t.dev.slots := by
  cases h with
  | quiet hslots =>
    rw [hslots]
    exact hloaded
  | @complete b ok => exact hloaded.finish b ok _
  | task _ _ htask hs _ => exact hs.loaded (hinv.task_prepared _ htask) hloaded
  | isr _ hcall hs _ => exact hs.loaded (hinv.isr_prepared _ hcall) hloaded

theorem SlotStep.history {s t : State build} {action : Action build} (h : SlotStep s action t)
    (b : Slot) : s.dev.slots.history b <+: t.dev.slots.history b := by
  cases h with
  | quiet hslots => rw [hslots]
  | @complete c ok => exact s.dev.slots.finish_history_prefix c b ok _
  | task _ _ _ hs _ => exact hs.history b
  | isr _ _ hs _ => exact hs.history b

theorem offer_accepted {s : State build} (hinv : OwnInv s) (hloaded : Loaded s.dev.slots)
    {b : Slot} {frame : Frame} (h : (transmitter build config).offer s b = some frame) :
    ∃ msg, (transmitter build config).accepted s msg ∧ frame = msg.frame := by
  simp only [transmitter, Option.ite_none_right_eq_some, Option.some.injEq] at h
  obtain ⟨hpending, rfl⟩ := h
  obtain ⟨msg, hmsg⟩ := Option.isSome_iff_exists.mp hpending
  exact ⟨msg, ⟨b, (hinv.owned b).accepted_mem hmsg⟩, hloaded b msg hmsg⟩

end Bxcan.Transmit

structure Transmitter.Faithful {size : ℕ} (transmitter : Transmitter (Msg size)) where
  ok : transmitter.State → transmitter.Action → Prop
  inv : transmitter.State → Prop
  step_inv {s t : transmitter.State} {action : transmitter.Action} (h : inv s) (hok : ok s action)
    (hs : transmitter.step s action = some t) : inv t
  ok_sent (s : transmitter.State) (b : Slot) : ok s (transmitter.sent b)
  accepted_step {s t : transmitter.State} {action : transmitter.Action} {msg : Msg size}
    (h : transmitter.accepted s msg) (hs : transmitter.step s action = some t) :
    transmitter.accepted t msg
  offer_accepted {s : transmitter.State} {b : Slot} {frame : Frame} (h : inv s)
    (hframe : transmitter.offer s b = some frame) :
    ∃ msg, transmitter.accepted s msg ∧ frame = msg.frame

theorem accepted_of_history {M : Type} {history history' : Slot → List (SlotEvent M M)}
    (h : ∀ b, history b <+: history' b) {msg : M} (hmsg : ∃ b, .accepted msg ∈ history b) :
    ∃ b, .accepted msg ∈ history' b :=
  hmsg.imp fun b hb => (h b).subset hb

def Fdcan.faithful (build : Build) (config : Config) :
    (Fdcan.transmitter build config).Faithful where
  ok := Fdcan.Transmit.KeepsApart config
  inv s := Fdcan.Transmit.OwnInv config s ∧ Fdcan.Transmit.Loaded s.dev.slots
  step_inv h hok hs :=
    ⟨h.1.step hok (Fdcan.Transmit.step_spec hs), (Fdcan.Transmit.step_spec hs).loaded h.1 h.2⟩
  ok_sent _ _ := trivial
  accepted_step h hs := accepted_of_history (Fdcan.Transmit.step_spec hs).history h
  offer_accepted h := Fdcan.Transmit.offer_accepted h.1 h.2

def Bxcan.faithful (build : Build) (config : Config) :
    (Bxcan.transmitter build config).Faithful where
  ok := Bxcan.Transmit.KeepsApart
  inv s := Bxcan.Transmit.OwnInv s ∧ Bxcan.Transmit.Loaded s.dev.slots
  step_inv h hok hs :=
    ⟨h.1.step hok (Bxcan.Transmit.step_spec hs), (Bxcan.Transmit.step_spec hs).loaded h.1 h.2⟩
  ok_sent _ _ := trivial
  accepted_step h hs := accepted_of_history (Bxcan.Transmit.step_spec hs).history h
  offer_accepted h := Bxcan.Transmit.offer_accepted h.1 h.2

section Contract
variable {F Q Index E : Type} {size : ℕ} [HwFifo F Index E (Msg size)] [RxQueue Q (Msg size)]
  {transmitter : Transmitter (Msg size)} {ι : Type}

def Hears (F : Type) {Index E M : Type} [HwFifo F Index E M] (decode : E → M) : Prop :=
  ∀ (fifo : F) (element : E), (HwFifo.contents (HwFifo.arrive fifo element)).Sublist
    (HwFifo.contents fifo ++ [decode element])

def messageOf (element : Frame → Receipt → E) (decode : E → Msg size)
    (y : Receipt × Transfer ι Frame) : Msg size :=
  decode (element y.2.item y.1)

/-- The transmit side keeps its invariant, and the receive side brings in nothing but what was
heard. -/
structure NodeInv (faithful : transmitter.Faithful) (element : Frame → Receipt → E)
    (decode : E → Msg size) (capacity : ℕ)
    (s : Node transmitter.State (RxState F Q Index (Msg size))) (heard : Taken ι Frame Receipt) :
    Prop where
  tx : faithful.inv s.tx
  rx : s.rx.Inv capacity
  traced : s.rx.Traced (fun y => y.1.fifo) (messageOf element decode) heard

variable {faithful : transmitter.Faithful} {element : Frame → Receipt → E}
  {decode : E → Msg size} {capacity : ℕ}
  {s t : Node transmitter.State (RxState F Q Index (Msg size))} {heard : Taken ι Frame Receipt}

theorem NodeInv.transmit (h : NodeInv faithful element decode capacity s heard)
    {action : transmitter.Action} (hok : faithful.ok s.tx action) {tx : transmitter.State}
    (hs : transmitter.step s.tx action = some tx) :
    NodeInv faithful element decode capacity { s with tx := tx } heard :=
  { h with tx := faithful.step_inv h.tx hok hs }

theorem NodeInv.hear (h : NodeInv faithful element decode capacity s heard)
    (hhears : Hears F decode) (r : Receipt) (t : Transfer ι Frame) :
    NodeInv faithful element decode capacity
      { s with rx := s.rx.hear r.fifo (element t.item r) } (heard ++ [(r, t)]) where
  tx := h.tx
  rx :=
    have harrive : s.rx.step (.arrive r.fifo (element t.item r)) =
        some (s.rx.hear r.fifo (element t.item r)) := rfl
    RxState.step_inv h.rx harrive
  traced := h.traced.arrive (y := (r, t)) (hhears _ _) rfl rfl

/-- What a node does by itself, on actions that keep its calls apart. -/
theorem NodeInv.step {action : NodeAction transmitter.Action E}
    (h : NodeInv faithful element decode capacity s heard)
    (hok : ∀ a, action = .transmit a → faithful.ok s.tx a)
    (hs : transmitter.nodeStep s action = some t) :
    NodeInv faithful element decode capacity t heard := by
  cases action with
  | transmit a =>
    simp only [Transmitter.nodeStep, Option.ite_none_right_eq_some, Option.map_eq_some_iff] at hs
    obtain ⟨-, tx, htx, rfl⟩ := hs
    exact h.transmit (hok a rfl) htx
  | receive a =>
    simp only [Transmitter.nodeStep, Option.ite_none_right_eq_some, Option.map_eq_some_iff] at hs
    obtain ⟨hown, rx, hrx, rfl⟩ := hs
    have hquiet (fifo : FifoNum) (e : E) : a ≠ .arrive fifo e := by
      rintro rfl
      cases hown
    exact {
      tx := h.tx
      rx := RxState.step_inv h.rx hrx
      traced := RxState.traced_step h.traced h.rx hquiet hrx }

theorem accepted_of_nodeStep (faithful : transmitter.Faithful)
    {action : NodeAction transmitter.Action E} {msg : Msg size}
    (h : transmitter.accepted s.tx msg) (hs : transmitter.nodeStep s action = some t) :
    transmitter.accepted t.tx msg := by
  cases action with
  | transmit a =>
    simp only [Transmitter.nodeStep, Option.ite_none_right_eq_some, Option.map_eq_some_iff] at hs
    obtain ⟨-, tx, htx, rfl⟩ := hs
    exact faithful.accepted_step h htx
  | receive a =>
    simp only [Transmitter.nodeStep, Option.ite_none_right_eq_some, Option.map_eq_some_iff] at hs
    obtain ⟨-, rx, -, rfl⟩ := hs
    exact h

theorem NodeInv.sent (h : NodeInv faithful element decode capacity s heard) {b : Slot}
    (hs : (transmitter.party F Q element).sent s b = some t) :
    NodeInv faithful element decode capacity t heard := by
  obtain ⟨tx, htx, rfl⟩ := Option.map_eq_some_iff.mp hs
  exact h.transmit (faithful.ok_sent _ _) htx

theorem accepted_of_sent (faithful : transmitter.Faithful) {b : Slot} {msg : Msg size}
    (h : transmitter.accepted s.tx msg) (hs : (transmitter.party F Q element).sent s b = some t) :
    transmitter.accepted t.tx msg := by
  obtain ⟨tx, htx, rfl⟩ := Option.map_eq_some_iff.mp hs
  exact faithful.accepted_step h htx

/-- The messages that a node has returned are those of frames it has heard. -/
theorem NodeInv.returned (h : NodeInv faithful element decode capacity s heard)
    (harrives : ∀ (y : Receipt × Transfer ι Frame) (size' : ℕ) (msg : Msg size'),
      y.2.item = msg.frame → Arrives msg (messageOf element decode y)) :
    ∃ taken : Taken ι Frame Receipt,
      List.Forall₂ (fun y msg' => ∀ (size' : ℕ) (msg : Msg size'), y.2.item = msg.frame →
        Arrives msg msg') taken s.rx.returned ∧
      ∀ g, (RxState.onFifo (fun y => y.1.fifo) g taken).Sublist
        (RxState.onFifo (fun y => y.1.fifo) g heard) := by
  obtain ⟨taken, hmap, hfifo⟩ := h.traced.returned h.rx
  refine ⟨taken, ?_, hfifo⟩
  rw [← hmap, List.forall₂_map_right_iff, List.forall₂_same]
  exact fun y _ => harrives y

def Transmitter.Faithful.contract (faithful : transmitter.Faithful) (ι : Type)
    (element : Frame → Receipt → E) {decode : E → Msg size} (hhears : Hears F decode)
    (capacity : ℕ) : Contract ι (transmitter.party F Q element) where
  ok s action := ∀ a, action = .transmit a → faithful.ok s.tx a
  inv s heard := NodeInv faithful element decode capacity s heard
  Vouches s frame := ∃ msg, transmitter.accepted s.tx msg ∧ frame = msg.frame
  step_inv h hok hs := h.step hok hs
  sent_inv h hs := h.sent hs
  take_inv h r t := h.hear hhears r t
  offer_vouches h hx := faithful.offer_accepted h.tx hx
  step_vouches h hs := h.imp fun _ hmsg => ⟨accepted_of_nodeStep faithful hmsg.1 hs, hmsg.2⟩
  sent_vouches h hs := h.imp fun _ hmsg => ⟨accepted_of_sent faithful hmsg.1 hs, hmsg.2⟩
  take_vouches h _ _ := h

end Contract

theorem Fdcan.hears (build : Build) : Hears (Fdcan.RxFifo build) (Fdcan.decode build) := by
  intro fifo element
  change (fifo.arrive element).contents.Sublist (fifo.contents ++ [Fdcan.decode build element])
  by_cases h : fifo.fillLevel < Fdcan.rxFifoSize
  · rw [fifo.contents_arrive element h]
  · rw [Fdcan.RxFifo.arrive, dif_neg h]
    exact List.sublist_append_left ..

theorem Bxcan.hears (build : Build) : Hears (Bxcan.RxFifo build) (Bxcan.decode build) := by
  intro fifo box
  change (fifo.arrive box).contents.Sublist (fifo.contents ++ [Bxcan.decode build box])
  have hboxes : (fifo.arrive box).mailboxes.Sublist (fifo.mailboxes ++ [box]) := by
    by_cases h : fifo.mailboxes.length < Bxcan.rxMailboxes
    · rw [Bxcan.RxFifo.arrive, dif_pos h]
    · rw [Bxcan.RxFifo.arrive, dif_neg h]
      exact (List.dropLast_sublist _).append (List.Sublist.refl _)
  have hmap := hboxes.map (Bxcan.decode build)
  rwa [List.map_append] at hmap

namespace Setup

def contract (ι : Type) : (setup : Setup) → Contract ι setup.party
  | .fdcan build config _ _ _ queue =>
    (Fdcan.faithful build config).contract ι Fdcan.rxElementFor (Fdcan.hears build)
      (RxQueue.capacity queue.start)
  | .bxcan build config _ _ _ queue =>
    (Bxcan.faithful build config).contract ι Bxcan.rxMailboxFor (Bxcan.hears build)
      (RxQueue.capacity queue.start)

variable {ι : Type}

theorem contract_ok {setup : Setup} {s : setup.party.State} {action : setup.party.Action}
    (h : setup.KeepsApart s action) : (setup.contract ι).ok s action := by
  cases setup with
  | fdcan =>
    rintro a rfl
    exact h
  | bxcan =>
    rintro a rfl
    exact h

theorem contract_start (setup : Setup) : (setup.contract ι).inv setup.start [] := by
  cases setup with
  | fdcan build config words fifos hfifos queue =>
    have hempty (g : FifoNum) : HwFifo.contents (fifos g) = [] := by
      change (fifos g).contents = []
      rw [Fdcan.RxFifo.contents, hfifos g]
      rfl
    exact {
      tx := ⟨Fdcan.Transmit.initial_ownInv words, Slots.served_fresh words⟩
      rx := RxState.initial_inv queue.items_start fun _ => rfl
      traced := RxState.traced_of_empty rfl hempty }
  | bxcan build config words fifos hfifos queue =>
    have hempty (g : FifoNum) : HwFifo.contents (fifos g) = [] := by
      change (fifos g).contents = []
      rw [Bxcan.RxFifo.contents, hfifos g]
      rfl
    have hsettled (g : FifoNum) : HwFifo.settled (fifos g) = true := by
      change (!(fifos g).rfom) = true
      cases hrfom : (fifos g).rfom with
      | false => rfl
      | true => exact absurd (hfifos g) ((fifos g).releasing hrfom)
    exact {
      tx := ⟨Bxcan.Transmit.initial_ownInv words, Slots.served_fresh words⟩
      rx := RxState.initial_inv queue.items_start hsettled
      traced := RxState.traced_of_empty rfl hempty }

theorem accepted_of_vouches {setup : Setup} {s : setup.party.State} {frame : Frame}
    (h : (setup.contract ι).Vouches s frame) :
    ∃ msg, setup.accepted s msg ∧ frame = msg.frame := by
  cases setup with
  | fdcan => exact h
  | bxcan => exact h

theorem returned_of_inv {setup : Setup} {s : setup.party.State} {heard : Taken ι Frame Receipt}
    (h : (setup.contract ι).inv s heard) :
    ∃ taken : Taken ι Frame Receipt,
      List.Forall₂ (fun y msg' => ∀ (size : ℕ) (msg : Msg size), y.2.item = msg.frame →
        Arrives msg msg') taken (setup.returned s) ∧
      ∀ g, (RxState.onFifo (fun y => y.1.fifo) g taken).Sublist
        (RxState.onFifo (fun y => y.1.fifo) g heard) := by
  cases setup with
  | fdcan build config words fifos hfifos queue =>
    apply h.returned
    intro y size msg hy
    have hreceives : Receives y.2.item y.1.stale
        (messageOf Fdcan.rxElementFor (Fdcan.decode build) y) := .fdcan ..
    rw [hy] at hreceives
    exact hreceives.arrives
  | bxcan build config words fifos hfifos queue =>
    apply h.returned
    intro y size msg hy
    have hreceives : Receives y.2.item y.1.stale
        (messageOf Bxcan.rxMailboxFor (Bxcan.decode build) y) := .bxcan ..
    rw [hy] at hreceives
    exact hreceives.arrives

end Setup

namespace Network
variable {ι : Type}

/-- All nodes after their initialisation, and nothing on the bus yet. -/
def start (setup : ι → Setup) : World fun n => (setup n).party := ⟨fun n => (setup n).start, []⟩

def KeepsApart (setup : ι → Setup) (w : World fun n => (setup n).party) :
    Action (fun n => (setup n).party) → Prop
  | .own n action => (setup n).KeepsApart (w.states n) action
  | .transfer _ _ _ _ => True

def pair (node : Bool) : Setup :=
  let queue : ReceiveQueue (Msg Build.classic.dataSize) := ⟨_, BoundedQueue.empty _ 4, rfl⟩
  match node with
  | true =>
    .bxcan .classic plainConfig (fun _ => ⟨0, 0, 0, 0⟩) (fun _ => .empty .classic) (fun _ => rfl)
      queue
  | false =>
    .fdcan .classic plainConfig (fun _ _ => 0) (fun _ => .empty .classic) (fun _ => rfl) queue

def firstFifo : FifoNum := ⟨0, Nat.zero_lt_two⟩

def cleanReceipt : Receipt := ⟨firstFifo, fun _ => 0, 0, 0, 0, 0⟩

/-- The bxCAN node sends three bytes, and the application of the other node takes them. -/
def pairRun : List (Action fun n => (pair n).party) :=
  .own true (.transmit (.setInak false)) :: .own true (.transmit (.nowait threeBytes)) ::
    List.replicate 9 (.own true (.transmit (.taskStep 0 false))) ++
    .transfer true (⟨0, Nat.zero_lt_succ 2⟩ : Slot) true (fun _ => some cleanReceipt) ::
    .own false (.receive (.interrupt [firstFifo])) ::
    List.replicate 7 (.own false (.receive .handlerStep)) ++ [.own false (.receive .receive)]

theorem pairRun_keepsApart : Along step (KeepsApart pair) (start pair) pairRun := by
  have hquiet : ∀ action ∈ pairRun, ∀ w, KeepsApart pair w action := by
    intro action haction w
    simp only [pairRun, List.cons_append, List.mem_cons, List.mem_append, List.mem_replicate,
      List.not_mem_nil, or_false, or_assoc] at haction
    rcases haction with rfl | rfl | ⟨-, rfl⟩ | rfl | rfl | ⟨-, rfl⟩ | rfl <;> trivial
  exact (along_of_forall hquiet).mono fun w _ h => h w

end Network

end UniHal.Can
