import UniHal.Can.Receive

/-! # Received messages are neither lost nor duplicated

What the handler released from the hardware FIFOs is what it stored or dropped, and what it
stored is what was returned and what is still queued. The invariant follows the element that
the handler has in its hands from the read of the fill level to the counters.
-/

namespace UniHal.Can
open Foundations Foundations.Execution

namespace RxState
variable {F Q Index E M : Type}

section Fields
variable (s : RxState F Q Index M) (handler : Handler Index M)

@[simp] theorem goto_fifos : (s.goto handler).fifos = s.fifos := rfl
@[simp] theorem goto_handler : (s.goto handler).handler = handler := rfl
@[simp] theorem goto_handled : (s.goto handler).handled = s.handled := rfl
@[simp] theorem goto_released : (s.goto handler).released = s.released := rfl

end Fields

variable [HwFifo F Index E M]

def inHand (s : RxState F Q Index M) : List M :=
  match s.handler with
  | .wait fifo msg _ => if HwFifo.settled (s.fifos fifo) then [msg] else []
  | .store _ msg _ => [msg]
  | _ => []

/-- What the handler knows about the FIFO it works on. Only a FIFO that the handler waits for
may be unsettled. -/
def HandlerInv (fifos : FifoNum → F) : Handler Index M → Prop
  | .idle => ∀ g, HwFifo.settled (fifos g) = true
  | .status _ _ => ∀ g, HwFifo.settled (fifos g) = true
  | .index fifo _ =>
    (∀ g, HwFifo.settled (fifos g) = true) ∧ HwFifo.contents (fifos fifo) ≠ []
  | .element fifo getIndex _ =>
    (∀ g, HwFifo.settled (fifos g) = true) ∧ HwFifo.contents (fifos fifo) ≠ [] ∧
      getIndex = HwFifo.getIndex (fifos fifo)
  | .release fifo getIndex msg _ =>
    (∀ g, HwFifo.settled (fifos g) = true) ∧
      (HwFifo.contents (fifos fifo)).head? = some msg ∧ getIndex = HwFifo.getIndex (fifos fifo)
  | .wait fifo msg _ =>
    (∀ g, g ≠ fifo → HwFifo.settled (fifos g) = true) ∧
      (HwFifo.settled (fifos fifo) = false → (HwFifo.contents (fifos fifo)).head? = some msg)
  | .store _ _ _ => ∀ g, HwFifo.settled (fifos g) = true

theorem head_of_length_one {popped rest all : List M} (happ : popped ++ rest = all)
    (hlen : popped.length = 1) : popped = all.head?.toList := by
  obtain ⟨m, rfl⟩ := List.length_eq_one_iff.mp hlen
  simp [← happ]

/-- An arrival changes neither the oldest element of a FIFO nor how it is reached. -/
theorem handlerInv_arrive {fifos : FifoNum → F} {handler : Handler Index M}
    (h : HandlerInv fifos handler) (fifo : FifoNum) (element : E) :
    HandlerInv (Function.update fifos fifo (HwFifo.arrive (fifos fifo) element)) handler := by
  have hsettled (g : FifoNum) :
      HwFifo.settled (Function.update fifos fifo (HwFifo.arrive (fifos fifo) element) g) =
        HwFifo.settled (fifos g) := by
    by_cases hg : g = fifo
    · subst hg
      rw [Function.update_self, HwFifo.arrive_settled]
    · rw [Function.update_of_ne hg]
  have hindex (g : FifoNum) :
      HwFifo.getIndex (Function.update fifos fifo (HwFifo.arrive (fifos fifo) element) g) =
        HwFifo.getIndex (fifos g) := by
    by_cases hg : g = fifo
    · subst hg
      rw [Function.update_self, HwFifo.arrive_getIndex]
    · rw [Function.update_of_ne hg]
  have hhead (g : FifoNum) (hne : HwFifo.contents (fifos g) ≠ []) :
      HwFifo.contents (Function.update fifos fifo (HwFifo.arrive (fifos fifo) element) g) ≠ [] ∧
      (HwFifo.contents
        (Function.update fifos fifo (HwFifo.arrive (fifos fifo) element) g)).head? =
          (HwFifo.contents (fifos g)).head? := by
    by_cases hg : g = fifo
    · subst hg
      rw [Function.update_self]
      exact HwFifo.arrive_head _ _ hne
    · rw [Function.update_of_ne hg]
      exact ⟨hne, rfl⟩
  have hsome {g : FifoNum} {msg : M} (hm : (HwFifo.contents (fifos g)).head? = some msg) :
      HwFifo.contents (fifos g) ≠ [] := by
    intro hnil
    simp [hnil] at hm
  cases handler with
  | idle => exact fun g => (hsettled g).trans (h g)
  | status => exact fun g => (hsettled g).trans (h g)
  | index f todo => exact ⟨fun g => (hsettled g).trans (h.1 g), (hhead f h.2).1⟩
  | element f i todo =>
    exact ⟨fun g => (hsettled g).trans (h.1 g), (hhead f h.2.1).1, h.2.2.trans (hindex f).symm⟩
  | release f i msg todo =>
    exact ⟨fun g => (hsettled g).trans (h.1 g), (hhead f (hsome h.2.1)).2.trans h.2.1,
      h.2.2.trans (hindex f).symm⟩
  | wait f msg todo =>
    constructor
    · exact fun g hg => (hsettled g).trans (h.1 g hg)
    · intro hf
      have hhd := h.2 ((hsettled f).symm.trans hf)
      exact (hhead f (hsome hhd)).2.trans hhd
  | store => exact fun g => (hsettled g).trans (h g)

/-- The hardware moves on in a settled FIFO without an effect. -/
theorem access_progress_settled {s : RxState F Q Index M} {fifo : FifoNum}
    (h : HwFifo.settled (s.fifos fifo) = true) :
    s.access fifo (HwFifo.progress (s.fifos fifo)) = s := by
  simp only [access, HwFifo.progress_settled _ h, List.append_nil, Function.update_eq_self]

theorem handlerInv_next {fifos : FifoNum → F} (h : ∀ g, HwFifo.settled (fifos g) = true)
    (todo : List FifoNum) : HandlerInv fifos (Handler.next todo : Handler Index M) := by
  cases todo <;> exact h

theorem inHand_next (s : RxState F Q Index M) (todo : List FifoNum) :
    (s.goto (.next todo)).inHand = [] := by
  cases todo <;> rfl

theorem stored_concat (handled : List (M × Outcome M)) (entry : M × Outcome M) :
    stored (handled ++ [entry]) = stored handled ++ stored [entry] := by
  simp only [stored, List.filterMap_append]

/-- The entry in the middle of a list with one more element is the new one or an old one. -/
theorem concat_eq_append_cons {α : Type} {xs before after : List α} {x y : α}
    (h : xs ++ [x] = before ++ y :: after) :
    (before = xs ∧ y = x) ∨ ∃ rest, xs = before ++ y :: rest := by
  cases List.eq_nil_or_concat after with
  | inl hnil =>
    subst hnil
    obtain ⟨hxs, hx⟩ := List.append_inj' h rfl
    exact .inl ⟨hxs.symm, (List.singleton_inj.mp hx).symm⟩
  | inr hconcat =>
    obtain ⟨rest, last, rfl⟩ := hconcat
    right
    refine ⟨rest, ?_⟩
    have happ : xs ++ [x] = (before ++ y :: rest) ++ [last] := by simpa using h
    exact (List.append_inj' happ rfl).1

variable [RxQueue Q M]

structure Inv (capacity : ℕ) (s : RxState F Q Index M) : Prop where
  inited : s.inited = true
  capacity_eq : RxQueue.capacity s.queue = capacity
  handlerInv : HandlerInv s.fifos s.handler
  stored_eq : stored s.handled = s.returned ++ RxQueue.items s.queue
  countRx : s.countRx = BitVec.ofNat 32 (stored s.handled).length
  counts : s.countRx + s.countRxDropped = BitVec.ofNat 32 s.handled.length
  released_eq : s.released = s.handled.map Prod.fst ++ s.inHand
  dropped : ∀ before msg held after, s.handled = before ++ (msg, .dropped held) :: after →
    held.length = capacity ∧ held <:+ stored before

/-- The handler moves on with the same message in its hands. -/
theorem Inv.goto {capacity : ℕ} {s : RxState F Q Index M} (h : Inv capacity s)
    {handler : Handler Index M} (hinv : HandlerInv s.fifos handler)
    (hhand : (s.goto handler).inHand = s.inHand) : Inv capacity (s.goto handler) :=
  { h with
    handlerInv := hinv
    released_eq := by rw [hhand]; exact h.released_eq }

/-- A message in hand goes to the queue when there is room, and is dropped only when there is
none. -/
theorem Inv.storeMsg {capacity : ℕ} {s : RxState F Q Index M} (h : Inv capacity s)
    {fifo : FifoNum} {msg : M} {todo : List FifoNum} (hpc : s.handler = .store fifo msg todo) :
    Inv capacity ((s.storeMsg msg).goto (.status fifo todo)) := by
  have hsettled : ∀ g, HwFifo.settled (s.fifos g) = true := by
    have := h.handlerInv
    rwa [hpc] at this
  have hreleased : s.released = s.handled.map Prod.fst ++ [msg] := by
    have := h.released_eq
    rwa [inHand, hpc] at this
  have hitems := RxQueue.send_items s.queue msg
  have hroom := RxQueue.send_fst s.queue msg
  cases hsend : (RxQueue.send s.queue msg).1 with
  | true =>
    rw [hsend, if_pos rfl] at hitems
    have hstored : stored (s.handled ++ [(msg, .stored)]) = stored s.handled ++ [msg] :=
      stored_concat _ _
    simp only [RxState.storeMsg, h.inited, hsend, if_true, RxState.goto]
    exact {
      inited := rfl
      capacity_eq := (RxQueue.send_capacity _ _).trans h.capacity_eq
      handlerInv := hsettled
      stored_eq := by
        simp only [hstored, h.stored_eq, hitems, List.append_assoc]
      countRx := by
        simp only [hstored, h.countRx, List.length_append, List.length_singleton,
          BitVec.ofNat_add]
        rfl
      counts := by
        have hcounts := h.counts
        simp only [List.length_append, List.length_singleton, BitVec.ofNat_add, ← hcounts]
        rw [BitVec.add_assoc, BitVec.add_comm 1, ← BitVec.add_assoc]
        rfl
      released_eq := by simp [inHand, hreleased]
      dropped := by
        intro before m held after heq
        rcases concat_eq_append_cons heq with ⟨-, hm⟩ | ⟨rest, hrest⟩
        · simp at hm
        · exact h.dropped before m held rest hrest }
  | false =>
    rw [hsend, if_neg Bool.false_ne_true, List.append_nil] at hitems
    have hfull : (RxQueue.items s.queue).length = RxQueue.capacity s.queue := by
      by_contra hne
      rw [hroom.mpr hne] at hsend
      exact Bool.noConfusion hsend
    have hstored : stored (s.handled ++ [(msg, .dropped (RxQueue.items s.queue))]) =
        stored s.handled := by
      rw [stored_concat]
      exact List.append_nil _
    simp only [RxState.storeMsg, h.inited, hsend, if_true, Bool.false_eq_true, if_false,
      RxState.goto]
    exact {
      inited := rfl
      capacity_eq := (RxQueue.send_capacity _ _).trans h.capacity_eq
      handlerInv := hsettled
      stored_eq := by simp only [hstored, h.stored_eq, hitems]
      countRx := by simp only [hstored, h.countRx]
      counts := by
        have hcounts := h.counts
        simp only [List.length_append, List.length_singleton, BitVec.ofNat_add, ← hcounts]
        rw [BitVec.add_assoc]
        rfl
      released_eq := by simp [inHand, hreleased]
      dropped := by
        intro before m held after heq
        rcases concat_eq_append_cons heq with ⟨rfl, hm⟩ | ⟨rest, hrest⟩
        · simp only [Prod.mk.injEq, Outcome.dropped.injEq] at hm
          obtain ⟨-, rfl⟩ := hm
          constructor
          · exact hfull.trans h.capacity_eq
          · rw [h.stored_eq]
            exact List.suffix_append _ _
        · exact h.dropped before m held rest hrest }

/-- A release takes the message that the handler has read out of the hardware, now or later. -/
theorem Inv.release {capacity : ℕ} {s : RxState F Q Index M} (h : Inv capacity s)
    {fifo : FifoNum} {getIndex : Index} {msg : M} {todo : List FifoNum}
    (hpc : s.handler = .release fifo getIndex msg todo) :
    Inv capacity
      ((s.access fifo (HwFifo.release (s.fifos fifo) getIndex)).goto (.wait fifo msg todo)) := by
  obtain ⟨hsettled, hhead, rfl⟩ :
      (∀ g, HwFifo.settled (s.fifos g) = true) ∧
      (HwFifo.contents (s.fifos fifo)).head? = some msg ∧
      getIndex = HwFifo.getIndex (s.fifos fifo) := by
    have := h.handlerInv
    rwa [hpc] at this
  have hreleased : s.released = s.handled.map Prod.fst := by
    have := h.released_eq
    rwa [inHand, hpc, List.append_nil] at this
  have hne : HwFifo.contents (s.fifos fifo) ≠ [] := by
    intro hnil
    simp [hnil] at hhead
  have hcontents := HwFifo.release_contents _ hne
  have hlength := HwFifo.release_length _ hne
  exact {
    h with
    handlerInv := by
      constructor
      · intro g hg
        simpa [access, Function.update_of_ne hg] using hsettled g
      · intro hun
        simp only [goto_fifos, access, Function.update_self] at hun ⊢
        rw [hun, if_neg Bool.false_ne_true, List.length_eq_zero_iff] at hlength
        rw [hlength, List.nil_append] at hcontents
        rw [hcontents, hhead]
    released_eq := by
      simp only [inHand, goto_handler, goto_fifos, goto_handled, goto_released, access,
        Function.update_self, hreleased]
      cases hset : HwFifo.settled
          (HwFifo.release (s.fifos fifo) (HwFifo.getIndex (s.fifos fifo))).2 with
      | true =>
        rw [hset, if_pos rfl] at hlength
        rw [head_of_length_one hcontents hlength, hhead]
        rfl
      | false =>
        rw [hset, if_neg Bool.false_ne_true, List.length_eq_zero_iff] at hlength
        rw [hlength]
        rfl }

/-- The hardware takes the element that the handler waits for, and no other. -/
theorem Inv.progress {capacity : ℕ} {s : RxState F Q Index M} (h : Inv capacity s)
    (fifo : FifoNum) : Inv capacity (s.access fifo (HwFifo.progress (s.fifos fifo))) := by
  cases hset : HwFifo.settled (s.fifos fifo) with
  | true =>
    rw [access_progress_settled hset]
    exact h
  | false =>
    have hall : (∀ g, HwFifo.settled (s.fifos g) = true) → False := fun hall => by
      rw [hall fifo] at hset
      exact Bool.noConfusion hset
    have hinv := h.handlerInv
    have hreleased := h.released_eq
    cases hpc : s.handler with
    | wait f msg todo =>
      rw [hpc] at hinv
      obtain ⟨hothers, hhead⟩ := hinv
      have hf : fifo = f := by
        by_contra hne
        rw [hothers fifo hne] at hset
        exact Bool.noConfusion hset
      subst hf
      simp only [inHand, hpc, hset, Bool.false_eq_true, if_false, List.append_nil] at hreleased
      have hlength := HwFifo.progress_length (s.fifos fifo)
      rw [hset, if_neg Bool.false_ne_true] at hlength
      have hpopped := head_of_length_one (HwFifo.progress_contents (s.fifos fifo)) hlength
      rw [hhead hset] at hpopped
      have hdone := HwFifo.progress_unsettled _ hset
      exact {
        h with
        handlerInv := by
          simp only [access, hpc]
          constructor
          · intro g hg
            rw [Function.update_of_ne hg]
            exact hothers g hg
          · intro hun
            rw [Function.update_self, hdone] at hun
            exact Bool.noConfusion hun
        released_eq := by
          simp only [inHand, access, hpc, Function.update_self, hdone, if_true, hreleased,
            hpopped, Option.toList_some] }
    | idle => rw [hpc] at hinv; exact (hall hinv).elim
    | status => rw [hpc] at hinv; exact (hall hinv).elim
    | index => rw [hpc] at hinv; exact (hall hinv.1).elim
    | element => rw [hpc] at hinv; exact (hall hinv.1).elim
    | release => rw [hpc] at hinv; exact (hall hinv.1).elim
    | store => rw [hpc] at hinv; exact (hall hinv).elim

theorem Inv.handlerStep {capacity : ℕ} {s t : RxState F Q Index M} (h : Inv capacity s)
    (hs : s.handlerStep = some t) : Inv capacity t := by
  have hinv := h.handlerInv
  cases hpc : s.handler with
  | idle => simp [RxState.handlerStep, hpc] at hs
  | status fifo todo =>
    rw [hpc] at hinv
    cases hfill : HwFifo.filled (s.fifos fifo) with
    | true =>
      simp only [RxState.handlerStep, hpc, hfill, if_true, Option.some.injEq] at hs
      subst hs
      exact h.goto ⟨hinv, (HwFifo.filled_iff _).mp hfill⟩ (by simp [inHand, hpc])
    | false =>
      simp only [RxState.handlerStep, hpc, hfill, Bool.false_eq_true, if_false,
        Option.some.injEq] at hs
      subst hs
      exact h.goto (handlerInv_next hinv todo) (by rw [inHand_next, inHand, hpc])
  | index fifo todo =>
    rw [hpc] at hinv
    simp only [RxState.handlerStep, hpc, Option.some.injEq] at hs
    subst hs
    exact h.goto ⟨hinv.1, hinv.2, rfl⟩ (by simp [inHand, hpc])
  | element fifo getIndex todo =>
    rw [hpc] at hinv
    obtain ⟨hsettled, hne, rfl⟩ := hinv
    simp only [RxState.handlerStep, hpc, Option.some.injEq] at hs
    subst hs
    exact h.goto ⟨hsettled, HwFifo.read_getIndex _ hne, rfl⟩ (by simp [inHand, hpc])
  | release fifo getIndex msg todo =>
    simp only [RxState.handlerStep, hpc, Option.some.injEq] at hs
    subst hs
    exact h.release hpc
  | wait fifo msg todo =>
    rw [hpc] at hinv
    cases hset : HwFifo.settled (s.fifos fifo) with
    | true =>
      simp only [RxState.handlerStep, hpc, hset, if_true, Option.some.injEq] at hs
      subst hs
      have hall (g : FifoNum) : HwFifo.settled (s.fifos g) = true := by
        by_cases hg : g = fifo
        · exact hg ▸ hset
        · exact hinv.1 g hg
      exact h.goto hall (by simp [inHand, hpc, hset])
    | false => simp [RxState.handlerStep, hpc, hset] at hs
  | store fifo msg todo =>
    simp only [RxState.handlerStep, hpc, Option.some.injEq] at hs
    subst hs
    exact h.storeMsg hpc

/-- `uni_hal_can_receive` returns the oldest queued message. -/
theorem Inv.receive {capacity : ℕ} {s : RxState F Q Index M} (h : Inv capacity s) :
    Inv capacity s.receive.2 := by
  simp only [RxState.receive, h.inited, if_true]
  exact {
    h with
    inited := rfl
    capacity_eq := (RxQueue.receive_capacity _).trans h.capacity_eq
    stored_eq := by
      simp only [h.stored_eq, RxQueue.receive_fst, RxQueue.receive_items]
      cases RxQueue.items s.queue <;> simp }

theorem step_inv {capacity : ℕ} {s t : RxState F Q Index M} {action : RxAction E}
    (h : Inv capacity s) (hs : s.step action = some t) : Inv capacity t := by
  cases action with
  | arrive fifo element =>
    simp only [step, Option.some.injEq] at hs
    subst hs
    exact {
      h with
      handlerInv := handlerInv_arrive h.handlerInv fifo element
      released_eq := by
        have hreleased := h.released_eq
        cases hpc : s.handler with
        | wait f msg todo =>
          simp only [inHand, hpc] at hreleased ⊢
          rw [hreleased]
          by_cases hf : f = fifo
          · subst hf
            simp only [Function.update_self, HwFifo.arrive_settled]
          · simp only [Function.update_of_ne hf]
        | _ => simpa only [inHand, hpc] using hreleased }
  | progress fifo =>
    simp only [step, Option.some.injEq] at hs
    subst hs
    exact h.progress fifo
  | interrupt todo =>
    cases hpc : s.handler with
    | idle =>
      simp only [step, isIdle, hpc, if_true, Option.some.injEq] at hs
      subst hs
      have hinv := h.handlerInv
      rw [hpc] at hinv
      exact h.goto (handlerInv_next hinv todo) (by rw [inHand_next, inHand, hpc])
    | _ => simp [step, isIdle, hpc] at hs
  | handlerStep => exact h.handlerStep hs
  | receive =>
    simp only [step, Option.ite_none_right_eq_some, Option.some.injEq] at hs
    exact hs.2 ▸ h.receive
  | isAvailable =>
    simp only [step, Option.ite_none_right_eq_some, Option.some.injEq] at hs
    exact hs.2 ▸ h

theorem initial_inv {fifos : FifoNum → F} {queue : Q} (hq : RxQueue.items queue = [])
    (hf : ∀ g, HwFifo.settled (fifos g) = true) :
    Inv (RxQueue.capacity queue) (initial fifos queue : RxState F Q Index M) where
  inited := rfl
  capacity_eq := rfl
  handlerInv := hf
  stored_eq := hq.symm
  countRx := rfl
  counts := rfl
  released_eq := rfl
  dropped := by
    intro before msg held after heq
    simp [initial] at heq

end RxState

end UniHal.Can
