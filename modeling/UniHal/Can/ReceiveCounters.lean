import UniHal.Can.Bxcan.RxFifo
import UniHal.Can.Fdcan.RxFifo
import UniHal.Can.ReceiveConservation

/-! # The receive counters of both drivers

In every run of either driver the returned messages are the first ones that were stored, and
outside the handler the counters tell what was released from the hardware. The counters have
32 bits: the equations hold modulo their range, and exactly until they wrap.
-/

namespace UniHal.Can
open Foundations Foundations.Execution

namespace RxState
variable {F Q Index E M : Type} [HwFifo F Index E M] [RxQueue Q M]

/-- Nothing is lost but what did not fit. -/
structure Conserved (capacity : ℕ) (s : RxState F Q Index M) : Prop where
  /-- The messages returned are the first ones that were stored, in their order. -/
  returned_prefix : s.returned <+: stored s.handled
  released_eq : s.isIdle = true → s.released = s.handled.map Prod.fst
  countRx : s.isIdle = true →
    s.countRx = BitVec.ofNat 32 (s.returned.length + s.isAvailable)
  counts : s.isIdle = true →
    s.countRx + s.countRxDropped = BitVec.ofNat 32 s.released.length
  /-- Before the counters wrap, the equations are exact. -/
  exact_counts : s.isIdle = true → s.released.length < 2 ^ 32 →
    s.countRx.toNat = s.returned.length + s.isAvailable ∧
      s.countRx.toNat + s.countRxDropped.toNat = s.released.length
  /-- A message is dropped while the queue is full of messages that were stored before it. -/
  dropped : ∀ before msg held after, s.handled = before ++ (msg, .dropped held) :: after →
    held.length = capacity ∧ held <:+ stored before

theorem stored_length_le (handled : List (M × Outcome M)) :
    (stored handled).length ≤ handled.length := List.length_filterMap_le _ _

theorem Inv.released_of_isIdle {capacity : ℕ} {s : RxState F Q Index M} (h : Inv capacity s)
    (hidle : s.isIdle = true) : s.released = s.handled.map Prod.fst := by
  have hreleased := h.released_eq
  cases hpc : s.handler with
  | idle => simpa [inHand, hpc] using hreleased
  | _ => simp [isIdle, hpc] at hidle

theorem Inv.conserved {capacity : ℕ} {s : RxState F Q Index M} (h : Inv capacity s) :
    Conserved capacity s := by
  have hlength : (stored s.handled).length = s.returned.length + s.isAvailable := by
    rw [h.stored_eq, List.length_append]
    rfl
  have hcount : s.countRx = BitVec.ofNat 32 (s.returned.length + s.isAvailable) := by
    rw [h.countRx, hlength]
  have hreleased (hidle : s.isIdle = true) : s.handled.length = s.released.length := by
    rw [h.released_of_isIdle hidle, List.length_map]
  exact {
    returned_prefix := by
      rw [h.stored_eq]
      exact List.prefix_append _ _
    released_eq := h.released_of_isIdle
    countRx := fun _ => hcount
    counts := fun hidle => by rw [h.counts, hreleased hidle]
    exact_counts := by
      intro hidle hsmall
      have hcounts := congrArg BitVec.toNat h.counts
      have hle := stored_length_le s.handled
      have hdropped := s.countRxDropped.isLt
      rw [hreleased hidle] at hcounts hle
      simp only [BitVec.toNat_add, BitVec.toNat_ofNat, hcount] at hcounts ⊢
      omega
    dropped := h.dropped }

theorem exec_conserved {fifos : FifoNum → F} {queue : Q} (hq : RxQueue.items queue = [])
    (hf : ∀ g, HwFifo.settled (fifos g) = true) {run : List (RxAction E)}
    {s : RxState F Q Index M} (hrun : exec step (initial fifos queue) run = some s) :
    Conserved (RxQueue.capacity queue) s :=
  (exec_invariant_of_step (fun _ _ _ h hs => step_inv h hs) (initial_inv hq hf) hrun).conserved

end RxState

/-- Conservation of the received messages, for FDCAN and for bxCAN, in every interleaving of
arriving frames, interrupts and calls. -/
theorem receive_conserved (build : Build) {Q : Type} [RxQueue Q (Msg build.dataSize)] (queue : Q)
    (hq : RxQueue.items queue = []) :
    (∀ (fifos : FifoNum → Fdcan.RxFifo build) run s,
      exec RxState.step (RxState.initial fifos queue) run = some s →
        s.Conserved (RxQueue.capacity queue)) ∧
    (∀ fifos : FifoNum → Bxcan.RxFifo build, (∀ g, (fifos g).rfom = false) → ∀ run s,
      exec RxState.step (RxState.initial fifos queue) run = some s →
        s.Conserved (RxQueue.capacity queue)) := by
  constructor
  · intro fifos run s hrun
    exact RxState.exec_conserved hq (fun _ => rfl) hrun
  · intro fifos hrfom run s hrun
    apply RxState.exec_conserved hq _ hrun
    intro g
    simp [HwFifo.settled, hrfom g]

/-- Two frames arrive before the handler runs, and a call takes a message. -/
def twoFrames {E : Type} (element : E) : List (RxAction E) :=
  [.arrive 0 element, .arrive 0 element, .interrupt [0],
    .handlerStep, .handlerStep, .handlerStep, .handlerStep, .progress 0, .handlerStep, .handlerStep,
    .handlerStep, .handlerStep, .handlerStep, .handlerStep, .progress 0, .handlerStep, .handlerStep,
    .handlerStep, .receive]

/-- With room for one message the second of two frames is dropped. -/
theorem receive_conserved_overload :
    (∃ s, exec RxState.step (RxState.initial (fun _ => Fdcan.RxFifo.empty .classic)
        (BoundedQueue.empty (Msg Build.classic.dataSize) 1)) (twoFrames fun _ => 0) = some s ∧
      s.countRx = 1 ∧ s.countRxDropped = 1 ∧ s.Conserved 1) ∧
    (∃ s, exec RxState.step (RxState.initial (fun _ => Bxcan.RxFifo.empty .classic)
        (BoundedQueue.empty (Msg Build.classic.dataSize) 1)) (twoFrames ⟨0, 0, 0, 0⟩) = some s ∧
      s.countRx = 1 ∧ s.countRxDropped = 1 ∧ s.Conserved 1) := by
  constructor
  · exact ⟨_, rfl, rfl, rfl,
      (receive_conserved .classic (BoundedQueue.empty _ 1) rfl).1
        (fun _ => Fdcan.RxFifo.empty .classic) (twoFrames fun _ => 0) _ rfl⟩
  · exact ⟨_, rfl, rfl, rfl,
      (receive_conserved .classic (BoundedQueue.empty _ 1) rfl).2
        (fun _ => Bxcan.RxFifo.empty .classic) (fun _ => rfl) (twoFrames ⟨0, 0, 0, 0⟩) _ rfl⟩

def oneFrame (box : Bxcan.RxMailbox) : List (RxAction Bxcan.RxMailbox) :=
  [.arrive 0 box, .interrupt [0], .handlerStep, .handlerStep, .handlerStep, .handlerStep,
    .progress 0, .handlerStep, .handlerStep, .handlerStep, .receive]

/-- bxCAN after `n` frames that were all returned. -/
def afterFrames (box : Bxcan.RxMailbox) (n : ℕ) :
    RxState (Bxcan.RxFifo .classic) (BoundedQueue (Msg Build.classic.dataSize)) Unit
      (Msg Build.classic.dataSize) :=
  let msg := Bxcan.decode .classic box
  { RxState.initial (fun _ => Bxcan.RxFifo.empty .classic) (BoundedQueue.empty _ 32) with
    countRx := BitVec.ofNat 32 n
    handled := List.replicate n (msg, .stored)
    released := List.replicate n msg
    returned := List.replicate n msg }

theorem exec_oneFrame (box : Bxcan.RxMailbox) (n : ℕ) :
    exec RxState.step (afterFrames box n) (oneFrame box) = some (afterFrames box (n + 1)) := by
  refine congrArg some (?_ : _ = afterFrames box (n + 1))
  apply (RxState.mk.injEq ..).mpr
  refine ⟨?_, rfl, rfl, ?_, rfl, rfl, ?_, ?_, ?_⟩
  · funext g
    match g with
    | 0 => rfl
    | 1 => rfl
  · exact (BitVec.ofNat_add ..).symm
  · exact List.replicate_succ'.symm
  · change (List.replicate n _ ++ []) ++ [_] = List.replicate (n + 1) _
    rw [List.append_nil, List.replicate_succ']
  · exact List.replicate_succ'.symm

theorem exec_frames (box : Bxcan.RxMailbox) (n : ℕ) :
    exec RxState.step (afterFrames box 0) (List.replicate n (oneFrame box)).flatten =
      some (afterFrames box n) := by
  induction n with
  | zero => rfl
  | succ n ih =>
    rw [List.replicate_succ', List.flatten_append, exec_append, ih]
    simp only [Option.bind_some, List.flatten_singleton, exec_oneFrame]

theorem afterFrames_counts (box : Bxcan.RxMailbox) (n : ℕ) :
    (afterFrames box n).countRx.toNat = n % 2 ^ 32 ∧
      (afterFrames box n).countRxDropped.toNat = 0 ∧
      (afterFrames box n).returned.length = n ∧ (afterFrames box n).released.length = n := by
  simp [afterFrames, RxState.initial]

/-- After 2^32 frames the counter is zero again, while as many messages were returned. -/
theorem receive_counters_wrap : ∃ run s,
    exec RxState.step
        (RxState.initial (fun _ => Bxcan.RxFifo.empty .classic)
          (BoundedQueue.empty (Msg Build.classic.dataSize) 32)) run = some s ∧
      s.isIdle = true ∧ s.countRx.toNat ≠ s.returned.length + s.isAvailable ∧
      s.countRx.toNat + s.countRxDropped.toNat ≠ s.released.length := by
  have hwrap : ∀ n, n % 2 ^ 32 = 0 → 0 < n → ∃ run s,
      exec RxState.step (afterFrames ⟨0, 0, 0, 0⟩ 0) run = some s ∧
      s.isIdle = true ∧ s.countRx.toNat ≠ s.returned.length + s.isAvailable ∧
      s.countRx.toNat + s.countRxDropped.toNat ≠ s.released.length := by
    intro n hn hpos
    obtain ⟨hrx, hdropped, hreturned, hreleased⟩ := afterFrames_counts ⟨0, 0, 0, 0⟩ n
    refine ⟨_, _, exec_frames ⟨0, 0, 0, 0⟩ n, rfl, ?_, ?_⟩
    · omega
    · omega
  exact hwrap (2 ^ 32) (by decide) (by decide)

end UniHal.Can
