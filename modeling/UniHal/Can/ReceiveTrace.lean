import UniHal.Can.ReceiveConservation

/-! # Where the received messages come from

Every message that leaves a hardware FIFO is that of a frame which arrived there, no frame is
taken twice, and the frames of one FIFO keep their order. What a full FIFO or a full queue loses
is missing, and nothing else changes on the way to `uni_hal_can_receive`.
-/

namespace UniHal.Can
open Foundations

namespace RxState
variable {F Q Index E M Y : Type}

def onFifo (fifoOf : Y → FifoNum) (g : FifoNum) (arrivals : List Y) : List Y :=
  arrivals.filter fun y => fifoOf y = g

theorem onFifo_append (fifoOf : Y → FifoNum) (g : FifoNum) (ys zs : List Y) :
    onFifo fifoOf g (ys ++ zs) = onFifo fifoOf g ys ++ onFifo fifoOf g zs :=
  List.filter_append ..

theorem mem_onFifo {fifoOf : Y → FifoNum} {g : FifoNum} {arrivals : List Y} {y : Y} :
    y ∈ onFifo fifoOf g arrivals ↔ y ∈ arrivals ∧ fifoOf y = g := by
  simp [onFifo]

theorem onFifo_of_forall {fifoOf : Y → FifoNum} {g : FifoNum} {arrivals : List Y}
    (h : ∀ y ∈ arrivals, fifoOf y = g) : onFifo fifoOf g arrivals = arrivals :=
  List.filter_eq_self.mpr fun y hy => decide_eq_true (h y hy)

theorem onFifo_of_forall_ne {fifoOf : Y → FifoNum} {g : FifoNum} {arrivals : List Y}
    (h : ∀ y ∈ arrivals, fifoOf y ≠ g) : onFifo fifoOf g arrivals = [] :=
  List.filter_eq_nil_iff.mpr fun y hy => by simp [h y hy]

variable [HwFifo F Index E M]

/-- What has left the hardware, and what is still in each FIFO, are arrivals of that FIFO in
their order. -/
def Traced (fifoOf : Y → FifoNum) (decode : Y → M) (s : RxState F Q Index M) (arrivals : List Y) :
    Prop :=
  ∃ (out : List Y) (inside : FifoNum → List Y), out.map decode = s.released ∧
    ∀ g, (inside g).map decode = HwFifo.contents (s.fifos g) ∧
      (onFifo fifoOf g out ++ inside g).Sublist (onFifo fifoOf g arrivals)

variable {fifoOf : Y → FifoNum} {decode : Y → M} {arrivals : List Y} {s t : RxState F Q Index M}

theorem traced_of_empty (hreleased : s.released = [])
    (hempty : ∀ g, HwFifo.contents (s.fifos g) = []) : Traced fifoOf decode s [] :=
  ⟨[], fun _ => [], hreleased.symm, fun g => ⟨(hempty g).symm, List.Sublist.refl _⟩⟩

theorem Traced.congr (h : Traced fifoOf decode s arrivals) (hreleased : t.released = s.released)
    (hfifos : t.fifos = s.fifos) : Traced fifoOf decode t arrivals := by
  obtain ⟨out, inside, hout, hinside⟩ := h
  refine ⟨out, inside, hout.trans hreleased.symm, ?_⟩
  rw [hfifos]
  exact hinside

/-- An arrival goes into its FIFO, where it may displace others, or is lost. -/
theorem Traced.arrive (h : Traced fifoOf decode s arrivals) {element : E} {y : Y}
    (hy : (HwFifo.contents (HwFifo.arrive (s.fifos (fifoOf y)) element)).Sublist
      (HwFifo.contents (s.fifos (fifoOf y)) ++ [decode y]))
    (hreleased : t.released = s.released)
    (hfifos : t.fifos =
      Function.update s.fifos (fifoOf y) (HwFifo.arrive (s.fifos (fifoOf y)) element)) :
    Traced fifoOf decode t (arrivals ++ [y]) := by
  obtain ⟨out, inside, hout, hinside⟩ := h
  obtain ⟨hself, hsublist⟩ := hinside (fifoOf y)
  obtain ⟨kept, hkept, hcontents⟩ :
      ∃ kept : List Y, kept.Sublist (inside (fifoOf y) ++ [y]) ∧
        HwFifo.contents (HwFifo.arrive (s.fifos (fifoOf y)) element) = kept.map decode := by
    rw [← hself, ← List.map_singleton, ← List.map_append] at hy
    exact List.sublist_map_iff.mp hy
  refine ⟨out, Function.update inside (fifoOf y) kept, hout.trans hreleased.symm, fun g => ?_⟩
  rw [onFifo_append, hfifos]
  by_cases hg : g = fifoOf y
  · subst hg
    have hlast : onFifo fifoOf (fifoOf y) [y] = [y] := onFifo_of_forall (by simp)
    rw [Function.update_self, Function.update_self, hlast]
    refine ⟨hcontents.symm, ?_⟩
    have hbefore : (onFifo fifoOf (fifoOf y) out ++ kept).Sublist
        ((onFifo fifoOf (fifoOf y) out ++ inside (fifoOf y)) ++ [y]) := by
      rw [List.append_assoc]
      exact (List.Sublist.refl _).append hkept
    exact hbefore.trans (hsublist.append (List.Sublist.refl _))
  · have hlast : onFifo fifoOf g [y] = [] := onFifo_of_forall_ne (by simpa using Ne.symm hg)
    rw [Function.update_of_ne hg, Function.update_of_ne hg, hlast, List.append_nil]
    exact hinside g

theorem Traced.access (h : Traced fifoOf decode s arrivals) {fifo : FifoNum}
    {outcome : List M × F}
    (houtcome : outcome.1 ++ HwFifo.contents outcome.2 = HwFifo.contents (s.fifos fifo)) :
    Traced fifoOf decode (s.access fifo outcome) arrivals := by
  obtain ⟨out, inside, hout, hinside⟩ := h
  obtain ⟨hself, hsublist⟩ := hinside fifo
  obtain ⟨taken, rest, happ, htaken, hrest⟩ :
      ∃ taken rest, inside fifo = taken ++ rest ∧ taken.map decode = outcome.1 ∧
        rest.map decode = HwFifo.contents outcome.2 :=
    List.map_eq_append_iff.mp (hself.trans houtcome.symm)
  have hfifo (y : Y) (hy : y ∈ taken) : fifoOf y = fifo := by
    have hmem : y ∈ onFifo fifoOf fifo out ++ inside fifo := by simp [happ, hy]
    exact (mem_onFifo.mp (hsublist.mem hmem)).2
  refine ⟨out ++ taken, Function.update inside fifo rest, ?_, fun g => ?_⟩
  · rw [List.map_append, hout, htaken]
    rfl
  · simp only [RxState.access]
    rw [onFifo_append]
    by_cases hg : g = fifo
    · subst hg
      rw [Function.update_self, Function.update_self, onFifo_of_forall hfifo, List.append_assoc,
        ← happ]
      exact ⟨hrest, hsublist⟩
    · have hnone : onFifo fifoOf g taken = [] :=
        onFifo_of_forall_ne fun y hy heq => hg (heq.symm.trans (hfifo y hy))
      rw [Function.update_of_ne hg, Function.update_of_ne hg, hnone, List.append_nil]
      exact hinside g

variable [RxQueue Q M] {capacity : ℕ}

theorem Traced.storeMsg (h : Traced fifoOf decode s arrivals) (msg : M) :
    Traced fifoOf decode (s.storeMsg msg) arrivals := by
  simp only [RxState.storeMsg]
  split_ifs
  · exact h.congr rfl rfl
  · exact h.congr rfl rfl
  · exact h

theorem Traced.handlerStep (h : Traced fifoOf decode s arrivals) (hinv : Inv capacity s)
    (hs : s.handlerStep = some t) : Traced fifoOf decode t arrivals := by
  cases hpc : s.handler with
  | idle => simp [RxState.handlerStep, hpc] at hs
  | status fifo todo =>
    simp only [RxState.handlerStep, hpc] at hs
    split_ifs at hs
    · exact h.congr (by rw [← Option.some.inj hs]; rfl) (by rw [← Option.some.inj hs]; rfl)
    · exact h.congr (by rw [← Option.some.inj hs]; rfl) (by rw [← Option.some.inj hs]; rfl)
  | index fifo todo | element fifo getIndex todo =>
    simp only [RxState.handlerStep, hpc, Option.some.injEq] at hs
    exact h.congr (by rw [← hs]; rfl) (by rw [← hs]; rfl)
  | release fifo getIndex msg todo =>
    simp only [RxState.handlerStep, hpc, Option.some.injEq] at hs
    obtain ⟨-, hhead, hindex⟩ :
        (∀ g, HwFifo.settled (s.fifos g) = true) ∧
        (HwFifo.contents (s.fifos fifo)).head? = some msg ∧
        getIndex = HwFifo.getIndex (s.fifos fifo) := by
      have hknows := hinv.handlerInv
      rwa [hpc] at hknows
    have hne : HwFifo.contents (s.fifos fifo) ≠ [] := by
      intro hnil
      simp [hnil] at hhead
    rw [hindex] at hs
    have haccess := h.access (HwFifo.release_contents _ hne)
    exact haccess.congr (by rw [← hs]; rfl) (by rw [← hs]; rfl)
  | wait fifo msg todo =>
    simp only [RxState.handlerStep, hpc, Option.ite_none_right_eq_some, Option.some.injEq] at hs
    exact h.congr (by rw [← hs.2]; rfl) (by rw [← hs.2]; rfl)
  | store fifo msg todo =>
    simp only [RxState.handlerStep, hpc, Option.some.injEq] at hs
    exact (h.storeMsg msg).congr (by rw [← hs]; rfl) (by rw [← hs]; rfl)

theorem traced_step {action : RxAction E} (h : Traced fifoOf decode s arrivals)
    (hinv : Inv capacity s) (haction : ∀ fifo element, action ≠ .arrive fifo element)
    (hs : s.step action = some t) : Traced fifoOf decode t arrivals := by
  cases action with
  | arrive fifo element => exact absurd rfl (haction fifo element)
  | progress fifo =>
    simp only [step, Option.some.injEq] at hs
    exact hs ▸ h.access (HwFifo.progress_contents _)
  | interrupt todo =>
    simp only [step, Option.ite_none_right_eq_some, Option.some.injEq] at hs
    exact h.congr (by rw [← hs.2]; rfl) (by rw [← hs.2]; rfl)
  | handlerStep => exact h.handlerStep hinv hs
  | receive =>
    simp only [step, Option.ite_none_right_eq_some, Option.some.injEq] at hs
    have hreceive : s.receive.2.released = s.released ∧ s.receive.2.fifos = s.fifos := by
      simp only [RxState.receive, hinv.inited, if_true, and_self]
    exact h.congr (by rw [← hs.2]; exact hreceive.1) (by rw [← hs.2]; exact hreceive.2)
  | isAvailable =>
    simp only [step, Option.ite_none_right_eq_some, Option.some.injEq] at hs
    exact hs.2 ▸ h

/-- The messages that `uni_hal_can_receive` has returned are those of arrivals, each of them once,
and for each FIFO in the order of its arrivals. -/
theorem Traced.returned (h : Traced fifoOf decode s arrivals) (hinv : Inv capacity s) :
    ∃ taken : List Y, taken.map decode = s.returned ∧
      ∀ g, (onFifo fifoOf g taken).Sublist (onFifo fifoOf g arrivals) := by
  obtain ⟨out, inside, hout, hinside⟩ := h
  have hstored : s.returned.Sublist (stored s.handled) := by
    rw [hinv.stored_eq]
    exact List.sublist_append_left ..
  have hhandled : (stored s.handled).Sublist (s.handled.map Prod.fst) := by
    generalize s.handled = handled
    induction handled with
    | nil => exact List.Sublist.refl _
    | cons entry handled ih =>
      obtain ⟨msg, outcome⟩ := entry
      cases outcome with
      | stored => exact ih.cons_cons msg
      | dropped held => exact ih.cons msg
  have hreleased : (s.handled.map Prod.fst).Sublist s.released := by
    rw [hinv.released_eq]
    exact List.sublist_append_left ..
  have hreturned : s.returned.Sublist (out.map decode) := by
    rw [hout]
    exact hstored.trans (hhandled.trans hreleased)
  obtain ⟨taken, htaken, hmap⟩ := List.sublist_map_iff.mp hreturned
  refine ⟨taken, hmap.symm, fun g => ?_⟩
  have hbefore : (onFifo fifoOf g taken).Sublist (onFifo fifoOf g out) := htaken.filter _
  exact hbefore.trans ((List.sublist_append_left ..).trans (hinside g).2)

end RxState

end UniHal.Can
