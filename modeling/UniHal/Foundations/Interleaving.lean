import UniHal.Foundations.Execution

/-! # Calls and one interrupt handler over a shared state

Any number of calls is in progress, each at a program counter of its own, next to a handler
that is entered at any time while it does not run. The next step is made by any one of them
or by the hardware, so every order of their steps is a run, whoever may preempt whom.
-/

namespace UniHal.Foundations.Interleaving

/-- Hardware steps `E`, calls `K` that continue at the program counters `C`, and the program
counters `H` of the handler. A call makes its first step when it is made. -/
structure Program (S E K C H : Type*) where
  hardware : E → S → Option S
  call : K → S → S × Option C
  resume : C → S → S × Option C
  entry : H
  serve : H → S → S × Option H

structure World (S C H : Type*) where
  shared : S
  calls : List C
  handler : Option H

inductive Action (E K C : Type*)
  | hardware (e : E)
  | call (k : K)
  | resume (c : C)
  | enter
  | serve
  deriving DecidableEq, Repr

variable {S E K C H : Type*} [DecidableEq C]

def replace (calls : List C) (c : C) (next : Option C) : List C := next.toList ++ calls.erase c

def step (p : Program S E K C H) (w : World S C H) : Action E K C → Option (World S C H)
  | .hardware e => (p.hardware e w.shared).map fun s => { w with shared := s }
  | .call k =>
    let r := p.call k w.shared
    some { w with shared := r.1, calls := r.2.toList ++ w.calls }
  | .resume c =>
    if c ∈ w.calls then
      let r := p.resume c w.shared
      some { w with shared := r.1, calls := replace w.calls c r.2 }
    else none
  | .enter =>
    match w.handler with
    | none => some { w with handler := some p.entry }
    | some _ => none
  | .serve =>
    match w.handler with
    | none => none
    | some h =>
      let r := p.serve h w.shared
      some { w with shared := r.1, handler := r.2 }

section Inversion
variable {p : Program S E K C H} {w w' : World S C H}

theorem step_hardware_eq_some {e : E} : step p w (.hardware e) = some w' ↔
    ∃ s, p.hardware e w.shared = some s ∧ { w with shared := s } = w' :=
  Option.map_eq_some_iff

theorem step_resume_eq_some {c : C} : step p w (.resume c) = some w' ↔
    c ∈ w.calls ∧ { w with
      shared := (p.resume c w.shared).1
      calls := replace w.calls c (p.resume c w.shared).2 } = w' := by
  by_cases hc : c ∈ w.calls
  · rw [step, if_pos hc, Option.some.injEq, and_iff_right hc]
  · simp [step, hc]

theorem step_enter_eq_some : step p w .enter = some w' ↔
    w.handler = none ∧ { w with handler := some p.entry } = w' := by
  cases hhandler : w.handler with
  | none => simp only [step, hhandler, Option.some.injEq, true_and]
  | some h => simp only [step, hhandler, reduceCtorEq, false_and]

theorem step_serve_eq_some : step p w .serve = some w' ↔
    ∃ h, w.handler = some h ∧ { w with
      shared := (p.serve h w.shared).1
      handler := (p.serve h w.shared).2 } = w' := by
  cases hhandler : w.handler with
  | none => simp only [step, hhandler, reduceCtorEq, false_and, exists_false]
  | some h => simp only [step, hhandler, Option.some.injEq, exists_eq_left']

end Inversion

/-- A call that satisfies the predicate is in progress. -/
def Pending (P : C → Prop) (calls : List C) : Prop := ∃ c ∈ calls, P c

instance {P : C → Prop} [DecidablePred P] (calls : List C) : Decidable (Pending P calls) :=
  inferInstanceAs (Decidable (∃ c ∈ calls, P c))

omit [DecidableEq C] in
theorem Pending.append {P : C → Prop} {calls : List C} (h : Pending P calls) (new : List C) :
    Pending P (new ++ calls) := by
  obtain ⟨c, hc, hP⟩ := h
  exact ⟨c, List.mem_append_right new hc, hP⟩

/-- A step of another call leaves a pending call where it is. -/
theorem Pending.replace {P : C → Prop} {calls : List C} {c : C} {next : Option C}
    (h : Pending P calls) (hnext : P c → ∃ d ∈ next, P d) :
    Pending P (replace calls c next) := by
  obtain ⟨d, hd, hP⟩ := h
  by_cases hdc : d = c
  · obtain ⟨e, he, hPe⟩ := hnext (hdc ▸ hP)
    exact ⟨e, List.mem_append_left _ (Option.mem_toList.mpr he), hPe⟩
  · exact ⟨d, List.mem_append_right _ ((List.mem_erase_of_ne hdc).mpr hd), hP⟩

theorem not_pending_replace {P : C → Prop} {calls : List C} {c : C} {next : Option C}
    (h : ¬Pending P calls) (hnext : ∀ d ∈ next, ¬P d) : ¬Pending P (replace calls c next) := by
  rintro ⟨d, hd, hP⟩
  rcases List.mem_append.mp hd with hnew | hold
  · exact hnext d (Option.mem_toList.mp hnew) hP
  · exact h ⟨d, List.mem_of_mem_erase hold, hP⟩

omit [DecidableEq C] in
theorem not_pending_nil (P : C → Prop) : ¬Pending P [] := by
  rintro ⟨c, hc, -⟩
  cases hc

def work (rank : C → ℕ) (calls : List C) : ℕ := (calls.map rank).sum

/-- A step of a call that brings it closer to its end leaves less to do. -/
theorem work_replace_lt {rank : C → ℕ} {calls : List C} {c : C} (hc : c ∈ calls) {next : Option C}
    (hnext : (next.map rank).getD 0 < rank c) :
    work rank (replace calls c next) < work rank calls := by
  have herase := List.sum_map_erase rank hc
  cases next with
  | none =>
    simp only [Option.map_none, Option.getD_none] at hnext
    simp only [work, replace, Option.toList_none, List.nil_append]
    omega
  | some d =>
    simp only [Option.map_some, Option.getD_some] at hnext
    simp only [work, replace, Option.toList_some, List.singleton_append, List.map_cons,
      List.sum_cons]
    omega

end UniHal.Foundations.Interleaving
