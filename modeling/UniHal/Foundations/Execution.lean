import Mathlib.Tactic

/-! # Runs of a partial step function

An action that is impossible in a state has no successor. A run is the list of
its actions, and a guard restricts the actions that a run may take in a state.
Every safety result about a run comes from one invariant of a single step.
-/

namespace UniHal.Foundations.Execution

variable {S A : Type*}

/-- The state after the run, provided every action is possible where it is taken. -/
def exec (step : S → A → Option S) : S → List A → Option S
  | s, [] => some s
  | s, a :: as => (step s a).bind fun t => exec step t as

/-- Every action of the run is taken in a state in which the guard allows it. -/
def Along (step : S → A → Option S) (ok : S → A → Prop) : S → List A → Prop
  | _, [] => True
  | s, a :: as => ok s a ∧ match step s a with
    | some t => Along step ok t as
    | none => True

instance Along.decidable {step : S → A → Option S} {ok : S → A → Prop}
    [∀ s a, Decidable (ok s a)] : ∀ s as, Decidable (Along step ok s as)
  | _, [] => .isTrue trivial
  | s, a :: as =>
    match h : step s a with
    | some t =>
      have : Decidable (Along step ok t as) := Along.decidable t as
      decidable_of_iff (ok s a ∧ Along step ok t as) (by simp only [Along, h])
    | none => decidable_of_iff (ok s a) (by simp only [Along, h, and_true])

variable {step : S → A → Option S} {ok : S → A → Prop}

@[simp] theorem exec_nil (s : S) : exec step s [] = some s := rfl

@[simp] theorem exec_cons (s : S) (a : A) (as : List A) :
    exec step s (a :: as) = (step s a).bind fun t => exec step t as := rfl

theorem exec_cons_eq_some {s t : S} {a : A} {as : List A} :
    exec step s (a :: as) = some t ↔ ∃ u, step s a = some u ∧ exec step u as = some t := by
  rw [exec_cons, Option.bind_eq_some_iff]

theorem exec_append (s : S) (as bs : List A) :
    exec step s (as ++ bs) = (exec step s as).bind fun t => exec step t bs := by
  induction as generalizing s with
  | nil => rfl
  | cons a as ih =>
    cases h : step s a with
    | none => simp [h]
    | some t => simp [h, ih]

theorem along_cons {s t : S} {a : A} {as : List A} (hs : step s a = some t) :
    Along step ok s (a :: as) ↔ ok s a ∧ Along step ok t as := by
  simp only [Along, hs]

theorem Along.mono {ok' : S → A → Prop} (h : ∀ s a, ok s a → ok' s a) {s : S} {as : List A}
    (hok : Along step ok s as) : Along step ok' s as := by
  induction as generalizing s with
  | nil => trivial
  | cons a as ih =>
    refine ⟨h s a hok.1, ?_⟩
    have hrest := hok.2
    cases hs : step s a with
    | none => trivial
    | some t =>
      simp only [hs] at hrest ⊢
      exact ih hrest

/-- A run is guarded when each of its actions is allowed in the state that the actions before it
lead to. -/
theorem along_iff_forall_split {s : S} {as : List A} :
    Along step ok s as ↔
      ∀ pre a post t, as = pre ++ a :: post → exec step s pre = some t → ok t a := by
  induction as generalizing s with
  | nil => simp [Along]
  | cons a as ih =>
    constructor
    · rintro ⟨hok, hrest⟩ pre b post t heq hrun
      cases pre with
      | nil =>
        simp only [List.nil_append, List.cons.injEq] at heq
        simp only [exec_nil, Option.some.injEq] at hrun
        exact hrun ▸ heq.1 ▸ hok
      | cons c pre =>
        simp only [List.cons_append, List.cons.injEq] at heq
        obtain ⟨u, hu, hpre⟩ := exec_cons_eq_some.mp hrun
        rw [← heq.1] at hu
        simp only [hu] at hrest
        exact ih.mp hrest pre b post t heq.2 hpre
    · intro hall
      refine ⟨hall [] a as s rfl rfl, ?_⟩
      cases hs : step s a with
      | none => trivial
      | some u =>
        refine ih.mpr fun pre b post t heq hrun => hall (a :: pre) b post t ?_ ?_
        · rw [heq, List.cons_append]
        · rw [exec_cons, hs, Option.bind_some, hrun]

/-- A guard that does not look at the state is a condition on the actions alone. -/
theorem along_of_forall {p : A → Prop} {s : S} {as : List A} (h : ∀ a ∈ as, p a) :
    Along step (fun _ a => p a) s as := by
  induction as generalizing s with
  | nil => trivial
  | cons a as ih =>
    refine ⟨h a List.mem_cons_self, ?_⟩
    cases step s a with
    | none => trivial
    | some t => exact ih fun b hb => h b (List.mem_cons_of_mem a hb)

/-- The invariant rule: what holds at the start and is kept by every guarded step holds
after every guarded run. -/
theorem exec_invariant {inv : S → Prop}
    (hstep : ∀ s a t, inv s → ok s a → step s a = some t → inv t)
    {s t : S} {as : List A} (h0 : inv s) (hok : Along step ok s as)
    (hrun : exec step s as = some t) : inv t := by
  induction as generalizing s with
  | nil =>
    simp only [exec_nil, Option.some.injEq] at hrun
    exact hrun ▸ h0
  | cons a as ih =>
    obtain ⟨u, hu, hrest⟩ := exec_cons_eq_some.mp hrun
    obtain ⟨hoka, hoks⟩ := (along_cons hu).mp hok
    exact ih (hstep s a u h0 hoka hu) hoks hrest

/-- A run of an unguarded system keeps every invariant of its steps. -/
theorem exec_invariant_of_step {inv : S → Prop}
    (hstep : ∀ s a t, inv s → step s a = some t → inv t)
    {s t : S} {as : List A} (h0 : inv s) (hrun : exec step s as = some t) : inv t :=
  have hall : Along step (fun _ _ => True) s as := along_of_forall fun _ _ => trivial
  exec_invariant (fun s a t hs _ => hstep s a t hs) h0 hall hrun

/-- The measure rule: a run whose guarded steps all decrease a number is at most that long. -/
theorem length_le_of_decreasing {rank : S → ℕ}
    (hstep : ∀ s a t, ok s a → step s a = some t → rank t < rank s)
    {s t : S} {as : List A} (hok : Along step ok s as) (hrun : exec step s as = some t) :
    as.length + rank t ≤ rank s := by
  induction as generalizing s with
  | nil =>
    simp only [exec_nil, Option.some.injEq] at hrun
    rw [hrun, List.length_nil, Nat.zero_add]
  | cons a as ih =>
    obtain ⟨u, hu, hrest⟩ := exec_cons_eq_some.mp hrun
    obtain ⟨hoka, hoks⟩ := (along_cons hu).mp hok
    have hlt := hstep s a u hoka hu
    have hle := ih hoks hrest
    rw [List.length_cons]
    omega

def Reaches (step : S → A → Option S) (s t : S) : Prop := ∃ as, exec step s as = some t

theorem Reaches.refl (s : S) : Reaches step s s := ⟨[], rfl⟩

theorem Reaches.head {s t u : S} {a : A} (hs : step s a = some u) (h : Reaches step u t) :
    Reaches step s t :=
  h.elim fun as has => ⟨a :: as, exec_cons_eq_some.mpr ⟨u, hs, has⟩⟩

theorem Reaches.trans {s t u : S} (h : Reaches step s t) (hrest : Reaches step t u) :
    Reaches step s u := by
  obtain ⟨as, has⟩ := h
  obtain ⟨bs, hbs⟩ := hrest
  exact ⟨as ++ bs, by rw [exec_append, has, Option.bind_some, hbs]⟩

/-- The simulation rule: when every step commutes with a view of the states, every run does. -/
theorem exec_map {T : Type*} {step' : T → A → Option T} {view : S → T}
    (hstep : ∀ s a, (step s a).map view = step' (view s) a) (s : S) (as : List A) :
    (exec step s as).map view = exec step' (view s) as := by
  induction as generalizing s with
  | nil => rfl
  | cons a as ih =>
    rw [exec_cons, exec_cons, ← hstep]
    cases step s a with
    | none => rfl
    | some t => exact ih t

/-- The refinement rule: when a run of another system matches every step, one matches every run. -/
theorem exec_refines {T B : Type*} {step' : T → B → Option T} {rel : S → T → Prop}
    (hstep : ∀ s a s' t, rel s t → step s a = some s' →
      ∃ bs t', exec step' t bs = some t' ∧ rel s' t')
    {s s' : S} {as : List A} {t : T} (h0 : rel s t) (hrun : exec step s as = some s') :
    ∃ bs t', exec step' t bs = some t' ∧ rel s' t' := by
  induction as generalizing s t with
  | nil =>
    simp only [exec_nil, Option.some.injEq] at hrun
    exact ⟨[], t, rfl, hrun ▸ h0⟩
  | cons a as ih =>
    obtain ⟨u, hu, hrest⟩ := exec_cons_eq_some.mp hrun
    obtain ⟨bs, v, hbs, hv⟩ := hstep s a u t h0 hu
    obtain ⟨cs, t', hcs, ht'⟩ := ih hv hrest
    exact ⟨bs ++ cs, t', by rw [exec_append, hbs, Option.bind_some, hcs], ht'⟩

end UniHal.Foundations.Execution
