import UniHal.Foundations.Execution

/-! # Routines that change a state in several steps

A routine is the list of the changes that it makes, which depends on the state in which it
starts. The states between two changes are states of the routine as well: a property holds
throughout it when it holds in all of them.
-/

namespace UniHal.Foundations.Staging
open Execution

variable {S A : Type*}

abbrev Routine (S : Type*) := S → List (S → S)

namespace Routine

def skip : Routine S := fun _ => []

def change (f : S → S) : Routine S := fun _ => [f]

def final (p : Routine S) (s : S) : S := (p s).foldl (fun t f => f t) s

def andThen (p q : Routine S) : Routine S := fun s => p s ++ q (final p s)

def choose (f : S → Routine S) : Routine S := fun s => f s s

def branch (b : S → Bool) (p q : Routine S) : Routine S := choose fun s => if b s then p else q

/-- The states that the routine goes through, with the first and the last. -/
def states (p : Routine S) (s : S) : List S := (p s).scanl (fun t f => f t) s

/-- The property holds in every state that the routine goes through. -/
def Throughout (P : S → Prop) (p : Routine S) (s : S) : Prop := ∀ t ∈ states p s, P t

@[simp] theorem final_skip (s : S) : final skip s = s := rfl

@[simp] theorem final_change (f : S → S) (s : S) : final (change f) s = f s := rfl

@[simp] theorem final_andThen (p q : Routine S) (s : S) :
    final (andThen p q) s = final q (final p s) :=
  List.foldl_append

@[simp] theorem final_choose (f : S → Routine S) (s : S) : final (choose f) s = final (f s) s := rfl

@[simp] theorem final_branch (b : S → Bool) (p q : Routine S) (s : S) :
    final (branch b p q) s = if b s then final p s else final q s := by
  rw [branch, final_choose]
  split_ifs <;> rfl

variable {P : S → Prop}

theorem forall_scanl_append (fs gs : List (S → S)) (s : S) :
    (∀ t ∈ (fs ++ gs).scanl (fun t f => f t) s, P t) ↔
      (∀ t ∈ fs.scanl (fun t f => f t) s, P t) ∧
        ∀ t ∈ gs.scanl (fun t f => f t) (fs.foldl (fun t f => f t) s), P t := by
  induction fs generalizing s with
  | nil =>
    have hfirst : (∀ t ∈ gs.scanl (fun t f => f t) s, P t) → P s := by
      intro h
      apply h
      cases gs <;> simp
    simpa using hfirst
  | cons f fs ih => simp [ih, and_assoc]

@[simp] theorem throughout_skip (s : S) : Throughout P skip s ↔ P s := by
  simp [Throughout, states, skip]

@[simp] theorem throughout_change (f : S → S) (s : S) :
    Throughout P (change f) s ↔ P s ∧ P (f s) := by
  simp [Throughout, states, change]

@[simp] theorem throughout_andThen (p q : Routine S) (s : S) :
    Throughout P (andThen p q) s ↔ Throughout P p s ∧ Throughout P q (final p s) :=
  forall_scanl_append (p s) (q (final p s)) s

@[simp] theorem throughout_choose (f : S → Routine S) (s : S) :
    Throughout P (choose f) s ↔ Throughout P (f s) s := Iff.rfl

@[simp] theorem throughout_branch (b : S → Bool) (p q : Routine S) (s : S) :
    Throughout P (branch b p q) s ↔ if b s then Throughout P p s else Throughout P q s := by
  rw [branch, throughout_choose]
  split_ifs <;> rfl

theorem Throughout.mono {Q : S → Prop} {p : Routine S} {s : S} (h : Throughout P p s)
    (hPQ : ∀ t, P t → Q t) : Throughout Q p s :=
  fun t ht => hPQ t (h t ht)

theorem Throughout.last {p : Routine S} {s : S} (h : Throughout P p s) : P (final p s) := by
  have hboth : Throughout P (andThen p skip) s := by
    simpa [Throughout, states, andThen, skip] using h
  have hskip := (throughout_andThen p skip s).mp hboth
  exact (throughout_skip _).mp hskip.2

instance [DecidablePred P] (p : Routine S) (s : S) : Decidable (Throughout P p s) :=
  inferInstanceAs (Decidable (∀ t ∈ states p s, P t))

variable (routine : A → Routine S)

def chain : List A → Routine S
  | [] => skip
  | a :: as => andThen (routine a) (chain as)

def step (s : S) (a : A) : Option S := some (final (routine a) s)

variable {routine}

theorem along_step_cons {ok : S → A → Prop} (s : S) (a : A) (as : List A) :
    Along (step routine) ok s (a :: as) ↔
      ok s a ∧ Along (step routine) ok (final (routine a) s) as :=
  along_cons rfl

/-- The rule for a run: if the guard of an action says in every reachable state exactly that its
routine keeps the property, the guards along a run say that the whole run keeps it. -/
theorem throughout_chain_iff {ok : S → A → Prop} {inv : S → Prop}
    (hP : ∀ s, inv s → P s)
    (hok : ∀ s a, inv s → (ok s a ↔ Throughout P (routine a) s))
    (hstep : ∀ s a, inv s → ok s a → inv (final (routine a) s))
    {s : S} (hs : inv s) (as : List A) :
    Along (step routine) ok s as ↔ Throughout P (chain routine as) s := by
  induction as generalizing s with
  | nil => simp [chain, Along, hP s hs]
  | cons a as ih =>
    rw [along_step_cons, chain, throughout_andThen, ← hok s a hs]
    constructor
    · rintro ⟨ha, hrest⟩
      exact ⟨ha, (ih (hstep s a hs ha)).mp hrest⟩
    · rintro ⟨ha, hrest⟩
      exact ⟨ha, (ih (hstep s a hs ha)).mpr hrest⟩

end Routine

end UniHal.Foundations.Staging
