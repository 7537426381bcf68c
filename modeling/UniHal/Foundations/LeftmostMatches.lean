import Mathlib.Tactic

/-! # The matches of a pattern in a text

A pattern matches at the start of a text or not. Its matches in a text are taken from left to
right: each is the first that there is behind the one before.
-/

namespace UniHal.Foundations.LeftmostMatches

variable {α β : Type*}

structure Pattern (α : Type*) (β : Type*) where
  atStart : List α → Option (β × List α)
  /-- A match is not empty. -/
  consumes : ∀ text b after, atStart text = some (b, after) → after.length < text.length

namespace Pattern

variable (p : Pattern α β)

def scan : ℕ → List α → List β
  | 0, _ => []
  | _ + 1, [] => []
  | n + 1, c :: rest =>
    match p.atStart (c :: rest) with
    | some (b, after) => b :: scan n after
    | none => scan n rest

def findAll (text : List α) : List β := p.scan text.length text

variable {p}

theorem scan_succ {n : ℕ} {text : List α} (h : text.length ≤ n) :
    p.scan (n + 1) text = p.scan n text := by
  induction n generalizing text with
  | zero =>
    rw [List.eq_nil_of_length_eq_zero (Nat.le_zero.mp h)]
    rfl
  | succ n ih =>
    cases text with
    | nil => rfl
    | cons c rest =>
      rw [scan, scan]
      cases hstart : p.atStart (c :: rest) with
      | none => exact ih (Nat.le_of_succ_le_succ h)
      | some found =>
        have hafter := p.consumes (c :: rest) found.1 found.2 hstart
        exact congrArg (List.cons found.1) (ih (by omega))

theorem scan_of_le {n : ℕ} {text : List α} (h : text.length ≤ n) :
    p.scan n text = p.findAll text := by
  induction n, h using Nat.le_induction with
  | base => rfl
  | succ n hn ih => exact (scan_succ hn).trans ih

theorem findAll_of_some {text after : List α} {b : β} (h : p.atStart text = some (b, after)) :
    p.findAll text = b :: p.findAll after := by
  have hafter := p.consumes _ _ _ h
  cases text with
  | nil => exact absurd hafter (Nat.not_lt_zero _)
  | cons c rest =>
    rw [findAll, List.length_cons, scan, h]
    exact congrArg (List.cons b) (scan_of_le (Nat.le_of_lt_succ hafter))

theorem findAll_cons_of_none {c : α} {rest : List α} (h : p.atStart (c :: rest) = none) :
    p.findAll (c :: rest) = p.findAll rest := by
  rw [findAll, List.length_cons, scan, h]
  rfl

end Pattern

end UniHal.Foundations.LeftmostMatches
