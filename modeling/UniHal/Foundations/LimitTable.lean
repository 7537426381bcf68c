import Mathlib.Algebra.Order.Ring.Nat
import Mathlib.Data.Nat.Cast.Order.Basic

/-! # Tables of limits

A table of limits assigns to a number the value beside the first limit that the number does not
exceed. When the values ascend, that is the smallest value of a row whose limit is large enough.
The limits are natural numbers; the number may be of any ordered type that contains them.
-/

namespace UniHal.Foundations.LimitTable

variable {α β : Type*} [NatCast α]

def lookup [LE α] [DecidableLE α] (table : List (ℕ × β)) (x : α) : Option β :=
  (table.find? fun row => x ≤ row.1).map (·.2)

/-- The value is at least the one that the table gives for the number. -/
def Covers [LE α] [DecidableLE α] [LE β] (table : List (ℕ × β)) (x : α) (n : β) : Prop :=
  ∃ m, lookup table x = some m ∧ m ≤ n

variable [Preorder α] [DecidableLE α]

theorem lookup_cons (row : ℕ × β) (table : List (ℕ × β)) (x : α) :
    lookup (row :: table) x = if x ≤ row.1 then some row.2 else lookup table x := by
  by_cases h : x ≤ row.1 <;> simp [lookup, h]

variable [Preorder β]

/-- With ascending values one row that is large enough shows it. -/
theorem covers_iff {table : List (ℕ × β)} (hsorted : table.Pairwise fun a b => a.2 ≤ b.2) (x : α)
    (n : β) : Covers table x n ↔ ∃ row ∈ table, x ≤ row.1 ∧ row.2 ≤ n := by
  induction table with
  | nil => simp [Covers, lookup]
  | cons row table ih =>
    obtain ⟨hhead, htail⟩ := List.pairwise_cons.mp hsorted
    rw [Covers, lookup_cons]
    simp only [List.mem_cons, exists_eq_or_imp]
    split_ifs with hx
    · simp only [Option.some.injEq, exists_eq_left', hx, true_and]
      constructor
      · exact Or.inl
      · rintro (hn | ⟨other, hmem, -, hn⟩)
        · exact hn
        · exact (hhead other hmem).trans hn
    · simp only [hx, false_and, false_or]
      exact ih htail

theorem Covers.of_le {table : List (ℕ × β)} (hsorted : table.Pairwise fun a b => a.2 ≤ b.2)
    {x y : α} {n : β} (h : Covers table y n) (hxy : x ≤ y) : Covers table x n := by
  rw [covers_iff hsorted] at h ⊢
  obtain ⟨row, hmem, hy, hn⟩ := h
  exact ⟨row, hmem, hxy.trans hy, hn⟩

end UniHal.Foundations.LimitTable
