import Mathlib.Tactic

/-! # Balanced round brackets

Every opening bracket of the text has its closing one. The characters outside all brackets have a
property; nothing is said of the others.
-/

namespace UniHal.Foundations.Brackets

inductive Balanced : (Char → Prop) → List Char → Prop
  | nil {top} : Balanced top []
  | plain {top c t} (hopen : c ≠ '(') (hclose : c ≠ ')') (hc : top c) (ht : Balanced top t) :
    Balanced top (c :: t)
  | group {top inner t} (hinner : Balanced (fun _ => True) inner) (ht : Balanced top t) :
    Balanced top ('(' :: (inner ++ ')' :: t))

namespace Balanced
variable {top top' : Char → Prop} {s t : List Char}

theorem append (hs : Balanced top s) (ht : Balanced top t) : Balanced top (s ++ t) := by
  induction hs with
  | nil => exact ht
  | plain hopen hclose hc _ ih => exact plain hopen hclose hc (ih ht)
  | group hinner _ _ ih =>
    rw [List.cons_append, List.append_assoc, List.cons_append]
    exact group hinner (ih ht)

theorem mono (h : ∀ c, top c → top' c) (ht : Balanced top t) : Balanced top' t := by
  induction ht with
  | nil => exact nil
  | plain hopen hclose hc _ ih => exact plain hopen hclose (h _ hc) (ih h)
  | group hinner _ _ ih => exact group hinner (ih h)

theorem of_forall (h : ∀ c ∈ t, c ≠ '(' ∧ c ≠ ')' ∧ top c) : Balanced top t := by
  induction t with
  | nil => exact nil
  | cons c t ih =>
    rw [List.forall_mem_cons] at h
    exact plain h.1.1 h.1.2.1 h.1.2.2 (ih h.2)

theorem brackets (ht : Balanced top' t) : Balanced top ('(' :: (t ++ [')'])) :=
  group (ht.mono fun _ _ => trivial) nil

end Balanced

end UniHal.Foundations.Brackets
