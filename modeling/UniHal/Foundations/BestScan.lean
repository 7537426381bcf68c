import Mathlib.Data.List.MinMax

/-! # Loops that keep the best candidate

A loop over a list that computes a candidate for some of the elements and keeps the first one
with the smallest key. Its result is `List.argmin` of the candidates, so that what it finds can
be read off without following the loop.
-/

namespace UniHal.Foundations.BestScan
variable {α β κ : Type*} [LinearOrder κ]

def keepBest (key : β → κ) (best : Option β) : Option β → Option β
  | none => best
  | some c =>
    match best with
    | none => some c
    | some b => if key c < key b then some c else some b

def scan (key : β → κ) (candidate : α → Option β) (l : List α) : Option β :=
  l.foldl (fun best x => keepBest key best (candidate x)) none

theorem foldl_keepBest (key : β → κ) (candidate : α → Option β) (l : List α) (best : Option β) :
    l.foldl (fun best x => keepBest key best (candidate x)) best =
      (l.filterMap candidate).foldl (List.argAux fun b c => key b < key c) best := by
  induction l generalizing best with
  | nil => rfl
  | cons x l ih =>
    rw [List.foldl_cons, ih]
    cases hx : candidate x with
    | none => rw [List.filterMap_cons_none hx]; rfl
    | some c =>
      rw [List.filterMap_cons_some hx, List.foldl_cons]
      cases best <;> rfl

theorem scan_eq_argmin (key : β → κ) (candidate : α → Option β) (l : List α) :
    scan key candidate l = (l.filterMap candidate).argmin key :=
  foldl_keepBest key candidate l none

/-- Among candidates with the same key the loop keeps the one that comes first. -/
theorem argmin_eq_or_before (key : β → κ) {before : β → β → Prop} {l : List β}
    (hl : l.Pairwise before) {w b : β} (hw : w ∈ l.argmin key) (hb : b ∈ l)
    (hle : key b ≤ key w) : w = b ∨ before w b := by
  classical
  have hmem : w ∈ l := List.argmin_mem hw
  have hidx : l.idxOf w ≤ l.idxOf b := (List.mem_argmin_iff.mp hw).2.2 b hb hle
  rcases Nat.eq_or_lt_of_le hidx with heq | hlt
  · exact .inl ((List.idxOf_inj hmem).mp heq)
  · have hpair := List.pairwise_iff_getElem.mp hl _ _ (List.idxOf_lt_length_iff.mpr hmem)
      (List.idxOf_lt_length_iff.mpr hb) hlt
    rw [List.getElem_idxOf, List.getElem_idxOf] at hpair
    exact .inr hpair

/-- Where the acceptable candidates come first, the loop ends with an acceptable one exactly when
no other candidate beats all of them. -/
theorem argmin_accepted_iff (key : β → κ) (p : β → Prop) (l : List β)
    (hfirst : l.Pairwise fun a b => p b → p a) :
    (∃ w ∈ l.argmin key, p w) ↔ ∃ a ∈ l, p a ∧ ∀ b ∈ l, ¬ p b → key a ≤ key b := by
  constructor
  · rintro ⟨w, hw, hp⟩
    exact ⟨w, List.argmin_mem hw, hp, fun b hb _ => List.le_of_mem_argmin hb hw⟩
  · rintro ⟨a, ha, hp, hbest⟩
    cases hw : l.argmin key with
    | none => exact absurd ha (by rw [List.argmin_eq_none.mp hw]; exact List.not_mem_nil)
    | some w =>
      have hmem : w ∈ l := List.argmin_mem hw
      by_cases hpw : p w
      · exact ⟨w, rfl, hpw⟩
      · -- the winner would stand before `a`, where only acceptable candidates are
        rcases argmin_eq_or_before key hfirst hw ha (hbest w hmem hpw) with heq | hbefore
        · exact ⟨w, rfl, heq ▸ hp⟩
        · exact ⟨w, rfl, hbefore hp⟩

/-- A loop over the numbers below `n` that returns from its first result. -/
theorem findSome?_range_eq_some_iff {f : ℕ → Option β} {n : ℕ} {b : β} :
    (List.range n).findSome? f = some b ↔ ∃ k < n, f k = some b ∧ ∀ j < k, f j = none := by
  constructor
  · intro h
    induction n with
    | zero => cases h
    | succ n ih =>
      rw [List.range_succ, List.findSome?_append] at h
      cases hfirst : (List.range n).findSome? f with
      | some c =>
        rw [hfirst, Option.some_or] at h
        obtain ⟨k, hk, hres⟩ := ih (hfirst.trans h)
        exact ⟨k, by omega, hres⟩
      | none =>
        rw [hfirst, Option.none_or] at h
        rw [List.findSome?_eq_none_iff] at hfirst
        refine ⟨n, by omega, ?_, fun j hj => hfirst j (List.mem_range.mpr hj)⟩
        simpa using h
  · rintro ⟨k, hk, hres, hnone⟩
    obtain ⟨m, rfl⟩ := Nat.exists_eq_add_of_lt hk
    have hbefore : (List.range k).findSome? f = none :=
      List.findSome?_eq_none_iff.mpr fun j hj => hnone j (List.mem_range.mp hj)
    rw [show k + m + 1 = k + (m + 1) by omega, List.range_add, List.findSome?_append, hbefore,
      Option.none_or, List.range_succ_eq_map, List.map_cons, List.findSome?_cons, Nat.add_zero,
      hres]

end UniHal.Foundations.BestScan
