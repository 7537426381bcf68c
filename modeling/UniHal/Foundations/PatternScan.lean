import Mathlib.Tactic

/-! # Left-to-right scanning for a pattern

The scan reports where non-overlapping occurrences of a pattern end, always taking the
leftmost one that is left. The border of a word is the longest proper prefix of the
pattern that the word still ends with. A matcher that keeps the border alone, and none
of the bytes it has seen, decides the whole scan: this is the automaton of Knuth, Morris
and Pratt, stated here without its failure table.
-/

namespace UniHal.Foundations.PatternScan

variable {α : Type*}

/-- The reported positions are the ends of the occurrences that a left-to-right scan finds
when the occurrences it takes may not overlap. -/
structure LeftmostScan (P S : List α) (ends : List ℕ) : Prop where
  occurs : ∀ e ∈ ends, e ≤ S.length ∧ P <:+ S.take e
  apart : ends.Pairwise fun d e => d + P.length ≤ e
  complete : ∀ e ≤ S.length, P <:+ S.take e → ∃ d ∈ ends, d ≤ e ∧ e < d + P.length

theorem LeftmostScan.nil {P : List α} (hP : P ≠ []) : LeftmostScan P [] [] where
  occurs := by simp
  apart := List.Pairwise.nil
  complete e _ h := by simp [hP] at h

def lastEnd (ends : List ℕ) : ℕ := ends.getLast?.getD 0

@[simp] theorem lastEnd_nil : lastEnd [] = 0 := rfl

@[simp] theorem lastEnd_concat (ends : List ℕ) (e : ℕ) : lastEnd (ends ++ [e]) = e := by
  simp [lastEnd]

theorem LeftmostScan.le_lastEnd {P S : List α} {ends : List ℕ} (h : LeftmostScan P S ends)
    {e : ℕ} (he : e ∈ ends) : e ≤ lastEnd ends := by
  induction ends using List.reverseRecOn with
  | nil => simp at he
  | append_singleton init last _ =>
    rw [lastEnd_concat]
    rcases List.mem_append.mp he with hi | hl
    · have := (List.pairwise_append.mp h.apart).2.2 e hi last (by simp)
      omega
    · simp only [List.mem_singleton] at hl
      omega

theorem LeftmostScan.lastEnd_le {P S : List α} {ends : List ℕ} (h : LeftmostScan P S ends) :
    lastEnd ends ≤ S.length := by
  induction ends using List.reverseRecOn with
  | nil => simp
  | append_singleton init last _ =>
    rw [lastEnd_concat]
    exact (h.occurs last (by simp)).1

theorem LeftmostScan.apart_of_lt {P S : List α} {ends : List ℕ} (h : LeftmostScan P S ends)
    {d e : ℕ} (hd : d ∈ ends) (he : e ∈ ends) (hlt : d < e) : d + P.length ≤ e := by
  have hsymm : Std.Symm fun a b : ℕ => a + P.length ≤ b ∨ b + P.length ≤ a :=
    ⟨fun _ _ hab => hab.symm⟩
  have hpair := (h.apart.imp fun hab => Or.inl hab).forall (R := fun a b : ℕ =>
    a + P.length ≤ b ∨ b + P.length ≤ a) hd he (by omega)
  omega

/-- A position is reported exactly when an occurrence ends there and no reported one
overlaps it from the left. -/
theorem LeftmostScan.mem_iff {P S : List α} {ends : List ℕ} (h : LeftmostScan P S ends) (e : ℕ) :
    e ∈ ends ↔ (e ≤ S.length ∧ P <:+ S.take e) ∧ ∀ d ∈ ends, d < e → d + P.length ≤ e := by
  constructor
  · intro he
    exact ⟨h.occurs e he, fun d hd hde => h.apart_of_lt hd he hde⟩
  · rintro ⟨⟨hle, hocc⟩, hfree⟩
    obtain ⟨d, hd, hde, hlt⟩ := h.complete e hle hocc
    rcases Nat.lt_or_ge d e with hd' | hd'
    · have := hfree d hd hd'
      omega
    · have heq : d = e := by omega
      exact heq ▸ hd

/-- The scan has one result: where the matcher paused cannot show in it. -/
theorem LeftmostScan.unique {P S : List α} (hP : P ≠ []) {ends ends' : List ℕ}
    (h : LeftmostScan P S ends) (h' : LeftmostScan P S ends') : ends = ends' := by
  have hlen : 0 < P.length := List.length_pos_of_ne_nil hP
  have hmem (e : ℕ) : e ∈ ends ↔ e ∈ ends' := by
    induction e using Nat.strong_induction_on with
    | _ e ih =>
      rw [h.mem_iff, h'.mem_iff]
      refine and_congr_right fun _ => ?_
      exact ⟨fun hf d hd hde => hf d ((ih d hde).mpr hd) hde,
        fun hf d hd hde => hf d ((ih d hde).mp hd) hde⟩
  have hirr : Std.Irrefl fun d e : ℕ => d + P.length ≤ e := ⟨fun d hd => by omega⟩
  have hanti : Std.Antisymm fun d e : ℕ => d + P.length ≤ e := ⟨fun d e hd he => by omega⟩
  exact h.apart.eq_of_mem_iff h'.apart hmem

theorem LeftmostScan.hit {P S : List α} {ends : List ℕ} (hP : P ≠ []) (h : LeftmostScan P S ends)
    {c : α} (hc : P <:+ S.drop (lastEnd ends) ++ [c]) :
    LeftmostScan P (S ++ [c]) (ends ++ [S.length + 1]) := by
  have hlen : 0 < P.length := List.length_pos_of_ne_nil hP
  have hfit := hc.length_le
  have hlast := h.lastEnd_le
  simp only [List.length_append, List.length_drop, List.length_singleton] at hfit
  refine ⟨?_, ?_, ?_⟩
  · intro e he
    rcases List.mem_append.mp he with hi | hl
    · obtain ⟨hle, hocc⟩ := h.occurs e hi
      exact ⟨by simp; omega, by rwa [List.take_append_of_le_length hle]⟩
    · simp only [List.mem_singleton] at hl
      subst hl
      refine ⟨by simp, ?_⟩
      rw [List.take_of_length_le (by simp)]
      exact hc.trans ⟨S.take (lastEnd ends), by rw [← List.append_assoc, List.take_append_drop]⟩
  · rw [List.pairwise_append]
    refine ⟨h.apart, List.pairwise_singleton _ _, fun d hd e he => ?_⟩
    simp only [List.mem_singleton] at he
    have := h.le_lastEnd hd
    omega
  · intro e he hocc
    rw [List.length_append, List.length_singleton] at he
    rcases Nat.lt_or_ge S.length e with hnew | hold
    · exact ⟨S.length + 1, by simp, by omega, by omega⟩
    · rw [List.take_append_of_le_length hold] at hocc
      obtain ⟨d, hd, hde⟩ := h.complete e hold hocc
      exact ⟨d, List.mem_append_left _ hd, hde⟩

/-- One more symbol ends no occurrence behind the last reported one: nothing is reported. -/
theorem LeftmostScan.miss {P S : List α} {ends : List ℕ} (h : LeftmostScan P S ends)
    {c : α} (hc : ¬ P <:+ S.drop (lastEnd ends) ++ [c]) : LeftmostScan P (S ++ [c]) ends := by
  have hlast := h.lastEnd_le
  refine ⟨?_, h.apart, ?_⟩
  · intro e he
    obtain ⟨hle, hocc⟩ := h.occurs e he
    exact ⟨by simp; omega, by rwa [List.take_append_of_le_length hle]⟩
  · intro e he hocc
    rcases Nat.lt_or_ge S.length e with hnew | hold
    · -- the occurrence ends at the new symbol, so it must reach into a reported one
      have hall : e = (S ++ [c]).length := by simp at he ⊢; omega
      rw [hall, List.take_length] at hocc
      rcases Nat.lt_or_ge S.length.succ (lastEnd ends + P.length) with hover | hfit
      · rcases List.eq_nil_or_concat ends with hnil | ⟨init, last, hcat⟩
        · subst hnil
          have := hocc.length_le
          simp at this hover
          omega
        · rw [List.concat_eq_append] at hcat
          subst hcat
          refine ⟨last, by simp, ?_, ?_⟩ <;> simp at hover hlast hall ⊢ <;> omega
      · refine absurd ?_ hc
        have hsplit : S.drop (lastEnd ends) ++ [c] = (S ++ [c]).drop (lastEnd ends) := by
          rw [List.drop_append_of_le_length hlast]
        rw [hsplit]
        refine List.suffix_of_suffix_length_le hocc (List.drop_suffix _ _) ?_
        simp only [List.length_drop, List.length_append, List.length_singleton]
        omega
    · rw [List.take_append_of_le_length hold] at hocc
      exact h.complete e hold hocc

section Border
variable [DecidableEq α]

/-- Length of the longest proper prefix of the pattern that the word ends with. -/
def border (P w : List α) : ℕ := Nat.findGreatest (fun k => P.take k <:+ w) (P.length - 1)

theorem border_le (P w : List α) : border P w ≤ P.length - 1 := Nat.findGreatest_le _

theorem border_suffix (P w : List α) : P.take (border P w) <:+ w :=
  Nat.findGreatest_spec (P := fun k => P.take k <:+ w) (Nat.zero_le _) (by simp)

theorem le_border {P w : List α} {k : ℕ} (hk : k ≤ P.length - 1) (h : P.take k <:+ w) :
    k ≤ border P w := Nat.le_findGreatest hk h

theorem border_eq {P w : List α} {n : ℕ} (hn : n ≤ P.length - 1) (hs : P.take n <:+ w)
    (hmax : ∀ k ≤ P.length - 1, P.take k <:+ w → k ≤ n) : border P w = n :=
  Nat.le_antisymm (hmax _ (border_le P w) (border_suffix P w)) (le_border hn hs)

@[simp] theorem border_nil (P : List α) : border P [] = 0 := by
  refine border_eq (Nat.zero_le _) (by simp) fun k hk hs => ?_
  have := hs.length_le
  simp only [List.length_take, List.length_nil] at this
  omega

omit [DecidableEq α] in
/-- A prefix of the pattern survives a new symbol exactly when it ends with this symbol and
the rest of it was there before. -/
theorem take_succ_suffix_concat {P w : List α} {c : α} {k : ℕ} (hk : k < P.length) :
    P.take (k + 1) <:+ w ++ [c] ↔ P[k]? = some c ∧ P.take k <:+ w := by
  rw [List.take_succ_eq_append_getElem hk, List.getElem?_eq_getElem hk, Option.some.injEq]
  constructor
  · rintro ⟨t, ht⟩
    rw [← List.append_assoc] at ht
    obtain ⟨hinit, hlast⟩ := List.append_inj' ht rfl
    exact ⟨by simpa using hlast, t, hinit⟩
  · rintro ⟨rfl, t, rfl⟩
    exact ⟨t, by rw [List.append_assoc]⟩

omit [DecidableEq α] in
/-- Of two prefixes that a word ends with, the longer ends with the shorter. -/
theorem take_suffix_take {P w : List α} {j k : ℕ} (hj : P.take j <:+ w) (hk : P.take k <:+ w)
    (hjk : j ≤ k) : P.take j <:+ P.take k := by
  refine List.suffix_of_suffix_length_le hj hk ?_
  simp only [List.length_take]
  omega

/-- The pattern is complete exactly when everything but its last symbol was there and the
new symbol is the last one. -/
theorem suffix_concat_iff_border {P w : List α} {c : α} (hP : P ≠ []) :
    P <:+ w ++ [c] ↔ border P w + 1 = P.length ∧ P[border P w]? = some c := by
  have hlen : 0 < P.length := List.length_pos_of_ne_nil hP
  have hfull : P.take (P.length - 1 + 1) = P := by
    rw [Nat.sub_add_cancel hlen, List.take_length]
  have hiff := take_succ_suffix_concat (w := w) (c := c) (Nat.sub_lt hlen Nat.one_pos)
  rw [hfull] at hiff
  constructor
  · intro h
    obtain ⟨hc, hs⟩ := hiff.mp h
    have hb : border P w = P.length - 1 := Nat.le_antisymm (border_le P w) (le_border le_rfl hs)
    exact ⟨by omega, hb ▸ hc⟩
  · rintro ⟨hb, hc⟩
    have hb' : border P w = P.length - 1 := by omega
    exact hiff.mpr ⟨hb' ▸ hc, hb' ▸ border_suffix P w⟩

/-- The next symbol of the pattern makes the border one longer. -/
theorem border_concat_match {P w : List α} {c : α} (hc : P[border P w]? = some c)
    (hlt : border P w + 1 < P.length) : border P (w ++ [c]) = border P w + 1 := by
  refine border_eq (by omega)
    ((take_succ_suffix_concat (by omega)).mpr ⟨hc, border_suffix P w⟩) fun k hk hs => ?_
  cases k with
  | zero => omega
  | succ j =>
    have := le_border (by omega) ((take_succ_suffix_concat (by omega)).mp hs).2
    omega

/-- Any other symbol shortens the border to the longest prefix that the matched part and
the symbol still end with; the bytes before the matched part are not needed. -/
theorem border_concat_mismatch {P w : List α} {c : α} {n : ℕ} (hP : P ≠ [])
    (hc : P[border P w]? ≠ some c) (hle : n ≤ border P w)
    (hs : P.take n <:+ P.take (border P w) ++ [c])
    (hmax : ∀ k ≤ border P w, P.take k <:+ P.take (border P w) ++ [c] → k ≤ n) :
    border P (w ++ [c]) = n := by
  have hlen : 0 < P.length := List.length_pos_of_ne_nil hP
  have hb := border_le P w
  obtain ⟨t, ht⟩ := border_suffix P w
  refine border_eq (by omega) ?_ fun k hk hk' => ?_
  · refine hs.trans ⟨t, ?_⟩
    rw [← List.append_assoc, ht]
  · cases k with
    | zero => omega
    | succ j =>
      obtain ⟨hj, hjs⟩ := (take_succ_suffix_concat (by omega)).mp hk'
      have hjb := le_border (by omega) hjs
      have hne : j ≠ border P w := fun he => hc (he ▸ hj)
      refine hmax (j + 1) (by omega) ((take_succ_suffix_concat (by omega)).mpr ⟨hj, ?_⟩)
      exact take_suffix_take hjs (border_suffix P w) hjb

end Border

end UniHal.Foundations.PatternScan
