import UniHal.ClockMap.ConditionPatterns

/-! # The truth value of a condition

The recursion of the tool over the parts of a condition, and when its result is that of C.
-/

namespace UniHal.ClockMap.Conditions
open Foundations Brackets Characters

theorem length_le_of_mem_splitFrom {op : Char} {depth : ℕ} {part t p : List Char}
    (h : p ∈ splitFrom op depth part t) : p.length ≤ part.length + t.length := by
  fun_induction splitFrom op depth part t with
  | case1 => simp_all
  | case2 => simp_all
  | case3 depth part c' rest ih =>
    have hp := ih h
    simp only [List.length_append, List.length_cons, List.length_nil] at hp ⊢
    omega
  | case4 depth part c' rest _ ih =>
    have hp := ih h
    simp only [List.length_append, List.length_cons, List.length_nil] at hp ⊢
    omega
  | case5 depth part c c' rest _ _ _ ih =>
    rcases List.mem_cons.mp h with rfl | hmem
    · omega
    · have hp := ih hmem
      simp only [List.length_cons, List.length_nil] at hp ⊢
      omega
  | case6 depth part c c' rest _ _ _ ih =>
    have hp := ih h
    simp only [List.length_append, List.length_cons, List.length_nil] at hp ⊢
    omega

theorem length_lt_of_mem_splitFrom {op : Char} {depth : ℕ} {part t p : List Char}
    (hlen : 1 < (splitFrom op depth part t).length) (h : p ∈ splitFrom op depth part t) :
    p.length < part.length + t.length := by
  fun_induction splitFrom op depth part t with
  | case1 => simp at hlen
  | case2 => simp at hlen
  | case3 depth part c' rest ih =>
    have hp := ih hlen h
    simp only [List.length_append, List.length_cons, List.length_nil] at hp ⊢
    omega
  | case4 depth part c' rest _ ih =>
    have hp := ih hlen h
    simp only [List.length_append, List.length_cons, List.length_nil] at hp ⊢
    omega
  | case5 depth part c c' rest _ _ _ _ =>
    rcases List.mem_cons.mp h with rfl | hmem
    · simp only [List.length_cons]
      omega
    · have hp := length_le_of_mem_splitFrom hmem
      simp only [List.length_cons, List.length_nil] at hp ⊢
      omega
  | case6 depth part c c' rest _ _ _ ih =>
    have hp := ih hlen h
    simp only [List.length_append, List.length_cons, List.length_nil] at hp ⊢
    omega

theorem length_inside_le (text : List Char) : (inside text).length ≤ text.length := by
  rw [inside, List.length_dropLast, List.length_tail]
  omega

theorem length_stripOuterParensLoop_le (n : ℕ) (text : List Char) :
    (stripOuterParensLoop n text).length ≤ text.length := by
  induction n generalizing text with
  | zero => rfl
  | succ n ih =>
    rw [stripOuterParensLoop]
    split
    · calc _ ≤ (strip (inside text)).length := ih _
        _ ≤ (inside text).length := length_strip_le _
        _ ≤ text.length := length_inside_le text
    · rfl

theorem length_stripOuterParens_le (expr : List Char) :
    (stripOuterParens expr).length ≤ expr.length :=
  (length_stripOuterParensLoop_le _ _).trans (length_strip_le expr)

theorem any_of_forall₂ {α β : Type} {f : α → Bool} {g : β → Bool} {xs : List α} {ys : List β}
    (h : List.Forall₂ (fun x y => f x = g y) xs ys) : xs.any f = ys.any g := by
  induction h with
  | nil => rfl
  | cons hxy _ ih => rw [List.any_cons, List.any_cons, hxy, ih]

theorem all_of_forall₂ {α β : Type} {f : α → Bool} {g : β → Bool} {xs : List α} {ys : List β}
    (h : List.Forall₂ (fun x y => f x = g y) xs ys) : xs.all f = ys.all g := by
  induction h with
  | nil => rfl
  | cons hxy _ ih => rw [List.all_cons, List.all_cons, hxy, ih]

/-- The parts of the text that is split are shorter than the expression. -/
theorem length_lt_of_mem_split {expr p : List Char} {op : Char}
    (hlen : 1 < (splitTopLevel (stripOuterParens (strip expr)) op).length)
    (h : p ∈ splitTopLevel (stripOuterParens (strip expr)) op) : p.length < expr.length := by
  have hpart := length_lt_of_mem_splitFrom hlen h
  have htext := (length_stripOuterParens_le (strip expr)).trans (length_strip_le expr)
  simp only [List.length_nil] at hpart
  omega

theorem forall₂_of_forall_mem {α β : Type} {R S : α → β → Prop} {xs : List α} {ys : List β}
    (h : List.Forall₂ R xs ys) (himp : ∀ y ∈ ys, ∀ x, R x y → S x y) : List.Forall₂ S xs ys := by
  induction h with
  | nil => exact .nil
  | cons hxy _ ih =>
    rw [List.forall_mem_cons] at himp
    exact .cons (himp.1 _ hxy) (ih himp.2)

/-- The depth of the recursion does not show once it is more than the length. -/
theorem evalFrom_eq (d : Definitions) {n m : ℕ} {expr : List Char} (hn : expr.length < n)
    (hm : expr.length < m) : evalFrom d n expr = evalFrom d m expr := by
  induction n generalizing m expr with
  | zero => omega
  | succ n ih =>
    cases m with
    | zero => omega
    | succ m =>
      have hparts (op : Char)
          (hlen : 1 < (splitTopLevel (stripOuterParens (strip expr)) op).length) :
          List.Forall₂ (fun x y => evalFrom d n x = evalFrom d m y)
            (splitTopLevel (stripOuterParens (strip expr)) op)
            (splitTopLevel (stripOuterParens (strip expr)) op) := by
        refine List.forall₂_same.mpr fun p hp => ?_
        have hlt := length_lt_of_mem_split hlen hp
        exact ih (by omega) (by omega)
      simp only [evalFrom]
      split
      · rfl
      · split
        · next hor => exact any_of_forall₂ (hparts '|' hor)
        · split
          · next hand => exact all_of_forall₂ (hparts '&' hand)
          · rfl

/-- `eval_pp_expr` in terms of itself. -/
theorem evalPpExpr_eq (d : Definitions) (expr : List Char) :
    evalPpExpr d expr =
      let text := stripOuterParens (strip expr)
      if text = [] then false
      else if (splitTopLevel text '|').length > 1 then
        (splitTopLevel text '|').any (evalPpExpr d)
      else if (splitTopLevel text '&').length > 1 then
        (splitTopLevel text '&').all (evalPpExpr d)
      else evalPpAtomic d text := by
  have hparts (op : Char) (hlen : 1 < (splitTopLevel (stripOuterParens (strip expr)) op).length) :
      List.Forall₂ (fun x y => evalFrom d expr.length x = evalPpExpr d y)
        (splitTopLevel (stripOuterParens (strip expr)) op)
        (splitTopLevel (stripOuterParens (strip expr)) op) := by
    refine List.forall₂_same.mpr fun p hp => ?_
    have hlt := length_lt_of_mem_split hlen hp
    exact evalFrom_eq d hlt (Nat.lt_succ_self _)
  simp only [evalPpExpr, evalFrom]
  split
  · rfl
  · split
    · next hor => exact any_of_forall₂ (hparts '|' hor)
    · split
      · next hand => exact all_of_forall₂ (hparts '&' hand)
      · rfl

namespace Expr
variable (d : Definitions)

theorem Wf.operands {op : Op} {e : Expr} (h : e.Wf) : ∀ x ∈ e.operands op, x.Wf := by
  induction e with
  | bin op' l gap₁ gap₂ r ihl _ =>
    obtain ⟨-, -, -, -, hl, hr⟩ := id h
    rw [Expr.operands]
    split
    · intro x hx
      rcases List.mem_append.mp hx with hx | hx
      · exact ihl hl x hx
      · rwa [List.mem_singleton.mp hx]
    · intro x hx
      rwa [List.mem_singleton.mp hx]
  | _ =>
    intro x hx
    rwa [List.mem_singleton.mp hx]

theorem truth_bin_or (l r : Expr) (gap₁ gap₂ : List Char) :
    (bin .or l gap₁ gap₂ r).truth d = (l.truth d || r.truth d) := by
  simp only [truth, value, Op.apply]
  cases l.value d != 0 <;> cases r.value d != 0 <;> rfl

theorem truth_bin_and (l r : Expr) (gap₁ gap₂ : List Char) :
    (bin .and l gap₁ gap₂ r).truth d = (l.truth d && r.truth d) := by
  simp only [truth, value, Op.apply]
  cases l.value d != 0 <;> cases r.value d != 0 <;> rfl

theorem truth_not (gap : List Char) (e : Expr) : (not gap e).truth d = !e.truth d := by
  simp only [truth, value, bne]
  cases e.value d == 0 <;> rfl

theorem any_operands (e : Expr) :
    ((e.operands .or).any fun x => x.misread.truth d) = e.misread.truth d := by
  induction e with
  | bin op l gap₁ gap₂ r ihl _ =>
    by_cases hop : op = .or
    · subst hop
      rw [operands, if_pos rfl, List.any_append, ihl, misread, truth_bin_or]
      simp
    · rw [operands, if_neg hop]
      simp
  | _ => simp [operands]

theorem all_operands (e : Expr) :
    ((e.operands .and).all fun x => x.misread.truth d) = e.misread.truth d := by
  induction e with
  | bin op l gap₁ gap₂ r ihl _ =>
    by_cases hop : op = .and
    · subst hop
      rw [operands, if_pos rfl, List.all_append, ihl, misread, truth_bin_and]
      simp
    · rw [operands, if_neg hop]
      simp
  | _ => simp [operands]

theorem Wf.evalPpAtomic_text {e : Expr} (h : e.Wf) (hparens : e.isParens = false) :
    evalPpAtomic d e.text = e.operandRead.truth d := by
  have hnil : Spaces [] := by simp [Spaces]
  have hstrip : stripOuterParens e.text = e.text := by
    have houter := h.stripOuterParens_eq hnil hnil
    rwa [List.nil_append, List.append_nil, withoutParens_of_isParens hparens] at houter
  have hbangs := h.bangs_text le_rfl false
  rw [withoutParens_of_isParens hparens, Bool.false_xor] at hbangs
  obtain ⟨hwf, hp, hdrop⟩ := h.core
  rw [evalPpAtomic, operandRead]
  simp only [hstrip, hbangs, hwf.matched_covered d hp hdrop]
  split
  · rw [truth_not]
  · rfl

/-- What the tool makes of an expression, wherever it stands. -/
theorem Wf.evalPpExpr_around {e : Expr} (h : e.Wf) {part : List Char} (hpart : Around part e) :
    evalPpExpr d part =
      if (splitTopLevel e.withoutParens.text Op.or.char).length > 1 then
        (splitTopLevel e.withoutParens.text Op.or.char).any (evalPpExpr d)
      else if (splitTopLevel e.withoutParens.text Op.and.char).length > 1 then
        (splitTopLevel e.withoutParens.text Op.and.char).all (evalPpExpr d)
      else evalPpAtomic d e.withoutParens.text := by
  have hnil : Spaces [] := by simp [Spaces]
  obtain ⟨lead, trail, hlead, htrail, rfl⟩ := hpart
  have houter := h.stripOuterParens_eq hnil hnil
  rw [List.nil_append, List.append_nil] at houter
  rw [evalPpExpr_eq]
  simp only [h.solid.strip_eq hlead htrail, houter, if_neg h.withoutParens.solid.ne_nil]
  rfl

theorem Wf.split_single {op : Op} (hop : op.Logical) {e : Expr} (h : e.Wf)
    (hlevel : e.level < op.level) : ¬ (splitTopLevel e.text op.char).length > 1 := by
  have hparts := (h.splitTopLevel_text hop hlevel.le).length_eq
  rw [operands_of_level_lt hlevel] at hparts
  simp [hparts]

theorem Wf.split_chain {op : Op} (hop : op.Logical) {l r : Expr}
    {gap₁ gap₂ : List Char} (h : (bin op l gap₁ gap₂ r).Wf) :
    (splitTopLevel (bin op l gap₁ gap₂ r).text op.char).length > 1 := by
  have hparts := (h.splitTopLevel_text hop le_rfl).length_eq
  have hl : 0 < (l.operands op).length := by
    cases l with
    | bin op' l gap₁ gap₂ r =>
      rw [Expr.operands]
      split <;> simp
    | _ => simp [Expr.operands]
  rw [Expr.operands, if_pos rfl, List.length_append, List.length_singleton] at hparts
  omega

theorem misread_of_level {e : Expr} (hparens : e.isParens = false) (hlevel : e.level ≤ 2) :
    e.misread = e.operandRead := by
  cases e with
  | parens gap₁ e gap₂ => simp [isParens] at hparens
  | bin op l gap₁ gap₂ r => cases op <;> first | rfl | simp [level, Op.level] at hlevel
  | _ => rfl

theorem Wf.evalPpExpr_operand {e : Expr} (h : e.Wf) (hparens : e.isParens = false)
    (hlevel : e.level ≤ 2) {part : List Char} (hpart : Around part e) :
    evalPpExpr d part = e.misread.truth d := by
  have hor := h.split_single Op.or_logical (by simp only [Op.level]; omega)
  have hand := h.split_single Op.and_logical (by simp only [Op.level]; omega)
  rw [h.evalPpExpr_around d hpart, withoutParens_of_isParens hparens, if_neg hor, if_neg hand,
    h.evalPpAtomic_text d hparens, misread_of_level hparens hlevel]

/-- On every expression the tool computes the truth value of the misread one; in a chain it does so
on every operand. -/
theorem evalPpExpr_misread (e : Expr) (h : e.Wf) :
    (∀ part, Around part e → evalPpExpr d part = e.misread.truth d) ∧
      ∀ op, ∀ x ∈ e.operands op, ∀ part, Around part x →
        evalPpExpr d part = x.misread.truth d := by
  have hsingle {e : Expr} (hpart : ∀ part, Around part e → evalPpExpr d part = e.misread.truth d) :
      ∀ x ∈ [e], ∀ part, Around part x → evalPpExpr d part = x.misread.truth d := by
    intro x hx
    rwa [List.mem_singleton.mp hx]
  induction e with
  | parens gap₁ e gap₂ ih =>
    have hpart : ∀ part, Around part (parens gap₁ e gap₂) →
        evalPpExpr d part = (parens gap₁ e gap₂).misread.truth d := by
      intro part hpart
      have hnil : Spaces [] := by simp [Spaces]
      have hbare : Around e.text e := ⟨[], [], hnil, hnil, by simp⟩
      calc evalPpExpr d part = evalPpExpr d e.text := by
            rw [h.evalPpExpr_around d hpart, h.2.2.evalPpExpr_around d hbare, Expr.withoutParens]
        _ = (parens gap₁ e gap₂).misread.truth d := (ih h.2.2).1 e.text hbare
    exact ⟨hpart, fun _ => hsingle hpart⟩
  | bin op l gap₁ gap₂ r ihl ihr =>
    obtain ⟨-, -, -, -, hl, hr⟩ := id h
    have hchain : ∀ x ∈ (l.operands op ++ [r]), ∀ part, Around part x →
        evalPpExpr d part = x.misread.truth d := by
      intro x hx
      rcases List.mem_append.mp hx with hx | hx
      · exact (ihl hl).2 op x hx
      · rw [List.mem_singleton.mp hx]
        exact (ihr hr).1
    have hpart : ∀ part, Around part (bin op l gap₁ gap₂ r) →
        evalPpExpr d part = (bin op l gap₁ gap₂ r).misread.truth d := by
      intro part hpart
      have hparts (op : Op) (hop : op.Logical) (heq : (bin op l gap₁ gap₂ r).Wf)
          (hchain : ∀ x ∈ (l.operands op ++ [r]), ∀ part, Around part x →
            evalPpExpr d part = x.misread.truth d) :
          List.Forall₂ (fun part x => evalPpExpr d part = x.misread.truth d)
            (splitTopLevel (bin op l gap₁ gap₂ r).text op.char)
            ((bin op l gap₁ gap₂ r).operands op) := by
        refine forall₂_of_forall_mem (heq.splitTopLevel_text hop le_rfl) ?_
        rwa [operands, if_pos rfl]
      cases op with
      | or =>
        rw [h.evalPpExpr_around d hpart, withoutParens_of_isParens rfl,
          if_pos (h.split_chain Op.or_logical),
          any_of_forall₂ (hparts .or Op.or_logical h hchain), any_operands]
      | and =>
        rw [h.evalPpExpr_around d hpart, withoutParens_of_isParens rfl,
          if_neg (h.split_single Op.or_logical (by simp [level, Op.level])),
          if_pos (h.split_chain Op.and_logical),
          all_of_forall₂ (hparts .and Op.and_logical h hchain), all_operands]
      | eq => exact h.evalPpExpr_operand d rfl le_rfl hpart
      | ne => exact h.evalPpExpr_operand d rfl le_rfl hpart
    refine ⟨hpart, fun op' => ?_⟩
    rw [operands]
    split
    · next heq =>
      rw [← heq]
      exact hchain
    · exact hsingle hpart
  | not gap e _ =>
    have hpart : ∀ part, Around part _ → evalPpExpr d part = _ :=
      fun _ => h.evalPpExpr_operand d rfl (by simp [level])
    exact ⟨hpart, fun _ => hsingle hpart⟩
  | _ =>
    have hpart : ∀ part, Around part _ → evalPpExpr d part = _ :=
      fun _ => h.evalPpExpr_operand d rfl (by simp [level])
    exact ⟨hpart, fun _ => hsingle hpart⟩

theorem number_eq_zero_iff {base : ℕ} (hbase : 0 < base) (digits : List Char) :
    number base digits = 0 ↔ ∀ c ∈ digits, digit c = 0 := by
  have hfold (n : ℕ) : digits.foldl (fun n c => base * n + digit c) n = 0 ↔
      n = 0 ∧ ∀ c ∈ digits, digit c = 0 := by
    induction digits generalizing n with
    | nil => simp
    | cons c cs ih =>
      rw [List.foldl_cons, ih, List.forall_mem_cons, Nat.add_eq_zero_iff, Nat.mul_eq_zero]
      constructor
      · rintro ⟨⟨hn, hc⟩, hcs⟩
        exact ⟨hn.resolve_left hbase.ne', hc, hcs⟩
      · rintro ⟨hn, hc, hcs⟩
        exact ⟨⟨Or.inr hn, hc⟩, hcs⟩
  rw [number, hfold]
  exact and_iff_right rfl

theorem misread_value_eq_zero_iff (ds : Digits) : ds.misread.value = 0 ↔ ds.value = 0 := by
  cases ds with
  | octal digits =>
    have hzero : digit '0' = 0 := rfl
    rw [Digits.misread, Digits.value, Digits.value, number_eq_zero_iff (by decide),
      number_eq_zero_iff (by decide), List.forall_mem_cons]
    exact and_iff_right hzero
  | _ => rfl

theorem truth_int (l l' : Literal) (h : l'.digits.value = 0 ↔ l.digits.value = 0) :
    (int l').truth d = (int l).truth d := by
  rw [Bool.eq_iff_iff]
  simp only [truth, value, bne_iff_ne, ne_eq, h]

theorem Simple.truth_core {e : Expr} (h : e.Simple) :
    (e.core.1 ^^ e.core.2.covered.truth d) = e.truth d := by
  induction e with
  | ident name => simp [core, withoutBangs, covered]
  | int literal =>
    simp only [core, withoutBangs, covered, Bool.false_xor]
    exact truth_int d _ _ (misread_value_eq_zero_iff literal.digits)
  | defined gap name => exact h.elim
  | definedParens gap₁ gap₂ name gap₃ => simp [core, withoutBangs, covered]
  | parens gap₁ e gap₂ ih => exact ih h
  | not gap e ih =>
    rw [core, truth_not, ← ih h]
    simp
  | bin op l gap₁ gap₂ r _ _ =>
    cases l with
    | ident name =>
      cases r with
      | ident name' =>
        have hop : op.level = 2 := h
        simp [core, withoutBangs, covered, comparand, hop]
      | int literal =>
        obtain ⟨hop, hsuffix, hvalue⟩ := h
        simp [core, withoutBangs, covered, comparand, hop, hsuffix, truth, value, hvalue]
      | _ => exact h.elim
    | _ => exact h.elim

theorem Simple.truth_operandRead {e : Expr} (h : e.Simple) :
    e.operandRead.truth d = e.truth d := by
  rw [← h.truth_core d, operandRead]
  cases e.core.1 with
  | true => rw [if_pos rfl, truth_not, Bool.true_xor]
  | false => rw [if_neg (by simp), Bool.false_xor]

theorem Covered.truth_misread {e : Expr} (h : e.Covered) : e.misread.truth d = e.truth d := by
  induction e with
  | parens gap₁ e gap₂ ih => exact ih h
  | bin op l gap₁ gap₂ r ihl ihr =>
    cases op with
    | or =>
      obtain ⟨hl, hr⟩ := h
      rw [misread, truth_bin_or, truth_bin_or, ihl hl, ihr hr]
    | and =>
      obtain ⟨hl, hr⟩ := h
      rw [misread, truth_bin_and, truth_bin_and, ihl hl, ihr hr]
    | eq => exact Simple.truth_operandRead d h
    | ne => exact Simple.truth_operandRead d h
  | _ => exact Simple.truth_operandRead d h

end Expr

/-- The tool has the truth value of C just when the misread condition has, and that is so for all
definitions when every operand is covered. -/
theorem evalPpExpr_eq_truth_iff (d : Definitions) {e : Expr} (h : e.Wf) {lead trail : List Char}
    (hlead : Spaces lead) (htrail : Spaces trail) :
    (evalPpExpr d (lead ++ (e.text ++ trail)) = e.truth d ↔ e.misread.truth d = e.truth d) ∧
      (e.Covered → evalPpExpr d (lead ++ (e.text ++ trail)) = e.truth d) := by
  have hread := (e.evalPpExpr_misread d h).1 _ ⟨lead, trail, hlead, htrail, rfl⟩
  rw [hread]
  exact ⟨Iff.rfl, fun hcovered => hcovered.truth_misread d⟩

/-- `A == 0x1F || !( defined( B ) ) && C` -/
def coveredExpr : Expr :=
  .bin .or (.bin .eq (.ident ['A']) [' '] [' '] (.int ⟨.hexadecimal 'x' ['1', 'F'], []⟩))
    [' '] [' ']
    (.bin .and (.not [] (.parens [' '] (.definedParens [] [' '] ['B'] [' ']) [' '])) [' '] [' ']
      (.ident ['C']))

/-- `!(A && B)` -/
def negatedAnd : Expr :=
  .not [] (.parens [] (.bin .and (.ident ['A']) [' '] [' '] (.ident ['B'])) [])

/-- `A` and `B` are defined as 1. -/
def bothOne : Definitions where
  defined name := name == ['A'] || name == ['B']
  numeric name := if name == ['A'] || name == ['B'] then some 1 else none

theorem coveredExpr_wf : coveredExpr.Wf := by
  have hspace : Spaces [' '] := by simp [Spaces, isSpace]
  have hnil : Spaces [] := by simp [Spaces]
  have hliteral : Literal.Wf ⟨.hexadecimal 'x' ['1', 'F'], []⟩ :=
    ⟨⟨Or.inl rfl, by simp, by decide⟩, Or.inl rfl⟩
  have hname (c : Char) (hc : isIdentStart c = true) : Expr.Name [c] := by
    simp [Expr.Name, isIdent, hc]
  exact ⟨hspace, hspace, by decide, by decide,
    ⟨hspace, hspace, by decide, by decide, hname 'A' (by decide), hliteral⟩,
    hspace, hspace, by decide, by decide,
    ⟨hnil, by decide, hspace, hspace, hnil, hspace, hspace, hname 'B' (by decide)⟩,
    hname 'C' (by decide)⟩

theorem negatedAnd_wf : negatedAnd.Wf := by
  have hspace : Spaces [' '] := by simp [Spaces, isSpace]
  have hnil : Spaces [] := by simp [Spaces]
  have hname (c : Char) (hc : isIdentStart c = true) : Expr.Name [c] := by
    simp [Expr.Name, isIdent, hc]
  exact ⟨hnil, by decide, hnil, hnil, hspace, hspace, by decide, by decide, hname 'A' (by decide),
    hname 'B' (by decide)⟩

theorem evalPpExpr_eq_truth_covered :
    evalPpExpr bothOne ([' '] ++ (coveredExpr.text ++ [])) = coveredExpr.truth bothOne ∧
      ¬ evalPpExpr bothOne ([] ++ (negatedAnd.text ++ [])) = negatedAnd.truth bothOne := by
  have hspace : Spaces [' '] := by simp [Spaces, isSpace]
  have hnil : Spaces [] := by simp [Spaces]
  constructor
  · apply (evalPpExpr_eq_truth_iff bothOne coveredExpr_wf hspace hnil).2
    exact ⟨⟨rfl, rfl, rfl⟩, trivial, trivial⟩
  · intro h
    exact absurd ((evalPpExpr_eq_truth_iff bothOne negatedAnd_wf hnil hnil).1.mp h) (by decide)

/-- The brackets come off after the `!`, and what is inside is covered by no pattern. -/
theorem negatedAnd_misevaluated :
    negatedAnd.Wf ∧ evalPpExpr bothOne negatedAnd.text = true ∧
      negatedAnd.truth bothOne = false :=
  ⟨negatedAnd_wf, by decide, by decide⟩

end UniHal.ClockMap.Conditions
