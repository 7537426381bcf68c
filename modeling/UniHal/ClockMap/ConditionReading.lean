import UniHal.ClockMap.ConditionSyntax

/-! # What the tool makes of a condition

The bracket, operator and `!` scans of the tool on the text of an expression, and the patterns on
what is left of it.
-/

namespace UniHal.ClockMap.Conditions
open Foundations Brackets Characters

theorem isDigit_iff {c : Char} : isDigit c = true ↔ 48 ≤ c.toNat ∧ c.toNat ≤ 57 := by
  simp [isDigit, le_iff_toNat_le]

theorem isHexDigit_iff {c : Char} :
    isHexDigit c = true ↔ (48 ≤ c.toNat ∧ c.toNat ≤ 57) ∨ (97 ≤ c.toNat ∧ c.toNat ≤ 102) ∨
      (65 ≤ c.toNat ∧ c.toNat ≤ 70) := by
  simp [isHexDigit, isDigit, le_iff_toNat_le, or_assoc]

theorem isIdentChar_of_isDigit {c : Char} (h : isDigit c = true) : isIdentChar c = true :=
  isIdentChar_iff.mpr (Or.inl (isDigit_iff.mp h))

theorem isIdentChar_of_isHexDigit {c : Char} (h : isHexDigit c = true) : isIdentChar c = true := by
  rw [isHexDigit_iff] at h
  rw [isIdentChar_iff]
  omega

theorem toNat_of_isSuffix {cs : List Char} (h : isSuffix cs = true) :
    ∀ c ∈ cs, c.toNat ∈ [76, 85, 108, 117] := by
  have hsuffixes : ∀ s ∈ suffixes, ∀ c ∈ s, c.toNat = 108 ∨ c.toNat = 117 := by
    simp [suffixes]
  intro c hc
  have hlower := hsuffixes _ (List.contains_iff_mem.mp h) _ (List.mem_map_of_mem hc)
  rw [toNat_toLower] at hlower
  simp only [List.mem_cons, List.not_mem_nil, or_false]
  split at hlower <;> omega

theorem isIdentChar_of_isSuffix {cs : List Char} (h : isSuffix cs = true) :
    ∀ c ∈ cs, isIdentChar c = true := by
  intro c hc
  have hletter := toNat_of_isSuffix h c hc
  simp only [List.mem_cons, List.not_mem_nil, or_false] at hletter
  rw [isIdentChar_iff]
  omega

namespace Digits

theorem Wf.isIdentChar {ds : Digits} (h : ds.Wf) : ∀ c ∈ ds.text, isIdentChar c = true := by
  cases ds with
  | decimal digits =>
    simp only [Wf, isDecimal, Bool.and_eq_true, List.all_eq_true] at h
    exact fun c hc => isIdentChar_of_isDigit (h.1.2 c hc)
  | octal digits =>
    refine List.forall_mem_cons.mpr ⟨by decide, fun c hc => ?_⟩
    have hoct := h c hc
    simp only [le_iff_toNat_le, Char.reduceToNat] at hoct
    rw [isIdentChar_iff]
    omega
  | hexadecimal x digits =>
    obtain ⟨hx, -, hdigits⟩ := h
    refine List.forall_mem_cons.mpr ⟨by decide, List.forall_mem_cons.mpr ⟨?_, fun c hc => ?_⟩⟩
    · rcases hx with rfl | rfl <;> decide
    · exact isIdentChar_of_isHexDigit (List.all_eq_true.mp hdigits c hc)

theorem Wf.head {ds : Digits} (h : ds.Wf) : ∃ c cs, ds.text = c :: cs ∧ isDigit c = true := by
  cases ds with
  | decimal digits =>
    cases digits with
    | nil => simp [Wf, isDecimal] at h
    | cons c cs =>
      simp only [Wf, isDecimal, Bool.and_eq_true, List.all_cons] at h
      exact ⟨c, cs, rfl, h.1.2.1⟩
  | octal digits => exact ⟨'0', digits, rfl, by decide⟩
  | hexadecimal x digits => exact ⟨'0', x :: digits, rfl, by decide⟩

end Digits

theorem Literal.Wf.isIdentChar {l : Literal} (h : l.Wf) : ∀ c ∈ l.text, isIdentChar c = true := by
  intro c hc
  rcases List.mem_append.mp hc with hc | hc
  · exact h.digits.isIdentChar c hc
  · rcases h.suffix with hnil | hsuffix
    · simp [hnil] at hc
    · exact isIdentChar_of_isSuffix hsuffix c hc

theorem Literal.Wf.text_ne_nil {l : Literal} (h : l.Wf) : l.text ≠ [] := by
  obtain ⟨c, cs, htext, -⟩ := h.digits.head
  simp [Literal.text, htext]

theorem solid_of_isIdentChar {cs : List Char} (hne : cs ≠ [])
    (h : ∀ c ∈ cs, isIdentChar c = true) : Solid cs :=
  Solid.of_forall hne fun c hc => isSpace_eq_false_of_isIdentChar (h c hc)

/-- Which operators stand outside the brackets of an expression of this level. -/
def Outside (level : ℕ) (c : Char) : Prop := (c = '|' → 4 ≤ level) ∧ (c = '&' → 3 ≤ level)

theorem balanced_of_isIdentChar {level : ℕ} {cs : List Char}
    (h : ∀ c ∈ cs, isIdentChar c = true) : Balanced (Outside level) cs := by
  refine Balanced.of_forall fun c hc => ?_
  have hident := h c hc
  refine ⟨?_, ?_, ?_, ?_⟩ <;> rintro rfl <;> simp [isIdentChar_iff] at hident

theorem balanced_of_spaces {level : ℕ} {cs : List Char} (h : Spaces cs) :
    Balanced (Outside level) cs := by
  refine Balanced.of_forall fun c hc => ?_
  have hspace := h c hc
  refine ⟨?_, ?_, ?_, ?_⟩ <;> rintro rfl <;> simp [isSpace] at hspace

theorem Outside.mono {m n : ℕ} (h : m ≤ n) (c : Char) (hc : Outside m c) : Outside n c :=
  ⟨fun h' => (hc.1 h').trans h, fun h' => (hc.2 h').trans h⟩

theorem Op.balanced_text (op : Op) : Balanced (Outside op.level) op.text := by
  apply Balanced.of_forall
  cases op <;> simp [Op.text, Op.level, Outside]

theorem isIdentChar_defined :
    ∀ c ∈ ['d', 'e', 'f', 'i', 'n', 'e', 'd'], isIdentChar c = true :=
  isIdentChar_of_isIdent rfl

namespace Expr

theorem Wf.solid {e : Expr} (h : e.Wf) : Solid e.text := by
  induction e with
  | ident name =>
    exact solid_of_isIdentChar (ne_nil_of_isIdent h.1) (isIdentChar_of_isIdent h.1)
  | int literal => exact solid_of_isIdentChar h.text_ne_nil h.isIdentChar
  | defined gap name =>
    refine Solid.append (solid_of_isIdentChar (by simp) isIdentChar_defined) gap ?_
    exact solid_of_isIdentChar (ne_nil_of_isIdent h.2.2.1) (isIdentChar_of_isIdent h.2.2.1)
  | definedParens gap₁ gap₂ name gap₃ =>
    have happend := Solid.append (s := ['d', 'e', 'f', 'i', 'n', 'e', 'd'])
      (solid_of_isIdentChar (by simp) isIdentChar_defined) (gap₁ ++ '(' :: (gap₂ ++ (name ++ gap₃)))
      (solid_singleton (by decide : isSpace ')' = false))
    simpa [text] using happend
  | parens gap₁ e gap₂ _ =>
    exact Solid.append (s := ['(']) (solid_singleton (by decide)) _ (solid_singleton (by decide))
  | not gap e ih =>
    exact Solid.append (s := ['!']) (solid_singleton (by decide)) gap (ih h.2.2)
  | bin op l gap₁ gap₂ r ihl ihr =>
    obtain ⟨-, -, -, -, hl, hr⟩ := h
    have happend := Solid.append (ihl hl) (gap₁ ++ (op.text ++ gap₂)) (ihr hr)
    simpa [text] using happend

theorem Wf.balanced {e : Expr} (h : e.Wf) : Balanced (Outside e.level) e.text := by
  induction e with
  | ident name => exact balanced_of_isIdentChar (isIdentChar_of_isIdent h.1)
  | int literal => exact balanced_of_isIdentChar h.isIdentChar
  | defined gap name =>
    refine (balanced_of_isIdentChar isIdentChar_defined).append
      ((balanced_of_spaces h.2.1).append ?_)
    exact balanced_of_isIdentChar (isIdentChar_of_isIdent h.2.2.1)
  | definedParens gap₁ gap₂ name gap₃ =>
    obtain ⟨h₁, h₂, h₃, hname⟩ := h
    have hinner : Balanced (Outside 0) (gap₂ ++ (name ++ gap₃)) :=
      (balanced_of_spaces h₂).append
        ((balanced_of_isIdentChar (isIdentChar_of_isIdent hname.1)).append (balanced_of_spaces h₃))
    refine (balanced_of_isIdentChar isIdentChar_defined).append ((balanced_of_spaces h₁).append ?_)
    simpa using hinner.brackets
  | parens gap₁ e gap₂ ih =>
    obtain ⟨h₁, h₂, he⟩ := h
    exact (((balanced_of_spaces h₁).append ((ih he).append (balanced_of_spaces h₂)))).brackets
  | not gap e ih =>
    obtain ⟨hgap, hlevel, he⟩ := h
    exact .plain (by decide) (by decide) (by simp [Outside]) ((balanced_of_spaces hgap).append
      ((ih he).mono (Outside.mono hlevel)))
  | bin op l gap₁ gap₂ r ihl ihr =>
    obtain ⟨h₁, h₂, hll, hrl, hl, hr⟩ := h
    exact ((ihl hl).mono (Outside.mono hll)).append ((balanced_of_spaces h₁).append
      (op.balanced_text.append ((balanced_of_spaces h₂).append
        ((ihr hr).mono (Outside.mono hrl.le)))))

end Expr

theorem encloses_append {top : Char → Prop} {t : List Char} (ht : Balanced top t) (depth : ℤ)
    (hdepth : 0 < depth) (rest : List Char) (hrest : rest ≠ []) :
    encloses depth (t ++ rest) = encloses depth rest := by
  induction ht generalizing depth rest with
  | nil => rfl
  | @plain top c t hopen hclose hc _ ih =>
    rw [List.cons_append, encloses]
    simp only [hopen, hclose, if_false, false_and, hdepth.ne']
    exact ih depth hdepth rest hrest
  | @group top inner t _ _ ihinner ih =>
    rw [List.cons_append, List.append_assoc, List.cons_append, encloses]
    have hsucc : depth + 1 ≠ 0 := by omega
    simp only [reduceIte, Char.reduceEq, false_and, hsucc]
    rw [ihinner (depth + 1) (by omega) _ (by simp), encloses]
    have hnonneg : ¬ depth < 0 := by omega
    simp only [reduceIte, Char.reduceEq, add_sub_cancel_right, hnonneg, hdepth.ne', false_and,
      and_false]
    exact ih depth hdepth rest hrest

theorem encloses_brackets {top : Char → Prop} {body : List Char} (h : Balanced top body)
    (rest : List Char) : encloses 0 ('(' :: (body ++ ')' :: rest)) = decide (rest = []) := by
  rw [encloses]
  simp only [reduceIte, zero_add, Char.reduceEq, one_ne_zero, false_and]
  rw [encloses_append h 1 one_pos _ (by simp), encloses]
  cases rest <;> simp [encloses]

namespace Expr

def isParens : Expr → Bool
  | parens _ _ _ => true
  | _ => false

theorem Wf.balanced_parens {gap₁ gap₂ : List Char} {e : Expr} (h : (parens gap₁ e gap₂).Wf) :
    Balanced (Outside e.level) (gap₁ ++ (e.text ++ gap₂)) :=
  (balanced_of_spaces h.1).append (h.2.2.balanced.append (balanced_of_spaces h.2.1))

/-- The bracket that an expression begins with closes at its end only if it is the outer one. -/
theorem Wf.brackets {e : Expr} (h : e.Wf) (hhead : e.text.head? = some '(') :
    ∃ level body rest, Balanced (Outside level) body ∧ e.text = '(' :: (body ++ ')' :: rest) ∧
      (e.isParens = false → rest ≠ []) := by
  induction e with
  | ident name =>
    exact absurd hhead (head_ne_of_isIdentChar (isIdentChar_of_isIdent h.1) (by decide))
  | int literal =>
    exact absurd hhead (head_ne_of_isIdentChar h.isIdentChar (by decide))
  | defined gap name => simp [text] at hhead
  | definedParens gap₁ gap₂ name gap₃ => simp [text] at hhead
  | parens gap₁ e gap₂ _ => exact ⟨e.level, _, [], h.balanced_parens, rfl, by simp [isParens]⟩
  | not gap e _ => simp [text] at hhead
  | bin op l gap₁ gap₂ r ihl _ =>
    obtain ⟨-, -, -, -, hl, hr⟩ := h
    rw [text, List.head?_append_of_ne_nil _ hl.solid.ne_nil] at hhead
    obtain ⟨level, body, rest, hbody, htext, -⟩ := ihl hl hhead
    refine ⟨level, body, rest ++ (gap₁ ++ (op.text ++ (gap₂ ++ r.text))), hbody, ?_, fun _ => ?_⟩
    · rw [text, htext]
      simp
    · simp [hr.solid.ne_nil]

theorem Wf.hasOuterParens_eq {e : Expr} (h : e.Wf) : hasOuterParens e.text = e.isParens := by
  by_cases hhead : e.text.head? = some '('
  · obtain ⟨level, body, rest, hbody, htext, hrest⟩ := h.brackets hhead
    cases hp : e.isParens with
    | true =>
      cases e with
      | parens gap₁ e gap₂ =>
        rw [hasOuterParens, text, encloses_brackets h.balanced_parens, ← List.cons_append,
          List.getLast?_concat]
        simp
      | _ => simp [isParens] at hp
    | false =>
      rw [hasOuterParens, htext, encloses_brackets hbody]
      simp [hrest hp]
  · have hp : e.isParens = false := by
      cases e with
      | parens gap₁ e gap₂ => simp [text] at hhead
      | _ => rfl
    rw [hp, hasOuterParens]
    simp [hhead]

def withoutParens : Expr → Expr
  | parens _ e _ => e.withoutParens
  | e => e

theorem Wf.withoutParens {e : Expr} (h : e.Wf) : e.withoutParens.Wf := by
  induction e with
  | parens gap₁ e gap₂ ih => exact ih h.2.2
  | _ => exact h

theorem withoutParens_of_isParens {e : Expr} (h : e.isParens = false) : e.withoutParens = e := by
  cases e with
  | parens gap₁ e gap₂ => simp [isParens] at h
  | _ => rfl

theorem inside_parens (gap₁ gap₂ : List Char) (e : Expr) :
    inside (parens gap₁ e gap₂).text = gap₁ ++ (e.text ++ gap₂) := by
  rw [inside, text, List.tail_cons, List.dropLast_concat]

theorem Wf.stripOuterParensLoop_eq {e : Expr} (h : e.Wf) {n : ℕ} (hn : e.text.length ≤ n) :
    stripOuterParensLoop n e.text = e.withoutParens.text := by
  have hstop {e : Expr} (h : e.Wf) (hp : e.isParens = false) (n : ℕ) :
      stripOuterParensLoop n e.text = e.text := by
    cases n with
    | zero => rfl
    | succ n => rw [stripOuterParensLoop, h.hasOuterParens_eq, hp, if_neg (by simp)]
  induction e generalizing n with
  | parens gap₁ e gap₂ ih =>
    cases n with
    | zero => simp [text] at hn
    | succ n =>
      rw [stripOuterParensLoop, h.hasOuterParens_eq, isParens, if_pos rfl, inside_parens,
        h.2.2.solid.strip_eq h.1 h.2.1, ih h.2.2, Expr.withoutParens]
      simp only [text, List.length_cons, List.length_append] at hn
      omega
  | _ => exact hstop h rfl n

theorem Wf.stripOuterParens_eq {e : Expr} (h : e.Wf) {lead trail : List Char}
    (hlead : Spaces lead) (htrail : Spaces trail) :
    stripOuterParens (lead ++ (e.text ++ trail)) = e.withoutParens.text := by
  rw [stripOuterParens, h.solid.strip_eq hlead htrail, h.stripOuterParensLoop_eq le_rfl]

end Expr

theorem splitFrom_plain {op c : Char} {depth : ℕ} (part rest : List Char) (hopen : c ≠ '(')
    (hclose : c ≠ ')') (hop : depth = 0 → c ≠ op) :
    splitFrom op depth part (c :: rest) = splitFrom op depth (part ++ [c]) rest := by
  cases rest with
  | nil => rfl
  | cons c' rest =>
    have hno : ¬ (depth = 0 ∧ c = op ∧ c' = op) := fun h => hop h.1 h.2.1
    rw [splitFrom, if_neg hopen, if_neg hclose, if_neg hno]

theorem splitFrom_open (op : Char) (depth : ℕ) (part rest : List Char) :
    splitFrom op depth part ('(' :: rest) = splitFrom op (depth + 1) (part ++ ['(']) rest := by
  cases rest <;> simp [splitFrom]

theorem splitFrom_close (op : Char) (depth : ℕ) (part rest : List Char) :
    splitFrom op depth part (')' :: rest) = splitFrom op (depth - 1) (part ++ [')']) rest := by
  cases rest <;> simp [splitFrom]

theorem splitFrom_op {op : Char} (hopen : op ≠ '(') (hclose : op ≠ ')') (part rest : List Char) :
    splitFrom op 0 part (op :: op :: rest) = part :: splitFrom op 0 [] rest := by
  simp [splitFrom, hopen, hclose]

theorem splitFrom_append {top : Char → Prop} {t : List Char} (ht : Balanced top t) {op : Char}
    {depth : ℕ} (hop : depth = 0 → ∀ c, top c → c ≠ op) (part rest : List Char) :
    splitFrom op depth part (t ++ rest) = splitFrom op depth (part ++ t) rest := by
  induction ht generalizing depth part rest with
  | nil => simp
  | @plain top c t hopen hclose hc _ ih =>
    rw [List.cons_append, splitFrom_plain _ _ hopen hclose fun h => hop h c hc, ih hop]
    simp
  | @group top inner t _ _ ihinner ih =>
    rw [List.cons_append, List.append_assoc, List.cons_append, splitFrom_open,
      ihinner (by simp), splitFrom_close, Nat.add_sub_cancel, ih hop]
    simp

def Around (part : List Char) (e : Expr) : Prop :=
  ∃ lead trail, Spaces lead ∧ Spaces trail ∧ part = lead ++ (e.text ++ trail)

def Op.Logical (op : Op) : Prop := op = .or ∨ op = .and

theorem Op.or_logical : Op.or.Logical := Or.inl rfl

theorem Op.and_logical : Op.and.Logical := Or.inr rfl

def Op.char : Op → Char
  | .or => '|'
  | _ => '&'

theorem Op.ne_char {op : Op} (hop : op.Logical) {level : ℕ} (hlevel : level < op.level)
    {c : Char} (hc : Outside level c) : c ≠ op.char := by
  rintro rfl
  rcases hop with rfl | rfl
  · exact absurd (hc.1 rfl) (by simpa [Op.level] using hlevel)
  · exact absurd (hc.2 rfl) (by simpa [Op.level] using hlevel)

namespace Expr

def operands (op : Op) : Expr → List Expr
  | bin op' l gap₁ gap₂ r =>
    if op' = op then l.operands op ++ [r] else [bin op' l gap₁ gap₂ r]
  | e => [e]

theorem operands_of_level_lt {op : Op} {e : Expr} (h : e.level < op.level) :
    e.operands op = [e] := by
  cases e with
  | bin op' l gap₁ gap₂ r =>
    have hne : op' ≠ op := by
      rintro rfl
      exact lt_irrefl _ h
    rw [operands, if_neg hne]
  | _ => rfl

theorem Wf.splitFrom_single {op : Op} (hop : op.Logical) {e : Expr} (h : e.Wf)
    (hlevel : e.level < op.level) (part rest : List Char) :
    splitFrom op.char 0 part (e.text ++ rest) = splitFrom op.char 0 (part ++ e.text) rest :=
  splitFrom_append h.balanced (fun _ _ hc => op.ne_char hop hlevel hc) part rest

theorem splitFrom_spaces {op : Op} (hop : op.Logical) {gap : List Char}
    (h : Spaces gap) (part rest : List Char) :
    splitFrom op.char 0 part (gap ++ rest) = splitFrom op.char 0 (part ++ gap) rest := by
  have hgap : Balanced (Outside 0) gap := balanced_of_spaces h
  have hlevel : 0 < op.level := by rcases hop with rfl | rfl <;> simp [Op.level]
  exact splitFrom_append hgap (fun _ _ hc => op.ne_char hop hlevel hc) part rest

theorem splitFrom_opText {op : Op} (hop : op.Logical) (part rest : List Char) :
    splitFrom op.char 0 part (op.text ++ rest) = part :: splitFrom op.char 0 [] rest := by
  rcases hop with rfl | rfl
  · exact splitFrom_op (by decide) (by decide) part rest
  · exact splitFrom_op (by decide) (by decide) part rest

/-- The splits of a chain are at its operators; the last part may still go on. -/
theorem Wf.splitFrom_text {op : Op} (hop : op.Logical) {e : Expr} (h : e.Wf)
    (hlevel : e.level ≤ op.level) {lead : List Char} (hlead : Spaces lead) :
    ∃ init es last gap, e.operands op = es ++ [last] ∧ Spaces gap ∧
      List.Forall₂ Around init es ∧ ∀ rest, splitFrom op.char 0 lead (e.text ++ rest) =
        init ++ splitFrom op.char 0 (gap ++ last.text) rest := by
  have hsingle {e : Expr} (h : e.Wf) (hlt : e.level < op.level) :
      ∃ init es last gap, e.operands op = es ++ [last] ∧ Spaces gap ∧
        List.Forall₂ Around init es ∧ ∀ rest, splitFrom op.char 0 lead (e.text ++ rest) =
          init ++ splitFrom op.char 0 (gap ++ last.text) rest :=
    ⟨[], [], e, lead, operands_of_level_lt hlt, hlead, .nil,
      fun rest => h.splitFrom_single hop hlt lead rest⟩
  have hpos : 1 < op.level := by rcases hop with rfl | rfl <;> simp [Op.level]
  induction e with
  | bin op' l gap₁ gap₂ r ihl _ =>
    by_cases heq : op' = op
    · subst heq
      obtain ⟨hgap₁, hgap₂, hll, hrl, hl, hr⟩ := h
      obtain ⟨init, es, last, gap, hes, hgap, hinit, hsplit⟩ := ihl hl hll
      refine ⟨init ++ [gap ++ (last.text ++ gap₁)], es ++ [last], r, gap₂, ?_, hgap₂, ?_, ?_⟩
      · rw [operands, if_pos rfl, hes]
      · exact List.rel_append hinit (.cons ⟨gap, gap₁, hgap, hgap₁, rfl⟩ .nil)
      · intro rest
        calc splitFrom op'.char 0 lead ((bin op' l gap₁ gap₂ r).text ++ rest)
            = splitFrom op'.char 0 lead
                (l.text ++ (gap₁ ++ (op'.text ++ (gap₂ ++ (r.text ++ rest))))) := by
              simp only [text, List.append_assoc]
          _ = init ++ ((gap ++ last.text ++ gap₁) ::
                splitFrom op'.char 0 [] (gap₂ ++ (r.text ++ rest))) := by
              rw [hsplit, splitFrom_spaces hop hgap₁, splitFrom_opText hop]
          _ = init ++ [gap ++ (last.text ++ gap₁)] ++
                splitFrom op'.char 0 (gap₂ ++ r.text) rest := by
              rw [splitFrom_spaces hop hgap₂, hr.splitFrom_single hop hrl]
              simp
    · refine hsingle h (lt_of_le_of_ne hlevel fun hlev => heq ?_)
      rcases hop with rfl | rfl <;> cases op' <;> simp [level, Op.level] at hlev ⊢
  | not gap e _ => exact hsingle h hpos
  | _ => exact hsingle h (by simp only [level]; omega)

/-- The parts are the operands, with white space around them. -/
theorem Wf.splitTopLevel_text {op : Op} (hop : op.Logical) {e : Expr} (h : e.Wf)
    (hlevel : e.level ≤ op.level) :
    List.Forall₂ Around (splitTopLevel e.text op.char) (e.operands op) := by
  have hnil : Spaces [] := by simp [Spaces]
  obtain ⟨init, es, last, gap, hes, hgap, hinit, hsplit⟩ := h.splitFrom_text hop hlevel hnil
  have hwhole := hsplit []
  rw [List.append_nil] at hwhole
  rw [splitTopLevel, hwhole, hes, splitFrom]
  refine List.rel_append hinit (.cons ⟨gap, [], hgap, hnil, ?_⟩ .nil)
  rw [List.append_nil]

end Expr

namespace Expr

/-- The expression without its first token, when that is a `!`. -/
def dropBang : Expr → Option Expr
  | not _ e => some e
  | bin op l gap₁ gap₂ r => l.dropBang.map fun l => bin op l gap₁ gap₂ r
  | _ => none

theorem Wf.of_dropBang {e e' : Expr} (h : e.Wf) (hdrop : e.dropBang = some e') :
    ∃ gap, Spaces gap ∧ e.text = '!' :: (gap ++ e'.text) ∧ e'.Wf ∧ e'.level ≤ e.level ∧
      e.withoutBangs = (!e'.withoutBangs.1, e'.withoutBangs.2) := by
  induction e generalizing e' with
  | not gap e _ =>
    obtain rfl := Option.some.inj hdrop
    exact ⟨gap, h.1, rfl, h.2.2, h.2.1, rfl⟩
  | bin op l gap₁ gap₂ r ihl _ =>
    obtain ⟨l', hl', rfl⟩ := Option.map_eq_some_iff.mp hdrop
    obtain ⟨h₁, h₂, hll, hrl, hl, hr⟩ := h
    obtain ⟨gap, hgap, htext, hwf, hlevel, hbangs⟩ := ihl hl hl'
    refine ⟨gap, hgap, ?_, ⟨h₁, h₂, hlevel.trans hll, hrl, hwf, hr⟩, le_rfl, ?_⟩
    · simp [text, htext]
    · simp [withoutBangs, hbangs]
  | _ => simp [dropBang] at hdrop

theorem Wf.of_dropBang_none {e : Expr} (h : e.Wf) (hdrop : e.dropBang = none) :
    e.text.head? ≠ some '!' ∧ e.withoutBangs = (false, e) := by
  induction e with
  | ident name => exact ⟨head_ne_of_isIdentChar (isIdentChar_of_isIdent h.1) (by decide), rfl⟩
  | int literal => exact ⟨head_ne_of_isIdentChar h.isIdentChar (by decide), rfl⟩
  | defined gap name => exact ⟨by simp [text], rfl⟩
  | definedParens gap₁ gap₂ name gap₃ => exact ⟨by simp [text], rfl⟩
  | parens gap₁ e gap₂ _ => exact ⟨by simp [text], rfl⟩
  | not gap e _ => simp [dropBang] at hdrop
  | bin op l gap₁ gap₂ r ihl _ =>
    obtain ⟨-, -, -, -, hl, -⟩ := h
    rw [dropBang, Option.map_eq_none_iff] at hdrop
    obtain ⟨hhead, hbangs⟩ := ihl hl hdrop
    refine ⟨?_, by rw [withoutBangs, hbangs]⟩
    rwa [text, List.head?_append_of_ne_nil _ hl.solid.ne_nil]

theorem bangs_of_head {text : List Char} (h : text.head? ≠ some '!') (n : ℕ) (negate : Bool) :
    bangs n negate text = (negate, text) := by
  cases n with
  | zero => rfl
  | succ n =>
    cases text with
    | nil => rfl
    | cons c cs =>
      have hc : c ≠ '!' := by simpa using h
      simp [bangs, hc]

theorem Wf.bangs_succ {e e' : Expr} {gap : List Char} (h : e'.Wf) (hgap : Spaces gap)
    (htext : e.text = '!' :: (gap ++ e'.text)) (n : ℕ) (negate : Bool) :
    bangs (n + 1) negate e.text = bangs n (!negate) e'.withoutParens.text := by
  have hnil : Spaces [] := by simp [Spaces]
  have hstrip : strip (gap ++ e'.text) = e'.text := by
    simpa using h.solid.strip_eq hgap hnil
  have houter : stripOuterParens e'.text = e'.withoutParens.text := by
    simpa using h.stripOuterParens_eq hnil hnil
  rw [htext, bangs, hstrip, houter]

theorem Wf.bangs_bin {op : Op} {l r : Expr} {gap₁ gap₂ : List Char}
    (h : (bin op l gap₁ gap₂ r).Wf) {n : ℕ} (hn : (bin op l gap₁ gap₂ r).text.length ≤ n)
    (negate : Bool) : bangs n negate (bin op l gap₁ gap₂ r).text =
      (negate ^^ (bin op l gap₁ gap₂ r).withoutBangs.1,
        (bin op l gap₁ gap₂ r).withoutBangs.2.text) := by
  induction n generalizing l negate with
  | zero =>
    have hne := h.solid.ne_nil
    exact absurd (List.length_eq_zero_iff.mp (Nat.le_zero.mp hn)) hne
  | succ n ih =>
    cases hdrop : (bin op l gap₁ gap₂ r).dropBang with
    | none =>
      obtain ⟨hhead, hbangs⟩ := h.of_dropBang_none hdrop
      rw [bangs_of_head hhead, hbangs, Bool.xor_false]
    | some e' =>
      obtain ⟨gap, hgap, htext, hwf, -, hbangs⟩ := h.of_dropBang hdrop
      obtain ⟨l', -, rfl⟩ := Option.map_eq_some_iff.mp hdrop
      rw [hwf.bangs_succ hgap htext, hbangs]
      have hlength := congrArg List.length htext
      simp only [List.length_cons, List.length_append] at hlength
      rw [withoutParens_of_isParens rfl, ih hwf (by omega)]
      simp

theorem Wf.bangs_leaf {e : Expr} (h : e.Wf) (hdrop : e.dropBang = none)
    (hparens : e.isParens = false) (hcore : e.core = e.withoutBangs) (n : ℕ) (negate : Bool) :
    bangs n negate e.withoutParens.text = (negate ^^ e.core.1, e.core.2.text) := by
  obtain ⟨hhead, hbangs⟩ := h.of_dropBang_none hdrop
  rw [withoutParens_of_isParens hparens, bangs_of_head hhead, hcore, hbangs, Bool.xor_false]

theorem Wf.bangs_text {e : Expr} (h : e.Wf) {n : ℕ} (hn : e.text.length ≤ n) (negate : Bool) :
    bangs n negate e.withoutParens.text = (negate ^^ e.core.1, e.core.2.text) := by
  induction e generalizing n negate with
  | parens gap₁ e gap₂ ih =>
    apply ih h.2.2
    simp only [text, List.length_cons, List.length_append] at hn
    omega
  | not gap e ih =>
    cases n with
    | zero => simp [text] at hn
    | succ n =>
      rw [withoutParens_of_isParens rfl, h.2.2.bangs_succ h.1 rfl, core, ih h.2.2]
      · simp
      · simp only [text, List.length_cons, List.length_append] at hn
        omega
  | bin op l gap₁ gap₂ r _ _ => exact h.bangs_bin hn negate
  | _ => exact h.bangs_leaf rfl rfl rfl n negate

end Expr

end UniHal.ClockMap.Conditions
