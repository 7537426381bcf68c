import UniHal.ClockMap.ConditionReading

/-! # The patterns on an operand

What is left of an operand when brackets and `!` are off, and what the patterns make of it.
-/

namespace UniHal.ClockMap.Conditions
open Foundations Brackets Characters

theorem strip_of_solid {cs : List Char} (h : Solid cs) : strip cs = cs := by
  have hnil : Spaces [] := by simp [Spaces]
  simpa using h.strip_eq hnil hnil

theorem not_isSuffix_cons {c : Char} {cs : List Char} (hc : c.toNat ∉ [76, 85, 108, 117]) :
    isSuffix (c :: cs) = false := by
  by_contra h
  exact hc (toNat_of_isSuffix (Bool.of_not_eq_false h) c List.mem_cons_self)

theorem dropSuffix_append {cs suffix : List Char} (hcs : ∀ c ∈ cs, c.toNat ∉ [76, 85, 108, 117])
    (hsuffix : suffix = [] ∨ isSuffix suffix) : dropSuffix (cs ++ suffix) = cs := by
  induction cs with
  | nil =>
    rcases hsuffix with rfl | h
    · rfl
    · cases suffix with
      | nil => rfl
      | cons c cs => rw [List.nil_append, dropSuffix, if_pos h]
  | cons c cs ih =>
    rw [List.forall_mem_cons] at hcs
    rw [List.cons_append, dropSuffix, not_isSuffix_cons hcs.1, if_neg (by simp), ih hcs.2]

theorem dropCasts_of_head {cs : List Char} (h : cs.head? ≠ some '(') (n : ℕ) :
    dropCasts n cs = cs := by
  have hcast : dropCast cs = none := by
    unfold dropCast
    split
    · simp at h
    · rfl
  cases n with
  | zero => rfl
  | succ n => rw [dropCasts, hcast]

theorem dropParens_of_head {cs : List Char} (h : cs.head? ≠ some '(') : dropParens cs = cs := by
  simp [dropParens, h]

theorem parseInt_of_solid {cs : List Char} (h : Solid cs) (hhead : cs.head? ≠ some '(') :
    parseInt cs =
      if isHexadecimal (strip (dropSuffix cs)) then
        some (number 16 ((strip (dropSuffix cs)).drop 2))
      else if isDecimal (strip (dropSuffix cs)) then some (number 10 (strip (dropSuffix cs)))
      else none := by
  rw [parseInt, strip_of_solid h, if_neg h.ne_nil, dropCasts_of_head hhead,
    dropParens_of_head hhead]

theorem toNat_of_isDigit {c : Char} (h : isDigit c = true) : c.toNat ∉ [76, 85, 108, 117] := by
  rw [isDigit_iff] at h
  simp only [List.mem_cons, List.not_mem_nil, or_false]
  omega

theorem toNat_of_isDecimal {cs : List Char} (h : isDecimal cs = true) :
    ∀ c ∈ cs, c.toNat ∉ [76, 85, 108, 117] := by
  simp only [isDecimal, Bool.and_eq_true, List.all_eq_true] at h
  exact fun c hc => toNat_of_isDigit (h.2 c hc)

theorem toNat_of_isHexadecimal {cs : List Char} (h : isHexadecimal cs = true) :
    ∀ c ∈ cs, c.toNat ∉ [76, 85, 108, 117] := by
  unfold isHexadecimal at h
  split at h
  · next x digits =>
    simp only [Bool.and_eq_true, Bool.or_eq_true, beq_iff_eq, List.all_eq_true] at h
    refine List.forall_mem_cons.mpr ⟨by decide, List.forall_mem_cons.mpr ⟨?_, fun c hc => ?_⟩⟩
    · rcases h.1.1 with rfl | rfl <;> decide
    · have hhex := isHexDigit_iff.mp (h.2 c hc)
      simp only [List.mem_cons, List.not_mem_nil, or_false]
      omega
  · simp at h

namespace Digits
variable {ds : Digits}

theorem Wf.digit_of_octal {digits : List Char} (h : (octal digits).Wf) :
    ∀ c ∈ digits, isDigit c = true := by
  intro c hc
  have hoct := h c hc
  simp only [le_iff_toNat_le, Char.reduceToNat] at hoct
  rw [isDigit_iff]
  omega

/-- The two patterns of a number, and what they are read as. -/
theorem Wf.read (h : ds.Wf) :
    (isHexadecimal ds.text = true ∧ number 16 (ds.text.drop 2) = ds.misread.value) ∨
      (isHexadecimal ds.text = false ∧ isDecimal ds.text = true ∧
        number 10 ds.text = ds.misread.value) := by
  cases ds with
  | decimal digits =>
    refine Or.inr ⟨?_, h.1, rfl⟩
    rw [text]
    unfold isHexadecimal
    split
    · simp [Wf] at h
    · rfl
  | octal digits =>
    refine Or.inr ⟨?_, ?_, rfl⟩
    · cases digits with
      | nil => rfl
      | cons x digits =>
        have hx := isDigit_iff.mp (h.digit_of_octal x List.mem_cons_self)
        have hne : x ≠ 'x' ∧ x ≠ 'X' := by
          constructor <;> rintro rfl <;> simp at hx
        simp [text, isHexadecimal, hne]
    · rw [text, isDecimal, List.all_cons, List.all_eq_true.mpr h.digit_of_octal]
      rfl
  | hexadecimal x digits =>
    obtain ⟨hx, hne, hdigits⟩ := h
    refine Or.inl ⟨?_, rfl⟩
    rcases hx with rfl | rfl <;> simp [text, isHexadecimal, hne, hdigits, -List.all_eq_true]

theorem Wf.toNat_text (h : ds.Wf) : ∀ c ∈ ds.text, c.toNat ∉ [76, 85, 108, 117] := by
  rcases h.read with ⟨hhex, -⟩ | ⟨-, hdec, -⟩
  · exact toNat_of_isHexadecimal hhex
  · exact toNat_of_isDecimal hdec

end Digits

/-- A number is read without its suffix, and an octal one as a decimal one. -/
theorem Literal.Wf.parseInt_text {l : Literal} (h : l.Wf) :
    parseInt l.text = some l.digits.misread.value := by
  have hsolid := solid_of_isIdentChar h.text_ne_nil h.isIdentChar
  have hdigits : Solid l.digits.text := by
    obtain ⟨c, cs, htext, -⟩ := h.digits.head
    exact solid_of_isIdentChar (by simp [htext]) h.digits.isIdentChar
  rw [parseInt_of_solid hsolid (head_ne_of_isIdentChar h.isIdentChar (by decide)), Literal.text,
    dropSuffix_append h.digits.toNat_text h.suffix, strip_of_solid hdigits]
  rcases h.digits.read with ⟨hhex, hvalue⟩ | ⟨hhex, hdec, hvalue⟩
  · rw [if_pos hhex, hvalue]
  · rw [hhex, if_neg (by simp), if_pos hdec, hvalue]

theorem isIdentChar_of_isHexadecimal {cs : List Char} (h : isHexadecimal cs = true) :
    ∀ c ∈ cs, isIdentChar c = true := by
  unfold isHexadecimal at h
  split at h
  · next x digits =>
    simp only [Bool.and_eq_true, Bool.or_eq_true, beq_iff_eq, List.all_eq_true] at h
    refine List.forall_mem_cons.mpr ⟨by decide, List.forall_mem_cons.mpr ⟨?_, fun c hc => ?_⟩⟩
    · rcases h.1.1 with rfl | rfl <;> decide
    · exact isIdentChar_of_isHexDigit (h.2 c hc)
  · simp at h

theorem isIdentChar_of_isDecimal {cs : List Char} (h : isDecimal cs = true) :
    ∀ c ∈ cs, isIdentChar c = true := by
  simp only [isDecimal, Bool.and_eq_true, List.all_eq_true] at h
  exact fun c hc => isIdentChar_of_isDigit (h.2 c hc)

theorem strip_cons {c : Char} (hc : isSpace c = false) (cs : List Char) :
    ∃ cs', strip (c :: cs) = c :: cs' := by
  have hlast : lstrip [c] = [c] := by simp [lstrip, hc]
  have hfirst : lstrip (c :: cs) = c :: cs := by simp [lstrip, hc]
  rw [strip, hfirst, List.reverse_cons, lstrip, List.dropWhile_append]
  split
  · exact ⟨[], by rw [← lstrip, hlast]; rfl⟩
  · exact ⟨_, by rw [List.reverse_append]; rfl⟩

theorem parseInt_of_head {c : Char} {cs : List Char} (h : Solid (c :: cs)) (hopen : c ≠ '(')
    (hdigit : isDigit c = false) : parseInt (c :: cs) = none := by
  have hspace : isSpace c = false := h.head c rfl
  have hno {cs' : List Char} : isHexadecimal (c :: cs') = false ∧ isDecimal (c :: cs') = false := by
    constructor
    · unfold isHexadecimal
      split
      · next heq =>
        obtain rfl := (List.cons.inj heq).1
        simp [isDigit] at hdigit
      · rfl
    · simp [isDecimal, hdigit]
  rw [parseInt_of_solid h (by simpa using hopen), dropSuffix]
  split
  · rfl
  · obtain ⟨cs', hcs'⟩ := strip_cons hspace (dropSuffix cs)
    rw [hcs', hno.1, hno.2, if_neg (by simp), if_neg (by simp)]

def Operator (c : Char) : Prop := c = '|' ∨ c = '&' ∨ c = '=' ∨ c = '!'

theorem mem_dropWhile {p : Char → Bool} {c : Char} {cs : List Char} (hc : p c = false)
    (hmem : c ∈ cs) : c ∈ cs.dropWhile p := by
  rw [← List.takeWhile_append_dropWhile (p := p) (l := cs), List.mem_append] at hmem
  rcases hmem with htake | hdrop
  · rw [List.mem_takeWhile_imp htake] at hc
    simp at hc
  · exact hdrop

theorem mem_strip {c : Char} {cs : List Char} (hc : isSpace c = false) (hmem : c ∈ cs) :
    c ∈ strip cs :=
  List.mem_reverse.mpr (mem_dropWhile hc (List.mem_reverse.mpr (mem_dropWhile hc hmem)))

theorem mem_inside {c : Char} {cs : List Char} (hopen : c ≠ '(') (hclose : c ≠ ')')
    (hhead : cs.head? = some '(') (hlast : cs.getLast? = some ')') (hmem : c ∈ cs) :
    c ∈ inside cs := by
  cases cs with
  | nil => simp at hmem
  | cons b t =>
    obtain rfl := Option.some.inj hhead
    have ht : c ∈ t := (List.mem_cons.mp hmem).resolve_left hopen
    have hlast' : ')' ∈ t.getLast? := by
      rwa [List.getLast?_cons_of_ne_nil (List.ne_nil_of_mem ht)] at hlast
    rw [← List.dropLast_append_getLast? _ hlast', List.mem_append] at ht
    exact ht.resolve_right (by simpa using hclose)

theorem mem_dropSuffix {c : Char} {cs : List Char} (hc : c.toNat ∉ [76, 85, 108, 117])
    (hmem : c ∈ cs) : c ∈ dropSuffix cs := by
  induction cs with
  | nil => exact hmem
  | cons b cs ih =>
    rw [dropSuffix]
    split
    · next hsuffix => exact absurd (toNat_of_isSuffix hsuffix c hmem) hc
    · rcases List.mem_cons.mp hmem with rfl | hmem
      · exact List.mem_cons_self
      · exact List.mem_cons_of_mem b (ih hmem)

namespace Operator
variable {c : Char} {cs : List Char}

theorem other (h : Operator c) : isSpace c = false ∧ isIdentChar c = false ∧ c ≠ '(' ∧ c ≠ ')' ∧
    c ≠ '*' ∧ c.toNat ∉ [76, 85, 108, 117] := by
  rcases h with rfl | rfl | rfl | rfl <;> decide

theorem notMem_ident (h : Operator c) (hcs : ∀ b ∈ cs, isIdentChar b = true) : c ∉ cs := by
  intro hmem
  have hident := hcs c hmem
  rw [h.other.2.1] at hident
  simp at hident

theorem notMem_spaces (h : Operator c) (hcs : Spaces cs) : c ∉ cs := by
  intro hmem
  have hspace := hcs c hmem
  rw [h.other.1] at hspace
  simp at hspace

theorem mem_dropCast (h : Operator c) {updated : List Char} (hcast : dropCast cs = some updated)
    (hmem : c ∈ cs) : c ∈ updated := by
  obtain ⟨hspace, hident, hopen, hclose, hstar, -⟩ := h.other
  unfold dropCast at hcast
  split at hcast
  · next rest =>
    have hrest : c ∈ lstrip rest :=
      mem_dropWhile hspace ((List.mem_cons.mp hmem).resolve_left hopen)
    split at hcast
    · next b cs' heq =>
      split at hcast
      · next hb =>
        rw [heq] at hrest
        have hne : c ≠ b := by
          rintro rfl
          rw [isIdentChar_of_isIdentStart hb] at hident
          simp at hident
        have hdrop := mem_dropWhile (p := fun c => isIdentChar c || isSpace c || c == '*')
          (by simp [hident, hspace, hstar]) ((List.mem_cons.mp hrest).resolve_left hne)
        split at hcast
        · next after hafter =>
          obtain rfl := Option.some.inj hcast
          rw [hafter] at hdrop
          exact mem_dropWhile hspace ((List.mem_cons.mp hdrop).resolve_left hclose)
        · simp at hcast
      · simp at hcast
    · simp at hcast
  · simp at hcast

theorem mem_dropCasts (h : Operator c) (hmem : c ∈ cs) (n : ℕ) : c ∈ dropCasts n cs := by
  induction n generalizing cs with
  | zero => exact hmem
  | succ n ih =>
    rw [dropCasts]
    split
    · next updated hcast => exact ih (mem_strip h.other.1 (h.mem_dropCast hcast hmem))
    · exact hmem

theorem mem_dropParens (h : Operator c) (hmem : c ∈ cs) : c ∈ dropParens cs := by
  obtain ⟨hspace, -, hopen, hclose, -, -⟩ := h.other
  rw [dropParens]
  split
  · next hparens =>
    simp only [Bool.and_eq_true, beq_iff_eq] at hparens
    split
    · exact hmem
    · exact mem_strip hspace (mem_inside hopen hclose hparens.1 hparens.2 hmem)
  · exact hmem

theorem parseInt_eq_none (h : Operator c) (hmem : c ∈ cs) : parseInt cs = none := by
  obtain ⟨hspace, -, -, -, -, hletter⟩ := h.other
  simp only [parseInt]
  split
  · rfl
  · have hvalue := mem_strip hspace (mem_dropSuffix hletter (h.mem_dropParens
      (h.mem_dropCasts (mem_strip hspace hmem) (strip cs).length)))
    split
    · next hhex => exact absurd hvalue (h.notMem_ident (isIdentChar_of_isHexadecimal hhex))
    · split
      · next hdec => exact absurd hvalue (h.notMem_ident (isIdentChar_of_isDecimal hdec))
      · rfl

end Operator

theorem matchDefined_eq_some {text name : List Char} (h : matchDefined text = some name) :
    ∃ gap₁ gap₂ gap₃, Spaces gap₁ ∧ Spaces gap₂ ∧ Spaces gap₃ ∧ isIdent name ∧
      text = (Expr.definedParens gap₁ gap₂ name gap₃).text := by
  unfold matchDefined at h
  split at h
  · next rest heq =>
    obtain ⟨after, hafter, hstrip⟩ := Option.map_eq_some_iff.mp heq
    obtain ⟨kw, hkw, hkw'⟩ := List.dropPrefix?_eq_some_iff.mp hafter
    obtain ⟨gap₁, hgap₁, -, rfl⟩ := lstrip_eq_iff.mp hstrip
    obtain ⟨gap₂, hgap₂, -, hrest⟩ := lstrip_eq_iff.mp (Eq.refl (lstrip rest))
    simp only [Option.ite_none_right_eq_some, Option.some.injEq] at h
    obtain ⟨⟨hname, hend⟩, rfl⟩ := h
    obtain ⟨gap₃, hgap₃, -, hdrop⟩ := lstrip_eq_iff.mp hend
    refine ⟨gap₁, gap₂, gap₃, hgap₁, hgap₂, hgap₃, hname, ?_⟩
    rw [hkw, eq_of_beq hkw', Expr.text, ← hdrop, List.takeWhile_append_dropWhile, ← hrest]
  · simp at h

theorem matchDefined_text {gap₁ gap₂ name gap₃ : List Char}
    (h : (Expr.definedParens gap₁ gap₂ name gap₃).Wf) :
    matchDefined (Expr.definedParens gap₁ gap₂ name gap₃).text = some name := by
  obtain ⟨h₁, h₂, h₃, hname, -⟩ := h
  have hended : Ended (gap₃ ++ [')']) := h₃.ended_append (ended_cons (by decide) [])
  have hident := isIdentChar_of_isIdent hname
  have hparen : lstrip (gap₁ ++ '(' :: (gap₂ ++ (name ++ (gap₃ ++ [')'])))) =
      '(' :: (gap₂ ++ (name ++ (gap₃ ++ [')']))) :=
    lstrip_eq_iff.mpr ⟨gap₁, h₁, by simp [Flush, isSpace], rfl⟩
  have hbody : lstrip (gap₂ ++ (name ++ (gap₃ ++ [')']))) = name ++ (gap₃ ++ [')']) :=
    lstrip_eq_iff.mpr ⟨gap₂, h₂, (flush_of_isIdent hname).append (ne_nil_of_isIdent hname) _, rfl⟩
  have hclose : lstrip (gap₃ ++ [')']) = [')'] :=
    lstrip_eq_iff.mpr ⟨gap₃, h₃, by simp [Flush, isSpace], rfl⟩
  have hprefix : (Expr.definedParens gap₁ gap₂ name gap₃).text.dropPrefix?
      ['d', 'e', 'f', 'i', 'n', 'e', 'd'] =
        some (gap₁ ++ '(' :: (gap₂ ++ (name ++ (gap₃ ++ [')'])))) :=
    List.dropPrefix?_eq_some_iff.mpr ⟨_, rfl, beq_self_eq_true _⟩
  rw [matchDefined, hprefix, Option.map_some, hparen]
  simp only [hbody, takeWhile_append_of_ended hident hended,
    dropWhile_append_of_ended hident hended, hclose, hname, and_self, if_true]

theorem matchComparison_eq_some {text : List Char} {cmp : Comparison}
    (h : matchComparison text = some cmp) :
    ∃ gap₁ gap₂ c, Spaces gap₁ ∧ Spaces gap₂ ∧ (c = '=' ∨ c = '!') ∧ isIdent cmp.lhs ∧
      isToken cmp.rhs ∧ text = cmp.lhs ++ (gap₁ ++ c :: '=' :: (gap₂ ++ cmp.rhs)) := by
  unfold matchComparison at h
  split at h
  · next c rest heq =>
    simp only [Option.ite_none_right_eq_some, Option.some.injEq] at h
    obtain ⟨⟨hname, hc, htoken⟩, rfl⟩ := h
    obtain ⟨gap₁, hgap₁, -, hdrop⟩ := lstrip_eq_iff.mp heq
    obtain ⟨gap₂, hgap₂, -, hrest⟩ := lstrip_eq_iff.mp (Eq.refl (lstrip rest))
    refine ⟨gap₁, gap₂, c, hgap₁, hgap₂, hc, hname, htoken, ?_⟩
    rw [← hrest, ← hdrop, List.takeWhile_append_dropWhile]
  · simp at h

theorem matchComparison_text {name gap₁ gap₂ rhs : List Char} {c : Char}
    (hname : isIdent name = true) (h₁ : Spaces gap₁) (h₂ : Spaces gap₂) (hrhs : Flush rhs)
    (hc : c = '=' ∨ c = '!') :
    matchComparison (name ++ (gap₁ ++ c :: '=' :: (gap₂ ++ rhs))) =
      if isToken rhs then some ⟨name, c == '=', rhs⟩ else none := by
  have hother : isIdentChar c = false ∧ isSpace c = false := by
    rcases hc with rfl | rfl <;> decide
  have hended : Ended (gap₁ ++ c :: '=' :: (gap₂ ++ rhs)) :=
    h₁.ended_append (ended_cons hother.1 _)
  have hident := isIdentChar_of_isIdent hname
  have hop : lstrip (gap₁ ++ c :: '=' :: (gap₂ ++ rhs)) = c :: '=' :: (gap₂ ++ rhs) :=
    lstrip_eq_iff.mpr ⟨gap₁, h₁, by simp [Flush, hother.2], rfl⟩
  rw [matchComparison]
  simp only [takeWhile_append_of_ended hident hended, dropWhile_append_of_ended hident hended, hop,
    h₂.lstrip_append, hrhs.lstrip_eq, hname, hc, true_and]

theorem isIdentChar_of_isToken {cs : List Char} (h : isToken cs = true) :
    ∀ c ∈ cs, isIdentChar c = true := by
  simp only [isToken, Bool.or_eq_true] at h
  rcases h with (hident | hhex) | hdec
  · exact isIdentChar_of_isIdent hident
  · exact isIdentChar_of_isHexadecimal hhex
  · exact isIdentChar_of_isDecimal hdec

def marks (cs : List Char) : ℕ := cs.countP fun c => c == '=' || c == '!'

theorem marks_append (s t : List Char) : marks (s ++ t) = marks s + marks t := List.countP_append

theorem marks_of_isIdentChar {cs : List Char} (h : ∀ c ∈ cs, isIdentChar c = true) :
    marks cs = 0 := by
  refine List.countP_eq_zero.mpr fun c hc hmark => ?_
  have hident := h c hc
  simp only [Bool.or_eq_true, beq_iff_eq] at hmark
  rcases hmark with rfl | rfl <;> simp [isIdentChar_iff] at hident

theorem marks_of_spaces {cs : List Char} (h : Spaces cs) : marks cs = 0 := by
  refine List.countP_eq_zero.mpr fun c hc hmark => ?_
  have hspace := h c hc
  simp only [Bool.or_eq_true, beq_iff_eq] at hmark
  rcases hmark with rfl | rfl <;> simp [isSpace] at hspace

/-- A comparison that the pattern matches is the only one. -/
theorem marks_of_matchComparison {text : List Char} {cmp : Comparison}
    (h : matchComparison text = some cmp) : marks text = 2 := by
  obtain ⟨gap₁, gap₂, c, h₁, h₂, hc, hlhs, hrhs, rfl⟩ := matchComparison_eq_some h
  have hop : marks (c :: '=' :: (gap₂ ++ cmp.rhs)) = marks (gap₂ ++ cmp.rhs) + 2 := by
    rcases hc with rfl | rfl <;> simp [marks]
  rw [marks_append, marks_append, hop, marks_append, marks_of_spaces h₁, marks_of_spaces h₂,
    marks_of_isIdentChar (isIdentChar_of_isIdent hlhs),
    marks_of_isIdentChar (isIdentChar_of_isToken hrhs)]

namespace Expr

theorem Wf.withoutBangs {e : Expr} (h : e.Wf) :
    e.withoutBangs.2.Wf ∧ e.withoutBangs.2.level ≤ e.level ∧ e.withoutBangs.2.dropBang = none := by
  induction e with
  | not gap e ih =>
    obtain ⟨hwf, hlevel, hdrop⟩ := ih h.2.2
    exact ⟨hwf, hlevel.trans h.2.1, hdrop⟩
  | bin op l gap₁ gap₂ r ihl _ =>
    obtain ⟨h₁, h₂, hll, hrl, hl, hr⟩ := h
    obtain ⟨hwf, hlevel, hdrop⟩ := ihl hl
    exact ⟨⟨h₁, h₂, hlevel.trans hll, hrl, hwf, hr⟩, le_rfl, by
      rw [Expr.withoutBangs, dropBang, hdrop, Option.map_none]⟩
  | _ => exact ⟨h, le_rfl, rfl⟩

theorem Wf.core {e : Expr} (h : e.Wf) :
    e.core.2.Wf ∧ e.core.2.isParens = false ∧ e.core.2.dropBang = none := by
  induction e with
  | parens gap₁ e gap₂ ih => exact ih h.2.2
  | not gap e ih => exact ih h.2.2
  | bin op l gap₁ gap₂ r _ _ =>
    obtain ⟨hwf, -, hdrop⟩ := h.withoutBangs
    exact ⟨hwf, rfl, hdrop⟩
  | _ => exact ⟨h, rfl, rfl⟩

theorem exists_operator (op : Op) (l : Expr) (gap₁ gap₂ : List Char) (r : Expr) :
    ∃ c, Operator c ∧ c ∈ (bin op l gap₁ gap₂ r).text := by
  cases op with
  | or => exact ⟨'|', Or.inl rfl, by simp [text, Op.text]⟩
  | and => exact ⟨'&', Or.inr (Or.inl rfl), by simp [text, Op.text]⟩
  | eq => exact ⟨'=', Or.inr (Or.inr (Or.inl rfl)), by simp [text, Op.text]⟩
  | ne => exact ⟨'=', Or.inr (Or.inr (Or.inl rfl)), by simp [text, Op.text]⟩

theorem matchDefined_of_operator {c : Char} {cs : List Char} (hc : Operator c) (hmem : c ∈ cs) :
    matchDefined cs = none := by
  by_contra hne
  obtain ⟨name, hname⟩ := Option.ne_none_iff_exists'.mp hne
  obtain ⟨gap₁, gap₂, gap₃, h₁, h₂, h₃, hident, rfl⟩ := matchDefined_eq_some hname
  have hkw : c ∉ ['d', 'e', 'f', 'i', 'n', 'e', 'd'] := hc.notMem_ident isIdentChar_defined
  simp only [text, List.mem_append, List.mem_cons, hc.notMem_spaces h₁, hc.notMem_spaces h₂,
    hc.notMem_spaces h₃, hc.notMem_ident (isIdentChar_of_isIdent hident), false_or] at hmem hkw
  obtain ⟨-, -, hopen, hclose, -, -⟩ := hc.other
  tauto

theorem isIdent_of_operator {c : Char} {cs : List Char} (hc : Operator c) (hmem : c ∈ cs) :
    isIdent cs = false := by
  by_contra h
  exact hc.notMem_ident (isIdentChar_of_isIdent (Bool.of_not_eq_false h)) hmem

theorem matchComparison_of_logical {c : Char} {cs : List Char} (hc : c = '|' ∨ c = '&')
    (hmem : c ∈ cs) : matchComparison cs = none := by
  have hop : Operator c := hc.imp_right Or.inl
  by_contra hne
  obtain ⟨cmp, hcmp⟩ := Option.ne_none_iff_exists'.mp hne
  obtain ⟨gap₁, gap₂, b, h₁, h₂, hb, hlhs, hrhs, rfl⟩ := matchComparison_eq_some hcmp
  simp only [List.mem_append, List.mem_cons, hop.notMem_spaces h₁, hop.notMem_spaces h₂,
    hop.notMem_ident (isIdentChar_of_isIdent hlhs),
    hop.notMem_ident (isIdentChar_of_isToken hrhs), false_or, or_false] at hmem
  rcases hc with rfl | rfl <;> rcases hb with rfl | rfl <;> simp at hmem

theorem head_of_matchComparison {text : List Char} {cmp : Comparison}
    (h : matchComparison text = some cmp) : ∃ c, text.head? = some c ∧ isIdentStart c = true := by
  obtain ⟨gap₁, gap₂, c, -, -, -, hlhs, -, rfl⟩ := matchComparison_eq_some h
  rw [List.head?_append_of_ne_nil _ (ne_nil_of_isIdent hlhs)]
  cases hname : cmp.lhs with
  | nil => exact absurd hname (ne_nil_of_isIdent hlhs)
  | cons b bs =>
    rw [hname, isIdent, Bool.and_eq_true] at hlhs
    exact ⟨b, rfl, hlhs.1⟩

/-- The word `defined` is not compared with anything. -/
theorem matchComparison_of_defined {gap rest : List Char} {c : Char} (hgap : Spaces gap)
    (hended : Ended (gap ++ c :: rest)) (hspace : isSpace c = false) (hc : ¬ (c = '=' ∨ c = '!')) :
    matchComparison (['d', 'e', 'f', 'i', 'n', 'e', 'd'] ++ (gap ++ c :: rest)) = none := by
  have hrest : lstrip (gap ++ c :: rest) = c :: rest :=
    lstrip_eq_iff.mpr ⟨gap, hgap, by simpa [Flush] using hspace, rfl⟩
  rw [matchComparison]
  simp only [dropWhile_append_of_ended isIdentChar_defined hended, hrest]
  split
  · next b after heq =>
    obtain rfl := (List.cons.inj heq).1
    rw [if_neg fun h => hc h.2.1]
  · rfl

theorem le_marks_bin {op : Op} (hop : op.level = 2) (l r : Expr) (gap₁ gap₂ : List Char) :
    marks l.text + 2 ≤ marks (bin op l gap₁ gap₂ r).text := by
  have htwo : marks op.text = 2 := by
    cases op with
    | or => simp [Op.level] at hop
    | and => simp [Op.level] at hop
    | eq => rfl
    | ne => rfl
  rw [text, marks_append, marks_append, marks_append, htwo]
  omega

theorem operator_of_logical {op : Op} (hop : op.level ≠ 2) (l r : Expr)
    (gap₁ gap₂ : List Char) :
    ∃ c, (c = '|' ∨ c = '&') ∧ c ∈ (bin op l gap₁ gap₂ r).text := by
  cases op with
  | or => exact ⟨'|', Or.inl rfl, by simp [text, Op.text]⟩
  | and => exact ⟨'&', Or.inr rfl, by simp [text, Op.text]⟩
  | eq => simp [Op.level] at hop
  | ne => simp [Op.level] at hop

theorem Wf.matchComparison_none {op : Op} {l r : Expr} {gap₁ gap₂ : List Char}
    (h : (bin op l gap₁ gap₂ r).Wf) (hdrop : l.dropBang = none)
    (hl : ∀ name, l ≠ ident name) : matchComparison (bin op l gap₁ gap₂ r).text = none := by
  by_cases hop : op.level = 2
  swap
  · obtain ⟨c, hc, hmem⟩ := operator_of_logical hop l r gap₁ gap₂
    exact matchComparison_of_logical hc hmem
  have hhead {c : Char} (hc : (bin op l gap₁ gap₂ r).text.head? = some c)
      (hstart : isIdentStart c = false) : matchComparison (bin op l gap₁ gap₂ r).text = none := by
    by_contra hne
    obtain ⟨cmp, hcmp⟩ := Option.ne_none_iff_exists'.mp hne
    obtain ⟨b, hb, hident⟩ := head_of_matchComparison hcmp
    rw [hc, Option.some.injEq] at hb
    rw [hb, hident] at hstart
    simp at hstart
  obtain ⟨hgap₁, hgap₂, hll, hrl, hlwf, hr⟩ := h
  cases l with
  | ident name => exact absurd rfl (hl name)
  | int literal =>
    obtain ⟨c, cs, htext, hdigit⟩ := hlwf.digits.head
    refine hhead (c := c) (by simp [text, Literal.text, htext]) ?_
    by_contra hstart
    rw [Bool.not_eq_false, isIdentStart_iff] at hstart
    rw [isDigit_iff] at hdigit
    omega
  | defined gap name =>
    obtain ⟨hne, hgap, hname, -⟩ := hlwf
    have hident := isIdentChar_of_isIdent hname
    obtain ⟨b, bs, rfl⟩ := List.exists_cons_of_ne_nil hne
    obtain ⟨c, cs, rfl⟩ := List.exists_cons_of_ne_nil (ne_nil_of_isIdent hname)
    have hended (rest : List Char) : Ended ((b :: bs) ++ rest) :=
      ended_cons (isIdentChar_eq_false_of_isSpace (hgap b List.mem_cons_self)) _
    have hc : ¬ (c = '=' ∨ c = '!') := by
      have hfirst := hident c List.mem_cons_self
      rintro (rfl | rfl) <;> simp [isIdentChar_iff] at hfirst
    have hnone (rest : List Char) := matchComparison_of_defined hgap
      (hended (c :: (cs ++ rest))) (flush_of_isIdent hname c rfl) hc
    simpa [text] using hnone (gap₁ ++ (op.text ++ (gap₂ ++ r.text)))
  | definedParens g₁ g₂ name g₃ =>
    have hnone (rest : List Char) := matchComparison_of_defined (c := '(') hlwf.1
      (hlwf.1.ended_append (ended_cons (by decide) rest)) (by decide) (by decide)
    simpa [text] using hnone (g₂ ++ (name ++ (g₃ ++ ')' ::
      (gap₁ ++ (op.text ++ (gap₂ ++ r.text))))))
  | parens g₁ e g₂ => exact hhead (c := '(') rfl (by decide)
  | not gap e => simp [dropBang] at hdrop
  | bin op' l' g₁ g₂ r' =>
    have hop' : op'.level = 2 := by
      rw [hop] at hll
      cases op' <;> simp [level, Op.level] at hll ⊢
    by_contra hne
    obtain ⟨cmp, hcmp⟩ := Option.ne_none_iff_exists'.mp hne
    have hmarks := marks_of_matchComparison hcmp
    have h₁ := le_marks_bin hop (bin op' l' g₁ g₂ r') r gap₁ gap₂
    have h₂ := le_marks_bin hop' l' r' g₁ g₂
    omega

theorem Name.parseInt {name : List Char} (h : Name name) : parseInt name = none := by
  have hident := isIdentChar_of_isIdent h.1
  cases name with
  | nil => rfl
  | cons c cs =>
    have hstart := h.1
    rw [isIdent, Bool.and_eq_true, isIdentStart_iff] at hstart
    refine parseInt_of_head (solid_of_isIdentChar (by simp) hident) ?_ ?_
    · rintro rfl
      simp at hstart
    · by_contra hdigit
      rw [Bool.not_eq_false, isDigit_iff] at hdigit
      omega

theorem isToken_of_notMem {c : Char} {cs : List Char} (hc : isIdentChar c = false) (hmem : c ∈ cs) :
    isToken cs = false := by
  by_contra h
  rw [isIdentChar_of_isToken (Bool.of_not_eq_false h) c hmem] at hc
  simp at hc

theorem isIdent_of_digit {c : Char} {cs : List Char} (h : isDigit c = true) :
    isIdent (c :: cs) = false := by
  by_contra hident
  rw [Bool.not_eq_false, isIdent, Bool.and_eq_true, isIdentStart_iff] at hident
  rw [isDigit_iff] at h
  omega

theorem isToken_literal {l : Literal} (h : l.Wf) : isToken l.text = decide (l.suffix = []) := by
  rcases h.suffix with hnil | hsuffix
  · rw [Literal.text, hnil, List.append_nil, isToken]
    rcases h.digits.read with ⟨hhex, -⟩ | ⟨-, hdec, -⟩
    · simp [hhex]
    · simp [hdec]
  · have hne : l.suffix ≠ [] := by
      intro hnil
      rw [hnil] at hsuffix
      simp [isSuffix, suffixes] at hsuffix
    obtain ⟨c, cs, hc⟩ := List.exists_cons_of_ne_nil hne
    have hletter := toNat_of_isSuffix hsuffix c (by simp [hc])
    have hmem : c ∈ l.text := by simp [Literal.text, hc]
    obtain ⟨b, bs, hb, hdigit⟩ := h.digits.head
    have hident : isIdent l.text = false := by
      rw [Literal.text, hb]
      exact isIdent_of_digit hdigit
    have hhex : isHexadecimal l.text = false := by
      by_contra hhex
      exact toNat_of_isHexadecimal (Bool.of_not_eq_false hhex) c hmem hletter
    have hdec : isDecimal l.text = false := by
      by_contra hdec
      exact toNat_of_isDecimal (Bool.of_not_eq_false hdec) c hmem hletter
    simp [isToken, hident, hhex, hdec, hne]

theorem Wf.isToken_text {r : Expr} (h : r.Wf) (hlevel : r.level < 2) :
    isToken r.text = r.comparand.isSome := by
  cases r with
  | ident name => simp [text, comparand, isToken, h.1]
  | int literal =>
    rw [text, isToken_literal h, comparand]
    split <;> simp [*]
  | defined gap name =>
    obtain ⟨hne, hgap, -⟩ := h
    obtain ⟨b, bs, rfl⟩ := List.exists_cons_of_ne_nil hne
    exact isToken_of_notMem (isIdentChar_eq_false_of_isSpace (hgap b List.mem_cons_self))
      (by simp [text])
  | definedParens gap₁ gap₂ name gap₃ =>
    exact isToken_of_notMem (c := '(') (by decide) (by simp [text])
  | parens gap₁ e gap₂ => exact isToken_of_notMem (c := '(') (by decide) (by simp [text])
  | not gap e => exact isToken_of_notMem (c := '!') (by decide) (by simp [text])
  | bin op l gap₁ gap₂ r => cases op <;> simp [level, Op.level] at hlevel

theorem Wf.value_comparand (d : Definitions) {r r' : Expr} (h : r.Wf)
    (hr : r.comparand = some r') :
    (parseInt r.text).getD ((d.numeric r.text).getD 0) = r'.value d := by
  cases r with
  | ident name =>
    obtain rfl := Option.some.inj hr
    rw [text, Name.parseInt h]
    rfl
  | int literal =>
    simp only [comparand, Option.ite_none_right_eq_some, Option.some.injEq] at hr
    obtain ⟨-, rfl⟩ := hr
    rw [text, h.parseInt_text]
    rfl
  | _ => simp [comparand] at hr

theorem matchDefined_of_notMem {cs : List Char} (h : '(' ∉ cs) : matchDefined cs = none := by
  by_contra hne
  obtain ⟨name, hname⟩ := Option.ne_none_iff_exists'.mp hne
  obtain ⟨gap₁, gap₂, gap₃, -, -, -, -, rfl⟩ := matchDefined_eq_some hname
  simp [text] at h

theorem matchComparison_of_isIdentChar {cs : List Char} (h : ∀ c ∈ cs, isIdentChar c = true) :
    matchComparison cs = none := by
  by_contra hne
  obtain ⟨cmp, hcmp⟩ := Option.ne_none_iff_exists'.mp hne
  have hmarks := marks_of_matchComparison hcmp
  rw [marks_of_isIdentChar h] at hmarks
  simp at hmarks

theorem open_notMem {cs : List Char} (h : ∀ c ∈ cs, isIdentChar c = true) : '(' ∉ cs := by
  intro hmem
  have hident := h '(' hmem
  simp [isIdentChar_iff] at hident

theorem truth_zero (d : Definitions) : zero.truth d = false := rfl

theorem matched_of_none (d : Definitions) {text : List Char} (hdefined : matchDefined text = none)
    (hcmp : matchComparison text = none) (hint : parseInt text = none)
    (hident : isIdent text = false) : matched d text = zero.truth d := by
  rw [matched, hdefined, hcmp, hint, hident, truth_zero]
  rfl

theorem Wf.matched_defined (d : Definitions) {gap name : List Char} (h : (defined gap name).Wf) :
    matched d (defined gap name).text = zero.truth d := by
  have hsolid := h.solid
  obtain ⟨hne, hgap, hname, -⟩ := h
  have hident := isIdentChar_of_isIdent hname
  obtain ⟨b, bs, rfl⟩ := List.exists_cons_of_ne_nil hne
  obtain ⟨c, cs, rfl⟩ := List.exists_cons_of_ne_nil (ne_nil_of_isIdent hname)
  have hb : isIdentChar b = false := isIdentChar_eq_false_of_isSpace (hgap b List.mem_cons_self)
  apply matched_of_none d
  · apply matchDefined_of_notMem
    have hopen : '(' ∉ b :: bs := by
      intro hmem
      have hspace := hgap '(' hmem
      simp [isSpace] at hspace
    rw [text, List.mem_append, List.mem_append]
    exact not_or.mpr ⟨by decide, not_or.mpr ⟨hopen, open_notMem hident⟩⟩
  · have hc : ¬ (c = '=' ∨ c = '!') := by
      have hfirst := hident c List.mem_cons_self
      rintro (rfl | rfl) <;> simp [isIdentChar_iff] at hfirst
    exact matchComparison_of_defined hgap (ended_cons hb _) (flush_of_isIdent hname c rfl) hc
  · exact parseInt_of_head hsolid (by decide) (by decide)
  · by_contra htext
    rw [isIdentChar_of_isIdent (Bool.of_not_eq_false htext) b (by simp [text])] at hb
    simp at hb

theorem matched_bin_of_none (d : Definitions) {op : Op} {l r : Expr} {gap₁ gap₂ : List Char}
    (hcmp : matchComparison (bin op l gap₁ gap₂ r).text = none) :
    matched d (bin op l gap₁ gap₂ r).text = zero.truth d := by
  obtain ⟨c, hc, hmem⟩ := exists_operator op l gap₁ gap₂ r
  exact matched_of_none d (matchDefined_of_operator hc hmem) hcmp (hc.parseInt_eq_none hmem)
    (isIdent_of_operator hc hmem)

theorem Wf.matched_comparison (d : Definitions) {op : Op} {name gap₁ gap₂ : List Char} {r : Expr}
    (h : (bin op (ident name) gap₁ gap₂ r).Wf) (hop : op.level = 2) :
    matched d (bin op (ident name) gap₁ gap₂ r).text =
      ((bin op (ident name) gap₁ gap₂ r).covered).truth d := by
  obtain ⟨h₁, h₂, -, hrl, hname, hr⟩ := h
  have hcmp : matchComparison (bin op (ident name) gap₁ gap₂ r).text =
      if isToken r.text then some ⟨name, op == .eq, r.text⟩ else none := by
    cases op with
    | or => simp [Op.level] at hop
    | and => simp [Op.level] at hop
    | eq => exact matchComparison_text hname.1 h₁ h₂ hr.solid.head (Or.inl rfl)
    | ne => exact matchComparison_text hname.1 h₁ h₂ hr.solid.head (Or.inr rfl)
  rw [hr.isToken_text (hop ▸ hrl)] at hcmp
  cases hcomparand : r.comparand with
  | none =>
    rw [hcomparand] at hcmp
    rw [matched_bin_of_none d hcmp, covered, hcomparand]
  | some r' =>
    rw [hcomparand, Option.isSome_some, if_pos rfl] at hcmp
    obtain ⟨c, hc, hmem⟩ := exists_operator op (ident name) gap₁ gap₂ r
    have hrhs := hr.value_comparand d hcomparand
    simp only [matched, matchDefined_of_operator hc hmem, hcmp, hrhs, covered, hcomparand, hop,
      if_true, truth, value]
    cases op with
    | or => simp [Op.level] at hop
    | and => simp [Op.level] at hop
    | eq => cases hv : (d.numeric name).getD 0 == r'.value d <;> simp [Op.apply, hv]
    | ne => cases hv : (d.numeric name).getD 0 != r'.value d <;> simp [Op.apply, hv]

/-- The patterns make of an operand what they cover of it. -/
theorem Wf.matched_covered (d : Definitions) {e : Expr} (h : e.Wf) (hparens : e.isParens = false)
    (hdrop : e.dropBang = none) : matched d e.text = e.covered.truth d := by
  cases e with
  | ident name =>
    have hident := isIdentChar_of_isIdent h.1
    rw [text, matched, matchDefined_of_notMem (open_notMem hident),
      matchComparison_of_isIdentChar hident, Name.parseInt h, h.1]
    rfl
  | int literal =>
    rw [text, matched, matchDefined_of_notMem (open_notMem h.isIdentChar),
      matchComparison_of_isIdentChar h.isIdentChar, h.parseInt_text]
    rfl
  | defined gap name => exact h.matched_defined d
  | definedParens gap₁ gap₂ name gap₃ =>
    simp only [matched, matchDefined_text h, covered, truth, value]
    cases d.defined name <;> rfl
  | parens gap₁ e gap₂ => simp [isParens] at hparens
  | not gap e => simp [dropBang] at hdrop
  | bin op l gap₁ gap₂ r =>
    rw [dropBang, Option.map_eq_none_iff] at hdrop
    by_cases hname : ∃ name, l = ident name
    · obtain ⟨name, rfl⟩ := hname
      by_cases hop : op.level = 2
      · exact h.matched_comparison d hop
      · obtain ⟨c, hc, hmem⟩ := operator_of_logical hop (ident name) r gap₁ gap₂
        rw [matched_bin_of_none d (matchComparison_of_logical hc hmem), covered]
        cases r.comparand with
        | none => rfl
        | some r' => simp only [if_neg hop]
    · rw [not_exists] at hname
      rw [matched_bin_of_none d (h.matchComparison_none hdrop hname)]
      cases l with
      | ident name => exact absurd rfl (hname name)
      | _ => rfl

end Expr

end UniHal.ClockMap.Conditions
