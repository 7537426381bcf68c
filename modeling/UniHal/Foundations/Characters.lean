import Mathlib.Data.List.TakeWhile
import Mathlib.Tactic

/-! # White space and identifiers in a text -/

namespace UniHal.Foundations.Characters

def isSpace (c : Char) : Bool :=
  let n := c.toNat
  (9 ≤ n ∧ n ≤ 13) ∨ (28 ≤ n ∧ n ≤ 32) ∨ n = 0x85 ∨ n = 0xA0 ∨ n = 0x1680 ∨
    (0x2000 ≤ n ∧ n ≤ 0x200A) ∨ n = 0x2028 ∨ n = 0x2029 ∨ n = 0x202F ∨ n = 0x205F ∨ n = 0x3000

def isIdentStart (c : Char) : Bool := c.isAlpha || c == '_'

def isIdentChar (c : Char) : Bool := c.isAlphanum || c == '_'

def isIdent : List Char → Bool
  | [] => false
  | c :: cs => isIdentStart c && cs.all isIdentChar

def lstrip (cs : List Char) : List Char := cs.dropWhile isSpace

def strip (cs : List Char) : List Char := (lstrip (lstrip cs).reverse).reverse

def Spaces (cs : List Char) : Prop := ∀ c ∈ cs, isSpace c = true

def Flush (cs : List Char) : Prop := ∀ c ∈ cs.head?, isSpace c = false

theorem isIdentChar_of_isIdentStart {c : Char} (h : isIdentStart c = true) :
    isIdentChar c = true := by
  simp only [isIdentStart, isIdentChar, Char.isAlphanum, Bool.or_eq_true] at h ⊢
  tauto

theorem le_iff_toNat_le {c c' : Char} : c ≤ c' ↔ c.toNat ≤ c'.toNat := by
  rw [Char.le_def, UInt32.le_iff_toNat_le, Char.toNat_val, Char.toNat_val]

theorem isAlpha_iff {c : Char} :
    c.isAlpha = true ↔ (65 ≤ c.toNat ∧ c.toNat ≤ 90) ∨ (97 ≤ c.toNat ∧ c.toNat ≤ 122) := by
  have hdef : c.isAlpha = (decide ('A'.val ≤ c.val ∧ c.val ≤ 'Z'.val) ||
      (decide ('a'.val ≤ c.val) && decide (c.val ≤ 'z'.val))) := rfl
  rw [hdef, Bool.or_eq_true, Bool.and_eq_true, decide_eq_true_iff, decide_eq_true_iff,
    decide_eq_true_iff, UInt32.le_iff_toNat_le, UInt32.le_iff_toNat_le, UInt32.le_iff_toNat_le,
    UInt32.le_iff_toNat_le]
  rfl

theorem isIdentStart_iff {c : Char} :
    isIdentStart c = true ↔ (65 ≤ c.toNat ∧ c.toNat ≤ 90) ∨ (97 ≤ c.toNat ∧ c.toNat ≤ 122) ∨
      c.toNat = 95 := by
  have hunderscore : c = '_' ↔ c.toNat = 95 := Char.toNat_inj.symm
  rw [isIdentStart, Bool.or_eq_true, beq_iff_eq, isAlpha_iff, hunderscore, or_assoc]

theorem isIdentChar_iff {c : Char} :
    isIdentChar c = true ↔ (48 ≤ c.toNat ∧ c.toNat ≤ 57) ∨ (65 ≤ c.toNat ∧ c.toNat ≤ 90) ∨
      (97 ≤ c.toNat ∧ c.toNat ≤ 122) ∨ c.toNat = 95 := by
  have hunderscore : c = '_' ↔ c.toNat = 95 := Char.toNat_inj.symm
  have hdigit : c.isDigit = true ↔ 48 ≤ c.toNat ∧ c.toNat ≤ 57 := by
    simp only [Char.isDigit, Bool.and_eq_true, decide_eq_true_eq, ge_iff_le,
      UInt32.le_iff_toNat_le, Char.toNat_val]
    rfl
  rw [isIdentChar, Char.isAlphanum, Bool.or_eq_true, Bool.or_eq_true, beq_iff_eq, isAlpha_iff,
    hdigit, hunderscore]
  tauto

theorem toNat_toLower (c : Char) :
    c.toLower.toNat = if 65 ≤ c.toNat ∧ c.toNat ≤ 90 then c.toNat + 32 else c.toNat := by
  have hiff : (c.val ≥ 'A'.val ∧ c.val ≤ 'Z'.val) ↔ 65 ≤ c.toNat ∧ c.toNat ≤ 90 := by
    rw [ge_iff_le, UInt32.le_iff_toNat_le, UInt32.le_iff_toNat_le]
    rfl
  unfold Char.toLower
  split
  · next h =>
    rw [if_pos (hiff.mp h)]
    have := (hiff.mp h).2
    show (c.val + ('a'.val - 'A'.val)).toNat = c.toNat + 32
    rw [UInt32.toNat_add, Char.toNat_val]
    exact Nat.mod_eq_of_lt (by simp; omega)
  · next h => rw [if_neg (mt hiff.mpr h)]

theorem isSpace_eq_false_of_isIdentChar {c : Char} (h : isIdentChar c = true) :
    isSpace c = false := by
  have hc := isIdentChar_iff.mp h
  simp only [isSpace, decide_eq_false_iff_not]
  omega

theorem flush_of_isIdent {cs : List Char} (h : isIdent cs = true) : Flush cs := by
  cases cs with
  | nil => simp [isIdent] at h
  | cons c cs =>
    simp only [isIdent, Bool.and_eq_true] at h
    intro b hb
    rw [List.head?_cons, Option.mem_some_iff] at hb
    exact hb ▸ isSpace_eq_false_of_isIdentChar (isIdentChar_of_isIdentStart h.1)

theorem isIdentChar_of_isIdent {name : List Char} (h : isIdent name = true) :
    ∀ c ∈ name, isIdentChar c = true := by
  cases name with
  | nil => simp
  | cons c cs =>
    simp only [isIdent, Bool.and_eq_true, List.all_eq_true] at h
    exact List.forall_mem_cons.mpr ⟨isIdentChar_of_isIdentStart h.1, h.2⟩

theorem ne_nil_of_isIdent {name : List Char} (h : isIdent name = true) : name ≠ [] := by
  rintro rfl
  simp [isIdent] at h

theorem head_ne_of_isIdentChar {cs : List Char} (h : ∀ c ∈ cs, isIdentChar c = true) {c : Char}
    (hc : isIdentChar c = false) : cs.head? ≠ some c := by
  intro hhead
  rw [h c (List.mem_of_mem_head? hhead)] at hc
  simp at hc

theorem isIdentChar_eq_false_of_isSpace {c : Char} (h : isSpace c = true) :
    isIdentChar c = false := by
  by_contra hc
  rw [isSpace_eq_false_of_isIdentChar (Bool.of_not_eq_false hc)] at h
  simp at h

def Ended (cs : List Char) : Prop := ∀ c ∈ cs.head?, isIdentChar c = false

theorem ended_cons {c : Char} (h : isIdentChar c = false) (cs : List Char) : Ended (c :: cs) := by
  intro b hb
  obtain rfl := Option.some.inj hb
  exact h

theorem Spaces.ended_append {gap rest : List Char} (h : Spaces gap) (hrest : Ended rest) :
    Ended (gap ++ rest) := by
  cases gap with
  | nil => exact hrest
  | cons c gap => exact ended_cons (isIdentChar_eq_false_of_isSpace (h c List.mem_cons_self)) _

theorem takeWhile_append_of_ended {xs ys : List Char} (hxs : ∀ c ∈ xs, isIdentChar c = true)
    (hys : Ended ys) : (xs ++ ys).takeWhile isIdentChar = xs := by
  rw [List.takeWhile_append_of_pos hxs]
  cases ys with
  | nil => simp
  | cons c ys => rw [List.takeWhile_cons_of_neg (by simp [hys c rfl]), List.append_nil]

theorem dropWhile_append_of_ended {xs ys : List Char} (hxs : ∀ c ∈ xs, isIdentChar c = true)
    (hys : Ended ys) : (xs ++ ys).dropWhile isIdentChar = ys := by
  rw [List.dropWhile_append_of_pos hxs]
  cases ys with
  | nil => rfl
  | cons c ys => rw [List.dropWhile_cons_of_neg (by simp [hys c rfl])]

theorem spaces_takeWhile (cs : List Char) : Spaces (cs.takeWhile isSpace) :=
  fun _ hc => List.mem_takeWhile_imp hc

theorem flush_lstrip (cs : List Char) : Flush (lstrip cs) := by
  intro c hc
  have h := List.head?_dropWhile_not isSpace cs
  rw [lstrip, Option.mem_def] at hc
  rwa [hc] at h

theorem Flush.lstrip_eq {cs : List Char} (h : Flush cs) : lstrip cs = cs := by
  cases cs with
  | nil => rfl
  | cons c cs =>
    have hc : isSpace c = false := h c rfl
    rw [lstrip, List.dropWhile_cons_of_neg (by simp [hc])]

theorem Spaces.lstrip_append {gap : List Char} (h : Spaces gap) (cs : List Char) :
    lstrip (gap ++ cs) = lstrip cs :=
  List.dropWhile_append_of_pos h

theorem lstrip_eq_iff {cs text : List Char} :
    lstrip cs = text ↔ ∃ gap, Spaces gap ∧ Flush text ∧ cs = gap ++ text := by
  constructor
  · rintro rfl
    exact ⟨cs.takeWhile isSpace, spaces_takeWhile cs, flush_lstrip cs,
      List.takeWhile_append_dropWhile.symm⟩
  · rintro ⟨gap, hgap, htext, rfl⟩
    rw [hgap.lstrip_append, htext.lstrip_eq]

/-- A text that neither begins nor ends with white space. -/
structure Solid (cs : List Char) : Prop where
  ne_nil : cs ≠ []
  head : Flush cs
  last : Flush cs.reverse

theorem Flush.append {cs : List Char} (h : Flush cs) (hne : cs ≠ []) (t : List Char) :
    Flush (cs ++ t) := by
  intro c hc
  rw [List.head?_append_of_ne_nil _ hne] at hc
  exact h c hc

theorem Solid.of_forall {cs : List Char} (hne : cs ≠ []) (h : ∀ c ∈ cs, isSpace c = false) :
    Solid cs where
  ne_nil := hne
  head := fun c hc => h c (List.mem_of_mem_head? hc)
  last := fun c hc => h c (List.mem_reverse.mp (List.mem_of_mem_head? hc))

theorem solid_singleton {c : Char} (h : isSpace c = false) : Solid [c] := by
  refine Solid.of_forall (by simp) fun b hb => ?_
  rwa [List.mem_singleton.mp hb]

theorem Solid.append {s t : List Char} (hs : Solid s) (mid : List Char) (ht : Solid t) :
    Solid (s ++ (mid ++ t)) where
  ne_nil := by simp [hs.ne_nil]
  head := hs.head.append hs.ne_nil _
  last := by
    rw [List.reverse_append, List.reverse_append, List.append_assoc]
    exact ht.last.append (by simp [ht.ne_nil]) _

theorem Solid.strip_eq {gap cs gap' : List Char} (h : Solid cs) (hgap : Spaces gap)
    (hgap' : Spaces gap') : strip (gap ++ (cs ++ gap')) = cs := by
  have hrev : Spaces gap'.reverse := fun c hc => hgap' c (List.mem_reverse.mp hc)
  rw [strip, hgap.lstrip_append, (h.head.append h.ne_nil gap').lstrip_eq, List.reverse_append,
    hrev.lstrip_append, h.last.lstrip_eq, List.reverse_reverse]

theorem length_strip_le (cs : List Char) : (strip cs).length ≤ cs.length := by
  have hl (cs : List Char) : (lstrip cs).length ≤ cs.length :=
    (List.dropWhile_sublist isSpace).length_le
  calc (strip cs).length = (lstrip (lstrip cs).reverse).length := by rw [strip, List.length_reverse]
    _ ≤ (lstrip cs).length := by simpa using hl (lstrip cs).reverse
    _ ≤ cs.length := hl cs

end UniHal.Foundations.Characters
