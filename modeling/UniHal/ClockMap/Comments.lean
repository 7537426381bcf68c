import UniHal.Foundations.Characters

/-! # Comments

The tool takes the comments out of a text with two patterns, first all that look like block
comments and then all that look like line comments. C finds both in one pass that knows of
literals. The two agree on every text in which no comment mark stands where C does not see it as
one.
-/

namespace UniHal.ClockMap.Comments
open Foundations Characters

def untilClose : List Char → Option (List Char)
  | '*' :: '/' :: rest => some rest
  | _ :: rest => untilClose rest
  | [] => none

/-- `re.sub(r"/\*.*?\*/", " ", text, flags=re.S)`, at as many places as given. -/
def replaceBlocks : ℕ → List Char → List Char
  | 0, text => text
  | _ + 1, [] => []
  | n + 1, '/' :: '*' :: rest =>
    match untilClose rest with
    | some after => ' ' :: replaceBlocks n after
    | none => '/' :: replaceBlocks n ('*' :: rest)
  | n + 1, c :: rest => c :: replaceBlocks n rest

/-- `re.sub(r"//[^\n]*", "", no_block)`; the flag is set within a match. -/
def dropLines : Bool → List Char → List Char
  | _, [] => []
  | false, '/' :: '/' :: rest => dropLines true rest
  | false, c :: rest => c :: dropLines false rest
  | true, '\n' :: rest => '\n' :: dropLines false rest
  | true, _ :: rest => dropLines true rest

def stripComments (text : List Char) : List Char := dropLines false (replaceBlocks text.length text)

inductive Word
  | none
  | name
  | number
  deriving DecidableEq, Repr

def Word.next (w : Word) (c : Char) (ahead : Option Char) : Word :=
  match w with
  | .number => if isIdentChar c || c == '.' || c == '\'' then .number else .none
  | .name => if isIdentChar c then .name else .none
  | .none =>
    if isIdentStart c then .name
    else if isIdentChar c || c == '.' && ahead.any fun d => isIdentChar d && !isIdentStart d then
      .number
    else .none

/-- Where C is in a text. -/
inductive Mode
  | code (word : Word)
  /-- at the star that opens a block comment -/
  | blockStart
  | block
  /-- at the slash that closes it -/
  | blockEnd
  | line
  | literal (quote : Char)
  /-- behind a backslash in a literal -/
  | escaped (quote : Char)
  deriving DecidableEq, Repr

def opens (w : Word) (c : Char) (ahead : Option Char) : Bool :=
  c == '"' || c == '\'' && !(w == .number && ahead.any isIdentChar)

def opensBlock (c : Char) (ahead : Option Char) : Bool := c == '/' && ahead == some '*'

def opensLine (c : Char) (ahead : Option Char) : Bool := c == '/' && ahead == some '/'

def Mode.next : Mode → Char → Option Char → Mode
  | .code w, c, ahead =>
    if opensBlock c ahead then .blockStart
    else if opensLine c ahead then .line
    else if opens w c ahead then .literal c
    else .code (w.next c ahead)
  | .blockStart, _, _ => .block
  | .block, c, ahead => if c == '*' && ahead == some '/' then .blockEnd else .block
  | .blockEnd, _, _ => .code .none
  | .line, c, _ => if c == '\n' then .code .none else .line
  | .literal q, c, _ =>
    if c == '\\' then .escaped q else if c == q then .code .none else .literal q
  | .escaped q, _, _ => .literal q

/-- What C reads of a character. A block comment is a space; so is a line comment, but what follows
that is the end of the line anyway. -/
def Mode.read : Mode → Char → Option Char → List Char
  | .code _, c, ahead => if opensBlock c ahead then [' '] else if opensLine c ahead then [] else [c]
  | .line, c, _ => if c == '\n' then [c] else []
  | .literal _, c, _ | .escaped _, c, _ => [c]
  | .blockStart, _, _ | .block, _, _ | .blockEnd, _, _ => []

def readFrom (m : Mode) : List Char → List Char
  | [] => []
  | c :: rest => m.read c rest.head? ++ readFrom (m.next c rest.head?) rest

/-- The text that C reads. Lines are not continued here: a text that continues a line comment, or
splits a comment mark, is not covered below. -/
def read (text : List Char) : List Char := readFrom (.code .none) text

def Mode.allows : Mode → Char → Option Char → Bool
  | .code _, c, ahead => !(c == '/' && ahead == some '\\')
  | .line, c, ahead => !opensBlock c ahead && !(c == '\\' && ahead == some '\n')
  | .block, c, ahead => !(c == '*' && ahead == some '\\')
  | .literal _, c, ahead => !opensBlock c ahead && !opensLine c ahead && c != '\n'
  | .escaped _, c, ahead => !opensBlock c ahead && !opensLine c ahead
  | .blockStart, _, _ | .blockEnd, _, _ => true

def Mode.final : Mode → Bool
  | .code _ | .line => true
  | _ => false

def coveredFrom (m : Mode) : List Char → Bool
  | [] => m.final
  | c :: rest => m.allows c rest.head? && coveredFrom (m.next c rest.head?) rest

def Covered (text : List Char) : Prop := coveredFrom (.code .none) text = true

def Mode.inBlock : Mode → Bool
  | .blockStart | .block | .blockEnd => true
  | _ => false

def Mode.keep : Mode → Char → Option Char → List Char
  | .code _, c, ahead => if opensBlock c ahead then [' '] else [c]
  | .line, c, _ | .literal _, c, _ | .escaped _, c, _ => [c]
  | .blockStart, _, _ | .block, _, _ | .blockEnd, _, _ => []

def keepFrom (m : Mode) : List Char → List Char
  | [] => []
  | c :: rest => m.keep c rest.head? ++ keepFrom (m.next c rest.head?) rest

theorem opensBlock_iff {c : Char} {rest : List Char} :
    opensBlock c rest.head? = true ↔ ∃ rest', c :: rest = '/' :: '*' :: rest' := by
  cases rest <;> simp [opensBlock]

theorem opensLine_iff {c : Char} {rest : List Char} :
    opensLine c rest.head? = true ↔ ∃ rest', c :: rest = '/' :: '/' :: rest' := by
  cases rest <;> simp [opensLine]

theorem replaceBlocks_cons {n : ℕ} {c : Char} {rest : List Char}
    (h : opensBlock c rest.head? = false) :
    replaceBlocks (n + 1) (c :: rest) = c :: replaceBlocks n rest := by
  rw [replaceBlocks]
  rintro rest' rfl rfl
  simp [opensBlock] at h

/-- The first end of a block comment is the one that C sees. -/
theorem untilClose_of_covered (text : List Char) (h : coveredFrom .block text = true) :
    ∃ after, untilClose text = some after ∧ keepFrom .block text = keepFrom (.code .none) after ∧
      coveredFrom (.code .none) after = true ∧ after.length ≤ text.length := by
  induction text with
  | nil => cases h
  | cons c rest ih =>
    have hrest := (Bool.and_eq_true_iff.mp h).2
    by_cases hc : (c == '*' && rest.head? == some '/') = true
    · obtain ⟨after, rfl, rfl⟩ : ∃ after, c = '*' ∧ rest = '/' :: after := by
        cases rest <;> simp_all
      refine ⟨after, rfl, rfl, ?_, ?_⟩
      · exact (Bool.and_eq_true_iff.mp hrest).2
      · simp only [List.length_cons]
        omega
    · have hnext : Mode.block.next c rest.head? = .block := if_neg hc
      rw [hnext] at hrest
      obtain ⟨after, hclose, hkeep, hcovered, hlength⟩ := ih hrest
      refine ⟨after, ?_, ?_, hcovered, ?_⟩
      · rw [untilClose, hclose]
        rintro rest' rfl rfl
        simp at hc
      · rw [keepFrom, hnext]
        exact hkeep
      · simp only [List.length_cons]
        omega

/-- The first pass takes out what C sees as block comments. -/
theorem replaceBlocks_eq (n : ℕ) (m : Mode) (text : List Char) (hn : text.length ≤ n)
    (hm : m.inBlock = false) (h : coveredFrom m text = true) :
    replaceBlocks n text = keepFrom m text := by
  induction n generalizing m text with
  | zero =>
    rw [List.eq_nil_of_length_eq_zero (Nat.le_zero.mp hn)]
    rfl
  | succ n ih =>
    cases text with
    | nil => rfl
    | cons c rest =>
      obtain ⟨hallows, hrest⟩ := Bool.and_eq_true_iff.mp h
      have hlength : rest.length ≤ n := by simpa using hn
      cases m with
      | code w =>
        by_cases hopens : opensBlock c rest.head? = true
        · obtain ⟨rest', heq⟩ := opensBlock_iff.mp hopens
          obtain ⟨rfl, rfl⟩ := List.cons_eq_cons.mp heq
          obtain ⟨after, hclose, hkeep, hcovered, hafter⟩ :=
            untilClose_of_covered rest' (Bool.and_eq_true_iff.mp hrest).2
          have hshort : after.length ≤ n := by
            simp only [List.length_cons] at hlength
            omega
          have htail : replaceBlocks n after = keepFrom (.code .none) after :=
            ih _ after hshort rfl hcovered
          rw [replaceBlocks, hclose]
          change ' ' :: replaceBlocks n after = ' ' :: keepFrom .block rest'
          rw [htail, hkeep]
        · have hnot := Bool.eq_false_of_not_eq_true hopens
          have hnext : ((Mode.code w).next c rest.head?).inBlock = false := by
            simp only [Mode.next, hnot, Bool.false_eq_true, if_false]
            split_ifs <;> rfl
          rw [replaceBlocks_cons hnot, ih _ rest hlength hnext hrest, keepFrom, Mode.keep,
            if_neg hopens, List.singleton_append]
      | line =>
        have hnot : opensBlock c rest.head? = false := by simp_all [Mode.allows]
        have hnext : (Mode.line.next c rest.head?).inBlock = false := by
          simp only [Mode.next]
          split_ifs <;> rfl
        rw [replaceBlocks_cons hnot, ih _ rest hlength hnext hrest]
        rfl
      | literal q =>
        have hnot : opensBlock c rest.head? = false := by simp_all [Mode.allows]
        have hnext : ((Mode.literal q).next c rest.head?).inBlock = false := by
          simp only [Mode.next]
          split_ifs <;> rfl
        rw [replaceBlocks_cons hnot, ih _ rest hlength hnext hrest]
        rfl
      | escaped q =>
        have hnot : opensBlock c rest.head? = false := by simp_all [Mode.allows]
        rw [replaceBlocks_cons hnot, ih _ rest hlength rfl hrest]
        rfl
      | blockStart | block | blockEnd => cases hm

def Mode.isLine (m : Mode) : Bool := m == .line

theorem dropLines_cons {c : Char} {kept : List Char} (h : opensLine c kept.head? = false) :
    dropLines false (c :: kept) = c :: dropLines false kept := by
  rw [dropLines]
  rintro rest' rfl rfl
  simp [opensLine] at h

theorem head_keepFrom {m : Mode} (hm : m.inBlock = false) {text : List Char}
    (h : (keepFrom m text).head? = some '/') : text.head? = some '/' := by
  cases text with
  | nil => exact h
  | cons c rest =>
    cases m with
    | code w =>
      by_cases hopens : opensBlock c rest.head? = true
      · simp [keepFrom, Mode.keep, hopens] at h
      · simpa [keepFrom, Mode.keep, hopens] using h
    | line | literal q | escaped q => exact h
    | blockStart | block | blockEnd => cases hm

/-- Two slashes that the first pass leaves side by side stood so before. -/
theorem dropLines_cons_keepFrom {m : Mode} (hm : m.inBlock = false) {c : Char} {rest : List Char}
    (hline : opensLine c rest.head? = false) :
    dropLines false (c :: keepFrom m rest) = c :: dropLines false (keepFrom m rest) := by
  refine dropLines_cons (Bool.eq_false_of_not_eq_true fun hopens => ?_)
  obtain ⟨hc, hhead⟩ : c = '/' ∧ (keepFrom m rest).head? = some '/' := by
    simpa [opensLine] using hopens
  simp [opensLine, hc, head_keepFrom hm hhead] at hline

/-- The second pass takes out the line comments and nothing else. -/
theorem dropLines_keepFrom (m : Mode) (text : List Char) (h : coveredFrom m text = true) :
    dropLines m.isLine (keepFrom m text) = readFrom m text := by
  induction text generalizing m with
  | nil => cases m <;> rfl
  | cons c rest ih =>
    obtain ⟨hallows, hrest⟩ := Bool.and_eq_true_iff.mp h
    rw [readFrom, ← ih _ hrest]
    cases m with
    | code w =>
      by_cases hblock : opensBlock c rest.head? = true
      · simp only [keepFrom, Mode.keep, Mode.read, Mode.next, hblock, if_true]
        rfl
      · by_cases hline : opensLine c rest.head? = true
        · obtain ⟨rest', heq⟩ := opensLine_iff.mp hline
          obtain ⟨rfl, rfl⟩ := List.cons_eq_cons.mp heq
          -- the second slash is gone whether it opens the comment or is in it
          change dropLines false ('/' :: '/' :: keepFrom .line rest') =
            dropLines true ('/' :: keepFrom .line rest')
          simp [dropLines]
        · have hnext : (Mode.code w).next c rest.head? =
              if opens w c rest.head? then .literal c else .code (w.next c rest.head?) := by
            simp only [Mode.next, hblock, hline, if_false, Bool.false_eq_true]
          have hout : ((Mode.code w).next c rest.head?).inBlock = false := by
            rw [hnext]
            split_ifs <;> rfl
          have hstays : ((Mode.code w).next c rest.head?).isLine = false := by
            rw [hnext]
            split_ifs <;> rfl
          rw [keepFrom, Mode.keep, if_neg hblock, List.singleton_append, hstays, Mode.read,
            if_neg hblock, if_neg hline, List.singleton_append]
          exact dropLines_cons_keepFrom hout (Bool.eq_false_of_not_eq_true hline)
    | line =>
      by_cases hc : c = '\n'
      · subst hc
        rfl
      · have hnext : Mode.line.next c rest.head? = .line := if_neg (by simpa using hc)
        simp only [keepFrom, Mode.keep, Mode.read, hnext, beq_iff_eq, hc, if_false,
          List.singleton_append, List.nil_append]
        rw [show Mode.line.isLine = true from rfl, dropLines]
        exact hc
    | literal q =>
      have hline : opensLine c rest.head? = false := by simp_all [Mode.allows]
      have hout : ((Mode.literal q).next c rest.head?).inBlock = false := by
        simp only [Mode.next]
        split_ifs <;> rfl
      have hstays : ((Mode.literal q).next c rest.head?).isLine = false := by
        simp only [Mode.next]
        split_ifs <;> rfl
      rw [hstays]
      exact dropLines_cons_keepFrom hout hline
    | escaped q =>
      have hline : opensLine c rest.head? = false := by simp_all [Mode.allows]
      exact dropLines_cons_keepFrom (m := .literal q) rfl hline
    | blockStart => rfl
    | block =>
      simp only [keepFrom, Mode.keep, Mode.read, Mode.next]
      split_ifs <;> rfl
    | blockEnd => rfl

/-- On a covered text the tool leaves what C reads: block comments become one space, line comments
go, and what stands in a literal stays. -/
theorem stripComments_eq_read (text : List Char) (h : Covered text) :
    stripComments text = read text := by
  have hfirst : replaceBlocks text.length text = keepFrom (.code .none) text :=
    replaceBlocks_eq text.length (.code .none) text le_rfl rfl h
  rw [stripComments, hfirst]
  exact dropLines_keepFrom (.code .none) text h

/-- A text with both kinds of comment, and with an apostrophe and a star that are in neither. -/
def commented : List Char := "a = '/'; /* // */ b = 1'000 * c; // \"d\"\ne".toList

theorem stripComments_eq_read_commented :
    stripComments commented = "a = '/';   b = 1'000 * c; \ne".toList :=
  (stripComments_eq_read commented (by rw [Covered]; decide)).trans (by decide)

end UniHal.ClockMap.Comments
