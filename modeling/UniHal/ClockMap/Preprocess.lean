import UniHal.Foundations.Characters
import UniHal.Foundations.ConditionalGroups

/-! # Conditional inclusion in the clock map

The tool reads the lines of a text one after another, with a frame for every open group. What the
lines are it decides by patterns; what the C preprocessor takes them for is more than the patterns
cover.
-/

namespace UniHal.ClockMap.Preprocess
open Foundations Characters ConditionalGroups

abbrev Line := List Char

inductive Condition
  /-- the text after `#if` or `#elif` -/
  | value (text : Line)
  | defined (name : Line)
  | undefined (name : Line)
  deriving DecidableEq, Repr

/-- `\s+` -/
def spaced : Line → Option Line
  | c :: cs => if isSpace c then some (lstrip cs) else none
  | [] => none

/-- `#\s*` and a keyword -/
def afterHash (kw : Line) : Line → Option Line
  | '#' :: rest => (lstrip rest).dropPrefix? kw
  | _ => none

/-- `#\s*kw\s+(.*)$` -/
def matchText (kw stripped : Line) : Option Line := (afterHash kw stripped).bind spaced

/-- `#\s*kw\s+([A-Za-z_][A-Za-z0-9_]*)$` -/
def matchName (kw stripped : Line) : Option Line :=
  (matchText kw stripped).filter fun name => isIdent name

section Patterns
-- which characters beyond ASCII are letters or digits
variable (letter : Char → Bool)

/-- `\w` -/
def isWord (c : Char) : Bool := if c.toNat < 128 then isIdentChar c else letter c

/-- `#\s*kw\b` -/
def matchWord (kw stripped : Line) : Bool :=
  (afterHash kw stripped).any fun rest => !rest.head?.any (isWord letter)

def directive (line : Line) : Option (Mark Condition) :=
  let stripped := lstrip line
  if let some text := matchText ['i', 'f'] stripped then some (.opening (.value text))
  else if let some name := matchName ['i', 'f', 'd', 'e', 'f'] stripped then
    some (.opening (.defined name))
  else if let some name := matchName ['i', 'f', 'n', 'd', 'e', 'f'] stripped then
    some (.opening (.undefined name))
  else if let some text := matchText ['e', 'l', 'i', 'f'] stripped then some (.elif (.value text))
  else if matchWord letter ['e', 'l', 's', 'e'] stripped then some .otherwise
  else if matchWord letter ['e', 'n', 'd', 'i', 'f'] stripped then some .closing
  else none

end Patterns

structure Frame where
  parentActive : Bool
  taken : Bool
  deriving DecidableEq, Repr

structure State where
  out : List Line
  /-- the innermost frame first -/
  stack : List Frame
  currentActive : Bool
  deriving DecidableEq, Repr

/-- What `eval_pp_expr` says of the conditions, and which names are defined. -/
structure Definitions where
  value : Line → Bool
  defined : Line → Bool

def Definitions.holds (d : Definitions) : Condition → Bool
  | .value text => d.value text
  | .defined name => d.defined name
  | .undefined name => !d.defined name

section Loop
variable (letter : Char → Bool) (d : Definitions)

def step (s : State) (line : Line) : State :=
  match directive letter line with
  | some (.opening c) =>
    let parentActive := s.currentActive
    let cond := if parentActive then d.holds c else false
    { s with stack := ⟨parentActive, cond⟩ :: s.stack, currentActive := parentActive && cond }
  | some (.elif c) =>
    match s.stack with
    | [] => s
    | frame :: stack =>
      if !frame.parentActive || frame.taken then { s with currentActive := false }
      else
        let cond := d.holds c
        { s with
          currentActive := frame.parentActive && cond
          stack := { frame with taken := if cond then true else frame.taken } :: stack }
  | some .otherwise =>
    match s.stack with
    | [] => s
    | frame :: stack =>
      { s with
        currentActive := frame.parentActive && !frame.taken
        stack := { frame with taken := true } :: stack }
  | some .closing =>
    match s.stack with
    | [] => s
    | frame :: stack => { s with currentActive := frame.parentActive, stack := stack }
  | none => if s.currentActive then { s with out := s.out ++ [line] } else s

def run (s : State) (lines : List Line) : State := lines.foldl (step letter d) s

/-- `replace("\r\n", "\n")` -/
def replaceCrLf : List Char → List Char
  | '\r' :: '\n' :: rest => '\n' :: replaceCrLf rest
  | c :: rest => c :: replaceCrLf rest
  | [] => []

def physicalLines (text : List Char) : List Line :=
  ((replaceCrLf text).map fun c => if c = '\r' then '\n' else c).splitOn '\n'

def preprocess (text : List Char) : State := run letter d ⟨[], [], true⟩ (physicalLines text)

def preprocessText (text : List Char) : List Char :=
  ['\n'].intercalate (preprocess letter d text).out

end Loop

def keyword : Mark Condition → Line
  | .opening (.value _) => ['i', 'f']
  | .opening (.defined _) => ['i', 'f', 'd', 'e', 'f']
  | .opening (.undefined _) => ['i', 'f', 'n', 'd', 'e', 'f']
  | .elif (.value _) => ['e', 'l', 'i', 'f']
  | .elif (.defined _) => ['e', 'l', 'i', 'f', 'd', 'e', 'f']
  | .elif (.undefined _) => ['e', 'l', 'i', 'f', 'n', 'd', 'e', 'f']
  | .otherwise => ['e', 'l', 's', 'e']
  | .closing => ['e', 'n', 'd', 'i', 'f']

/-- A number sign and the keyword with gaps before them, and what belongs to them after them. -/
def Spelled (gap : Line → Prop) (operand : Mark Condition → Line → Prop) (line : Line)
    (m : Mark Condition) : Prop :=
  ∃ lead hash rest, gap lead ∧ gap hash ∧ operand m rest ∧
    line = lead ++ '#' :: (hash ++ (keyword m ++ rest))

def Reads (spelled : Line → Mark Condition → Prop) (line : Line) : Option (Mark Condition) → Prop
  | some m => spelled line m
  | none => ∀ m, ¬ spelled line m

/-- What the pattern of a condition covers after the keyword. -/
def CoveredText (text rest : Line) : Prop :=
  ∃ gap, gap ≠ [] ∧ Spaces gap ∧ Flush text ∧ rest = gap ++ text

/-- What the pattern of a name covers after the keyword. -/
def CoveredName (name rest : Line) : Prop :=
  ∃ gap, gap ≠ [] ∧ Spaces gap ∧ isIdent name ∧ rest = gap ++ name

/-- What the patterns cover: white space before a text or a name, and nothing after a name. -/
def Covered (letter : Char → Bool) : Mark Condition → Line → Prop
  | .opening (.value text), rest | .elif (.value text), rest => CoveredText text rest
  | .opening (.defined name), rest | .opening (.undefined name), rest => CoveredName name rest
  | .elif (.defined _), _ | .elif (.undefined _), _ => False
  | .otherwise, rest | .closing, rest => ∀ c ∈ rest.head?, isWord letter c = false

/-- White space and comments in a line of C. -/
inductive Gap : Line → Prop
  | nil : Gap []
  | blank {c g} (hc : c = ' ' ∨ c = '\t') (hg : Gap g) : Gap (c :: g)
  | comment {body g} (hbody : ¬ ['*', '/'] <:+: body) (hg : Gap g) :
    Gap ('/' :: '*' :: (body ++ '*' :: '/' :: g))

inductive Tail : Line → Prop
  | gap {g} (hg : Gap g) : Tail g
  | comment {g rest} (hg : Gap g) : Tail (g ++ '/' :: '/' :: rest)

/-- The text of a condition is the rest of the line. It may follow at once, unless its first
character would belong to the keyword. -/
def AllowedText (text rest : Line) : Prop :=
  ∃ gap, (∀ c ∈ gap, c = ' ' ∨ c = '\t') ∧ Flush text ∧ (gap = [] → Ended text) ∧
    rest = gap ++ text

def AllowedName (name rest : Line) : Prop :=
  ∃ gap tail, gap ≠ [] ∧ Gap gap ∧ isIdent name ∧ Tail tail ∧ rest = gap ++ (name ++ tail)

def Allowed : Mark Condition → Line → Prop
  | .opening (.value text), rest | .elif (.value text), rest => AllowedText text rest
  | .opening (.defined name), rest | .opening (.undefined name), rest
  | .elif (.defined name), rest | .elif (.undefined name), rest => AllowedName name rest
  | .otherwise, rest | .closing, rest => Tail rest

theorem spaced_eq_some_iff {rest text : Line} :
    spaced rest = some text ↔ CoveredText text rest := by
  constructor
  · intro h
    cases rest with
    | nil => simp [spaced] at h
    | cons c cs =>
      simp only [spaced, Option.ite_none_right_eq_some, Option.some.injEq] at h
      obtain ⟨gap, hgap, htext, rfl⟩ := lstrip_eq_iff.mp h.2
      exact ⟨c :: gap, by simp, List.forall_mem_cons.mpr ⟨h.1, hgap⟩, htext, rfl⟩
  · rintro ⟨gap, hne, hgap, htext, rfl⟩
    cases gap with
    | nil => exact absurd rfl hne
    | cons c gap =>
      rw [Spaces, List.forall_mem_cons] at hgap
      rw [List.cons_append, spaced, if_pos hgap.1, lstrip_eq_iff.mpr ⟨gap, hgap.2, htext, rfl⟩]

theorem exists_of_afterHash {kw line rest : Line} (h : afterHash kw (lstrip line) = some rest) :
    ∃ lead hash, Spaces lead ∧ Spaces hash ∧ line = lead ++ '#' :: (hash ++ (kw ++ rest)) := by
  obtain ⟨lead, hlead, -, hline⟩ := lstrip_eq_iff.mp (Eq.refl (lstrip line))
  unfold afterHash at h
  split at h
  · next after hs =>
    obtain ⟨kw', hafter, hkw⟩ := List.dropPrefix?_eq_some_iff.mp h
    obtain ⟨hash, hhash, -, rfl⟩ := lstrip_eq_iff.mp hafter
    exact ⟨lead, hash, hlead, hhash, by rw [hline, hs, eq_of_beq hkw]⟩
  · simp at h

theorem afterHash_lstrip {lead hash body : Line} (kw : Line) (hlead : Spaces lead)
    (hhash : Spaces hash) (hbody : Flush body) :
    afterHash kw (lstrip (lead ++ '#' :: (hash ++ body))) = body.dropPrefix? kw := by
  have hstripped : lstrip (lead ++ '#' :: (hash ++ body)) = '#' :: (hash ++ body) :=
    lstrip_eq_iff.mpr ⟨lead, hlead, by simp [Flush, isSpace], rfl⟩
  rw [hstripped, afterHash, hhash.lstrip_append, hbody.lstrip_eq]

theorem exists_of_matchText {kw line text : Line} (h : matchText kw (lstrip line) = some text) :
    ∃ lead hash rest, Spaces lead ∧ Spaces hash ∧ CoveredText text rest ∧
      line = lead ++ '#' :: (hash ++ (kw ++ rest)) := by
  obtain ⟨rest, hafter, hspaced⟩ := Option.bind_eq_some_iff.mp h
  obtain ⟨lead, hash, hlead, hhash, hline⟩ := exists_of_afterHash hafter
  exact ⟨lead, hash, rest, hlead, hhash, spaced_eq_some_iff.mp hspaced, hline⟩

theorem exists_of_matchName {kw line name : Line} (h : matchName kw (lstrip line) = some name) :
    ∃ lead hash rest, Spaces lead ∧ Spaces hash ∧ CoveredName name rest ∧
      line = lead ++ '#' :: (hash ++ (kw ++ rest)) := by
  obtain ⟨htext, hname⟩ := Option.filter_eq_some_iff.mp h
  obtain ⟨lead, hash, rest, hlead, hhash, ⟨gap, hne, hgap, -, hrest⟩, hline⟩ :=
    exists_of_matchText htext
  exact ⟨lead, hash, rest, hlead, hhash, ⟨gap, hne, hgap, hname, hrest⟩, hline⟩

section Match
variable {letter : Char → Bool} {line : Line} {m : Mark Condition}

theorem exists_of_matchWord {kw : Line} (h : matchWord letter kw (lstrip line) = true) :
    ∃ lead hash rest, Spaces lead ∧ Spaces hash ∧ (∀ c ∈ rest.head?, isWord letter c = false) ∧
      line = lead ++ '#' :: (hash ++ (kw ++ rest)) := by
  obtain ⟨rest, hafter, hrest⟩ := (Option.any_eq_true _ _).mp h
  obtain ⟨lead, hash, hlead, hhash, hline⟩ := exists_of_afterHash hafter
  rw [Bool.not_eq_true'] at hrest
  exact ⟨lead, hash, rest, hlead, hhash, (Option.any_eq_false _ _).mp hrest, hline⟩

theorem spelled_of_directive (h : directive letter line = some m) :
    Spelled Spaces (Covered letter) line m := by
  simp only [directive] at h
  split at h
  · next text htext =>
    obtain rfl := Option.some.inj h
    exact exists_of_matchText htext
  split at h
  · next name hname =>
    obtain rfl := Option.some.inj h
    exact exists_of_matchName hname
  split at h
  · next name hname =>
    obtain rfl := Option.some.inj h
    exact exists_of_matchName hname
  split at h
  · next text htext =>
    obtain rfl := Option.some.inj h
    exact exists_of_matchText htext
  split at h
  · next hword =>
    obtain rfl := Option.some.inj h
    exact exists_of_matchWord hword
  split at h
  · next hword =>
    obtain rfl := Option.some.inj h
    exact exists_of_matchWord hword
  · simp at h

theorem flush_keyword_append (m : Mark Condition) (rest : Line) : Flush (keyword m ++ rest) := by
  rcases m with (_ | _ | _) | (_ | _ | _) | _ | _ <;> simp [keyword, Flush, isSpace]

theorem directive_of_spelled (h : Spelled Spaces (Covered letter) line m) :
    directive letter line = some m := by
  obtain ⟨lead, hash, rest, hlead, hhash, hrest, rfl⟩ := h
  have hafter (kw : Line) := afterHash_lstrip kw hlead hhash (flush_keyword_append m rest)
  simp only [directive]
  generalize lstrip (lead ++ '#' :: (hash ++ (keyword m ++ rest))) = stripped at hafter ⊢
  -- the patterns before the one of the keyword fail at its letters
  match m, hrest with
  | .opening (.value text), hrest =>
    have hspaced := spaced_eq_some_iff.mpr hrest
    simp [matchText, hafter, keyword, List.dropPrefix?, hspaced]
  | .opening (.defined name), ⟨gap, hne, hgap, hname, hrest⟩ =>
    have hspaced := spaced_eq_some_iff.mpr ⟨gap, hne, hgap, flush_of_isIdent hname, hrest⟩
    have hd : spaced ('d' :: 'e' :: 'f' :: rest) = none := by simp [spaced, isSpace]
    simp [matchText, matchName, hafter, keyword, List.dropPrefix?, hspaced, hd, hname,
      Option.filter_some]
  | .opening (.undefined name), ⟨gap, hne, hgap, hname, hrest⟩ =>
    have hspaced := spaced_eq_some_iff.mpr ⟨gap, hne, hgap, flush_of_isIdent hname, hrest⟩
    have hn : spaced ('n' :: 'd' :: 'e' :: 'f' :: rest) = none := by simp [spaced, isSpace]
    simp [matchText, matchName, hafter, keyword, List.dropPrefix?, hspaced, hn, hname,
      Option.filter_some]
  | .elif (.value text), hrest =>
    have hspaced := spaced_eq_some_iff.mpr hrest
    simp [matchText, matchName, hafter, keyword, List.dropPrefix?, hspaced]
  | .otherwise, hrest =>
    have hword : rest.head?.any (isWord letter) = false :=
      (Option.any_eq_false _ _).mpr fun c hc => by simp [hrest c hc]
    simp [matchText, matchName, matchWord, hafter, keyword, List.dropPrefix?, hword]
  | .closing, hrest =>
    have hword : rest.head?.any (isWord letter) = false :=
      (Option.any_eq_false _ _).mpr fun c hc => by simp [hrest c hc]
    simp [matchText, matchName, matchWord, hafter, keyword, List.dropPrefix?, hword]

theorem reads_covered_iff {o : Option (Mark Condition)} :
    Reads (Spelled Spaces (Covered letter)) line o ↔ directive letter line = o := by
  cases o with
  | some m => exact ⟨directive_of_spelled, spelled_of_directive⟩
  | none =>
    constructor
    · intro h
      by_contra hne
      obtain ⟨m, hm⟩ := Option.ne_none_iff_exists'.mp hne
      exact h m (spelled_of_directive hm)
    · intro h m hm
      rw [directive_of_spelled hm] at h
      simp at h

end Match

section Run
variable {letter : Char → Bool} {d : Definitions}

theorem run_append (s : State) (xs ys : List Line) :
    run letter d s (xs ++ ys) = run letter d (run letter d s xs) ys :=
  List.foldl_append

theorem run_cons (s : State) (x : Line) (xs : List Line) :
    run letter d s (x :: xs) = run letter d (step letter d s x) xs := rfl

section Step
variable {l : Line} {c : Condition} {out : List Line} {p t : Bool} {stack : List Frame}
  {active : Bool}

theorem step_opening {s : State} (hl : directive letter l = some (.opening c)) :
    step letter d s l =
      { out := s.out
        stack := ⟨s.currentActive, s.currentActive && d.holds c⟩ :: s.stack
        currentActive := s.currentActive && d.holds c } := by
  simp only [step, hl]
  cases s.currentActive <;> rfl

theorem step_elif (hl : directive letter l = some (.elif c)) :
    step letter d ⟨out, ⟨p, t⟩ :: stack, active⟩ l =
      { out := out
        stack := ⟨p, t || (p && d.holds c)⟩ :: stack
        currentActive := p && !t && d.holds c } := by
  simp only [step, hl]
  cases p <;> cases t <;> cases d.holds c <;> simp

theorem step_otherwise (hl : directive letter l = some .otherwise) :
    step letter d ⟨out, ⟨p, t⟩ :: stack, active⟩ l = ⟨out, ⟨p, true⟩ :: stack, p && !t⟩ := by
  simp only [step, hl]

theorem step_closing (hl : directive letter l = some .closing) :
    step letter d ⟨out, ⟨p, t⟩ :: stack, active⟩ l = ⟨out, stack, p⟩ := by
  simp only [step, hl]

end Step

mutual

/-- A text leaves the stack as it was, and adds its kept lines where lines are kept. -/
theorem run_text : ∀ (t : Text Line Condition) (s : State),
    t.Marked (fun l o => directive letter l = o) →
    run letter d s t.lines =
      { s with out := s.out ++ if s.currentActive then t.kept d.holds else [] }
  | .nil, s, _ => by
    simp [Text.lines, Text.kept, run]
  | .line l rest, s, ⟨hl, hrest⟩ => by
    rw [Text.lines, run_cons, run_text rest _ hrest, step, hl]
    cases hs : s.currentActive <;> simp [Text.kept, hs]
  | .group l c body alts rest, s, ⟨hl, hbody, halts, hrest⟩ => by
    rw [Text.lines, run_cons, run_append, run_append, step_opening hl, run_text body _ hbody,
      run_alternatives alts _ _ _ _ _ halts, run_text rest _ hrest]
    cases hs : s.currentActive <;> cases hc : d.holds c <;> simp [Text.kept, hc]

/-- What follows the first part of a group pops the frame of the group. -/
theorem run_alternatives : ∀ (a : Alternatives Line Condition) (out : List Line) (p t : Bool)
    (stack : List Frame) (active : Bool), a.Marked (fun l o => directive letter l = o) →
    run letter d ⟨out, ⟨p, t⟩ :: stack, active⟩ a.lines =
      { out := out ++ if p && !t then a.kept d.holds else []
        stack := stack
        currentActive := p }
  | .closing l, out, p, t, stack, active, hl => by
    rw [Alternatives.lines, run_cons, step_closing hl]
    simp [Alternatives.kept, run]
  | .elif l c body alts, out, p, t, stack, active, ⟨hl, hbody, halts⟩ => by
    rw [Alternatives.lines, run_cons, run_append, step_elif hl, run_text body _ hbody,
      run_alternatives alts _ _ _ _ _ halts]
    cases p <;> cases t <;> cases hc : d.holds c <;> simp [Alternatives.kept, hc]
  | .otherwise l body last, out, p, t, stack, active, ⟨hl, hbody, hlast⟩ => by
    rw [Alternatives.lines, run_cons, run_append, step_otherwise hl, run_text body _ hbody,
      run_cons, step_closing hlast]
    simp [Alternatives.kept, run]

end

end Run

/-- A gap that is white space to the patterns has no comment, and is the same gap to them. -/
theorem Gap.append_inj {g g' x y : Line} (hg : Gap g) (hg' : Spaces g') (hx : Flush x)
    (hy : Flush y) (hslash : '/' ∉ y.head?) (h : g ++ x = g' ++ y) :
    g = g' ∧ x = y := by
  induction hg generalizing g' with
  | nil =>
    cases g' with
    | nil => exact ⟨rfl, h⟩
    | cons c g' =>
      have hc : isSpace c = false := hx c (by rw [List.nil_append] at h; rw [h]; rfl)
      rw [hg' c List.mem_cons_self] at hc
      simp at hc
  | @blank c g hc hg ih =>
    cases g' with
    | nil =>
      have hspace : isSpace c = false := hy c (by rw [List.nil_append] at h; rw [← h]; rfl)
      rcases hc with rfl | rfl <;> simp [isSpace] at hspace
    | cons c' g' =>
      rw [List.cons_append, List.cons_append, List.cons.injEq] at h
      rw [Spaces, List.forall_mem_cons] at hg'
      obtain ⟨rfl, rfl⟩ := ih hg'.2 h.2
      exact ⟨by rw [h.1], rfl⟩
  | comment hbody hg ih =>
    cases g' with
    | nil => exact absurd (by rw [List.nil_append] at h; rw [← h]; rfl) hslash
    | cons c' g' =>
      have hc := hg' c' List.mem_cons_self
      rw [← (List.cons.inj h).1] at hc
      simp [isSpace] at hc

theorem Gap.head {g : Line} (hg : Gap g) : ∀ c ∈ g.head?, c = ' ' ∨ c = '\t' ∨ c = '/' := by
  cases hg with
  | nil => simp
  | blank hc hg =>
    intro c h
    obtain rfl := Option.some.inj h
    exact hc.imp_right Or.inl
  | comment hbody hg =>
    intro c h
    obtain rfl := Option.some.inj h
    exact Or.inr (Or.inr rfl)

theorem Tail.head {g : Line} (hg : Tail g) : ∀ c ∈ g.head?, c = ' ' ∨ c = '\t' ∨ c = '/' := by
  cases hg with
  | gap hg => exact hg.head
  | @comment g rest hg =>
    intro c hc
    cases g with
    | nil =>
      obtain rfl := Option.some.inj hc
      exact Or.inr (Or.inr rfl)
    | cons b g => exact hg.head c hc

theorem ended_of_head {cs : Line} (h : ∀ c ∈ cs.head?, c = ' ' ∨ c = '\t' ∨ c = '/') :
    Ended cs := by
  intro c hc
  rcases h c hc with rfl | rfl | rfl <;> decide

theorem append_inj_of_ended {xs xs' ys ys' : Line} (hxs : ∀ c ∈ xs, isIdentChar c = true)
    (hxs' : ∀ c ∈ xs', isIdentChar c = true) (hys : Ended ys) (hys' : Ended ys')
    (h : xs ++ ys = xs' ++ ys') : xs = xs' ∧ ys = ys' := by
  have heq : xs = xs' := by
    rw [← takeWhile_append_of_ended hxs hys, h, takeWhile_append_of_ended hxs' hys']
  subst heq
  exact ⟨rfl, List.append_cancel_left h⟩

section Agreement
variable {letter : Char → Bool} {line rest rest' : Line} {m m' : Mark Condition}

theorem ended_of_blank {gap text : Line} (hgap : ∀ c ∈ gap, isIdentChar c = false)
    (htext : gap = [] → Ended text) : Ended (gap ++ text) := by
  cases gap with
  | nil => exact htext rfl
  | cons c gap =>
    intro b hb
    obtain rfl := Option.some.inj hb
    exact hgap c List.mem_cons_self

theorem AllowedText.ended {text : Line} (h : AllowedText text rest) : Ended rest := by
  obtain ⟨gap, hgap, -, htext, rfl⟩ := h
  refine ended_of_blank (fun c hc => ?_) htext
  rcases hgap c hc with rfl | rfl <;> decide

theorem AllowedName.ended {name : Line} (h : AllowedName name rest) : Ended rest := by
  obtain ⟨gap, tail, hne, hgap, -, -, rfl⟩ := h
  intro c hc
  rw [List.head?_append_of_ne_nil _ hne] at hc
  exact ended_of_head hgap.head c hc

theorem ended_of_allowed (h : Allowed m rest) : Ended rest := by
  match m, h with
  | .opening (.value _), h | .elif (.value _), h => exact AllowedText.ended h
  | .opening (.defined _), h | .opening (.undefined _), h => exact AllowedName.ended h
  | .elif (.defined _), h | .elif (.undefined _), h => exact AllowedName.ended h
  | .otherwise, h | .closing, h => exact ended_of_head (Tail.head h)

theorem isIdentChar_eq_false_of_isWord {c : Char} (h : isWord letter c = false) :
    isIdentChar c = false := by
  by_contra hc
  have hascii := isIdentChar_iff.mp (Bool.of_not_eq_false hc)
  rw [isWord, if_pos (by omega)] at h
  exact hc h

theorem ended_of_spaces {gap text : Line} (hne : gap ≠ []) (hgap : Spaces gap) :
    Ended (gap ++ text) :=
  ended_of_blank (fun c hc => isIdentChar_eq_false_of_isSpace (hgap c hc))
    fun hnil => absurd hnil hne

theorem ended_of_covered (h : Covered letter m rest) : Ended rest := by
  match m, h with
  | .opening (.value _), ⟨_, hne, hgap, _, hrest⟩
  | .elif (.value _), ⟨_, hne, hgap, _, hrest⟩ =>
    rw [hrest]
    exact ended_of_spaces hne hgap
  | .opening (.defined _), ⟨_, hne, hgap, _, hrest⟩
  | .opening (.undefined _), ⟨_, hne, hgap, _, hrest⟩ =>
    rw [hrest]
    exact ended_of_spaces hne hgap
  | .otherwise, h | .closing, h =>
    exact fun c hc => isIdentChar_eq_false_of_isWord (h c hc)

theorem text_eq {text text' : Line} (h : AllowedText text rest) (h' : CoveredText text' rest) :
    text = text' := by
  obtain ⟨gap, hgap, htext, -, rfl⟩ := h
  obtain ⟨gap', -, hgap', htext', heq⟩ := h'
  have hspaces : Spaces gap := by
    intro c hc
    rcases hgap c hc with rfl | rfl <;> decide
  rw [← htext.lstrip_eq, ← hspaces.lstrip_append, heq, hgap'.lstrip_append, htext'.lstrip_eq]

theorem flush_ident_append {name : Line} (h : isIdent name = true) (tail : Line) :
    Flush (name ++ tail) := by
  intro c hc
  rw [List.head?_append_of_ne_nil _ (by rintro rfl; simp [isIdent] at h)] at hc
  exact flush_of_isIdent h c hc

theorem name_eq {name name' : Line} (h : AllowedName name rest) (h' : CoveredName name' rest) :
    name = name' := by
  obtain ⟨gap, tail, -, hgap, hname, htail, rfl⟩ := h
  obtain ⟨gap', -, hgap', hname', heq⟩ := h'
  have hident := isIdentChar_of_isIdent hname'
  have hslash : '/' ∉ name'.head? := by
    intro hslash
    have hc := hident '/' (List.mem_of_mem_head? hslash)
    revert hc
    decide
  have hrest := (hgap.append_inj hgap' (flush_ident_append hname tail) (flush_of_isIdent hname')
    hslash heq).2
  exact (append_inj_of_ended (isIdentChar_of_isIdent hname) hident (ended_of_head htail.head)
    (by simp [Ended]) (hrest.trans (List.append_nil name').symm)).1

theorem eq_of_keyword_eq (h : Allowed m rest) (h' : Covered letter m' rest)
    (hkw : keyword m = keyword m') : m = m' := by
  match m, m', h, h', hkw with
  | .opening (.value _), .opening (.value _), h, h', _ => rw [text_eq h h']
  | .elif (.value _), .elif (.value _), h, h', _ => rw [text_eq h h']
  | .opening (.defined _), .opening (.defined _), h, h', _ => rw [name_eq h h']
  | .opening (.undefined _), .opening (.undefined _), h, h', _ => rw [name_eq h h']
  | .otherwise, .otherwise, _, _, _ => rfl
  | .closing, .closing, _, _, _ => rfl

theorem isIdentChar_of_mem_keyword (m : Mark Condition) :
    ∀ c ∈ keyword m, isIdentChar c = true := by
  rcases m with (_ | _ | _) | (_ | _ | _) | _ | _ <;> simp [keyword, isIdentChar, Char.isAlphanum]

theorem slash_notMem_keyword (m : Mark Condition) (rest : Line) :
    '/' ∉ (keyword m ++ rest).head? := by
  rcases m with (_ | _ | _) | (_ | _ | _) | _ | _ <;> simp [keyword]

theorem eq_of_spelled (h : Spelled Gap Allowed line m)
    (h' : Spelled Spaces (Covered letter) line m') : m = m' := by
  obtain ⟨lead, hash, rest, hlead, hhash, hrest, rfl⟩ := h
  obtain ⟨lead', hash', rest', hlead', hhash', hrest', hline⟩ := h'
  have hsign := (hlead.append_inj hlead' (by simp [Flush, isSpace]) (by simp [Flush, isSpace])
    (by simp) hline).2
  have hword := (hhash.append_inj hhash' (flush_keyword_append m rest)
    (flush_keyword_append m' rest') (slash_notMem_keyword m' rest') (List.cons.inj hsign).2).2
  obtain ⟨hkw, rfl⟩ := append_inj_of_ended (isIdentChar_of_mem_keyword m)
    (isIdentChar_of_mem_keyword m') (ended_of_allowed hrest) (ended_of_covered hrest') hword
  exact eq_of_keyword_eq hrest hrest' hkw

end Agreement

section Output
variable {letter : Char → Bool} {d : Definitions}

theorem step_out (s : State) (l : Line) :
    (step letter d s l).out =
      if directive letter l = none ∧ s.currentActive then s.out ++ [l] else s.out := by
  obtain ⟨out, stack, active⟩ := s
  rcases hl : directive letter l with _ | (c | c | _ | _)
  · cases active <;> simp [step, hl]
  · simp [step, hl]
  · rcases stack with _ | ⟨⟨p, t⟩, stack⟩
    · simp [step, hl]
    · simp [step_elif hl]
  · rcases stack with _ | ⟨⟨p, t⟩, stack⟩ <;> simp [step, hl]
  · rcases stack with _ | ⟨⟨p, t⟩, stack⟩ <;> simp [step, hl]

theorem mem_out_run {s : State} {l : Line} (h : l ∈ s.out) (xs : List Line) :
    l ∈ (run letter d s xs).out := by
  induction xs generalizing s with
  | nil => exact h
  | cons x xs ih =>
    rw [run_cons]
    apply ih
    rw [step_out]
    split
    · exact List.mem_append_left [x] h
    · exact h

theorem directive_of_mem_out {s : State} {l : Line} {xs : List Line}
    (h : l ∈ (run letter d s xs).out) : l ∈ s.out ∨ directive letter l = none := by
  induction xs generalizing s with
  | nil => exact Or.inl h
  | cons x xs ih =>
    rcases ih h with hout | hnone
    · rw [step_out] at hout
      split at hout
      · next hx =>
        rcases List.mem_append.mp hout with hs | hlx
        · exact Or.inl hs
        · rw [List.mem_singleton.mp hlx]
          exact Or.inr hx.1
      · exact Or.inl hout
    · exact Or.inr hnone

end Output

section Converse
variable {letter : Char → Bool}

/-- A directive that is met where lines are kept, and does not get out, is read by the patterns. -/
theorem directive_of_clean {s : State} {d : Definitions} {l : Line} {m : Mark Condition}
    {post : List Line} (hl : Spelled Gap Allowed l m)
    (hclean : ∀ x ∈ (run letter d s (l :: post)).out, Reads (Spelled Gap Allowed) x none)
    (hs : s.currentActive = true) :
    directive letter l = some m := by
  cases hd : directive letter l with
  | some m' => rw [eq_of_spelled hl (spelled_of_directive hd)]
  | none =>
    have hmem : l ∈ (step letter d s l).out := by
      rw [step_out, if_pos ⟨hd, hs⟩]
      exact List.mem_append_right _ List.mem_cons_self
    exact absurd hl (hclean l (mem_out_run hmem post) m)

mutual

theorem marked_of_clean : ∀ (t : Text Line Condition) (s : Definitions → State) (post : List Line),
    t.Marked (Reads (Spelled Gap Allowed)) →
    t.Marked (fun l o => o = none → directive letter l = none) →
    (∀ d, ∀ x ∈ (run letter d (s d) (t.lines ++ post)).out, Reads (Spelled Gap Allowed) x none) →
    t.Attained Definitions.holds {d | (s d).currentActive = true} →
    t.Marked (fun l o => directive letter l = o)
  | .nil, _, _, _, _, _, _ => trivial
  | .line l rest, s, post, ⟨_, hC⟩, ⟨hl, hplain⟩, hclean, ⟨_, hE⟩ => by
    have hnone := hl rfl
    refine ⟨hnone, marked_of_clean rest (fun d => step letter d (s d) l) post hC hplain hclean ?_⟩
    convert hE using 3
    simp only [step, hnone]
    split <;> simp [*]
  | .group l c body alts rest, s, post, ⟨hl, hCb, hCa, hCr⟩, ⟨_, hpb, hpa, hpr⟩, hclean,
      ⟨⟨d, hd⟩, hEb, hEa, hEr⟩ => by
    have hm := directive_of_clean hl (hclean d) hd
    simp only [Text.lines, List.cons_append, List.append_assoc, run_cons, step_opening hm]
      at hclean
    have hb := marked_of_clean body _ _ hCb hpb hclean (by simpa using hEb)
    simp only [run_append _ body.lines, run_text body _ hb] at hclean
    have ha := alternatives_marked_of_clean alts _ _ _ _ _ _ hCa hpa hclean ?_
    · simp only [run_append _ alts.lines, run_alternatives alts _ _ _ _ _ ha] at hclean
      exact ⟨hm, hb, ha, marked_of_clean rest _ _ hCr hpr hclean hEr⟩
    · convert hEa using 1
      · ext e
        simp
      · ext e
        cases he : (s e).currentActive <;> simp [he]

theorem alternatives_marked_of_clean : ∀ (a : Alternatives Line Condition)
    (out : Definitions → List Line) (p t : Definitions → Bool) (stack : Definitions → List Frame)
    (active : Definitions → Bool) (post : List Line),
    a.Marked (Reads (Spelled Gap Allowed)) →
    a.Marked (fun l o => o = none → directive letter l = none) →
    (∀ d, ∀ x ∈ (run letter d ⟨out d, ⟨p d, t d⟩ :: stack d, active d⟩ (a.lines ++ post)).out,
      Reads (Spelled Gap Allowed) x none) →
    a.Attained Definitions.holds {d | active d = true} {d | p d = true ∧ t d = false} →
    a.Marked (fun l o => directive letter l = o)
  | .closing l, out, p, t, stack, active, post, hl, _, hclean, ⟨d, hd⟩ =>
    directive_of_clean hl (hclean d) hd
  | .elif l c body alts, out, p, t, stack, active, post, ⟨hl, hCb, hCa⟩, ⟨_, hpb, hpa⟩, hclean,
      ⟨⟨d, hd⟩, hEb, hEa⟩ => by
    have hm := directive_of_clean hl (hclean d) hd
    simp only [Alternatives.lines, List.cons_append, List.append_assoc, run_cons, step_elif hm]
      at hclean
    have hb := marked_of_clean body _ _ hCb hpb hclean (by simpa [and_assoc] using hEb)
    simp only [run_append _ body.lines, run_text body _ hb] at hclean
    refine ⟨hm, hb, alternatives_marked_of_clean alts _ _ _ _ _ _ hCa hpa hclean ?_⟩
    convert hEa using 1
    · ext e
      simp [and_assoc]
    · ext e
      cases hp : p e <;> simp [hp]
  | .otherwise l body last, out, p, t, stack, active, post, ⟨hl, hCb, hlast⟩, ⟨_, hpb, _⟩, hclean,
      ⟨⟨d, hd⟩, hEb, ⟨d', hd'⟩⟩ => by
    have hm := directive_of_clean hl (hclean d) hd
    simp only [Alternatives.lines, List.cons_append, List.append_assoc, run_cons,
      step_otherwise hm] at hclean
    have hb := marked_of_clean body _ _ hCb hpb hclean (by simpa using hEb)
    simp only [run_append _ body.lines, run_text body _ hb] at hclean
    exact ⟨hm, hb, directive_of_clean hlast (hclean d') (by simpa using hd')⟩

end

end Converse

/-- The tool keeps the lines that C keeps, and no frame is left. -/
structure Keeps (letter : Char → Bool) (d : Definitions) (text : List Char)
    (t : Text Line Condition) : Prop where
  lines : (preprocess letter d text).out = t.kept d.holds
  result : preprocessText letter d text = ['\n'].intercalate (t.kept d.holds)
  stack : (preprocess letter d text).stack = []

def nested : Text Line Condition :=
  .group "  # if B".toList (.value "B".toList)
    (.group "#\tifndef A".toList (.undefined "A".toList) (.line "int x;".toList .nil)
      (.otherwise "# else // A".toList (.line "int y;".toList .nil) "#endif/* A */".toList) .nil)
    (.elif "#elif C /* c */".toList (.value "C /* c */".toList) (.line "int z;".toList .nil)
      (.closing "#endif // B".toList))
    (.line "#define D".toList .nil)

def nestedText : List Char :=
  ("  # if B\r\n#\tifndef A\nint x;\n# else // A\nint y;\n#endif/* A */\n" ++
    "#elif C /* c */\nint z;\n#endif // B\n#define D").toList

/-- A comment after the name of an `#ifdef`. -/
def commented : Text Line Condition :=
  .group "#ifdef A // c".toList (.defined "A".toList) (.line "int x;".toList .nil)
    (.otherwise "#else".toList (.line "int y;".toList .nil) "#endif".toList) .nil

def commentedText : List Char := "#ifdef A // c\nint x;\n#else\nint y;\n#endif".toList

theorem reads_none_of_start {c : Char} {cs : Line} {operand : Mark Condition → Line → Prop}
    (hc : c ≠ ' ' ∧ c ≠ '\t' ∧ c ≠ '/' ∧ c ≠ '#') :
    Reads (Spelled Gap operand) (c :: cs) none := by
  rintro m ⟨lead, hash, rest, hlead, -, -, h⟩
  cases lead with
  | nil => exact hc.2.2.2 (List.cons.inj h).1
  | cons b lead =>
    obtain rfl := (List.cons.inj h).1
    rcases hlead.head c rfl with rfl | rfl | rfl <;> simp at hc

theorem commented_marked : commented.Marked (Reads (Spelled Gap Allowed)) := by
  refine ⟨⟨[], [], " A // c".toList, .nil, .nil, ?_, rfl⟩,
    ⟨reads_none_of_start (by decide), trivial⟩,
    ⟨⟨[], [], [], .nil, .nil, .gap .nil, rfl⟩, ⟨reads_none_of_start (by decide), trivial⟩,
      ⟨[], [], [], .nil, .nil, .gap .nil, rfl⟩⟩, trivial⟩
  have htail : Tail ([' '] ++ '/' :: '/' :: " c".toList) := .comment (.blank (Or.inl rfl) .nil)
  exact ⟨[' '], " // c".toList, by simp, .blank (Or.inl rfl) .nil, by decide, htail, rfl⟩

theorem commented_attained : commented.Attained Definitions.holds Set.univ := by
  have hyes : {e : Definitions | e ∈ Set.univ ∧ e.holds (.defined "A".toList)}.Nonempty :=
    ⟨⟨fun _ => false, fun _ => true⟩, trivial, rfl⟩
  have hno : {e : Definitions | e ∈ Set.univ ∧ ¬ e.holds (.defined "A".toList)}.Nonempty :=
    ⟨⟨fun _ => false, fun _ => false⟩, trivial, by simp [Definitions.holds]⟩
  exact ⟨hyes.mono (Set.subset_univ _), ⟨hyes, trivial⟩, ⟨hyes, ⟨hno, trivial⟩, hno⟩, trivial⟩

end UniHal.ClockMap.Preprocess
