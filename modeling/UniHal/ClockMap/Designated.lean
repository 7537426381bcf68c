import UniHal.ClockMap.Comments
import UniHal.ClockMap.ConditionPatterns
import UniHal.ClockMap.PllOutputs
import UniHal.Foundations.LeftmostMatches

/-! # The initialisers of a configuration

The tool finds the numbers of the PLLs in the text of a configuration with patterns that know
nothing of what stands around them. What they find is what C initialises, for every text in which
no other period stands in front of a name that they look for and the sign that goes with it.
-/

namespace UniHal.ClockMap.Designated
open Foundations Characters LeftmostMatches Conditions

/-- `\s*` and a character; what is left -/
def symbol (c : Char) (text : List Char) : Option (List Char) := (lstrip text).dropPrefix? [c]

/-- `[^,;}]` -/
def isValueChar (c : Char) : Bool := c != ',' && c != ';' && c != '}'

/-- `\.field\s*=\s*([^,;}]+)`, with the second gap in the group: the group is stripped later -/
def designatedAt (field text : List Char) : Option (List Char × List Char) :=
  ((text.dropPrefix? ('.' :: field)).bind (symbol '=')).bind fun rest =>
    if rest.takeWhile isValueChar = [] then none
    else some (rest.takeWhile isValueChar, rest.dropWhile isValueChar)

/-- `(.*?)\}` -/
def closedAt (text : List Char) : Option (List Char × List Char) :=
  ((text.dropWhile fun c => c != '}').dropPrefix? ['}']).map fun after =>
    (text.takeWhile fun c => c != '}', after)

/-- `([0-9]+)\s*\]\s*=\s*\{(.*?)\}`, the number and what stands between the braces -/
def indexedAt (text : List Char) : Option ((ℕ × List Char) × List Char) :=
  if text.takeWhile isDigit = [] then none
  else
    ((((symbol ']' (text.dropWhile isDigit)).bind (symbol '=')).bind (symbol '{')).bind
      closedAt).map fun found => ((number 10 (text.takeWhile isDigit), found.1), found.2)

def pllName : List Char := ['p', 'l', 'l']

/-- `\.pll\s*\[\s*([0-9]+)\s*\]\s*=\s*\{(.*?)\}` -/
def pllAt (text : List Char) : Option ((ℕ × List Char) × List Char) :=
  ((text.dropPrefix? ('.' :: pllName)).bind (symbol '[')).bind fun rest => indexedAt (lstrip rest)

theorem symbol_eq_some {c : Char} {text rest : List Char} (h : symbol c text = some rest) :
    ∃ gap, Spaces gap ∧ text = gap ++ c :: rest := by
  obtain ⟨pre, hpre, hpre'⟩ := List.dropPrefix?_eq_some_iff.mp h
  obtain ⟨gap, hgap, -, htext⟩ := lstrip_eq_iff.mp (Eq.refl (lstrip text))
  exact ⟨gap, hgap, by rw [htext, hpre, eq_of_beq hpre', List.singleton_append]⟩

theorem symbol_append {c : Char} (hc : isSpace c = false) {gap : List Char} (hgap : Spaces gap)
    (rest : List Char) : symbol c (gap ++ c :: rest) = some rest := by
  have hstrip : lstrip (gap ++ c :: rest) = c :: rest := by
    refine lstrip_eq_iff.mpr ⟨gap, hgap, fun b hb => ?_, rfl⟩
    rwa [← Option.some.inj hb]
  rw [symbol, hstrip]
  exact List.dropPrefix?_eq_some_iff.mpr ⟨[c], rfl, beq_self_eq_true _⟩

theorem dropPrefix?_append (pre rest : List Char) :
    (pre ++ rest).dropPrefix? pre = some rest :=
  List.dropPrefix?_eq_some_iff.mpr ⟨pre, rfl, beq_self_eq_true _⟩

/-- A group ends in front of the first character that is not in it. -/
theorem takeWhile_append_of_head {accepted : Char → Bool} {text rest : List Char}
    (h : ∀ c ∈ text, accepted c = true) (hrest : ∀ c ∈ rest.head?, accepted c = false) :
    (text ++ rest).takeWhile accepted = text ∧ (text ++ rest).dropWhile accepted = rest := by
  rw [List.takeWhile_append_of_pos h, List.dropWhile_append_of_pos h]
  cases rest with
  | nil => simp
  | cons c rest =>
    have hc : ¬ accepted c = true := by simp [hrest c rfl]
    rw [List.takeWhile_cons_of_neg hc, List.dropWhile_cons_of_neg hc, List.append_nil]
    exact ⟨rfl, rfl⟩

theorem designatedAt_eq_some {field text group after : List Char}
    (h : designatedAt field text = some (group, after)) :
    ∃ gap, Spaces gap ∧ text = '.' :: (field ++ (gap ++ '=' :: (group ++ after))) := by
  obtain ⟨rest, hrest, hgroup⟩ := Option.bind_eq_some_iff.mp h
  obtain ⟨behind, hbehind, hsymbol⟩ := Option.bind_eq_some_iff.mp hrest
  obtain ⟨pre, hpre, hpre'⟩ := List.dropPrefix?_eq_some_iff.mp hbehind
  obtain ⟨gap, hgap, hgap'⟩ := symbol_eq_some hsymbol
  obtain ⟨hgroup', hafter⟩ : rest.takeWhile isValueChar = group ∧
      rest.dropWhile isValueChar = after := by
    simpa [ite_eq_iff] using (Option.ite_none_left_eq_some.mp hgroup).2
  refine ⟨gap, hgap, ?_⟩
  rw [hpre, eq_of_beq hpre', hgap', ← hgroup', ← hafter, List.takeWhile_append_dropWhile,
    List.cons_append]

theorem length_lt_of_symbol {c : Char} {text rest : List Char} (h : symbol c text = some rest) :
    rest.length < text.length := by
  obtain ⟨gap, -, rfl⟩ := symbol_eq_some h
  simp only [List.length_append, List.length_cons]
  omega

theorem length_lt_of_closedAt {text body after : List Char}
    (h : closedAt text = some (body, after)) : after.length < text.length := by
  obtain ⟨rest, hrest, heq⟩ := Option.map_eq_some_iff.mp h
  obtain ⟨-, rfl⟩ := Prod.mk.injEq .. ▸ heq
  obtain ⟨pre, hpre, hpre'⟩ := List.dropPrefix?_eq_some_iff.mp hrest
  have hdrop := (List.dropWhile_sublist (fun c => c != '}') (l := text)).length_le
  rw [hpre, eq_of_beq hpre', List.length_append, List.length_singleton] at hdrop
  omega

theorem length_lt_of_indexedAt {text after : List Char} {found : ℕ × List Char}
    (h : indexedAt text = some (found, after)) : after.length < text.length := by
  obtain ⟨closed, hclosed, heq⟩ := Option.map_eq_some_iff.mp
    (Option.ite_none_left_eq_some.mp h).2
  obtain ⟨rest₃, hrest₃, hafter⟩ := Option.bind_eq_some_iff.mp hclosed
  obtain ⟨rest₂, hrest₂, hbrace⟩ := Option.bind_eq_some_iff.mp hrest₃
  obtain ⟨rest₁, hrest₁, hequals⟩ := Option.bind_eq_some_iff.mp hrest₂
  have hdrop := (List.dropWhile_sublist isDigit (l := text)).length_le
  have h₁ := length_lt_of_symbol hrest₁
  have h₂ := length_lt_of_symbol hequals
  have h₃ := length_lt_of_symbol hbrace
  have h₄ := length_lt_of_closedAt hafter
  have hlast : closed.2 = after := congrArg Prod.snd heq
  rw [hlast] at h₄
  omega

theorem pllAt_eq_some {text after : List Char} {found : ℕ × List Char}
    (h : pllAt text = some (found, after)) :
    ∃ gap rest, Spaces gap ∧ text = '.' :: (pllName ++ (gap ++ '[' :: rest)) ∧
      indexedAt (lstrip rest) = some (found, after) := by
  obtain ⟨rest, hrest, hindexed⟩ := Option.bind_eq_some_iff.mp h
  obtain ⟨behind, hbehind, hsymbol⟩ := Option.bind_eq_some_iff.mp hrest
  obtain ⟨pre, hpre, hpre'⟩ := List.dropPrefix?_eq_some_iff.mp hbehind
  obtain ⟨gap, hgap, hgap'⟩ := symbol_eq_some hsymbol
  refine ⟨gap, rest, hgap, ?_, hindexed⟩
  rw [hpre, eq_of_beq hpre', hgap', List.cons_append]

theorem length_lt_of_designatedAt (field text group after : List Char)
    (h : designatedAt field text = some (group, after)) : after.length < text.length := by
  obtain ⟨gap, -, rfl⟩ := designatedAt_eq_some h
  simp only [List.length_append, List.length_cons]
  omega

theorem length_lt_of_pllAt (text : List Char) (found : ℕ × List Char) (after : List Char)
    (h : pllAt text = some (found, after)) : after.length < text.length := by
  obtain ⟨gap, rest, -, rfl, hindexed⟩ := pllAt_eq_some h
  have hafter := length_lt_of_indexedAt hindexed
  have hstrip := (List.dropWhile_sublist isSpace (l := rest)).length_le
  rw [lstrip] at hafter
  simp only [List.length_append, List.length_cons]
  omega

def designated (field : List Char) : Pattern Char (List Char) :=
  ⟨designatedAt field, length_lt_of_designatedAt field⟩

def pll : Pattern Char (ℕ × List Char) := ⟨pllAt, length_lt_of_pllAt⟩

def dedupKeepOrder (values : List (List Char)) : List (List Char) :=
  values.foldl (fun out value => if value ∈ out then out else out ++ [value]) []

/-- `pick_first_number`, with no default -/
def pickFirstNumber (values : List (List Char)) : Option ℕ := values.findSome? parseInt

def collectGroup1 (pattern : Pattern Char (List Char)) (text : List Char) : List (List Char) :=
  dedupKeepOrder (((pattern.findAll text).map strip).filter fun group => group ≠ [])

def extractDesignated (text field : List Char) : List (List Char) :=
  collectGroup1 (designated field) text

/-- The numbers of a body in `parse_pll_configs`. -/
def readConfig (body : List Char) : PllConfig where
  m := pickFirstNumber (extractDesignated body ['m'])
  n := pickFirstNumber (extractDesignated body ['n'])
  p := pickFirstNumber (extractDesignated body ['p'])
  q := pickFirstNumber (extractDesignated body ['q'])
  r := pickFirstNumber (extractDesignated body ['r'])
  fracn := pickFirstNumber (extractDesignated body ['f', 'r', 'a', 'c', 'n'])

structure PllRecord where
  idx : ℕ
  config : PllConfig

def PllRecord.hasNumber (record : PllRecord) : Bool :=
  [record.config.m, record.config.n, record.config.p, record.config.q, record.config.r,
    record.config.fracn].any Option.isSome

def parsePllConfigs (text : List Char) : List PllRecord :=
  (((pll.findAll text).map fun found => ⟨found.1 + 1, readConfig found.2⟩).filter
    PllRecord.hasNumber).mergeSort fun a b => a.idx ≤ b.idx

/-- `pll_outputs`: an output that the dictionary does not have is not there. -/
abbrev PllOutputs := ℕ × Output → Option (Option ℕ)

def addOutput (sourceHz : Option ℕ) (record : PllRecord) (outputs : PllOutputs) (o : Output) :
    PllOutputs :=
  if (record.config.divider o).getD 0 = 0 then outputs
  else Function.update outputs (record.idx, o)
    (some (divHz (mulDivHz sourceHz record.config.n record.config.m) (record.config.divider o)))

def addOutputs (sourceHz : Option ℕ) (outputs : PllOutputs) (record : PllRecord) : PllOutputs :=
  [Output.p, .q, .r].foldl (addOutput sourceHz record) outputs

def pllOutputs (sourceHz : Option ℕ) (records : List PllRecord) : PllOutputs :=
  records.foldl (addOutputs sourceHz) fun _ => none

inductive Key
  | m | n | p | q | r | fracn
  deriving DecidableEq, Repr

def Key.name : Key → List Char
  | .m => ['m']
  | .n => ['n']
  | .p => ['p']
  | .q => ['q']
  | .r => ['r']
  | .fracn => ['f', 'r', 'a', 'c', 'n']

def get (config : PllConfig) : Key → Option ℕ
  | .m => config.m
  | .n => config.n
  | .p => config.p
  | .q => config.q
  | .r => config.r
  | .fracn => config.fracn

inductive Value
  | number (gap : List Char) (literal : Literal) (gap' : List Char)
  | other (chars : List Char)

structure Field where
  name : List Char
  gap : List Char
  value : Value

inductive Piece
  | field (f : Field)
  | other (chars : List Char)

structure Entry where
  gap₁ : List Char
  gap₂ : List Char
  index : Digits
  gap₃ : List Char
  gap₄ : List Char
  gap₅ : List Char
  body : List Piece

/-- The initialiser of a PLL, or anything else. -/
inductive Part
  | entry (e : Entry)
  | other (chars : List Char)

def Value.text : Value → List Char
  | number gap literal gap' => gap ++ (literal.text ++ gap')
  | other chars => chars

def Field.text (f : Field) : List Char := '.' :: (f.name ++ (f.gap ++ '=' :: f.value.text))

def Piece.text : Piece → List Char
  | field f => f.text
  | other chars => chars

def bodyText (body : List Piece) : List Char := body.flatMap Piece.text

def Entry.text (e : Entry) : List Char :=
  '.' :: (pllName ++ (e.gap₁ ++ '[' :: (e.gap₂ ++ (e.index.text ++ (e.gap₃ ++ ']' ::
    (e.gap₄ ++ '=' :: (e.gap₅ ++ '{' :: (bodyText e.body ++ ['}']))))))))

def Part.text : Part → List Char
  | entry e => e.text
  | other chars => chars

def sourceText (source : List Part) : List Char := source.flatMap Part.text

def Piece.field? : Piece → Option Field
  | field f => some f
  | other _ => none

def Part.entry? : Part → Option Entry
  | entry e => some e
  | other _ => none

def Value.number? : Value → Option ℕ
  | number _ literal _ => some literal.digits.value
  | other _ => none

def Entry.initial (e : Entry) (key : Key) : Option ℕ :=
  (((e.body.filterMap Piece.field?).filter fun f => f.name = key.name).getLast?).bind fun f =>
    f.value.number?

/-- The number a PLL is initialised to; what is not initialised is zero. The last initialiser of a
PLL counts. -/
def initial (source : List Part) (index : ℕ) (key : Key) : Option ℕ :=
  (((source.filterMap Part.entry?).filter fun e => e.index.value = index).getLast?).bind fun e =>
    e.initial key

def follow (text : List Char) : Option Char := (lstrip (text.dropWhile isIdentChar)).head?

def announces (names : List (List Char)) (sign : Char) (text : List Char) : Bool :=
  decide (text.takeWhile isIdentChar ∈ names) && decide (follow text = some sign)

/-- No period of the text stands in front of one of the names and the sign; a name can go on behind
the text. -/
def quiet (names : List (List Char)) (sign : Char) : List Char → List Char → Bool
  | [], _ => true
  | c :: text, rest =>
    (c != '.' || !announces names sign (text ++ rest)) && quiet names sign text rest

def keyNames : List (List Char) := [Key.m, .n, .p, .q, .r, .fracn].map Key.name

def Value.Wf : Value → Prop
  | number gap literal gap' => Spaces gap ∧ literal.Wf ∧ Spaces gap'
  | other chars => chars ≠ [] ∧ ∀ c ∈ chars, isValueChar c = true

def Value.Plain : Value → Prop
  | number _ literal _ => literal.digits.misread.value = literal.digits.value
  | other _ => False

structure Field.Wf (f : Field) : Prop where
  name : isIdent f.name = true
  gap : Spaces f.gap
  value : f.value.Wf
  plain : ∀ key : Key, f.name = key.name → f.value.Plain

def Delimited (text : List Char) : Prop := ∀ c ∈ text.head?, isValueChar c = false

def BodyWf : List Piece → Prop
  | [] => True
  | .field f :: body =>
    f.Wf ∧ Delimited (bodyText body) ∧ quiet keyNames '=' f.value.text (bodyText body) = true ∧
      BodyWf body
  | .other chars :: body => quiet keyNames '=' chars (bodyText body) = true ∧ BodyWf body

structure Entry.Wf (e : Entry) : Prop where
  gap₁ : Spaces e.gap₁
  gap₂ : Spaces e.gap₂
  index : e.index.Wf
  decimal : isDecimal e.index.text = true
  plain : e.index.misread.value = e.index.value
  gap₃ : Spaces e.gap₃
  gap₄ : Spaces e.gap₄
  gap₅ : Spaces e.gap₅
  body : BodyWf e.body
  /-- the first closing brace is that of the initialiser -/
  closed : ∀ c ∈ bodyText e.body, (c != '}') = true
  names : ((e.body.filterMap Piece.field?).map Field.name).Nodup

def PartsWf : List Part → Prop
  | [] => True
  | .entry e :: source => e.Wf ∧ PartsWf source
  | .other chars :: source => quiet [pllName] '[' chars (sourceText source) = true ∧ PartsWf source

structure SourceWf (source : List Part) : Prop where
  parts : PartsWf source
  indices : ((source.filterMap Part.entry?).map fun e => e.index.value).Nodup

theorem Key.isIdentChar_name (key : Key) : ∀ c ∈ key.name, isIdentChar c = true :=
  List.all_eq_true.mp (by cases key <;> decide)

theorem follow_name {name gap : List Char} (hname : ∀ c ∈ name, isIdentChar c = true)
    (hgap : Spaces gap) {c : Char} (hident : isIdentChar c = false) (hspace : isSpace c = false)
    (rest : List Char) : follow (name ++ (gap ++ c :: rest)) = some c := by
  have hstrip : lstrip (gap ++ c :: rest) = c :: rest := by
    refine lstrip_eq_iff.mpr ⟨gap, hgap, fun b hb => ?_, rfl⟩
    rwa [← Option.some.inj hb]
  rw [follow, dropWhile_append_of_ended hname (hgap.ended_append (ended_cons hident rest)), hstrip]
  rfl

theorem announces_name {names : List (List Char)} {name gap : List Char} (hmem : name ∈ names)
    (hname : ∀ c ∈ name, isIdentChar c = true) (hgap : Spaces gap) {sign : Char}
    (hident : isIdentChar sign = false) (hspace : isSpace sign = false) (rest : List Char) :
    announces names sign (name ++ (gap ++ sign :: rest)) = true := by
  have hended : Ended (gap ++ sign :: rest) := hgap.ended_append (ended_cons hident rest)
  rw [announces, Bool.and_eq_true, decide_eq_true_iff, decide_eq_true_iff]
  exact ⟨by rwa [takeWhile_append_of_ended hname hended], follow_name hname hgap hident hspace rest⟩

def Announced {β : Type} (p : Pattern Char β) (names : List (List Char)) (sign : Char) : Prop :=
  ∀ text found, p.atStart text = some found →
    ∃ rest, text = '.' :: rest ∧ announces names sign rest = true

theorem announced_designated (key : Key) : Announced (designated key.name) keyNames '=' := by
  rintro text ⟨group, after⟩ hfound
  obtain ⟨gap, hgap, rfl⟩ := designatedAt_eq_some hfound
  have hmem : key.name ∈ keyNames := by cases key <;> decide
  exact ⟨_, rfl, announces_name hmem key.isIdentChar_name hgap (by decide) (by decide) _⟩

theorem announced_pll : Announced pll [pllName] '[' := by
  rintro text ⟨found, after⟩ hfound
  obtain ⟨gap, rest, hgap, rfl, -⟩ := pllAt_eq_some hfound
  exact ⟨_, rfl, announces_name List.mem_cons_self (List.all_eq_true.mp (by decide)) hgap
    (by decide) (by decide) _⟩

variable {β : Type} {p : Pattern Char β} {names : List (List Char)} {sign : Char}

theorem Announced.findAll_append (hp : Announced p names sign) {junk rest : List Char}
    (h : quiet names sign junk rest = true) : p.findAll (junk ++ rest) = p.findAll rest := by
  induction junk with
  | nil => rfl
  | cons c junk ih =>
    obtain ⟨hhere, hjunk⟩ := Bool.and_eq_true_iff.mp h
    rw [List.cons_append, Pattern.findAll_cons_of_none, ih hjunk]
    by_contra hsome
    obtain ⟨found, hfound⟩ := Option.ne_none_iff_exists'.mp hsome
    obtain ⟨behind, htext, hannounces⟩ := hp _ found hfound
    obtain ⟨rfl, rfl⟩ := List.cons_eq_cons.mp htext
    rw [hannounces] at hhere
    exact absurd hhere (by decide)

theorem quiet_of_notMem {text : List Char} (h : '.' ∉ text) (rest : List Char) :
    quiet names sign text rest = true := by
  induction text with
  | nil => rfl
  | cons c text ih =>
    obtain ⟨hc, htext⟩ : '.' ≠ c ∧ '.' ∉ text := by simpa using h
    have hne : (c != '.') = true := bne_iff_ne.mpr (Ne.symm hc)
    rw [quiet, hne, ih htext]
    rfl

theorem quiet_append {text text' rest : List Char}
    (h : quiet names sign text (text' ++ rest) = true) (h' : quiet names sign text' rest = true) :
    quiet names sign (text ++ text') rest = true := by
  induction text with
  | nil => exact h'
  | cons c text ih =>
    obtain ⟨hhere, htext⟩ := Bool.and_eq_true_iff.mp h
    rw [List.cons_append, quiet, List.append_assoc, hhere, ih htext]
    rfl

theorem isValueChar_of_isIdentChar {c : Char} (h : isIdentChar c = true) :
    isValueChar c = true ∧ c ≠ '.' := by
  refine ⟨?_, ?_⟩
  · simp only [isValueChar, Bool.and_eq_true, bne_iff_ne]
    refine ⟨⟨?_, ?_⟩, ?_⟩ <;> rintro rfl <;> simp [isIdentChar] at h
  · rintro rfl
    simp [isIdentChar] at h

theorem isValueChar_of_isSpace {c : Char} (h : isSpace c = true) :
    isValueChar c = true ∧ c ≠ '.' := by
  refine ⟨?_, ?_⟩
  · simp only [isValueChar, Bool.and_eq_true, bne_iff_ne]
    refine ⟨⟨?_, ?_⟩, ?_⟩ <;> rintro rfl <;> simp [isSpace] at h
  · rintro rfl
    simp [isSpace] at h

theorem Value.Wf.ne_nil {v : Value} (h : v.Wf) : v.text ≠ [] := by
  cases v with
  | number gap literal gap' => simp [Value.text, h.2.1.text_ne_nil]
  | other chars => exact h.1

theorem Value.Wf.isValueChar {v : Value} (h : v.Wf) :
    ∀ c ∈ v.text, isValueChar c = true := by
  intro c hc
  cases v with
  | number gap literal gap' =>
    obtain ⟨hgap, hliteral, hgap'⟩ := h
    rcases List.mem_append.mp hc with hc | hc
    · exact (isValueChar_of_isSpace (hgap c hc)).1
    · rcases List.mem_append.mp hc with hc | hc
      · exact (isValueChar_of_isIdentChar (hliteral.isIdentChar c hc)).1
      · exact (isValueChar_of_isSpace (hgap' c hc)).1
  | other chars => exact h.2 c hc

variable {f : Field}

theorem Field.Wf.designatedAt_eq (h : f.Wf) {rest : List Char} (hrest : Delimited rest) :
    designatedAt f.name (f.text ++ rest) = some (f.value.text, rest) := by
  obtain ⟨htake, hdrop⟩ := takeWhile_append_of_head h.value.isValueChar hrest
  have htext : f.text ++ rest =
      ('.' :: f.name) ++ (f.gap ++ '=' :: (f.value.text ++ rest)) := by
    simp [Field.text]
  rw [designatedAt, htext, dropPrefix?_append, Option.bind_some,
    symbol_append (by decide) h.gap, Option.bind_some, htake, hdrop, if_neg h.value.ne_nil]

theorem Field.Wf.designatedAt_eq_none (h : f.Wf) {field : List Char}
    (hfield : ∀ c ∈ field, isIdentChar c = true) (hne : f.name ≠ field) (rest : List Char) :
    designatedAt field (f.text ++ rest) = none := by
  by_contra hsome
  obtain ⟨⟨group, after⟩, hfound⟩ := Option.ne_none_iff_exists'.mp hsome
  obtain ⟨gap, hgap, htext⟩ := designatedAt_eq_some hfound
  have hended {gap : List Char} (hgap : Spaces gap) (rest : List Char) :
      Ended (gap ++ '=' :: rest) := hgap.ended_append (ended_cons (by decide) rest)
  have hname : f.name ++ (f.gap ++ '=' :: (f.value.text ++ rest)) =
      field ++ (gap ++ '=' :: (group ++ after)) := by
    simpa [Field.text] using htext
  apply hne
  calc f.name = (f.name ++ (f.gap ++ '=' :: (f.value.text ++ rest))).takeWhile isIdentChar :=
        (takeWhile_append_of_ended (isIdentChar_of_isIdent h.name) (hended h.gap _)).symm
    _ = field := by rw [hname, takeWhile_append_of_ended hfield (hended hgap _)]

/-- Behind the period of a member there is no other up to its value. -/
theorem Field.Wf.quiet_text (h : f.Wf) {rest : List Char}
    (hvalue : quiet names sign f.value.text rest = true) :
    quiet names sign (f.name ++ (f.gap ++ '=' :: f.value.text)) rest = true := by
  have hdot : '.' ∉ f.name ++ (f.gap ++ ['=']) := by
    intro hmem
    rcases List.mem_append.mp hmem with hc | hc
    · exact (isValueChar_of_isIdentChar (isIdentChar_of_isIdent h.name _ hc)).2 rfl
    · rcases List.mem_append.mp hc with hc | hc
      · exact (isValueChar_of_isSpace (h.gap _ hc)).2 rfl
      · exact absurd hc (by decide)
  have happend := quiet_append (quiet_of_notMem hdot (f.value.text ++ rest)) hvalue
  simpa using happend

/-- The pattern of a name finds the initialisers of that name. -/
theorem findAll_bodyText {body : List Piece} (h : BodyWf body) (key : Key) :
    (designated key.name).findAll (bodyText body) =
      ((body.filterMap Piece.field?).filter fun f => f.name = key.name).map
        fun f => f.value.text := by
  induction body with
  | nil => rfl
  | cons piece body ih =>
    rw [bodyText, List.flatMap_cons, ← bodyText]
    cases piece with
    | field f =>
      obtain ⟨hf, hdelimited, hquiet, hbody⟩ := h
      rw [Piece.text, List.filterMap_cons_some (by rfl), List.filter_cons]
      by_cases hname : f.name = key.name
      · have hstart : (designated key.name).atStart (f.text ++ bodyText body) =
            some (f.value.text, bodyText body) := by
          rw [← hname]
          exact hf.designatedAt_eq hdelimited
        rw [Pattern.findAll_of_some hstart, ih hbody, if_pos (by simpa using hname)]
        rfl
      · have hnone : (designated key.name).atStart (f.text ++ bodyText body) = none :=
          hf.designatedAt_eq_none key.isIdentChar_name hname _
        rw [Field.text, List.cons_append] at hnone ⊢
        rw [Pattern.findAll_cons_of_none hnone,
          (announced_designated key).findAll_append (hf.quiet_text hquiet), ih hbody,
          if_neg (by simpa using hname)]
    | other chars =>
      rw [Piece.text, (announced_designated key).findAll_append h.1, ih h.2,
        List.filterMap_cons_none (by rfl)]

theorem findSome?_foldl_dedup (f : List Char → Option ℕ) (values out : List (List Char)) :
    (values.foldl (fun out value => if value ∈ out then out else out ++ [value]) out).findSome? f =
      (out ++ values).findSome? f := by
  induction values generalizing out with
  | nil => rw [List.foldl_nil, List.append_nil]
  | cons value values ih =>
    rw [List.foldl_cons, ih]
    by_cases hmem : value ∈ out
    · rw [if_pos hmem, List.findSome?_append, List.findSome?_append, List.findSome?_cons]
      cases hvalue : f value with
      | none => rfl
      | some number =>
        have hsome : (out.findSome? f).isSome := List.findSome?_isSome_iff.mpr
          ⟨value, hmem, by rw [hvalue]; rfl⟩
        obtain ⟨first, hfirst⟩ := Option.isSome_iff_exists.mp hsome
        rw [hfirst]
        rfl
    · rw [if_neg hmem, List.append_assoc, List.singleton_append]

theorem findSome?_filter_ne_nil (values : List (List Char)) :
    (values.filter fun value => value ≠ []).findSome? parseInt = values.findSome? parseInt := by
  induction values with
  | nil => rfl
  | cons value values ih =>
    rw [List.filter_cons, List.findSome?_cons]
    by_cases hvalue : value = []
    · subst hvalue
      rw [if_neg (by simp), ih]
      rfl
    · rw [if_pos (by simpa using hvalue), List.findSome?_cons, ih]

/-- That a value is dropped or left out as a double does not change the first number. -/
theorem pickFirstNumber_extractDesignated (text field : List Char) :
    pickFirstNumber (extractDesignated text field) =
      ((designated field).findAll text).findSome? fun group => parseInt (strip group) := by
  rw [pickFirstNumber, extractDesignated, collectGroup1, dedupKeepOrder, findSome?_foldl_dedup,
    List.nil_append, findSome?_filter_ne_nil, List.findSome?_map]
  rfl

/-- Where no two elements have one key, a key has one element. -/
theorem filter_eq_singleton {α γ : Type} [DecidableEq γ] {g : α → γ} {l : List α}
    (h : (l.map g).Nodup) {x : α} (hx : x ∈ l) : (l.filter fun y => g y = g x) = [x] := by
  induction l with
  | nil => cases hx
  | cons y l ih =>
    rw [List.map_cons, List.nodup_cons] at h
    rw [List.filter_cons]
    rcases List.mem_cons.mp hx with rfl | hmem
    · have hnone : (l.filter fun y => g y = g x) = [] :=
        List.filter_eq_nil_iff.mpr fun y hy => by
          have hne : g y ≠ g x := fun heq => h.1 (heq ▸ List.mem_map_of_mem hy)
          simpa using hne
      rw [if_pos (by simp), hnone]
    · have hne : g y ≠ g x := fun heq => h.1 (heq ▸ List.mem_map_of_mem hmem)
      rw [if_neg (by simpa using hne), ih h.2 hmem]

theorem Value.Wf.parseInt_strip {v : Value} (h : v.Wf) (hplain : v.Plain) :
    parseInt (strip v.text) = v.number? := by
  cases v with
  | number gap literal gap' =>
    obtain ⟨hgap, hliteral, hgap'⟩ := h
    have hsolid := solid_of_isIdentChar hliteral.text_ne_nil hliteral.isIdentChar
    rw [Value.text, hsolid.strip_eq hgap hgap', hliteral.parseInt_text, hplain]
    rfl
  | other chars => cases hplain

theorem wf_of_mem_body {body : List Piece} (h : BodyWf body) {f : Field}
    (hf : f ∈ body.filterMap Piece.field?) : f.Wf := by
  induction body with
  | nil => cases hf
  | cons piece body ih =>
    cases piece with
    | field f' =>
      rw [List.filterMap_cons_some (by rfl)] at hf
      rcases List.mem_cons.mp hf with rfl | hf
      · exact h.1
      · exact ih h.2.2.2 hf
    | other chars =>
      rw [List.filterMap_cons_none (by rfl)] at hf
      exact ih h.2 hf

/-- The tool takes from a body the numbers that C initialises. -/
theorem get_readConfig {e : Entry} (h : e.Wf) (key : Key) :
    get (readConfig (bodyText e.body)) key = e.initial key := by
  have hget : get (readConfig (bodyText e.body)) key =
      pickFirstNumber (extractDesignated (bodyText e.body) key.name) := by cases key <;> rfl
  rw [hget, pickFirstNumber_extractDesignated, findAll_bodyText h.body key, List.findSome?_map,
    Entry.initial]
  by_cases hmem : ∃ f ∈ e.body.filterMap Piece.field?, f.name = key.name
  · obtain ⟨f, hf, hkey⟩ := hmem
    have hwf := wf_of_mem_body h.body hf
    have hone := filter_eq_singleton h.names hf
    rw [hkey] at hone
    rw [hone, List.getLast?_singleton, Option.bind_some, List.findSome?_cons, List.findSome?_nil,
      Function.comp_apply, hwf.value.parseInt_strip (hwf.plain key hkey)]
    cases f.value.number? <;> rfl
  · have hnone : ((e.body.filterMap Piece.field?).filter fun f => f.name = key.name) = [] :=
      List.filter_eq_nil_iff.mpr fun f hf => by simpa using fun heq => hmem ⟨f, hf, heq⟩
    rw [hnone]
    rfl

theorem number_index {e : Entry} (h : e.Wf) : number 10 e.index.text = e.index.value := by
  rcases h.index.read with ⟨hhex, -⟩ | ⟨-, -, hvalue⟩
  · obtain ⟨x, digits, htext, hx⟩ : ∃ x digits, e.index.text = '0' :: x :: digits ∧
        (x = 'x' ∨ x = 'X') := by
      unfold isHexadecimal at hhex
      split at hhex
      · next x digits heq =>
        simp only [Bool.and_eq_true, Bool.or_eq_true, beq_iff_eq] at hhex
        exact ⟨x, digits, heq, hhex.1.1⟩
      · simp at hhex
    have hdecimal := h.decimal
    rw [htext] at hdecimal
    rcases hx with rfl | rfl <;> simp [isDecimal, isDigit] at hdecimal
  · rw [hvalue, h.plain]

theorem Entry.Wf.isDigit_index {e : Entry} (h : e.Wf) : ∀ c ∈ e.index.text, isDigit c = true :=
  List.all_eq_true.mp (Bool.and_eq_true_iff.mp h.decimal).2

theorem Entry.Wf.index_ne_nil {e : Entry} (h : e.Wf) : e.index.text ≠ [] := by
  have hdecimal := (Bool.and_eq_true_iff.mp h.decimal).1
  simpa using hdecimal

theorem closedAt_append {body : List Char} (h : ∀ c ∈ body, (c != '}') = true) (rest : List Char) :
    closedAt (body ++ '}' :: rest) = some (body, rest) := by
  have hbrace : ∀ c ∈ ('}' :: rest).head?, (c != '}') = false := by
    simp
  obtain ⟨htake, hdrop⟩ := takeWhile_append_of_head h hbrace
  rw [closedAt, hdrop, htake, ← List.singleton_append, dropPrefix?_append]
  rfl

theorem indexedAt_append {e : Entry} (h : e.Wf) (rest : List Char) :
    indexedAt (e.index.text ++ (e.gap₃ ++ ']' :: (e.gap₄ ++ '=' :: (e.gap₅ ++ '{' ::
      (bodyText e.body ++ '}' :: rest))))) =
        some ((e.index.value, bodyText e.body), rest) := by
  have hended (rest : List Char) : Ended (e.gap₃ ++ ']' :: rest) :=
    h.gap₃.ended_append (ended_cons (by decide) rest)
  have hdigit {c : Char} (hc : isIdentChar c = false) : isDigit c = false := by
    by_contra hne
    rw [isIdentChar_of_isDigit (Bool.eq_true_of_not_eq_false hne)] at hc
    cases hc
  obtain ⟨htake, hdrop⟩ := takeWhile_append_of_head h.isDigit_index
    fun c hc => hdigit (hended (e.gap₄ ++ '=' :: (e.gap₅ ++ '{' ::
      (bodyText e.body ++ '}' :: rest))) c hc)
  rw [indexedAt, htake, hdrop, if_neg h.index_ne_nil, symbol_append (by decide) h.gap₃,
    Option.bind_some, symbol_append (by decide) h.gap₄, Option.bind_some,
    symbol_append (by decide) h.gap₅, Option.bind_some, closedAt_append h.closed, number_index h]
  rfl

theorem pllAt_append {e : Entry} (h : e.Wf) (rest : List Char) :
    pllAt (e.text ++ rest) = some ((e.index.value, bodyText e.body), rest) := by
  have htext : e.text ++ rest = ('.' :: pllName) ++ (e.gap₁ ++ '[' :: (e.gap₂ ++ (e.index.text ++
      (e.gap₃ ++ ']' :: (e.gap₄ ++ '=' :: (e.gap₅ ++ '{' ::
        (bodyText e.body ++ '}' :: rest))))))) := by
    simp [Entry.text]
  have hflush : Flush e.index.text := fun c hc =>
    isSpace_eq_false_of_isIdentChar
      (isIdentChar_of_isDigit (h.isDigit_index c (List.mem_of_mem_head? hc)))
  rw [htext, pllAt, dropPrefix?_append, Option.bind_some, symbol_append (by decide) h.gap₁,
    Option.bind_some, h.gap₂.lstrip_append, (hflush.append h.index_ne_nil _).lstrip_eq]
  exact indexedAt_append h rest

/-- The pattern of a PLL finds the initialisers of PLLs. -/
theorem findAll_sourceText {source : List Part} (h : PartsWf source) :
    pll.findAll (sourceText source) =
      (source.filterMap Part.entry?).map fun e => (e.index.value, bodyText e.body) := by
  induction source with
  | nil => rfl
  | cons part source ih =>
    rw [sourceText, List.flatMap_cons, ← sourceText]
    cases part with
    | entry e =>
      have hstart : pll.atStart (e.text ++ sourceText source) =
          some ((e.index.value, bodyText e.body), sourceText source) := pllAt_append h.1 _
      rw [Part.text, Pattern.findAll_of_some hstart, ih h.2, List.filterMap_cons_some (by rfl)]
      rfl
    | other chars =>
      rw [Part.text, announced_pll.findAll_append h.1, ih h.2, List.filterMap_cons_none (by rfl)]

theorem wf_of_mem_source {source : List Part} (h : PartsWf source) {e : Entry}
    (he : e ∈ source.filterMap Part.entry?) : e.Wf := by
  induction source with
  | nil => cases he
  | cons part source ih =>
    cases part with
    | entry e' =>
      rw [List.filterMap_cons_some (by rfl)] at he
      rcases List.mem_cons.mp he with rfl | he
      · exact h.1
      · exact ih h.2 he
    | other chars =>
      rw [List.filterMap_cons_none (by rfl)] at he
      exact ih h.2 he

def Key.ofOutput : Output → Key
  | .p => .p
  | .q => .q
  | .r => .r

/-- What the table has for an output of a PLL with the given numbers. -/
def outputEntry (sourceHz : Option ℕ) (numbers : Key → Option ℕ) (o : Output) :
    Option (Option ℕ) :=
  if (numbers (.ofOutput o)).getD 0 = 0 then none
  else some (divHz (mulDivHz sourceHz (numbers .n) (numbers .m)) (numbers (.ofOutput o)))

variable {sourceHz : Option ℕ}

theorem outputEntry_of_none {numbers : Key → Option ℕ} {o : Output}
    (h : numbers (.ofOutput o) = none) : outputEntry sourceHz numbers o = none := by
  rw [outputEntry, h]
  rfl

theorem addOutput_apply (outputs : PllOutputs) (record : PllRecord) (i : ℕ) (o o' : Output) :
    addOutput sourceHz record outputs o (i, o') =
      if record.idx = i ∧ o = o' then
        (outputEntry sourceHz (get record.config) o').or (outputs (i, o'))
      else outputs (i, o') := by
  have hget : get record.config (.ofOutput o) = record.config.divider o := by cases o <;> rfl
  by_cases hkey : record.idx = i ∧ o = o'
  · obtain ⟨rfl, rfl⟩ := hkey
    rw [if_pos ⟨rfl, rfl⟩, addOutput, outputEntry, hget]
    by_cases hzero : (record.config.divider o).getD 0 = 0
    · rw [if_pos hzero, if_pos hzero, Option.none_or]
    · rw [if_neg hzero, if_neg hzero, Function.update_self, Option.some_or]
      rfl
  · have hne : (i, o') ≠ (record.idx, o) := fun heq =>
      hkey ⟨(congrArg Prod.fst heq).symm, (congrArg Prod.snd heq).symm⟩
    rw [if_neg hkey, addOutput]
    split_ifs with hzero
    · rfl
    · rw [Function.update_of_ne hne]

/-- A record sets its own outputs, as far as they have a divider. -/
theorem addOutputs_apply (outputs : PllOutputs) (record : PllRecord) (i : ℕ) (o : Output) :
    addOutputs sourceHz outputs record (i, o) =
      if record.idx = i then
        (outputEntry sourceHz (get record.config) o).or (outputs (i, o))
      else outputs (i, o) := by
  rw [addOutputs, List.foldl_cons, List.foldl_cons, List.foldl_cons, List.foldl_nil,
    addOutput_apply, addOutput_apply, addOutput_apply]
  cases o <;> simp

theorem foldl_addOutputs_of_ne {records : List PllRecord} {i : ℕ}
    (h : ∀ record ∈ records, record.idx ≠ i) (outputs : PllOutputs) (o : Output) :
    records.foldl (addOutputs sourceHz) outputs (i, o) = outputs (i, o) := by
  induction records generalizing outputs with
  | nil => rfl
  | cons record records ih =>
    rw [List.foldl_cons, ih (fun r hr => h r (List.mem_cons_of_mem _ hr)), addOutputs_apply,
      if_neg (h record List.mem_cons_self)]

/-- With one record for each index, the order of the records does not matter. -/
theorem foldl_addOutputs_of_mem {records : List PllRecord}
    (h : (records.map PllRecord.idx).Nodup) {record : PllRecord} (hmem : record ∈ records)
    {outputs : PllOutputs} {o : Output} (hout : outputs (record.idx, o) = none) :
    records.foldl (addOutputs sourceHz) outputs (record.idx, o) =
      outputEntry sourceHz (get record.config) o := by
  induction records generalizing outputs with
  | nil => cases hmem
  | cons first records ih =>
    rw [List.map_cons, List.nodup_cons] at h
    rw [List.foldl_cons]
    rcases List.mem_cons.mp hmem with rfl | hmem
    · have hne : ∀ r ∈ records, r.idx ≠ record.idx := fun r hr heq =>
        h.1 (heq ▸ List.mem_map_of_mem hr)
      rw [foldl_addOutputs_of_ne hne, addOutputs_apply, if_pos rfl, hout, Option.or_none]
    · have hne : first.idx ≠ record.idx := fun heq => h.1 (heq ▸ List.mem_map_of_mem hmem)
      exact ih h.2 hmem (by rw [addOutputs_apply, if_neg hne, hout])

def recordOf (e : Entry) : PllRecord := ⟨e.index.value + 1, readConfig (bodyText e.body)⟩

theorem parsePllConfigs_perm {source : List Part} (h : PartsWf source) :
    (parsePllConfigs (sourceText source)).Perm
      (((source.filterMap Part.entry?).map recordOf).filter PllRecord.hasNumber) := by
  rw [parsePllConfigs, findAll_sourceText h, List.map_map]
  exact List.mergeSort_perm _ _

theorem hasNumber_iff (record : PllRecord) :
    record.hasNumber = true ↔ ∃ key, get record.config key ≠ none := by
  constructor
  · intro h
    simp only [PllRecord.hasNumber, List.any_cons, List.any_nil, Bool.or_false, Bool.or_eq_true,
      Option.isSome_iff_ne_none] at h
    rcases h with h | h | h | h | h | h
    · exact ⟨.m, h⟩
    · exact ⟨.n, h⟩
    · exact ⟨.p, h⟩
    · exact ⟨.q, h⟩
    · exact ⟨.r, h⟩
    · exact ⟨.fracn, h⟩
  · rintro ⟨key, hkey⟩
    have hsome := Option.isSome_iff_ne_none.mpr hkey
    cases key <;> simp only [get] at hsome <;> simp [PllRecord.hasNumber, hsome]

/-- For every source, the table that the tool computes from its text has exactly the outputs whose
dividers the source initialises to a number that is not zero, and each is computed from the numbers
to which the source initialises that PLL. -/
theorem pllOutputs_sourceText (source : List Part) (h : SourceWf source) (sourceHz : Option ℕ)
    (index : ℕ) (o : Output) :
    pllOutputs sourceHz (parsePllConfigs (sourceText source)) (index + 1, o) =
      outputEntry sourceHz (initial source index) o := by
  have hperm := parsePllConfigs_perm h.parts
  have hindices : ((parsePllConfigs (sourceText source)).map PllRecord.idx).Nodup := by
    refine ((hperm.map _).nodup_iff).mpr ?_
    refine (List.filter_sublist.map _).nodup ?_
    have hmap : ((source.filterMap Part.entry?).map recordOf).map PllRecord.idx =
        ((source.filterMap Part.entry?).map fun e => e.index.value).map (· + 1) := by
      rw [List.map_map, List.map_map]
      rfl
    rw [hmap]
    exact h.indices.map (add_left_injective 1)
  by_cases hentry : ∃ e ∈ source.filterMap Part.entry?, e.index.value = index
  · obtain ⟨e, he, rfl⟩ := hentry
    have hone := filter_eq_singleton h.indices he
    have hinitial : initial source e.index.value = get (recordOf e).config := by
      funext key
      rw [initial, hone, List.getLast?_singleton, Option.bind_some, recordOf,
        get_readConfig (wf_of_mem_source h.parts he)]
    rw [hinitial]
    by_cases hnumber : (recordOf e).hasNumber = true
    · have hmem : recordOf e ∈ parsePllConfigs (sourceText source) :=
        hperm.mem_iff.mpr (List.mem_filter.mpr ⟨List.mem_map_of_mem he, hnumber⟩)
      exact foldl_addOutputs_of_mem hindices hmem rfl
    · -- an initialiser without a number has no record
      have hnone (key : Key) : get (recordOf e).config key = none := by
        by_contra hkey
        exact hnumber ((hasNumber_iff _).mpr ⟨key, hkey⟩)
      rw [outputEntry_of_none (hnone _), pllOutputs, foldl_addOutputs_of_ne]
      intro record hrecord heq
      obtain ⟨hmem, hhas⟩ := List.mem_filter.mp (hperm.mem_iff.mp hrecord)
      obtain ⟨e', he', rfl⟩ := List.mem_map.mp hmem
      have hsame : e' = e := List.inj_on_of_nodup_map h.indices he' he (Nat.succ.inj heq)
      exact hnumber (hsame ▸ hhas)
  · have hnone (key : Key) : initial source index key = none := by
      have hempty : ((source.filterMap Part.entry?).filter fun e => e.index.value = index) = [] :=
        List.filter_eq_nil_iff.mpr fun e he => by simpa using fun heq => hentry ⟨e, he, heq⟩
      rw [initial, hempty]
      rfl
    rw [outputEntry_of_none (hnone _), pllOutputs, foldl_addOutputs_of_ne]
    intro record hrecord heq
    obtain ⟨hmem, -⟩ := List.mem_filter.mp (hperm.mem_iff.mp hrecord)
    obtain ⟨e, he, rfl⟩ := List.mem_map.mp hmem
    exact hentry ⟨e, he, Nat.succ.inj heq⟩

/-- So it is behind `strip_comments`: what counts is the source that C reads where the comments
stand. -/
theorem pllOutputs_stripComments (text : List Char) (hcovered : Comments.Covered text)
    (source : List Part) (hread : Comments.read text = sourceText source) (h : SourceWf source)
    (sourceHz : Option ℕ) (index : ℕ) (o : Output) :
    pllOutputs sourceHz (parsePllConfigs (Comments.stripComments text)) (index + 1, o) =
      outputEntry sourceHz (initial source index) o := by
  have hfirst : Comments.replaceBlocks text.length text = Comments.keepFrom (.code .none) text :=
    Comments.replaceBlocks_eq text.length (.code .none) text le_rfl rfl hcovered
  have hsecond : Comments.dropLines false (Comments.keepFrom (.code .none) text) =
      Comments.read text := Comments.dropLines_keepFrom (.code .none) text hcovered
  rw [Comments.stripComments, hfirst, hsecond, hread]
  exact pllOutputs_sourceText source h sourceHz index o

def onePllSource : List Part :=
  [.other ['c', '=', '{'],
    .entry
      { gap₁ := [], gap₂ := [], index := .octal [], gap₃ := [], gap₄ := [' '], gap₅ := [' ']
        body :=
          [.field ⟨['m'], [' '], .number [' '] ⟨.decimal ['5'], ['U']⟩ []⟩, .other [',', ' '],
            .field ⟨['g'], [], .other ['1', '.', '5']⟩, .other [',', '\n'],
            .field ⟨['n'], [' '], .number [' '] ⟨.hexadecimal 'x' ['6', '0'], []⟩ []⟩, .other [','],
            .field ⟨['p'], [' '], .number [] ⟨.decimal ['2'], []⟩ [' ']⟩] },
    .other ['}', ';', 'a', '.', 'b', '[', '0', ']', '=', 'c', '.', 'p', 'l', 'l', ';']]

def onePllCommented : List Char :=
  "c=\x7b.pll[0] = \x7b.m = 5U, .g=1.5,\n.n = 0x60,.p =2/*,.p=4*/\x7d\x7d;a.b[0]=c.pll;// .m".toList

theorem onePllSource_wf : SourceWf onePllSource where
  parts := by
    have hnil : Spaces [] := by simp [Spaces]
    have hspace : Spaces [' '] := by simp [Spaces, isSpace]
    have hcomma (rest : List Char) : Delimited (',' :: rest) := fun c hc => by
      rw [← Option.some.inj hc]
      rfl
    have hm : Literal.Wf ⟨.decimal ['5'], ['U']⟩ := ⟨⟨by decide, by decide⟩, .inr (by decide)⟩
    have hn : Literal.Wf ⟨.hexadecimal 'x' ['6', '0'], []⟩ :=
      ⟨⟨.inl rfl, by simp, by decide⟩, .inl rfl⟩
    have hp : Literal.Wf ⟨.decimal ['2'], []⟩ := ⟨⟨by decide, by decide⟩, .inl rfl⟩
    have hgain : (Value.other ['1', '.', '5']).Wf :=
      ⟨by simp, List.all_eq_true.mp (by decide)⟩
    have hend : Delimited (bodyText []) := fun c hc => by cases hc
    refine ⟨by decide, ?_, by decide, trivial⟩
    exact
      { gap₁ := hnil, gap₂ := hnil, gap₃ := hnil, gap₄ := hspace, gap₅ := hspace
        index := by simp [Digits.Wf]
        decimal := by decide
        plain := rfl
        body := ⟨⟨by decide, hspace, ⟨hspace, hm, hnil⟩, fun _ _ => rfl⟩, hcomma _, by decide,
          by decide, ⟨by decide, hnil, hgain, fun key h => by cases key <;> simp [Key.name] at h⟩,
          hcomma _, by decide, by decide,
          ⟨by decide, hspace, ⟨hspace, hn, hnil⟩, fun _ _ => rfl⟩, hcomma _, by decide, by decide,
          ⟨by decide, hspace, ⟨hnil, hp, hspace⟩, fun _ _ => rfl⟩, hend, by decide, trivial⟩
        closed := List.all_eq_true.mp (by decide)
        names := by decide }
  indices := by decide

theorem pllOutputs_stripComments_onePll :
    pllOutputs (some 25000000) (parsePllConfigs (Comments.stripComments onePllCommented)) (1, .p) =
      some (some 240000000) :=
  (pllOutputs_stripComments onePllCommented (by rw [Comments.Covered]; decide) onePllSource
    (by decide) onePllSource_wf (some 25000000) 0 .p).trans (by decide)

end UniHal.ClockMap.Designated
