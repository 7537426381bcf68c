import UniHal.ClockMap.Preprocess
import UniHal.ClockMap.ConditionEvaluation

/-! # The definitions of the command line

The tool gets the definitions of the build as items, and keeps of a source text what these
definitions select. Items, conditions and directives together: what is kept is what C keeps of a
text that is read the same way, when it is compiled with the same definitions.
-/

namespace UniHal.ClockMap.CommandLine
open Foundations Characters ConditionalGroups Conditions
open Preprocess hiding Definitions

/-- `BOOL_TRUE` and `BOOL_FALSE` -/
def boolTrue : List (List Char) :=
  [['1'], ['t', 'r', 'u', 'e'], ['o', 'n'], ['y', 'e', 's']]

def boolFalse : List (List Char) :=
  [['0'], ['f', 'a', 'l', 's', 'e'], ['o', 'f', 'f'], ['n', 'o']]

def parseBool (token : List Char) : Option Bool :=
  let value := (strip token).map Char.toLower
  if boolTrue.contains value then some true
  else if boolFalse.contains value then some false
  else none

/-- `define.split("=", 1)` for a text with an equals sign -/
def splitEquals (define : List Char) : List Char × List Char :=
  (define.takeWhile (· != '='), (define.dropWhile (· != '=')).tail)

/-- What `parse_define_items` makes of the value of an item. -/
def numberOf (value : List Char) : ℕ :=
  match parseInt value with
  | some number => number
  | none =>
    match parseBool value with
    | some b => if b then 1 else 0
    | none => 1

/-- The body of the loop of `parse_define_items`. -/
def parseDefineItem (d : Conditions.Definitions) (item : List Char) : Conditions.Definitions :=
  let define := strip item
  if define = [] then d
  else
    let (name, value) :=
      if define.contains '=' then
        (strip (splitEquals define).1, strip (splitEquals define).2)
      else (define, ['1'])
    if isIdent name then
      { defined := Function.update d.defined name true
        numeric := Function.update d.numeric name (some (numberOf value)) }
    else d

def noDefinitions : Conditions.Definitions := ⟨fun _ => false, fun _ => none⟩

def parseDefineItems (items : List (List Char)) : Conditions.Definitions :=
  items.foldl parseDefineItem noDefinitions

/-- The definitions as `preprocess_text` uses them. -/
def textDefinitions (d : Conditions.Definitions) : Preprocess.Definitions :=
  ⟨evalPpExpr d, d.defined⟩

inductive Value
  /-- the name alone -/
  | flag
  | number (gap₁ gap₂ : List Char) (l : Literal)
  /-- any other text, with what it is worth in a condition of C -/
  | text (gap : List Char) (chars : List Char) (value : ℕ)

/-- A definition with white space around it. -/
structure Item where
  lead : List Char
  name : List Char
  value : Value
  trail : List Char

namespace Value

def spelled : Value → List Char
  | flag => []
  | number gap₁ gap₂ l => gap₁ ++ '=' :: (gap₂ ++ l.text)
  | text gap chars _ => gap ++ '=' :: chars

def value : Value → ℕ
  | flag => 1
  | number _ _ l => l.digits.value
  | text _ _ value => value

def Wf : Value → Prop
  | flag => True
  | number gap₁ gap₂ l => Spaces gap₁ ∧ Spaces gap₂ ∧ l.Wf
  | text gap _ _ => Spaces gap

def Plain : Value → Prop
  | flag => True
  | number _ _ l => l.digits.misread.value = l.digits.value
  | text _ _ _ => False

end Value

namespace Item

def text (i : Item) : List Char := i.lead ++ (i.name ++ (i.value.spelled ++ i.trail))

structure Wf (i : Item) : Prop where
  lead : Spaces i.lead
  name : Expr.Name i.name
  value : i.value.Wf
  trail : Spaces i.trail

def define (d : Conditions.Definitions) (i : Item) : Conditions.Definitions :=
  { defined := Function.update d.defined i.name true
    numeric := Function.update d.numeric i.name (some i.value.value) }

end Item

def definitions (items : List Item) : Conditions.Definitions :=
  items.foldl Item.define noDefinitions

theorem equals_notMem {cs : List Char} (h : ∀ c ∈ cs, isIdentChar c = true ∨ isSpace c = true) :
    ∀ c ∈ cs, (c != '=') = true := by
  intro c hc
  rw [bne_iff_ne]
  rintro rfl
  exact absurd (h _ hc) (by decide)

theorem splitEquals_append {cs rest : List Char} (h : ∀ c ∈ cs, (c != '=') = true) :
    splitEquals (cs ++ '=' :: rest) = (cs, rest) := by
  rw [splitEquals, List.takeWhile_append_of_pos h, List.dropWhile_append_of_pos h,
    List.takeWhile_cons_of_neg (by simp), List.dropWhile_cons_of_neg (by simp), List.append_nil,
    List.tail_cons]

theorem exists_strip_equals {lead cs : List Char} (hlead : Spaces lead) (hcs : Flush cs)
    (hne : cs ≠ []) (rest : List Char) :
    ∃ rest', strip (lead ++ (cs ++ '=' :: rest)) = cs ++ '=' :: rest' := by
  have hequals : ('=' :: cs.reverse).dropWhile isSpace = '=' :: cs.reverse :=
    List.dropWhile_cons_of_neg (by decide)
  refine ⟨((rest.reverse.dropWhile isSpace)).reverse, ?_⟩
  rw [strip, hlead.lstrip_append, (hcs.append hne _).lstrip_eq, List.reverse_append,
    List.reverse_cons, List.append_assoc, lstrip, List.singleton_append, List.dropWhile_append,
    hequals]
  split_ifs with hnil
  · rw [List.isEmpty_iff.mp hnil]
    simp
  · simp

theorem parseDefineItem_of_equals (d : Conditions.Definitions) {item name gap rest : List Char}
    (hname : isIdent name = true) (hgap : Spaces gap)
    (hstrip : strip item = (name ++ gap) ++ '=' :: rest) :
    parseDefineItem d item = ⟨Function.update d.defined name true,
      Function.update d.numeric name (some (numberOf (strip rest)))⟩ := by
  have hchars := isIdentChar_of_isIdent hname
  have hsolid := solid_of_isIdentChar (ne_nil_of_isIdent hname) hchars
  have hbefore : ∀ c ∈ name ++ gap, (c != '=') = true := by
    apply equals_notMem
    intro c hc
    exact (List.mem_append.mp hc).imp (hchars c) (hgap c)
  have hstripped : strip (name ++ gap) = name := by
    have hnil : Spaces [] := by simp [Spaces]
    exact hsolid.strip_eq hnil hgap
  have hcontains : ((name ++ gap) ++ '=' :: rest).contains '=' = true := by simp
  have hne : (name ++ gap) ++ '=' :: rest ≠ [] := by simp
  simp only [parseDefineItem, hstrip, if_neg hne, hcontains, if_true,
    splitEquals_append hbefore, hstripped, hname]

theorem parseDefineItem_of_name (d : Conditions.Definitions) {item name : List Char}
    (hname : isIdent name = true) (hstrip : strip item = name) :
    parseDefineItem d item = ⟨Function.update d.defined name true,
      Function.update d.numeric name (some 1)⟩ := by
  have hne := ne_nil_of_isIdent hname
  have hcontains : name.contains '=' = false := by
    rw [← Bool.not_eq_true, List.contains_iff_mem]
    intro hmem
    exact absurd (isIdentChar_of_isIdent hname _ hmem) (by decide)
  have hone : numberOf ['1'] = 1 := by decide
  simp only [parseDefineItem, hstrip, if_neg hne, hcontains, Bool.false_eq_true, if_false, hname,
    if_true, hone]

/-- The tool takes an item for a definition of its name, and a plain one for its value. -/
theorem parseDefineItem_text (d : Conditions.Definitions) {i : Item} (h : i.Wf) :
    ∃ n, parseDefineItem d i.text = ⟨Function.update d.defined i.name true,
      Function.update d.numeric i.name (some n)⟩ ∧ (i.value.Plain → n = i.value.value) := by
  obtain ⟨lead, name, value, trail⟩ := i
  obtain ⟨hlead, hname, hvalue, htrail⟩ := h
  have hsolid : Solid name :=
    solid_of_isIdentChar (ne_nil_of_isIdent hname.1) (isIdentChar_of_isIdent hname.1)
  cases value with
  | flag =>
    have hstrip : strip (lead ++ (name ++ ([] ++ trail))) = name := hsolid.strip_eq hlead htrail
    exact ⟨1, parseDefineItem_of_name d hname.1 hstrip, fun _ => rfl⟩
  | number gap₁ gap₂ l =>
    obtain ⟨hgap₁, hgap₂, hl⟩ := hvalue
    have hliteral : Solid l.text := solid_of_isIdentChar hl.text_ne_nil hl.isIdentChar
    have hnil : Spaces [] := by simp [Spaces]
    have hvalue : strip (gap₂ ++ l.text) = l.text := by
      have hstripped := hliteral.strip_eq hgap₂ hnil
      rwa [List.append_nil] at hstripped
    have hstrip : strip (lead ++ (name ++ ((gap₁ ++ '=' :: (gap₂ ++ l.text)) ++ trail))) =
        (name ++ gap₁) ++ '=' :: (gap₂ ++ l.text) := by
      have hwhole := (hsolid.append (gap₁ ++ '=' :: gap₂) hliteral).strip_eq hlead htrail
      simpa only [List.append_assoc, List.cons_append] using hwhole
    refine ⟨_, parseDefineItem_of_equals d hname.1 hgap₁ hstrip, ?_⟩
    intro hplain
    rw [hvalue, numberOf, hl.parseInt_text]
    exact hplain
  | text gap chars value =>
    obtain ⟨rest, hrest⟩ := exists_strip_equals hlead (hsolid.head.append hsolid.ne_nil gap)
      (List.append_ne_nil_of_left_ne_nil hsolid.ne_nil gap) (chars ++ trail)
    have hstrip : strip (lead ++ (name ++ ((gap ++ '=' :: chars) ++ trail))) =
        (name ++ gap) ++ '=' :: rest := by
      simpa only [List.append_assoc, List.cons_append] using hrest
    exact ⟨_, parseDefineItem_of_equals d hname.1 hvalue hstrip, fun hplain => hplain.elim⟩

/-- The tool has the same names defined as C, and knows the value of a name that has plain
definitions only. -/
theorem parseDefineItems_text (items : List Item) (h : ∀ i ∈ items, i.Wf) :
    (parseDefineItems (items.map Item.text)).defined = (definitions items).defined ∧
      ∀ name, (∀ i ∈ items, i.name = name → i.value.Plain) →
        (parseDefineItems (items.map Item.text)).numeric name =
          (definitions items).numeric name := by
  have hfold (items : List Item) (h : ∀ i ∈ items, i.Wf) (d d' : Conditions.Definitions)
      (hdefined : d.defined = d'.defined) :
      ((items.map Item.text).foldl parseDefineItem d).defined =
          (items.foldl Item.define d').defined ∧
        ∀ name, d.numeric name = d'.numeric name →
          (∀ i ∈ items, i.name = name → i.value.Plain) →
          ((items.map Item.text).foldl parseDefineItem d).numeric name =
            (items.foldl Item.define d').numeric name := by
    induction items generalizing d d' with
    | nil => exact ⟨hdefined, fun _ hd _ => hd⟩
    | cons i items ih =>
      rw [List.forall_mem_cons] at h
      obtain ⟨n, hparse, hn⟩ := parseDefineItem_text d h.1
      rw [List.map_cons, List.foldl_cons, List.foldl_cons, hparse]
      have hrest := ih h.2 ⟨Function.update d.defined i.name true,
        Function.update d.numeric i.name (some n)⟩ (i.define d') (by rw [hdefined]; rfl)
      refine ⟨hrest.1, ?_⟩
      intro name hd hplain
      rw [List.forall_mem_cons] at hplain
      refine hrest.2 name ?_ hplain.2
      simp only [Item.define, Function.update_apply]
      split_ifs with hname
      · rw [hn (hplain.1 hname.symm)]
      · exact hd
  have hitems := hfold items h noDefinitions noDefinitions rfl
  exact ⟨hitems.1, fun name => hitems.2 name rfl⟩

def numericNames : Expr → List (List Char)
  | .ident name => [name]
  | .int _ | .defined _ _ | .definedParens _ _ _ _ => []
  | .parens _ e _ | .not _ e => numericNames e
  | .bin _ l _ _ r => numericNames l ++ numericNames r

theorem value_congr {d d' : Conditions.Definitions} (hdefined : d.defined = d'.defined) {e : Expr}
    (h : ∀ name ∈ numericNames e, d.numeric name = d'.numeric name) : e.value d = e.value d' := by
  induction e with
  | ident name => rw [Expr.value, Expr.value, h name List.mem_cons_self]
  | int literal => rfl
  | defined gap name => rw [Expr.value, Expr.value, hdefined]
  | definedParens gap₁ gap₂ name gap₃ => rw [Expr.value, Expr.value, hdefined]
  | parens gap₁ e gap₂ ih => exact ih h
  | not gap e ih => rw [Expr.value, Expr.value, ih h]
  | bin op l gap₁ gap₂ r ihl ihr =>
    rw [Expr.value, Expr.value, ihl fun name hname => h name (List.mem_append_left _ hname),
      ihr fun name hname => h name (List.mem_append_right _ hname)]

/-- What a group of C asks for. -/
inductive Question
  /-- a condition and the white space behind it -/
  | value (e : Expr) (trail : List Char)
  | defined (name : List Char)
  | undefined (name : List Char)

namespace Question

def spelled : Question → Preprocess.Condition
  | value e trail => .value (e.text ++ trail)
  | defined name => .defined name
  | undefined name => .undefined name

def holds (d : Conditions.Definitions) : Question → Bool
  | value e _ => e.truth d
  | defined name => d.defined name
  | undefined name => !d.defined name

def Readable (items : List Item) : Question → Prop
  | value e trail => e.Wf ∧ e.Covered ∧ Spaces trail ∧
      ∀ i ∈ items, i.name ∈ numericNames e → i.value.Plain
  | defined _ | undefined _ => True

theorem Readable.holds_eq {items : List Item} (hitems : ∀ i ∈ items, i.Wf) {q : Question}
    (h : q.Readable items) :
    (textDefinitions (parseDefineItems (items.map Item.text))).holds q.spelled =
      q.holds (definitions items) := by
  obtain ⟨hdefined, hnumeric⟩ := parseDefineItems_text items hitems
  cases q with
  | value e trail =>
    obtain ⟨hwf, hcovered, htrail, hplain⟩ := h
    have hnil : Spaces [] := by simp [Spaces]
    have hread := (e.evalPpExpr_misread (parseDefineItems (items.map Item.text)) hwf).1
      (e.text ++ trail) ⟨[], trail, hnil, htrail, rfl⟩
    have hvalue : e.value (parseDefineItems (items.map Item.text)) =
        e.value (definitions items) := by
      apply value_congr hdefined
      intro name hname
      apply hnumeric
      rintro i hi rfl
      exact hplain i hi hname
    calc (textDefinitions (parseDefineItems (items.map Item.text))).holds
          (Question.value e trail).spelled
        = e.misread.truth (parseDefineItems (items.map Item.text)) := hread
      _ = e.truth (parseDefineItems (items.map Item.text)) := hcovered.truth_misread _
      _ = e.truth (definitions items) := by rw [Expr.truth, Expr.truth, hvalue]
  | defined name => exact congrFun hdefined name
  | undefined name => exact congrArg (!·) (congrFun hdefined name)

end Question

/-- A line as C reads it, which the patterns read the same way. -/
structure ReadAlike (letter : Char → Bool) (items : List Item) (line : Line)
    (m : Option (Mark Question)) : Prop where
  c : Reads (Spelled Gap Allowed) line (m.map (Mark.map Question.spelled))
  tool : Reads (Spelled Spaces (Covered letter)) line (m.map (Mark.map Question.spelled))
  readable : ∀ mark ∈ m, ∀ q ∈ mark.condition, q.Readable items

/-- Of a text whose lines are read alike the tool keeps what C keeps when it gets the same
definitions. -/
theorem preprocessText_commandLine (letter : Char → Bool) (items : List Item)
    (hitems : ∀ i ∈ items, i.Wf) (text : List Char) (t : Text Line Question)
    (hlines : physicalLines text = t.lines) (hread : t.Marked (ReadAlike letter items)) :
    preprocessText letter (textDefinitions (parseDefineItems (items.map Item.text))) text =
      ['\n'].intercalate (t.kept (Question.holds (definitions items))) := by
  have hmarked : (t.map Question.spelled).Marked fun l o => directive letter l = o :=
    hread.map fun l m h => reads_covered_iff.mp h.tool
  have hkept : (t.map Question.spelled).kept
      (textDefinitions (parseDefineItems (items.map Item.text))).holds =
        t.kept (Question.holds (definitions items)) := by
    apply hread.kept_map
    intro l m q h hq
    exact (h.readable m rfl q hq).holds_eq hitems
  rw [preprocessText, preprocess, hlines, ← t.lines_map Question.spelled, run_text _ _ hmarked,
    hkept]
  simp

/-- `A=2U` and `F`. -/
def twoItems : List Item :=
  [⟨[], ['A'], .number [] [] ⟨.decimal ['2'], ['U']⟩, []⟩, ⟨[' '], ['F'], .flag, []⟩]

theorem twoItems_wf : ∀ i ∈ twoItems, i.Wf := by
  have hnil : Spaces [] := by simp [Spaces]
  have hspace : Spaces [' '] := by simp [Spaces, isSpace]
  have hdigits : (Digits.decimal ['2']).Wf := ⟨by decide, by decide⟩
  have hliteral : Literal.Wf ⟨.decimal ['2'], ['U']⟩ := ⟨hdigits, .inr (by decide)⟩
  intro i hi
  rcases List.mem_cons.mp hi with rfl | hi
  · exact ⟨hnil, ⟨by decide, by decide⟩, ⟨hnil, hnil, hliteral⟩, hnil⟩
  · obtain rfl := List.mem_singleton.mp hi
    exact ⟨hspace, ⟨by decide, by decide⟩, trivial, hnil⟩

/-- `A == 2` -/
def isTwo : Expr := .bin .eq (.ident ['A']) [' '] [' '] (.int ⟨.decimal ['2'], []⟩)

def selected : Text Line Question :=
  .group "#if A == 2".toList (.value isTwo [])
    (.group "#ifndef F".toList (.undefined ['F']) (.line "x".toList .nil)
      (.closing "#endif".toList) .nil)
    (.otherwise "#else".toList (.line "y".toList .nil) "#endif".toList) (.line "z".toList .nil)

def selectedText : List Char := "#if A == 2\n#ifndef F\nx\n#endif\n#else\ny\n#endif\nz".toList

theorem selected_readAlike : selected.Marked (ReadAlike (fun _ => false) twoItems) := by
  have hnil : Spaces [] := by simp [Spaces]
  have hspace : Spaces [' '] := by simp [Spaces, isSpace]
  have hdigits : (Digits.decimal ['2']).Wf := ⟨by decide, by decide⟩
  have hwf : isTwo.Wf := ⟨hspace, hspace, by decide, by decide, ⟨by decide, by decide⟩, hdigits,
    .inl rfl⟩
  have hcovered : isTwo.Covered := ⟨rfl, rfl, rfl⟩
  have hreadable : (Question.value isTwo []).Readable twoItems := by
    refine ⟨hwf, hcovered, hnil, fun i hi hname => ?_⟩
    rcases List.mem_cons.mp hi with rfl | hi
    · exact rfl
    · obtain rfl := List.mem_singleton.mp hi
      trivial
  have hif : ReadAlike (fun _ => false) twoItems "#if A == 2".toList
      (some (.opening (.value isTwo []))) := by
    have hspelled : Spelled Gap Allowed "#if A == 2".toList
        (.opening (.value (isTwo.text ++ []))) :=
      ⟨[], [], " A == 2".toList, .nil, .nil,
        ⟨[' '], by simp, by simp [Flush, isTwo, Expr.text, isSpace], by simp, rfl⟩, rfl⟩
    refine ⟨hspelled, reads_covered_iff.mpr (by decide), ?_⟩
    simpa [Mark.condition] using hreadable
  have hifndef : ReadAlike (fun _ => false) twoItems "#ifndef F".toList
      (some (.opening (.undefined ['F']))) := by
    have hspelled : Spelled Gap Allowed "#ifndef F".toList (.opening (.undefined ['F'])) :=
      ⟨[], [], " F".toList, .nil, .nil,
        ⟨[' '], [], by simp, .blank (.inl rfl) .nil, by decide, .gap .nil, rfl⟩, rfl⟩
    refine ⟨hspelled, reads_covered_iff.mpr (by decide), ?_⟩
    simp [Mark.condition, Question.Readable]
  have helse : ReadAlike (fun _ => false) twoItems "#else".toList (some .otherwise) :=
    ⟨⟨[], [], [], .nil, .nil, .gap .nil, rfl⟩, reads_covered_iff.mpr (by decide),
      by simp [Mark.condition]⟩
  have hendif : ReadAlike (fun _ => false) twoItems "#endif".toList (some .closing) :=
    ⟨⟨[], [], [], .nil, .nil, .gap .nil, rfl⟩, reads_covered_iff.mpr (by decide),
      by simp [Mark.condition]⟩
  have hplain (c : Char) (hc : c ≠ ' ' ∧ c ≠ '\t' ∧ c ≠ '/' ∧ c ≠ '#')
      (htool : directive (fun _ => false) [c] = none) :
      ReadAlike (fun _ => false) twoItems [c] none :=
    ⟨reads_none_of_start hc, reads_covered_iff.mpr htool, by simp⟩
  exact ⟨hif, ⟨hifndef, ⟨hplain 'x' (by decide) (by decide), trivial⟩, hendif, trivial⟩,
    ⟨helse, ⟨hplain 'y' (by decide) (by decide), trivial⟩, hendif⟩,
    hplain 'z' (by decide) (by decide), trivial⟩

/-- Both conditions decide against their first parts: `F` is defined. -/
theorem preprocessText_commandLine_selected :
    preprocessText (fun _ => false) (textDefinitions (parseDefineItems (twoItems.map Item.text)))
      selectedText = "z".toList := by
  have hkept : ['\n'].intercalate (selected.kept (Question.holds (definitions twoItems))) =
      "z".toList := by decide
  rw [← hkept]
  exact preprocessText_commandLine (fun _ => false) twoItems twoItems_wf selectedText selected
    (by decide) selected_readAlike

end UniHal.ClockMap.CommandLine
