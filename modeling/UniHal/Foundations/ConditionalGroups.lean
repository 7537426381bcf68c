import Mathlib.Tactic

/-! # Nested conditional groups of lines

A text is a sequence of lines and of groups. A group opens with a condition, goes on with any
number of further conditions, perhaps with a last part without one, and closes. Of every group the
first part whose condition holds is kept.
-/

namespace UniHal.Foundations.ConditionalGroups

universe u v w

inductive Mark (C : Type v)
  | opening (c : C)
  | elif (c : C)
  | otherwise
  | closing
  deriving DecidableEq, Repr

mutual

inductive Text (L : Type u) (C : Type v)
  | nil
  | line (l : L) (rest : Text L C)
  | group (l : L) (c : C) (body : Text L C) (alts : Alternatives L C) (rest : Text L C)

inductive Alternatives (L : Type u) (C : Type v)
  | closing (l : L)
  | elif (l : L) (c : C) (body : Text L C) (alts : Alternatives L C)
  | otherwise (l : L) (body : Text L C) (last : L)

end

variable {L : Type u} {C : Type v} {Ω : Type w}

mutual

def Text.lines : Text L C → List L
  | .nil => []
  | .line l rest => l :: rest.lines
  | .group l _ body alts rest => l :: (body.lines ++ (alts.lines ++ rest.lines))

def Alternatives.lines : Alternatives L C → List L
  | .closing l => [l]
  | .elif l _ body alts => l :: (body.lines ++ alts.lines)
  | .otherwise l body last => l :: (body.lines ++ [last])

end

mutual

def Text.kept (holds : C → Bool) : Text L C → List L
  | .nil => []
  | .line l rest => l :: rest.kept holds
  | .group _ c body alts rest =>
    (if holds c then body.kept holds else alts.kept holds) ++ rest.kept holds

def Alternatives.kept (holds : C → Bool) : Alternatives L C → List L
  | .closing _ => []
  | .elif _ c body alts => if holds c then body.kept holds else alts.kept holds
  | .otherwise _ body _ => body.kept holds

end

mutual

/-- Every line is marked as what it is in the text, a plain one with no mark. -/
def Text.Marked (reads : L → Option (Mark C) → Prop) : Text L C → Prop
  | .nil => True
  | .line l rest => reads l none ∧ rest.Marked reads
  | .group l c body alts rest =>
    reads l (some (.opening c)) ∧ body.Marked reads ∧ alts.Marked reads ∧ rest.Marked reads

def Alternatives.Marked (reads : L → Option (Mark C) → Prop) : Alternatives L C → Prop
  | .closing l => reads l (some .closing)
  | .elif l c body alts =>
    reads l (some (.elif c)) ∧ body.Marked reads ∧ alts.Marked reads
  | .otherwise l body last =>
    reads l (some .otherwise) ∧ body.Marked reads ∧ reads last (some .closing)

end

mutual

/-- Every line stands at a place where, under one of the evaluations, the lines are kept. A line
that ends a part stands at the end of that part. -/
def Text.Attained (holds : Ω → C → Bool) (E : Set Ω) : Text L C → Prop
  | .nil => True
  | .line _ rest => E.Nonempty ∧ rest.Attained holds E
  | .group _ c body alts rest =>
    E.Nonempty ∧ body.Attained holds {e ∈ E | holds e c} ∧
      alts.Attained holds {e ∈ E | holds e c} {e ∈ E | ¬ holds e c} ∧ rest.Attained holds E

/-- The part before is kept under the first evaluations, and none of the parts before under the
second ones. -/
def Alternatives.Attained (holds : Ω → C → Bool) (before E : Set Ω) : Alternatives L C → Prop
  | .closing _ => before.Nonempty
  | .elif _ c body alts =>
    before.Nonempty ∧ body.Attained holds {e ∈ E | holds e c} ∧
      alts.Attained holds {e ∈ E | holds e c} {e ∈ E | ¬ holds e c}
  | .otherwise _ body _ => before.Nonempty ∧ body.Attained holds E ∧ E.Nonempty

end

section Kept
variable {reads : L → Option (Mark C) → Prop} {holds : C → Bool}

mutual

theorem Text.Marked.plain_of_mem_kept : ∀ {t : Text L C}, t.Marked reads →
    ∀ l ∈ t.kept holds, reads l none
  | .nil, _ => by simp [Text.kept]
  | .line l rest, ⟨hl, hrest⟩ => by
    intro m hm
    rcases List.mem_cons.mp hm with rfl | hm
    · exact hl
    · exact hrest.plain_of_mem_kept m hm
  | .group l c body alts rest, ⟨_, hbody, halts, hrest⟩ => by
    intro m hm
    rcases List.mem_append.mp hm with hm | hm
    · split at hm
      · exact hbody.plain_of_mem_kept m hm
      · exact halts.plain_of_mem_kept m hm
    · exact hrest.plain_of_mem_kept m hm

theorem Alternatives.Marked.plain_of_mem_kept : ∀ {a : Alternatives L C}, a.Marked reads →
    ∀ l ∈ a.kept holds, reads l none
  | .closing _, _ => by simp [Alternatives.kept]
  | .elif l c body alts, ⟨_, hbody, halts⟩ => by
    intro m hm
    rw [Alternatives.kept] at hm
    split at hm
    · exact hbody.plain_of_mem_kept m hm
    · exact halts.plain_of_mem_kept m hm
  | .otherwise l body last, ⟨_, hbody, _⟩ => fun m hm => hbody.plain_of_mem_kept m hm

end

end Kept

section Attained
variable {holds : Ω → C → Bool} {P : L → Prop}

mutual

/-- In a text that is attained everywhere, what holds of all lines that are ever kept holds of all
plain lines. -/
theorem Text.Attained.plain {E : Set Ω} : ∀ {t : Text L C}, t.Attained holds E →
    (∀ e ∈ E, ∀ l ∈ t.kept (holds e), P l) → t.Marked fun l m => m = none → P l
  | .nil, _, _ => trivial
  | .line l rest, ⟨⟨e, he⟩, hrest⟩, h =>
    ⟨fun _ => h e he l List.mem_cons_self,
      hrest.plain fun e he m hm => h e he m (List.mem_cons_of_mem l hm)⟩
  | .group l c body alts rest, ⟨_, hbody, halts, hrest⟩, h => by
    refine ⟨by simp, hbody.plain ?_, halts.plain ?_, hrest.plain ?_⟩
    · rintro e ⟨he, hc⟩ m hm
      exact h e he m (List.mem_append_left _ (by rwa [if_pos hc]))
    · rintro e ⟨he, hc⟩ m hm
      exact h e he m (List.mem_append_left _ (by rwa [if_neg hc]))
    · intro e he m hm
      exact h e he m (List.mem_append_right _ hm)

theorem Alternatives.Attained.plain {before E : Set Ω} : ∀ {a : Alternatives L C},
    a.Attained holds before E →
    (∀ e ∈ E, ∀ l ∈ a.kept (holds e), P l) → a.Marked fun l m => m = none → P l
  | .closing _, _, _ => by simp [Alternatives.Marked]
  | .elif l c body alts, ⟨_, hbody, halts⟩, h => by
    refine ⟨by simp, hbody.plain ?_, halts.plain ?_⟩
    · rintro e ⟨he, hc⟩ m hm
      exact h e he m (by rwa [Alternatives.kept, if_pos hc])
    · rintro e ⟨he, hc⟩ m hm
      exact h e he m (by rwa [Alternatives.kept, if_neg hc])
  | .otherwise l body last, ⟨_, hbody, _⟩, h =>
    ⟨by simp, hbody.plain fun e he m hm => h e he m hm, by simp⟩

end

end Attained

section Map
variable {D : Type*}

def Mark.map (f : C → D) : Mark C → Mark D
  | .opening c => .opening (f c)
  | .elif c => .elif (f c)
  | .otherwise => .otherwise
  | .closing => .closing

def Mark.condition : Mark C → Option C
  | .opening c | .elif c => some c
  | .otherwise | .closing => none

mutual

def Text.map (f : C → D) : Text L C → Text L D
  | .nil => .nil
  | .line l rest => .line l (rest.map f)
  | .group l c body alts rest => .group l (f c) (body.map f) (alts.map f) (rest.map f)

def Alternatives.map (f : C → D) : Alternatives L C → Alternatives L D
  | .closing l => .closing l
  | .elif l c body alts => .elif l (f c) (body.map f) (alts.map f)
  | .otherwise l body last => .otherwise l (body.map f) last

end

mutual

theorem Text.lines_map (f : C → D) : ∀ t : Text L C, (t.map f).lines = t.lines
  | .nil => rfl
  | .line l rest => by rw [Text.map, Text.lines, Text.lines, rest.lines_map f]
  | .group l c body alts rest => by
    rw [Text.map, Text.lines, Text.lines, body.lines_map f, alts.lines_map f, rest.lines_map f]

theorem Alternatives.lines_map (f : C → D) : ∀ a : Alternatives L C, (a.map f).lines = a.lines
  | .closing _ => rfl
  | .elif l c body alts => by
    rw [Alternatives.map, Alternatives.lines, Alternatives.lines, body.lines_map f,
      alts.lines_map f]
  | .otherwise l body last => by
    rw [Alternatives.map, Alternatives.lines, Alternatives.lines, body.lines_map f]

end

section Marked
variable {reads : L → Option (Mark C) → Prop} {reads' : L → Option (Mark D) → Prop} {f : C → D}

mutual

theorem Text.Marked.map (h : ∀ l m, reads l m → reads' l (m.map (Mark.map f))) :
    ∀ {t : Text L C}, t.Marked reads → (t.map f).Marked reads'
  | .nil, _ => trivial
  | .line l _, ⟨hl, hrest⟩ => ⟨h l _ hl, hrest.map h⟩
  | .group l _ _ _ _, ⟨hl, hbody, halts, hrest⟩ =>
    ⟨h l _ hl, hbody.map h, halts.map h, hrest.map h⟩

theorem Alternatives.Marked.map (h : ∀ l m, reads l m → reads' l (m.map (Mark.map f))) :
    ∀ {a : Alternatives L C}, a.Marked reads → (a.map f).Marked reads'
  | .closing l, hl => h l _ hl
  | .elif l _ _ _, ⟨hl, hbody, halts⟩ => ⟨h l _ hl, hbody.map h, halts.map h⟩
  | .otherwise l _ last, ⟨hl, hbody, hlast⟩ => ⟨h l _ hl, hbody.map h, h last _ hlast⟩

end

variable {holds : C → Bool} {holds' : D → Bool}

mutual

/-- The same lines are kept when every condition of the text is decided the same way. -/
theorem Text.Marked.kept_map
    (h : ∀ l m c, reads l (some m) → m.condition = some c → holds' (f c) = holds c) :
    ∀ {t : Text L C}, t.Marked reads → (t.map f).kept holds' = t.kept holds
  | .nil, _ => rfl
  | .line _ _, ⟨_, hrest⟩ => by rw [Text.map, Text.kept, Text.kept, hrest.kept_map h]
  | .group l c _ _ _, ⟨hl, hbody, halts, hrest⟩ => by
    rw [Text.map, Text.kept, Text.kept, h l _ c hl rfl, hbody.kept_map h, halts.kept_map h,
      hrest.kept_map h]

theorem Alternatives.Marked.kept_map
    (h : ∀ l m c, reads l (some m) → m.condition = some c → holds' (f c) = holds c) :
    ∀ {a : Alternatives L C}, a.Marked reads → (a.map f).kept holds' = a.kept holds
  | .closing _, _ => rfl
  | .elif l c _ _, ⟨hl, hbody, halts⟩ => by
    rw [Alternatives.map, Alternatives.kept, Alternatives.kept, h l _ c hl rfl, hbody.kept_map h,
      halts.kept_map h]
  | .otherwise _ _ _, ⟨_, hbody, _⟩ => by
    rw [Alternatives.map, Alternatives.kept, Alternatives.kept, hbody.kept_map h]

end

end Marked

end Map

end UniHal.Foundations.ConditionalGroups
