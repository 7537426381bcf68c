import UniHal.ClockMap.Conditions

/-! # Conditions of the C preprocessor

The expressions with the white space that stands in them, what they are worth to the C
preprocessor, and what the tool takes them for.
-/

namespace UniHal.ClockMap.Conditions
open Foundations Brackets Characters

inductive Digits
  | decimal (digits : List Char)
  /-- the digits after the zero -/
  | octal (digits : List Char)
  | hexadecimal (x : Char) (digits : List Char)
  deriving DecidableEq, Repr

namespace Digits

def text : Digits → List Char
  | decimal digits => digits
  | octal digits => '0' :: digits
  | hexadecimal x digits => '0' :: x :: digits

def value : Digits → ℕ
  | decimal digits => number 10 digits
  | octal digits => number 8 digits
  | hexadecimal _ digits => number 16 digits

def Wf : Digits → Prop
  | decimal digits => isDecimal digits ∧ digits.head? ≠ some '0'
  | octal digits => ∀ c ∈ digits, '0' ≤ c ∧ c ≤ '7'
  | hexadecimal x digits => (x = 'x' ∨ x = 'X') ∧ digits ≠ [] ∧ digits.all isHexDigit

def misread : Digits → Digits
  | octal digits => decimal ('0' :: digits)
  | digits => digits

end Digits

structure Literal where
  digits : Digits
  suffix : List Char
  deriving DecidableEq, Repr

def Literal.text (l : Literal) : List Char := l.digits.text ++ l.suffix

structure Literal.Wf (l : Literal) : Prop where
  digits : l.digits.Wf
  suffix : l.suffix = [] ∨ isSuffix l.suffix

/-- The binary operators. -/
inductive Op
  | or | and | eq | ne
  deriving DecidableEq, Repr

namespace Op

def text : Op → List Char
  | or => ['|', '|']
  | and => ['&', '&']
  | eq => ['=', '=']
  | ne => ['!', '=']

def level : Op → ℕ
  | or => 4
  | and => 3
  | eq | ne => 2

def apply : Op → ℕ → ℕ → Bool
  | or, m, n => m != 0 || n != 0
  | and, m, n => m != 0 && n != 0
  | eq, m, n => m == n
  | ne, m, n => m != n

end Op

/-- An expression, with the white space between its tokens. -/
inductive Expr
  | ident (name : List Char)
  | int (literal : Literal)
  /-- `defined X` -/
  | defined (gap name : List Char)
  /-- `defined(X)` -/
  | definedParens (gap₁ gap₂ name gap₃ : List Char)
  | parens (gap₁ : List Char) (e : Expr) (gap₂ : List Char)
  | not (gap : List Char) (e : Expr)
  | bin (op : Op) (l : Expr) (gap₁ gap₂ : List Char) (r : Expr)
  deriving DecidableEq, Repr

namespace Expr

def text : Expr → List Char
  | ident name => name
  | int literal => literal.text
  | defined gap name => ['d', 'e', 'f', 'i', 'n', 'e', 'd'] ++ (gap ++ name)
  | definedParens gap₁ gap₂ name gap₃ =>
    ['d', 'e', 'f', 'i', 'n', 'e', 'd'] ++ (gap₁ ++ '(' :: (gap₂ ++ (name ++ (gap₃ ++ [')']))))
  | parens gap₁ e gap₂ => '(' :: ((gap₁ ++ (e.text ++ gap₂)) ++ [')'])
  | not gap e => '!' :: (gap ++ e.text)
  | bin op l gap₁ gap₂ r => l.text ++ (gap₁ ++ (op.text ++ (gap₂ ++ r.text)))

def level : Expr → ℕ
  | ident _ | int _ | defined _ _ | definedParens _ _ _ _ | parens _ _ _ => 0
  | not _ _ => 1
  | bin op _ _ _ _ => op.level

/-- A name of C: `defined` is none in a condition. -/
def Name (name : List Char) : Prop :=
  isIdent name ∧ name ≠ ['d', 'e', 'f', 'i', 'n', 'e', 'd']

/-- The expression is as C groups it, and its gaps are white space. -/
def Wf : Expr → Prop
  | ident name => Name name
  | int literal => literal.Wf
  | defined gap name => gap ≠ [] ∧ Spaces gap ∧ Name name
  | definedParens gap₁ gap₂ name gap₃ => Spaces gap₁ ∧ Spaces gap₂ ∧ Spaces gap₃ ∧ Name name
  | parens gap₁ e gap₂ => Spaces gap₁ ∧ Spaces gap₂ ∧ e.Wf
  | not gap e => Spaces gap ∧ e.level ≤ 1 ∧ e.Wf
  | bin op l gap₁ gap₂ r =>
    Spaces gap₁ ∧ Spaces gap₂ ∧ l.level ≤ op.level ∧ r.level < op.level ∧ l.Wf ∧ r.Wf

/-- The value in C; an identifier that stands for no number is zero. -/
def value (d : Definitions) : Expr → ℕ
  | ident name => (d.numeric name).getD 0
  | int literal => literal.digits.value
  | defined _ name | definedParens _ _ name _ => (d.defined name).toNat
  | parens _ e _ => e.value d
  | not _ e => (e.value d == 0).toNat
  | bin op l _ _ r => (op.apply (l.value d) (r.value d)).toNat

def truth (d : Definitions) (e : Expr) : Bool := e.value d != 0

/-- Without the leading `!`, and whether their number is odd. -/
def withoutBangs : Expr → Bool × Expr
  | not _ e => (!e.withoutBangs.1, e.withoutBangs.2)
  | bin op l gap₁ gap₂ r => (l.withoutBangs.1, bin op l.withoutBangs.2 gap₁ gap₂ r)
  | e => (false, e)

/-- Without the brackets around the whole and the leading `!`. A `!` is taken off what follows it to
the end, whatever binds more in C. -/
def core : Expr → Bool × Expr
  | parens _ e _ => e.core
  | not _ e => (!e.core.1, e.core.2)
  | e => e.withoutBangs

/-- What may stand to the right of a comparison: a name, or a number without suffix, of which an
octal one is read as a decimal one. -/
def comparand : Expr → Option Expr
  | ident name => some (ident name)
  | int literal =>
    if literal.suffix = [] then some (int ⟨literal.digits.misread, []⟩) else none
  | _ => none

def zero : Expr := int ⟨.octal [], []⟩

def covered : Expr → Expr
  | ident name => ident name
  | int literal => int ⟨literal.digits.misread, literal.suffix⟩
  | definedParens gap₁ gap₂ name gap₃ => definedParens gap₁ gap₂ name gap₃
  | bin op (ident name) gap₁ gap₂ r =>
    match r.comparand with
    | some r => if op.level = 2 then bin op (ident name) gap₁ gap₂ r else zero
    | none => zero
  | _ => zero

def operandRead (e : Expr) : Expr := if e.core.1 then not [] e.core.2.covered else e.core.2.covered

/-- The condition that the tool evaluates in place of this one. -/
def misread : Expr → Expr
  | parens gap₁ e gap₂ => parens gap₁ e.misread gap₂
  | bin .or l gap₁ gap₂ r => bin .or l.misread gap₁ gap₂ r.misread
  | bin .and l gap₁ gap₂ r => bin .and l.misread gap₁ gap₂ r.misread
  | e => e.operandRead

/-- An operand that the patterns cover: a name, a number or `defined(X)`, or a name compared with a
name or with a number that has no suffix and is not octal, under any brackets and `!`. -/
def Simple : Expr → Prop
  | ident _ | int _ | definedParens _ _ _ _ => True
  | parens _ e _ => e.Simple
  | not _ e => e.Simple
  | bin op (ident _) _ _ (ident _) => op.level = 2
  | bin op (ident _) _ _ (int literal) =>
    op.level = 2 ∧ literal.suffix = [] ∧ literal.digits.misread.value = literal.digits.value
  | _ => False

def Covered : Expr → Prop
  | bin .or l _ _ r => l.Covered ∧ r.Covered
  | bin .and l _ _ r => l.Covered ∧ r.Covered
  | parens _ e _ => e.Covered
  | e => e.Simple

end Expr

end UniHal.ClockMap.Conditions
