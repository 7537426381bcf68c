import UniHal.Foundations.Brackets
import UniHal.Foundations.Characters

/-! # The conditions of the clock map

The tool evaluates a condition as text. It takes outer brackets off, splits at the operators
outside brackets, and matches what is left with patterns; what no pattern matches is false.
-/

namespace UniHal.ClockMap.Conditions
open Foundations Brackets Characters

/-- The scan of `strip_outer_parens`: the bracket that opens first closes last. -/
def encloses (depth : ℤ) : List Char → Bool
  | [] => depth == 0
  | c :: rest =>
    let depth := if c = '(' then depth + 1 else if c = ')' then depth - 1 else depth
    if c = ')' ∧ depth < 0 then false
    else if depth = 0 ∧ rest ≠ [] then false
    else encloses depth rest

def hasOuterParens (text : List Char) : Bool :=
  text.head? == some '(' && text.getLast? == some ')' && encloses 0 text

/-- `text[1:-1]` -/
def inside (text : List Char) : List Char := text.tail.dropLast

def stripOuterParensLoop : ℕ → List Char → List Char
  | 0, text => text
  | n + 1, text =>
    if hasOuterParens text then stripOuterParensLoop n (strip (inside text)) else text

def stripOuterParens (expr : List Char) : List Char :=
  stripOuterParensLoop (strip expr).length (strip expr)

/-- The loop of `split_top_level` for an operator that is one character twice, with the part since
the last operator. -/
def splitFrom (op : Char) (depth : ℕ) (part : List Char) : List Char → List (List Char)
  | [] => [part]
  | [c] => [part ++ [c]]
  | c :: c' :: rest =>
    if c = '(' then splitFrom op (depth + 1) (part ++ [c]) (c' :: rest)
    else if c = ')' then splitFrom op (depth - 1) (part ++ [c]) (c' :: rest)
    else if depth = 0 ∧ c = op ∧ c' = op then part :: splitFrom op depth [] rest
    else splitFrom op depth (part ++ [c]) (c' :: rest)

def splitTopLevel (expr : List Char) (op : Char) : List (List Char) := splitFrom op 0 [] expr

def isDigit (c : Char) : Bool := '0' ≤ c && c ≤ '9'

def isHexDigit (c : Char) : Bool := isDigit c || ('a' ≤ c && c ≤ 'f') || ('A' ≤ c && c ≤ 'F')

def digit (c : Char) : ℕ :=
  if isDigit c then c.toNat - 48 else if 'a' ≤ c then c.toNat - 87 else c.toNat - 55

def number (base : ℕ) (digits : List Char) : ℕ := digits.foldl (fun n c => base * n + digit c) 0

/-- `[0-9]+` -/
def isDecimal (cs : List Char) : Bool := cs != [] && cs.all isDigit

/-- `0[xX][0-9A-Fa-f]+` -/
def isHexadecimal : List Char → Bool
  | '0' :: x :: digits => (x == 'x' || x == 'X') && digits != [] && digits.all isHexDigit
  | _ => false

/-- `\(\s*[A-Za-z_][A-Za-z0-9_\s\*]*\s*\)\s*` at the start; what is left -/
def dropCast : List Char → Option (List Char)
  | '(' :: rest =>
    match lstrip rest with
    | c :: cs =>
      if isIdentStart c then
        match cs.dropWhile fun c => isIdentChar c || isSpace c || c == '*' with
        | ')' :: after => some (lstrip after)
        | _ => none
      else none
    | [] => none
  | _ => none

def dropCasts : ℕ → List Char → List Char
  | 0, value => value
  | n + 1, value =>
    match dropCast value with
    | some updated => dropCasts n (strip updated)
    | none => value

def suffixes : List (List Char) :=
  [['u', 'l', 'l'], ['l', 'l', 'u'], ['u', 'l'], ['l', 'u'], ['l', 'l'], ['u'], ['l']]

/-- `(?i)(ULL|LLU|UL|LU|LL|U|L)$` -/
def isSuffix (cs : List Char) : Bool := suffixes.contains (cs.map Char.toLower)

def dropSuffix : List Char → List Char
  | [] => []
  | c :: cs => if isSuffix (c :: cs) then [] else c :: dropSuffix cs

/-- `value[1:-1].strip()` when the value has a bracket at either end and something in between -/
def dropParens (value : List Char) : List Char :=
  if value.head? == some '(' && value.getLast? == some ')' then
    if strip (inside value) = [] then value else strip (inside value)
  else value

def parseInt (token : List Char) : Option ℕ :=
  if strip token = [] then none
  else
    let value := dropParens (dropCasts (strip token).length (strip token))
    let value := strip (dropSuffix value)
    if isHexadecimal value then some (number 16 (value.drop 2))
    else if isDecimal value then some (number 10 value)
    else none

/-- `defined\s*\(\s*([A-Za-z_][A-Za-z0-9_]*)\s*\)` -/
def matchDefined (text : List Char) : Option (List Char) :=
  match (text.dropPrefix? ['d', 'e', 'f', 'i', 'n', 'e', 'd']).map lstrip with
  | some ('(' :: rest) =>
    let name := (lstrip rest).takeWhile isIdentChar
    if isIdent name ∧ lstrip ((lstrip rest).dropWhile isIdentChar) = [')'] then some name else none
  | _ => none

/-- `[A-Za-z_][A-Za-z0-9_]*|0[xX][0-9A-Fa-f]+|[0-9]+` -/
def isToken (cs : List Char) : Bool := isIdent cs || isHexadecimal cs || isDecimal cs

structure Comparison where
  lhs : List Char
  /-- `==`, and not `!=` -/
  equal : Bool
  rhs : List Char
  deriving DecidableEq, Repr

/-- A name, `([=!]=)` and a token, with white space between them. -/
def matchComparison (text : List Char) : Option Comparison :=
  let name := text.takeWhile isIdentChar
  match lstrip (text.dropWhile isIdentChar) with
  | c :: '=' :: rest =>
    if isIdent name ∧ (c = '=' ∨ c = '!') ∧ isToken (lstrip rest) then
      some ⟨name, c == '=', lstrip rest⟩
    else none
  | _ => none

structure Definitions where
  defined : List Char → Bool
  numeric : List Char → Option ℕ

/-- The loop over the leading `!`, with whether the value is to be negated. -/
def bangs : ℕ → Bool → List Char → Bool × List Char
  | n + 1, negate, '!' :: rest => bangs n (!negate) (stripOuterParens (strip rest))
  | _, negate, text => (negate, text)

section Evaluation
variable (d : Definitions)

def matched (text : List Char) : Bool :=
  match matchDefined text with
  | some name => d.defined name
  | none =>
    match matchComparison text with
    | some comparison =>
      let lhs := (d.numeric comparison.lhs).getD 0
      let rhs := (parseInt comparison.rhs).getD ((d.numeric comparison.rhs).getD 0)
      if comparison.equal then lhs == rhs else lhs != rhs
    | none =>
      match parseInt text with
      | some n => n != 0
      | none => if isIdent text then (d.numeric text).getD 0 != 0 else false

def evalPpAtomic (expr : List Char) : Bool :=
  let text := stripOuterParens expr
  let (negate, text) := bangs text.length false text
  if negate then !matched d text else matched d text

/-- The recursion of `eval_pp_expr`: the parts are shorter than the whole. -/
def evalFrom : ℕ → List Char → Bool
  | 0, _ => false
  | n + 1, expr =>
    let text := stripOuterParens (strip expr)
    if text = [] then false
    else if (splitTopLevel text '|').length > 1 then (splitTopLevel text '|').any (evalFrom n)
    else if (splitTopLevel text '&').length > 1 then (splitTopLevel text '&').all (evalFrom n)
    else evalPpAtomic d text

def evalPpExpr (expr : List Char) : Bool := evalFrom d (expr.length + 1) expr

end Evaluation

end UniHal.ClockMap.Conditions
