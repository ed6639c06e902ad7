import TextMatch.CharClass
import TextMatch.Calculator.Expr
import TextMatch.Matcher

namespace TextMatch.Calculator

/-!
# The grammar of expressions

Matchers for expressions, one for each rule:

* `expression` — terms joined by `+` and `-`, grouped from the left;
* `term` — factors joined by `*` and `/`, grouped from the left;
* `factor` — a number, an expression in parentheses, or a minus sign and a factor;
* `program` — a whole text.

Every token takes the blanks behind it, so only `program` has to skip blanks in front.  A factor
may contain expressions and factors; these two references are parameters (`Recursion`), so the
grammar can be part of a larger one.
-/

variable {S : Signature} {α β : Type}

open Matcher

/-- The matchers that stand for an expression and a factor inside a factor. -/
structure Recursion (S : Signature) where
  expression : Matcher S Expr
  factor : Matcher S Expr

/-! ### Tokens -/

/-- Any number of blanks. -/
def blanks : Matcher S (List Char) := many (satisfy CharClass.blank.contains)

/-- A character and the blanks behind it. -/
def token (c : Char) : Matcher S Char := keepLeft (char c) blanks

/-- The greatest number that can be written. -/
def maxNumber : Nat := Decimal.IntKind.max ⟨true, 64⟩

/-- The number that digits stand for, unless it is too large. -/
def numberOf (digits : List Char) : Matcher S Expr :=
  match Decimal.foldBounded? maxNumber digits with
  | some n => succeed (.number (Int64.ofNat n))
  | none => fail

/-- A number and the blanks behind it. -/
def number : Matcher S Expr :=
  keepLeft (flatMap (many1 (satisfy CharClass.digit.contains)) [] numberOf) blanks

/-! ### Operators -/

/-- A plus or a minus sign. -/
def additive : Matcher S Operator :=
  choice (map (fun _ => .add) (token '+')) (map (fun _ => .sub) (token '-'))

/-- A multiplication or a division sign. -/
def multiplicative : Matcher S Operator :=
  choice (map (fun _ => .mul) (token '*')) (map (fun _ => .div) (token '/'))

/-- Operations applied to a first operand one after another. -/
def foldLeft (first : Expr) (rest : List (Operator × Expr)) : Expr :=
  rest.foldl (fun lhs r => .binary r.1 lhs r.2) first

/-- Operands with operators between them, grouped from the left.  An operator without an operand
    behind it is left where it stands. -/
def chainLeft (operand : Matcher S Expr) (operator : Matcher S Operator) : Matcher S Expr :=
  map (fun v => foldLeft v.1 v.2) (seq operand (many (seq operator operand)))

/-! ### Rules -/

/-- A number, an expression in parentheses, or a negated factor. -/
def factor (r : Recursion S) : Matcher S Expr :=
  choice
    (choice number (keepLeft (keepRight (token '(') r.expression) (token ')')))
    (map .negate (keepRight (token '-') r.factor))

/-- Factors joined by `*` and `/`. -/
def term (r : Recursion S) : Matcher S Expr := chainLeft (factor r) multiplicative

/-- Terms joined by `+` and `-`. -/
def expression (r : Recursion S) : Matcher S Expr := chainLeft (term r) additive

/-- A whole text: blanks, and then an expression up to the end. -/
def program (r : Recursion S) : Matcher S Expr := matchAll (keepRight blanks (expression r))

/-! ### The recursive grammar -/

/-- The rules that refer to each other. -/
inductive Nonterminal where
  | expression
  | factor
deriving Repr, DecidableEq

/-- The grammar by itself: both rules are names, and nothing else is referred to. -/
abbrev signature : Signature := ⟨Nonterminal, fun _ => Expr, Empty, Empty⟩

/-- The references of the grammar to itself. -/
def recursion : Recursion signature :=
  ⟨defer (S := signature) Nonterminal.expression, defer (S := signature) Nonterminal.factor⟩

/-- What a nonterminal stands for. -/
def definition : Nonterminal → Matcher signature Expr
  | .expression => expression recursion
  | .factor => factor recursion

end TextMatch.Calculator
