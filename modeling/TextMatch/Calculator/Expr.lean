import TextMatch.Calculator.Error

namespace TextMatch.Calculator

/-!
# Expressions

Integer expressions over 64-bit numbers, their text and their value.

* `Operator`, `Expr` — the trees;
* `Operator.apply`, `Expr.eval` — the value, or the first error met from left to right;
* `Expr.chars`, `Expr.text` — the fully parenthesised text;
* `Expr.toPostfix`, `Expr.ofPostfix?` — the tree as a flat list of words, operands first.

Trees are written from the right, each in front of what follows it, so writing takes as many steps
as there are characters.
-/

/-- The binary operators. -/
inductive Operator where
  | add
  | sub
  | mul
  | div
deriving Repr, DecidableEq

/-- An integer expression.  A number may be negative, though no text parses to one. -/
inductive Expr where
  | number (value : Int64)
  | negate (operand : Expr)
  | binary (op : Operator) (lhs rhs : Expr)
deriving Repr, DecidableEq

/-! ### Arithmetic -/

/-- A result of exact arithmetic as a 64-bit number, or an overflow if it does not fit. -/
def fit (n : Int) : Except Error Int64 :=
  if Int64.minValue.toInt ≤ n ∧ n ≤ Int64.maxValue.toInt then .ok (Int64.ofInt n)
  else .error .overflow

/-- The value of an operator on two numbers.  A zero divisor is noticed before any overflow, and
    quotients are rounded toward zero. -/
def Operator.apply (op : Operator) (a b : Int64) : Except Error Int64 :=
  match op with
  | .add => fit (a.toInt + b.toInt)
  | .sub => fit (a.toInt - b.toInt)
  | .mul => fit (a.toInt * b.toInt)
  | .div => if b = 0 then .error .divisionByZero else fit (a.toInt.tdiv b.toInt)

/-- The value of an expression.  The left operand is evaluated first, and
    its error is the one reported. -/
def Expr.eval : Expr → Except Error Int64
  | .number n => .ok n
  | .negate e => do
    let n ← e.eval
    fit (-n.toInt)
  | .binary op l r => do
    let a ← l.eval
    let b ← r.eval
    op.apply a b

/-! ### Text -/

/-- The sign of an operator. -/
def Operator.symbol : Operator → Char
  | .add => '+'
  | .sub => '-'
  | .mul => '*'
  | .div => '/'

/-- The characters of an expression in front of others: every operation in parentheses, a blank on
    either side of a binary operator. -/
def Expr.charsBefore : Expr → List Char → List Char
  | .number n, rest => Decimal.signedDigits n.toInt ++ rest
  | .negate e, rest => '(' :: '-' :: e.charsBefore (')' :: rest)
  | .binary op l r, rest =>
    '(' :: l.charsBefore (' ' :: op.symbol :: ' ' :: r.charsBefore (')' :: rest))

/-- The characters of an expression. -/
def Expr.chars (e : Expr) : List Char := e.charsBefore []

/-- What an expression is written in front of stays as it is. -/
theorem Expr.charsBefore_eq_append (e : Expr) (rest : List Char) :
    e.charsBefore rest = e.chars ++ rest := by
  have happend : ∀ (e : Expr) (a b : List Char),
      e.charsBefore (a ++ b) = e.charsBefore a ++ b := by
    intro e
    induction e with
    | number n => simp [charsBefore]
    | negate e ih => intro a b; simp [charsBefore, ← ih]
    | binary op l r ihl ihr => intro a b; simp [charsBefore, ← ihl, ← ihr]
  exact happend e [] rest

/-- A number stands without parentheses, with a sign if it has one. -/
@[simp] theorem Expr.chars_number (n : Int64) :
    (number n).chars = Decimal.signedDigits n.toInt := by
  simp [chars, charsBefore]

/-- A negation is in parentheses, sign first. -/
@[simp] theorem Expr.chars_negate (e : Expr) :
    (negate e).chars = ['(', '-'] ++ e.chars ++ [')'] := by
  rw [chars, charsBefore, charsBefore_eq_append]
  simp

/-- An operation is in parentheses, its operator between blanks. -/
@[simp] theorem Expr.chars_binary (op : Operator) (l r : Expr) :
    (binary op l r).chars = ['('] ++ l.chars ++ [' ', op.symbol, ' '] ++ r.chars ++ [')'] := by
  rw [chars, charsBefore, charsBefore_eq_append, charsBefore_eq_append]
  simp

/-- The text of an expression. -/
def Expr.text (e : Expr) : String := String.ofList e.chars

/-! ### Postfix words -/

/-- A word of the postfix form. -/
inductive Word where
  | number (value : Int64)
  | negate
  | operator (op : Operator)
deriving Repr, DecidableEq

/-- The words of an expression in postfix order, in front of others. -/
def Expr.postfixBefore : Expr → List Word → List Word
  | .number n, rest => .number n :: rest
  | .negate e, rest => e.postfixBefore (.negate :: rest)
  | .binary op l r, rest => l.postfixBefore (r.postfixBefore (.operator op :: rest))

/-- The words of an expression in postfix order. -/
def Expr.toPostfix (e : Expr) : List Word := e.postfixBefore []

/-- One word read onto a stack of finished expressions. -/
def Word.push? : List Expr → Word → Option (List Expr)
  | stack, .number n => some (.number n :: stack)
  | e :: stack, .negate => some (.negate e :: stack)
  | r :: l :: stack, .operator op => some (.binary op l r :: stack)
  | _, _ => none

/-- The expression a list of postfix words describes, if it describes exactly one. -/
def Expr.ofPostfix? (words : List Word) : Option Expr :=
  match words.foldlM Word.push? [] with
  | some [e] => some e
  | _ => none

end TextMatch.Calculator
