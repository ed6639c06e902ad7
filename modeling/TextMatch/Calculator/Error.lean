import TextMatch.Text.Quoted

namespace TextMatch.Calculator

/-!
# Calculator errors

Everything that can go wrong between the text of an expression and its value, and the message for
each.

* `Location` — where in the text, counted from zero;
* `Error` — the causes;
* `Error.message` — the wording, in which lines and columns count from one.
-/

/-- A location of a text: the byte offset, and the line and column counted from zero. -/
structure Location where
  index : Nat
  line : Nat
  column : Nat
deriving Repr, DecidableEq

/-- Why an expression has no value. -/
inductive Error where
  /-- The text goes on with a character that fits nowhere in the grammar. -/
  | unexpectedChar (found : Char) (location : Location)
  /-- The text ends where the grammar asks for more. -/
  | unexpectedEnd (location : Location)
  /-- A divisor is zero. -/
  | divisionByZero
  /-- A result does not fit in sixty-four bits. -/
  | overflow
deriving Repr, DecidableEq

/-- The location in words, counted from one as readers of a text do. -/
def Location.describe (l : Location) : String :=
  "line " ++ Decimal.ofNat (l.line + 1) ++ ", column " ++ Decimal.ofNat (l.column + 1)

/-- The message of an error. -/
def Error.message : Error → String
  | .unexpectedChar found l => "unexpected character " ++ Text.quoted found ++ " at " ++ l.describe
  | .unexpectedEnd l => "unexpected end of input at " ++ l.describe
  | .divisionByZero => "division by zero"
  | .overflow => "arithmetic overflow"

end TextMatch.Calculator
