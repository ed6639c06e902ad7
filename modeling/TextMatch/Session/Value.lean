import TextMatch.Calculator.Expr

namespace TextMatch.Session

/-!
# Values of a session

The matchers of a session all yield one type, so that any two of them can be combined.

* `Value` — the values;
* `Value.chars`, `Value.toText` — the text of a value;
* `Value.sum` — the sum of the integers in it;
* `Transform` — the functions by which a session changes values.
-/

open Calculator (Expr)

/-- What a matcher of a session yields. -/
inductive Value where
  | unit
  | char (c : Char)
  | text (s : String)
  | int (n : Int)
  | pair (first second : Value)
  | list (values : List Value)
  | absent
  | present (value : Value)
  | expr (e : Expr)
deriving Repr, BEq

namespace Value

mutual

/-- The characters of a value: those of its parts one after another. -/
def chars : Value → List Char
  | unit => []
  | char c => [c]
  | text s => s.toList
  | int n => Decimal.signedDigits n
  | pair a b => a.chars ++ b.chars
  | list vs => charsOfAll vs
  | absent => []
  | present v => v.chars
  | expr e => e.chars

/-- The characters of values one after another. -/
def charsOfAll : List Value → List Char
  | [] => []
  | v :: vs => v.chars ++ charsOfAll vs

end

mutual

/-- The sum of the integers in a value.  Texts and expressions hold none. -/
def sum : Value → Int
  | int n => n
  | pair a b => a.sum + b.sum
  | list vs => sumOfAll vs
  | present v => v.sum
  | unit | char _ | text _ | absent | expr _ => 0

/-- The sum of the integers in values. -/
def sumOfAll : List Value → Int
  | [] => 0
  | v :: vs => v.sum + sumOfAll vs

end

/-- The text of a value. -/
def toText (v : Value) : String := String.ofList v.chars

/-- The number of elements of a list, and of characters of any other value. -/
def length : Value → Nat
  | list vs => vs.length
  | v => v.chars.length

/-- The first component of a pair. -/
def fst : Value → Value
  | pair a _ => a
  | v => v

/-- The second component of a pair. -/
def snd : Value → Value
  | pair _ b => b
  | v => v

/-- The next integer; one after anything that is no integer. -/
def successor : Value → Value
  | int n => int (n + 1)
  | _ => int 1

/-- The number that the text of a value stands for, if it is one of at most `bound`. -/
def number? (bound : Nat) (v : Value) : Option Nat := Decimal.foldBounded? bound v.chars

end Value

/-- A function on values. -/
inductive Transform where
  | text
  | length
  | fst
  | snd
  | successor
  | sum
  | number
  | const (value : Value)
deriving Repr, BEq

/-- The value of a function. -/
def Transform.apply : Transform → Value → Value
  | .text, v => .text v.toText
  | .length, v => .int v.length
  | .fst, v => v.fst
  | .snd, v => v.snd
  | .successor, v => v.successor
  | .sum, v => .int v.sum
  | .number, v =>
    match v.number? (Decimal.IntKind.max ⟨true, 64⟩) with
    | some n => .present (.int n)
    | none => .absent
  | .const value, _ => value

end TextMatch.Session
