import TextMatch.Calculator.Grammar
import TextMatch.Cursor.Place
import TextMatch.Engine

namespace TextMatch.Calculator

/-!
# From texts to expressions and values

* `host` — the grammar as an application of the engine;
* `parseWithin`, `parse` — the expression a text is, with and without a limit on its nesting;
* `evaluate` — the value of a text;
* `Error.unexpected` — the error for a place where the grammar fits nothing.
-/

/-- The location of a place. -/
def locate (p : Place) : Location := ⟨p.index, p.line, p.column⟩

/-- The error for a place where what is there does not fit. -/
def Error.unexpected (p : Place) : Error :=
  match Cursor.current p with
  | some found => .unexpectedChar found (locate p)
  | none => .unexpectedEnd (locate p)

/-- The grammar as an application: the names have their definitions, and there are no actions. -/
def host (P : Type) : Host signature P Unit := ⟨definition, fun action => nomatch action⟩

/-- The state before a run of the grammar. -/
def initial (P : Type) (limit : Option Nat) : State signature P Unit := ⟨.new limit, .empty, ()⟩

/-- The bound for a text.  Every reference comes behind an opening parenthesis or a minus sign of
    its own, and every round of a repetition takes a character, so a run needs at most one step
    more than the text has characters. -/
def bound (input : List Char) : Nat := input.length + 1

/-- The expression that a text is, nested no deeper than the limit, or the place where the text
    stops being one. -/
def parseWithin (limit : Option Nat) (input : String) : Except Error Expr :=
  let start := Place.start input
  match (program recursion).run (host Place) (bound input.toList) (initial Place limit) start with
  | some (.success e _, _) => .ok e
  | some (.failure p, _) => .error (.unexpected p)
  -- The bound suffices for every text.
  | none => .error (.unexpected start)

/-- The expression that a text is. -/
def parse (input : String) : Except Error Expr := parseWithin none input

/-- The value of the expression that a text is. -/
def evaluate (input : String) : Except Error Int64 := do
  let e ← parse input
  e.eval

end TextMatch.Calculator
