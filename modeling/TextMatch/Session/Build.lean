import Std.Data.TreeMap
import TextMatch.Calculator.Grammar
import TextMatch.Engine
import TextMatch.Session.Form
import TextMatch.Session.Stream

namespace TextMatch.Session

/-!
# From forms to matchers

Names are looked up when a matcher is built, so a later change of what a name means does not
change the matchers built before.

* `Fault` — what can be wrong with a step;
* `signature` — what the matchers of a session refer to: the rules of the calculator and the
  session's own definitions by name, and actions that write to a log or move the cursor;
* `Scope` — what the names of a form mean;
* `Form.build` — the matcher of a form;
* `host` — the definitions and the effects of the actions.
-/

open Calculator (Expr Nonterminal)

/-- Why a step cannot be carried out. -/
inductive Fault where
  | unknownRule (name : String)
  | unknownHandle (name : String)
  | unknownStored (name : String)
  | unknownDefinition (name : String)
  | unknownText (number : Nat)
  /-- A run took more steps than any session allows. -/
  | endless
deriving Repr, DecidableEq

/-- The fault in words. -/
def Fault.message : Fault → String
  | .unknownRule name => "unknown rule " ++ name
  | .unknownHandle name => "unknown handle " ++ name
  | .unknownStored name => "unknown matcher " ++ name
  | .unknownDefinition name => "unknown definition " ++ name
  | .unknownText number => "unknown text " ++ Decimal.ofNat number
  | .endless => "the run does not end"

/-! ### What matchers refer to -/

/-- The names of definitions. -/
inductive Name where
  | calculator (n : Nonterminal)
  | definition (name : String)
deriving Repr, DecidableEq

/-- What a definition yields. -/
abbrev Name.Yield : Name → Type
  | .calculator _ => Expr
  | .definition _ => Value

/-- The actions of a session. -/
inductive Action (P : Type) where
  /-- Logs a line. -/
  | note (line : String)
  /-- Logs a label and the depth. -/
  | trace (label : String)
  /-- Puts a tag on the cursor. -/
  | retag (tag : Nat)
  /-- Moves the cursor. -/
  | seek (place : P)

/-- What the matchers of a session refer to. -/
abbrev signature (P : Type) : Signature := ⟨Name, Name.Yield, Value, Action P⟩

/-- A matcher of a session. -/
abbrev ValueMatcher (P : Type) := Matcher (signature P) Value

/-! ### Actions as matchers -/

section Actions

variable {P : Type}

/-- A matcher with an action in front. -/
def after (action : Action P) (m : ValueMatcher P) : ValueMatcher P :=
  .keepRight (Matcher.hook (S := signature P) action) m

/-- A definition, whose use is logged. -/
def logged (name : String) (m : ValueMatcher P) : ValueMatcher P :=
  after (.note ("build " ++ name)) m

/-- What a continuation leads to, whose use is logged. -/
def continued (m : ValueMatcher P) : ValueMatcher P := after (.note "continue") m

end Actions

/-! ### The calculator as a part -/

section Parts

variable {P : Type}

/-- The references of the grammar to itself. -/
def recursion : Calculator.Recursion (signature P) :=
  ⟨Matcher.defer (S := signature P) (.calculator .expression),
    Matcher.defer (S := signature P) (.calculator .factor)⟩

/-- The matcher of a part of the calculator. -/
def Part.matcher : Part → ValueMatcher P
  | .blanks => .map (fun cs => .list (cs.map .char)) Calculator.blanks
  | .number => .map .expr Calculator.number
  | .factor => .map .expr (Calculator.factor recursion)
  | .term => .map .expr (Calculator.term recursion)
  | .expression => .map .expr (Calculator.expression recursion)
  | .program => .map .expr (Calculator.program recursion)

end Parts

/-! ### Names and places -/

/-- What the names in a form mean. -/
structure Scope (P : Type) where
  texts : List String
  definitions : List String
  rules : Std.TreeMap String Slot
  handles : Std.TreeMap String Slot
  stored : Std.TreeMap String (ValueMatcher P)

namespace Scope

variable {P : Type} {α : Type 1}

/-- Goes on with the rule of a name. -/
def withRule (scope : Scope P) (name : String) (next : Slot → Except Fault α) : Except Fault α :=
  match scope.rules[name]? with
  | some s => next s
  | none => .error (.unknownRule name)

/-- Goes on with the rule of a handle. -/
def withHandle (scope : Scope P) (name : String) (next : Slot → Except Fault α) : Except Fault α :=
  match scope.handles[name]? with
  | some s => next s
  | none => .error (.unknownHandle name)

/-- Goes on with a cursor at a place. -/
def withPlace [Stream P] (scope : Scope P) (l : Locator) (next : P → Except Fault α) :
    Except Fault α :=
  match scope.texts[l.text]? with
  | some text => next (Stream.locate text l.steps l.tag)
  | none => .error (.unknownText l.text)

end Scope

/-! ### Building -/

/-- A continuation that was built: the rules it keeps alive, and the matcher for a value. -/
structure Builder (P : Type) where
  holds : List Slot
  next : Value → ValueMatcher P

mutual

/-- The matcher of a form. -/
def Form.build {P : Type} [Stream P] (scope : Scope P) : Form → Except Fault (ValueMatcher P)
  | .anyChar => .ok (.map .char .anyChar)
  | .satisfy p => .ok (.map .char (.satisfy p.accepts))
  | .char c => .ok (.map .char (.char c))
  | .literal text => .ok (.map .text (.literal text))
  | .atStart => .ok (.map (fun _ => .unit) .atStart)
  | .atEnd => .ok (.map (fun _ => .unit) .atEnd)
  | .behind p => .ok (.map (fun _ => .unit) (.behind p.accepts))
  | .succeed value => .ok (.succeed value)
  | .fail => .ok .fail
  | .backref name => .ok (.map .text (.backref name))
  | .map f m => do return .map f.apply (← m.build scope)
  | .flatMap k m => do
    let m ← m.build scope
    let k ← k.build scope
    return .flatMap m k.holds k.next
  | .seq a b => do return .map (fun v => .pair v.1 v.2) (.seq (← a.build scope) (← b.build scope))
  | .keepLeft a b => do return .keepLeft (← a.build scope) (← b.build scope)
  | .keepRight a b => do return .keepRight (← a.build scope) (← b.build scope)
  | .choice a b => do return .choice (← a.build scope) (← b.build scope)
  | .many m => do return .map .list (.many (← m.build scope))
  | .many1 m => do return .map .list (.many1 (← m.build scope))
  | .optional m => do
    return .map (fun | some v => .present v | none => .absent) (.optional (← m.build scope))
  | .not m => do return .map (fun _ => .unit) (.not (← m.build scope))
  | .guard m => do return .guard (← m.build scope)
  | .matchAll m => do return .matchAll (← m.build scope)
  | .capture name m => do return .capture name (← m.build scope)
  | .defer name =>
    if scope.definitions.contains name then
      .ok (Matcher.defer (S := signature P) (.definition name))
    else .error (.unknownDefinition name)
  | .rule name => scope.withRule name fun s => .ok (Matcher.rule (S := signature P) s)
  | .weak name => scope.withRule name fun s => .ok (Matcher.weak (S := signature P) s)
  | .handle name => scope.withHandle name fun s => .ok (Matcher.weak (S := signature P) s)
  | .stored name =>
    match scope.stored[name]? with
    | some m => .ok m
    | none => .error (.unknownStored name)
  | .calculator part => .ok part.matcher
  | .trace label m => do return after (.trace label) (← m.build scope)
  | .retag tag m => do return after (.retag tag) (← m.build scope)
  | .seek place => scope.withPlace place fun p => .ok (after (.seek p) (.succeed .unit))
  | .clearing rule m => do
    let m ← m.build scope
    scope.withRule rule fun s => .ok (.keepLeft m (Matcher.undefine (S := signature P) s))
  | .defining rule definition m => do
    let m ← m.build scope
    let definition ← definition.build scope
    scope.withRule rule fun s => .ok (.keepLeft m (Matcher.define (S := signature P) s definition))

/-- The function of a continuation. -/
def Continuation.build {P : Type} [Stream P] (scope : Scope P) :
    Continuation → Except Fault (Builder P)
  | .again => .ok ⟨[], fun v => continued (.map .text (.literal v.toText))⟩
  | .times m => do
    let m ← m.build scope
    return ⟨m.owned, fun v => continued <|
      match v.number? (Decimal.IntKind.max ⟨false, 8⟩) with
      | some n => .map .list (m.times n)
      | none => .fail⟩
  | .select cases => do
    let cases ← cases.build scope
    return ⟨cases.holds, fun v => continued (cases.next v)⟩

/-- The choice between cases. -/
def Cases.build {P : Type} [Stream P] (scope : Scope P) : Cases → Except Fault (Builder P)
  | .nil => .ok ⟨[], fun _ => .fail⟩
  | .cons text m rest => do
    let m ← m.build scope
    let rest ← rest.build scope
    return ⟨m.owned ++ rest.holds, fun v => if v.toText = text then m else rest.next v⟩

end

/-! ### Running -/

/-- The log of a session, the latest line first. -/
abbrev Log := List String

/-- The effect of an action. -/
def act {P : Type} [Stream P] : Action P → Context P → Log → P → Log × P
  | .note line, _, log, p => (line :: log, p)
  | .trace label, c, log, p => ((label ++ " d" ++ Decimal.ofNat c.depth) :: log, p)
  | .retag tag, _, log, p => (log, Stream.retag tag p)
  | .seek q, _, log, _ => (log, q)

/-- What a session provides to the engine, given its definitions. -/
def host {P : Type} [Stream P] (definitions : Std.TreeMap String (ValueMatcher P)) :
    Host (signature P) P Log where
  definition
    | .calculator .expression => Calculator.expression recursion
    | .calculator .factor => Calculator.factor recursion
    | .definition name =>
      match definitions[name]? with
      | some m => logged name m
      | none => .fail
  act := act

end TextMatch.Session
