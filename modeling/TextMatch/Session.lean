import TextMatch.Session.Build
import TextMatch.Session.Report
import TextMatch.Session.Step

namespace TextMatch

/-!
# Sessions

A session carries out steps one after another on one context: it runs matchers, inspects cursors,
outcomes and captures, and declares, defines and drops rules.

* `Session` — what it remembers between steps;
* `Session.perform` — one step;
* `Session.performAll` — all of them.

A session owns a rule once for every name it has for it, and once for every reference to it in a
stored matcher.
-/

/-- What a session remembers between steps. -/
structure Session (P : Type) where
  /-- The texts that places refer to. -/
  texts : List String
  /-- The definitions that are built afresh at every use. -/
  definitions : Std.TreeMap String (Session.ValueMatcher P)
  /-- The context, the rules, and the log of the step. -/
  state : State (Session.signature P) P Session.Log
  /-- The table that was copied aside. -/
  saved : Captures P
  /-- The rules by their names. -/
  rules : Std.TreeMap String Slot
  /-- The weak references that were stored. -/
  handles : Std.TreeMap String Slot
  /-- The matchers that were stored. -/
  stored : Std.TreeMap String (Session.ValueMatcher P)

namespace Session

variable {P : Type} [Stream P]

/-! ### Opening -/

/-- The names a definition may use: definitions, but no rules and nothing that is stored. -/
def definitionScope (texts : List String) (definitions : List (String × Form)) : Scope P :=
  ⟨texts, definitions.map Prod.fst, ∅, ∅, ∅⟩

/-- The matchers of definitions, by their names. -/
def buildDefinitions (scope : Scope P) :
    List (String × Form) → Except Fault (Std.TreeMap String (ValueMatcher P))
  | [] => .ok ∅
  | (name, form) :: rest => do
    let m ← form.build scope
    let others ← buildDefinitions scope rest
    return others.insert name m

/-- A session at its beginning. -/
def new (texts : List String) (limit : Option Nat) (definitions : List (String × Form)) :
    Except Fault (Session P) := do
  let built ← buildDefinitions (definitionScope texts definitions) definitions
  return ⟨texts, built, ⟨.new limit, .empty, []⟩, .empty, ∅, ∅, ∅⟩

/-! ### Parts -/

/-- What names mean now. -/
def scope (s : Session P) : Scope P :=
  ⟨s.texts, s.definitions.keys, s.rules, s.handles, s.stored⟩

/-- The captures. -/
def captures (s : Session P) : Captures P := s.state.context.captures

/-- The session with other captures. -/
def withCaptures (s : Session P) (captures : Captures P) : Session P :=
  { s with state := { s.state with context := { s.state.context with captures := captures } } }

/-- The session with its rules changed. -/
def editRules (s : Session P) (f : Rules (signature P) → Rules (signature P)) : Session P :=
  { s with state := { s.state with rules := f s.state.rules } }

/-- The lines logged, in their order. -/
def log (s : Session P) : List String := s.state.world.reverse

/-! ### Running -/

/-- The bound of a run: more references one inside the other, or more rounds of a repetition, are
    taken for a run without an end. -/
def bound : Nat := 4294967296

/-- The run of a matcher, whose rules are owned until it ends. -/
def runMatcher (s : Session P) (m : ValueMatcher P) (p : P) :
    Except Fault (Outcome P Value × Session P) :=
  let start := { s.state with rules := s.state.rules.hold m.owned }
  match m.run (host s.definitions) bound start p with
  | some (o, st) => .ok (o, { s with state := { st with rules := st.rules.release m.owned } })
  | none => .error .endless

/-! ### Outcomes -/

/-- Goes on with the outcome that a form writes. -/
def withOutcome {α : Type 1} (s : Session P) (form : OutcomeForm)
    (next : Outcome P Value → Except Fault α) : Except Fault α :=
  match form with
  | .success value l => s.scope.withPlace l fun p => next (.success value p)
  | .failure l => s.scope.withPlace l fun p => next (.failure p)

/-- One change of an outcome. -/
def change (s : Session P) (o : Outcome P Value) :
    Change → Except Fault (ChangeReport P × Session P)
  | .map f => .ok (⟨o.map f.apply, none, none⟩, s)
  | .flatMap k => do
    let k ← k.build s.scope
    match o with
    | .success value p =>
      -- The value leads to its matcher where the outcome ended.
      let (o, s) ← s.runMatcher (.flatMap (.succeed value) k.holds k.next) p
      return (⟨o, none, none⟩, s)
    | .failure p => return (⟨.failure p, none, none⟩, s)
  | .orElse alternative =>
    s.withOutcome alternative fun other => .ok (⟨o.orElse other, some o.isFailure, none⟩, s)
  | .compare other =>
    s.withOutcome other fun other => .ok (⟨o, none, some (o.agrees other)⟩, s)

/-- Changes of an outcome one after another. -/
def changeAll (s : Session P) (o : Outcome P Value) :
    List Change → Except Fault (List (ChangeReport P) × Session P)
  | [] => .ok ([], s)
  | c :: cs => do
    let (report, s) ← s.change o c
    let (reports, s) ← s.changeAll report.outcome cs
    return (report :: reports, s)

/-! ### Cursors -/

/-- How two cursors stand to each other. -/
def compareCursors (p q : P) : Comparison :=
  ⟨Cursor.sameOffset p q, Cursor.isBefore p q, Cursor.isBefore q p, Span.text ⟨p, q⟩⟩

/-- What a cursor knows, and how it stands to another. -/
def inspectCursor (p : P) (other : Option P) : CursorReport P where
  cursor := p
  atStart := Cursor.atStart p
  atEnd := Cursor.atEnd p
  hasCurrent := Cursor.hasCurrent p
  current := Cursor.current p
  previous := Cursor.previous p
  advanced := Cursor.advance p
  comparison := other.map (compareCursors p)

/-! ### Rules by name -/

/-- Puts a rule that the session has just come to own under a name, and lets go
    of the rule that had the name. -/
def nameRule (s : Session P) (name : String) (slot : Slot) : Session P :=
  { s.editRules (·.release s.rules[name]?.toList) with rules := s.rules.insert name slot }

/-- Declares a rule under a name. -/
def declare (s : Session P) (name : String) : Session P :=
  let (slot, rules) := s.state.rules.declare
  (s.editRules fun _ => rules).nameRule name slot

/-- Gives a rule a second name. -/
def aliasRule (s : Session P) (slot : Slot) (name : String) : Session P :=
  (s.editRules (·.hold [slot])).nameRule name slot

/-- Gives up a name of a rule. -/
def dropRule (s : Session P) (name : String) : Session P :=
  { s.editRules (·.release s.rules[name]?.toList) with rules := s.rules.erase name }

/-! ### Stored matchers -/

/-- The rules that the session owns because of the matcher stored under a name. -/
def ownedByStored (s : Session P) (name : String) : List Slot :=
  match s.stored[name]? with
  | some m => m.owned
  | none => []

/-- Stores a matcher under a name, in place of the one that is there.  What is stored may be used
    in many places. -/
def store (s : Session P) (name : String) (m : ValueMatcher P) : Session P :=
  let m := m.share
  { s.editRules (fun r => (r.hold m.owned).release (s.ownedByStored name)) with
    stored := s.stored.insert name m }

/-- Gives up the matcher stored under a name. -/
def dropStored (s : Session P) (name : String) : Session P :=
  { s.editRules (·.release (s.ownedByStored name)) with stored := s.stored.erase name }

/-! ### Steps -/

/-- One step, on a session whose log is empty. -/
def perform (s : Session P) : Step → Except Fault (Report P × Session P)
  | .run m place => do
    let m ← m.build s.scope
    s.scope.withPlace place fun p => do
      let (o, s) ← s.runMatcher m p
      return (.ran o s.state.context.depth s.captures.toList s.log, s)
  | .inspect place other =>
    s.scope.withPlace place fun p =>
      match other with
      | none => .ok (.cursor (inspectCursor p none), s)
      | some other => s.scope.withPlace other fun q => .ok (.cursor (inspectCursor p (some q)), s)
  | .outcome start changes =>
    s.withOutcome start fun o => do
      let (reports, s) ← s.changeAll o changes
      return (.changes reports s.log, s)
  | .insert name start stop =>
    s.scope.withPlace start fun p => s.scope.withPlace stop fun q =>
      let after := s.captures.insert name ⟨p, q⟩
      .ok (.inserted (s.captures.get? name) after.toList, s.withCaptures after)
  | .remove name =>
    let after := s.captures.erase name
    .ok (.removed (s.captures.get? name) after.toList, s.withCaptures after)
  | .get name =>
    .ok (.found (s.captures.get? name) (s.captures.text? name) (s.captures.contains name), s)
  | .clear => .ok (.cleared (Captures.toList .empty), s.withCaptures .empty)
  | .save => .ok (.saved s.captures.toList, { s with saved := s.captures })
  | .swap =>
    .ok (.swapped s.captures.toList s.saved.toList,
      { s.withCaptures s.saved with saved := s.captures })
  | .info =>
    .ok (.info s.captures.size s.captures.isEmpty s.captures.names s.state.context.depth
      s.state.context.limit, s)
  | .declare rule => .ok (.defined false, s.declare rule)
  | .define rule m => do
    let m ← m.build s.scope
    s.scope.withRule rule fun slot => .ok (.defined true, s.editRules (·.define slot m))
  | .isDefined rule =>
    s.scope.withRule rule fun slot => .ok (.defined (s.state.rules.definition? slot).isSome, s)
  | .undefine rule =>
    s.scope.withRule rule fun slot => .ok (.defined false, s.editRules (·.undefine slot))
  | .dropRule rule => .ok (.dropped (s.rules.contains rule), s.dropRule rule)
  | .aliasRule rule second =>
    s.scope.withRule rule fun slot => .ok (.aliased second, s.aliasRule slot second)
  | .downgrade rule handle =>
    s.scope.withRule rule fun slot =>
      .ok (.handle handle, { s with handles := s.handles.insert handle slot })
  | .store name m => do
    let m ← m.build s.scope
    return (.stored name (s.stored.contains name), s.store name m)
  | .dropStored name => .ok (.dropped (s.stored.contains name), s.dropStored name)

/-- The session with an empty log. -/
def clearLog (s : Session P) : Session P := { s with state := { s.state with world := [] } }

/-- Steps one after another. -/
def performAll (s : Session P) : List Step → Except Fault (List (Report P))
  | [] => .ok []
  | step :: steps =>
    match s.clearLog.perform step with
    | .error fault => .error fault
    | .ok (report, s) =>
      match s.performAll steps with
      | .error fault => .error fault
      | .ok reports => .ok (report :: reports)

/-- The reports of a whole session. -/
def play (P : Type) [Stream P] (texts : List String) (limit : Option Nat)
    (definitions : List (String × Form)) (steps : List Step) : Except Fault (List (Report P)) :=
  match (new texts limit definitions : Except Fault (Session P)) with
  | .error fault => .error fault
  | .ok s => s.performAll steps

end Session

end TextMatch
