import TextMatch.Context
import TextMatch.Outcome
import TextMatch.Rules

namespace TextMatch

/-!
# Runs

Running is a function of the state and the cursor.  This module has one operation on such
functions for each way in which matchers are combined.

* `State` — the context, the rules and whatever the application keeps;
* `Run` — from a state and a cursor to an outcome and a state, or to nothing when the steps that
  were allowed are used up;
* `Run.map`, `Run.seq`, `Run.choice`, `Run.chain`, `Run.nested`, … — the operations.
-/

/-- What a run reads and changes. -/
structure State (S : Signature) (P ω : Type) where
  context : Context P
  rules : Rules S
  /-- What the actions of the application read and change. -/
  world : ω

/-- A run; without a result when it needs more steps than it has. -/
abbrev Run (S : Signature) (P ω α : Type) :=
  State S P ω → P → Option (Outcome P α × State S P ω)

namespace State

variable {S : Signature} {P ω : Type}

/-- The state inside a reference. -/
def enter (st : State S P ω) (frame : List Slot) : State S P ω :=
  { st with context := st.context.deeper, rules := st.rules.enter frame }

/-- The state behind a reference that was entered in the state `before`. -/
def leave (st before : State S P ω) : State S P ω :=
  { st with context := st.context.shallower, rules := st.rules.leave before.rules }

/-- The state with a span put under a name. -/
def capture (st : State S P ω) (name : String) (s : Span P) : State S P ω :=
  { st with context := st.context.capture name s }

end State

namespace Run

variable {S : Signature} {P ω α β : Type} [Cursor P]

/-! ### Primitive runs -/

/-- Leaves the state alone. -/
def ofCursor (f : P → Outcome P α) : Run S P ω α := fun st p => some (f p, st)

/-- Fails where it stands. -/
def fail : Run S P ω α := ofCursor .failure

/-- One character that satisfies a predicate. -/
def satisfyAt (accepts : Char → Bool) (p : P) : Outcome P Char :=
  match Cursor.current p with
  | some c => if accepts c then .success c (Cursor.advance p) else .failure p
  | none => .failure p

/-- Whether the cursor satisfies a condition, without moving it. -/
def holdsAt (condition : P → Bool) (p : P) : Outcome P Unit :=
  if condition p then .success () p else .failure p

/-- Whether the last character behind satisfies a predicate. -/
def isBehind (accepts : Char → Bool) (p : P) : Bool :=
  match Cursor.previous p with
  | some c => accepts c
  | none => false

/-- The given characters one after another; the failure is where the first of them is not. -/
def spell : List Char → P → Outcome P Unit
  | [], p => .success () p
  | c :: cs, p => if Cursor.current p = some c then spell cs (Cursor.advance p) else .failure p

/-- A given text, which is also the value. -/
def literalAt (text : String) (p : P) : Outcome P String :=
  (spell text.toList p).map fun _ => text

/-- The text last captured under a name; without one, fails where it stands. -/
def backref (name : String) : Run S P ω String := fun st p =>
  match st.context.captures.text? name with
  | some text => some (literalAt text p, st)
  | none => some (.failure p, st)

/-! ### One run after another -/

/-- A run with its value changed. -/
def map (f : α → β) (m : Run S P ω α) : Run S P ω β := fun st p =>
  match m st p with
  | some (o, st') => some (o.map f, st')
  | none => none

/-- A run, and after its success the run that its value leads to. -/
def flatMap (m : Run S P ω α) (next : α → Run S P ω β) : Run S P ω β := fun st p =>
  match m st p with
  | some (.success a q, st') => next a st' q
  | some (.failure q, st') => some (.failure q, st')
  | none => none

/-- Two runs, the second from where the first ended. -/
def seq (first : Run S P ω α) (second : Run S P ω β) : Run S P ω (α × β) := fun st p =>
  match first st p with
  | some (.success a q, st') =>
    match second st' q with
    | some (o, st'') => some (o.map fun b => (a, b), st'')
    | none => none
  | some (.failure q, st') => some (.failure q, st')
  | none => none

/-- A second run from the same cursor if the first fails.  It finds the state the first left. -/
def choice (first second : Run S P ω α) : Run S P ω α := fun st p =>
  match first st p with
  | some (.success a q, st') => some (.success a q, st')
  | some (.failure q, st') =>
    match second st' p with
    | some (o, st'') => some (Outcome.orElse (.failure q) o, st'')
    | none => none
  | none => none

/-! ### Repetition -/

/-- Runs from one end to the next as long as each moves on: the values, the last end, and the
    state.  The run that fails or does not move is not counted, but its state is kept. -/
def chain (m : Run S P ω α) : Nat → State S P ω → P → Option (List α × P × State S P ω)
  | 0, _, _ => none
  | n + 1, st, p =>
    match m st p with
    | some (.success a q, st') =>
      if Cursor.isBefore p q then
        match chain m n st' q with
        | some (values, stop, st'') => some (a :: values, stop, st'')
        | none => none
      else some ([], p, st')
    | some (.failure _, st') => some ([], p, st')
    | none => none

/-- All the runs of a chain. -/
def many (bound : Nat) (m : Run S P ω α) : Run S P ω (List α) := fun st p =>
  match chain m bound st p with
  | some (values, stop, st') => some (.success values stop, st')
  | none => none

/-- A run, which need not move, and then all the runs of a chain. -/
def many1 (bound : Nat) (m : Run S P ω α) : Run S P ω (List α) := fun st p =>
  match m st p with
  | some (.success a q, st') =>
    match chain m bound st' q with
    | some (values, stop, st'') => some (.success (a :: values) stop, st'')
    | none => none
  | some (.failure q, st') => some (.failure q, st')
  | none => none

/-! ### Runs that may be taken back -/

/-- A run whose failure counts as a match of nothing. -/
def optional (m : Run S P ω α) : Run S P ω (Option α) := fun st p =>
  match m st p with
  | some (.success a q, st') => some (.success (some a) q, st')
  | some (.failure _, st') => some (.success none p, st')
  | none => none

/-- Succeeds where the run fails, and the other way round, without moving. -/
def not (m : Run S P ω α) : Run S P ω Unit := fun st p =>
  match m st p with
  | some (.success _ _, st') => some (.failure p, st')
  | some (.failure _, st') => some (.success () p, st')
  | none => none

/-- A run that moves only when it fails. -/
def guard (m : Run S P ω α) : Run S P ω α := fun st p =>
  match m st p with
  | some (.success a _, st') => some (.success a p, st')
  | some (.failure q, st') => some (.failure q, st')
  | none => none

/-! ### Effects -/

/-- A run whose span is captured when it succeeds. -/
def capture (name : String) (m : Run S P ω α) : Run S P ω α := fun st p =>
  match m st p with
  | some (.success a q, st') => some (.success a q, st'.capture name ⟨p, q⟩)
  | some (.failure q, st') => some (.failure q, st')
  | none => none

/-- A run inside a reference, which fails where it stands when the nesting is at its limit.
    `frame` lists the rules the reference owns while it runs. -/
def nested (frame : List Slot) (m : Run S P ω α) : Run S P ω α := fun st p =>
  if st.context.isFull then some (.failure p, st)
  else
    match m (st.enter frame) p with
    | some (o, st') => some (o, st'.leave st)
    | none => none

/-- A change of the rules. -/
def edit (f : Rules S → Rules S) : Run S P ω Unit := fun st p =>
  some (.success () p, { st with rules := f st.rules })

end Run

end TextMatch
