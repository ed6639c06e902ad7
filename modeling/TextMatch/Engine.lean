import TextMatch.Engine.Run

namespace TextMatch

/-!
# The engine

The run of a matcher.

* `Host` — the definitions of the names and the effects of the actions;
* `Matcher.step` — the run of a tree, given how to run the definitions it refers to;
* `Matcher.run` — the run of a tree, given a number that bounds both the nesting of references and
  the length of every repetition.

A matcher may run for ever, as a rule does that begins with itself, so the bound is part of the
definition; a run that has a result keeps it under every larger bound.
-/

/-- What an application provides. -/
structure Host (S : Signature) (P ω : Type) where
  /-- The definitions of the names. -/
  definition : (name : S.Name) → Matcher S (S.Yield name)
  /-- The effect of an action: it sees the context and may change the application's own part of
      the state and move the cursor. -/
  act : S.Hook → Context P → ω → P → ω × P

namespace Matcher

variable {S : Signature} {P ω : Type} [Cursor P]

/-- The run of an action. -/
def perform (host : Host S P ω) (action : S.Hook) : Run S P ω Unit := fun st p =>
  let (world, q) := host.act action st.context st.world p
  some (.success () q, { st with world := world })

/-- The run of a tree, where `call` runs the definitions that are referred to and repetitions are
    cut off at `bound`. -/
def step (host : Host S P ω) (bound : Nat) (call : (β : Type) → Matcher S β → Run S P ω β) :
    {α : Type} → Matcher S α → State S P ω → P → Option (Outcome P α × State S P ω)
  | _, .satisfy accepts, st, p => Run.ofCursor (Run.satisfyAt accepts) st p
  | _, .literal text, st, p => Run.ofCursor (Run.literalAt text) st p
  | _, .atStart, st, p => Run.ofCursor (Run.holdsAt Cursor.atStart) st p
  | _, .atEnd, st, p => Run.ofCursor (Run.holdsAt Cursor.atEnd) st p
  | _, .behind accepts, st, p => Run.ofCursor (Run.holdsAt (Run.isBehind accepts)) st p
  | _, .succeed a, st, p => Run.ofCursor (.success a) st p
  | _, .fail, st, p => Run.fail st p
  | _, .backref name, st, p => Run.backref name st p
  | _, .map f m, st, p => Run.map f (step host bound call m) st p
  | _, .flatMap m _ next, st, p =>
    Run.flatMap (step host bound call m) (fun a => step host bound call (next a)) st p
  | _, .seq a b, st, p => Run.seq (step host bound call a) (step host bound call b) st p
  | _, .choice a b, st, p => Run.choice (step host bound call a) (step host bound call b) st p
  | _, .many m, st, p => Run.many bound (step host bound call m) st p
  | _, .many1 m, st, p => Run.many1 bound (step host bound call m) st p
  | _, .optional m, st, p => Run.optional (step host bound call m) st p
  | _, .not m, st, p => Run.not (step host bound call m) st p
  | _, .guard m, st, p => Run.guard (step host bound call m) st p
  | _, .capture name m, st, p => Run.capture name (step host bound call m) st p
  | _, .defer name, st, p =>
    Run.nested (host.definition name).owned (call _ (host.definition name)) st p
  | _, .rule s, st, p =>
    match st.rules.definition? s with
    | some m => Run.nested m.owned (call _ m) st p
    | none => Run.fail st p
  | _, .weak s, st, p =>
    match st.rules.definition? s with
    | some m => Run.nested (s :: m.owned) (call _ m) st p
    | none => Run.fail st p
  | _, .define s m, st, p => Run.edit (fun r => r.define s m) st p
  | _, .undefine s, st, p => Run.edit (fun r => r.undefine s) st p
  | _, .hook action, st, p => perform host action st p
  | _, .shared _ m, st, p => step host bound call m st p

/-- The run of a tree within a bound. -/
def run (host : Host S P ω) : Nat → {α : Type} → Matcher S α → Run S P ω α
  | 0, _, m => step host 0 (fun _ _ _ _ => none) m
  | n + 1, _, m => step host (n + 1) (fun _ m => run host n m) m

end Matcher

end TextMatch
