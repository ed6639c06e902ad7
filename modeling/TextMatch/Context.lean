import TextMatch.Captures

namespace TextMatch

/-!
# Contexts

What a run reads and leaves behind besides its outcome.

* `Context` — the captures, the nesting of references and its limit;
* `Context.isFull` — no further reference may be entered.
-/

/-- The context of a run. -/
structure Context (P : Type) where
  /-- The spans captured so far. -/
  captures : Captures P
  /-- The number of references that are being run, each inside the one before. -/
  depth : Nat
  /-- The greatest depth allowed; without it there is none. -/
  limit : Option Nat

namespace Context

variable {P : Type}

/-- The context to start with. -/
def new (limit : Option Nat) : Context P := ⟨.empty, 0, limit⟩

/-- Whether the limit forbids one more level of nesting. -/
def isFull (c : Context P) : Bool :=
  match c.limit with
  | some n => n ≤ c.depth
  | none => false

/-- One level further in. -/
def deeper (c : Context P) : Context P := { c with depth := c.depth + 1 }

/-- One level further out. -/
def shallower (c : Context P) : Context P := { c with depth := c.depth - 1 }

/-- The context with a span put under a name. -/
def capture (c : Context P) (name : String) (s : Span P) : Context P :=
  { c with captures := c.captures.insert name s }

/-- Without a limit every depth is allowed. -/
@[simp] theorem isFull_of_limit_none {c : Context P} (h : c.limit = none) : c.isFull = false := by
  simp [isFull, h]

/-- With a limit the depths below it are allowed. -/
theorem isFull_of_limit_some {c : Context P} {n : Nat} (h : c.limit = some n) :
    c.isFull = decide (n ≤ c.depth) := by
  simp [isFull, h]

/-- Going in and out again changes nothing. -/
@[simp] theorem shallower_deeper (c : Context P) : c.deeper.shallower = c := rfl

end Context

end TextMatch
