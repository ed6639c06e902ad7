import TextMatch.Session.Form

namespace TextMatch.Session

/-!
# Steps

What a session can be asked to do.

* `OutcomeForm` — outcomes as a step writes them;
* `Change` — the operations on an outcome;
* `Step` — the steps.
-/

/-- An outcome as a step writes it. -/
inductive OutcomeForm where
  | success (value : Value) (next : Locator)
  | failure (next : Locator)

/-- An operation on an outcome. -/
inductive Change where
  /-- Changes the value. -/
  | map (f : Transform)
  /-- Goes on with the matcher that the value leads to. -/
  | flatMap (k : Continuation)
  /-- Puts an alternative beside it. -/
  | orElse (alternative : OutcomeForm)
  /-- Compares it with another, and leaves it as it is. -/
  | compare (other : OutcomeForm)

/-- A step of a session. -/
inductive Step where
  /-- Runs a matcher from a place. -/
  | run (m : Form) (place : Locator)
  /-- Inspects a cursor, and compares it with another. -/
  | inspect (place : Locator) (other : Option Locator)
  /-- Changes an outcome step by step. -/
  | outcome (start : OutcomeForm) (changes : List Change)
  /-- Puts a span into the table. -/
  | insert (name : String) (start stop : Locator)
  /-- Takes a span out of the table. -/
  | remove (name : String)
  /-- Looks a span up. -/
  | get (name : String)
  /-- Empties the table. -/
  | clear
  /-- Copies the table aside. -/
  | save
  /-- Exchanges the table and the copy. -/
  | swap
  /-- Describes the table and the context. -/
  | info
  /-- Declares a rule under a name. -/
  | declare (rule : String)
  /-- Gives a rule a definition. -/
  | define (rule : String) (m : Form)
  /-- Asks whether a rule has a definition. -/
  | isDefined (rule : String)
  /-- Takes the definition of a rule away. -/
  | undefine (rule : String)
  /-- Gives up a name of a rule. -/
  | dropRule (rule : String)
  /-- Gives a rule a second name. -/
  | aliasRule (rule second : String)
  /-- Stores a weak reference to a rule. -/
  | downgrade (rule handle : String)
  /-- Stores a matcher. -/
  | store (name : String) (m : Form)
  /-- Gives up a stored matcher. -/
  | dropStored (name : String)

end TextMatch.Session
