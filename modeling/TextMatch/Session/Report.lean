import TextMatch.Captures
import TextMatch.Outcome
import TextMatch.Session.Value

namespace TextMatch.Session

/-!
# Reports

What the steps of a session answer.

* `Comparison`, `CursorReport` — a cursor, alone and beside another;
* `ChangeReport` — an outcome after a change;
* `Report` — the answers.
-/

/-- A table as a list of names and spans. -/
abbrev Listing (P : Type) := List (String × Span P)

/-- How two cursors stand to each other. -/
structure Comparison where
  equal : Bool
  before : Bool
  after : Bool
  text : String

/-- A cursor and what it knows. -/
structure CursorReport (P : Type) where
  cursor : P
  atStart : Bool
  atEnd : Bool
  hasCurrent : Bool
  current : Option Char
  previous : Option Char
  advanced : P
  comparison : Option Comparison

/-- An outcome after a change; `forced` says of an alternative whether it was needed, and `equal`
    of a comparison whether the outcomes agree. -/
structure ChangeReport (P : Type) where
  outcome : Outcome P Value
  forced : Option Bool
  equal : Option Bool

/-- The answer of a step. -/
inductive Report (P : Type) where
  | ran (outcome : Outcome P Value) (depth : Nat) (captures : Listing P) (log : List String)
  | cursor (report : CursorReport P)
  | changes (reports : List (ChangeReport P)) (log : List String)
  | inserted (replaced : Option (Span P)) (captures : Listing P)
  | removed (removed : Option (Span P)) (captures : Listing P)
  | found (span : Option (Span P)) (text : Option String) (contains : Bool)
  | cleared (captures : Listing P)
  | saved (saved : Listing P)
  | swapped (saved captures : Listing P)
  | info (size : Nat) (isEmpty : Bool) (names : List String) (depth : Nat) (limit : Option Nat)
  | defined (isDefined : Bool)
  | dropped (known : Bool)
  | aliased (name : String)
  | handle (name : String)
  | stored (name : String) (replaced : Bool)

end TextMatch.Session
