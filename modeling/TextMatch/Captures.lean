import Std.Data.TreeMap
import TextMatch.Cursor

namespace TextMatch

/-!
# Captures

The stretches of text that a run has put under a name.

* `Span` — two cursors and the text between them;
* `Captures` — the table of spans, listed in the order of their names.
-/

/-- A stretch of text. -/
structure Span (P : Type) where
  start : P
  stop : P
deriving Repr, DecidableEq

/-- The characters of a span, read in the text of its first cursor. -/
def Span.chars {P : Type} [Cursor P] (s : Span P) : List Char := Cursor.between s.start s.stop

/-- The text of a span. -/
def Span.text {P : Type} [Cursor P] (s : Span P) : String := String.ofList s.chars

/-- Spans by name. -/
structure Captures (P : Type) where
  spans : Std.TreeMap String (Span P)

namespace Captures

variable {P : Type}

/-- The table without spans. -/
def empty : Captures P := ⟨∅⟩

/-- Puts a span under a name, in place of the one that is there. -/
def insert (t : Captures P) (name : String) (s : Span P) : Captures P :=
  ⟨t.spans.insert name s⟩

/-- The span under a name. -/
def get? (t : Captures P) (name : String) : Option (Span P) := t.spans[name]?

/-- Takes the span under a name out of the table. -/
def erase (t : Captures P) (name : String) : Captures P := ⟨t.spans.erase name⟩

/-- Whether there is a span under a name. -/
def contains (t : Captures P) (name : String) : Bool := t.spans.contains name

/-- The number of spans. -/
def size (t : Captures P) : Nat := t.spans.size

/-- Whether there are no spans. -/
def isEmpty (t : Captures P) : Bool := t.spans.isEmpty

/-- The names in increasing order. -/
def names (t : Captures P) : List String := t.spans.keys

/-- The names and their spans, in increasing order of the names. -/
def toList (t : Captures P) : List (String × Span P) := t.spans.toList

/-- The text under a name. -/
def text? [Cursor P] (t : Captures P) (name : String) : Option String :=
  (t.get? name).map Span.text

/-! ### What is found under a name -/

/-- Nothing is found in the table without spans. -/
@[simp] theorem get?_empty (name : String) : (empty : Captures P).get? name = none := by
  simp [empty, get?]

/-- A span put under a name is found there, and nothing else has changed. -/
theorem get?_insert (t : Captures P) (name other : String) (s : Span P) :
    (t.insert name s).get? other = if name = other then some s else t.get? other := by
  simp [insert, get?, Std.TreeMap.getElem?_insert]

/-- What has been put under a name is what is found there. -/
@[simp] theorem get?_insert_self (t : Captures P) (name : String) (s : Span P) :
    (t.insert name s).get? name = some s := by
  simp [get?_insert]

/-- A name is in the table exactly if a span is found under it. -/
theorem contains_eq_isSome_get? (t : Captures P) (name : String) :
    t.contains name = (t.get? name).isSome := by
  simp [contains, get?]

end Captures

end TextMatch
