import TextMatch.Cursor

namespace TextMatch

/-!
# Indexed cursors

The plainest cursor: the characters of a text and an index into them.

* `Indexed` — the cursor;
* `Indexed.start` — the beginning of a text.
-/

/-- The characters of a text and the number of those behind the cursor. -/
structure Indexed where
  chars : Array Char
  index : Nat
deriving Repr, DecidableEq

namespace Indexed

/-- The beginning of a text. -/
def start (text : String) : Indexed := ⟨text.toList.toArray, 0⟩

instance : Cursor Indexed where
  atStart p := p.index == 0
  atEnd p := p.chars.size ≤ p.index
  current p := p.chars[p.index]?
  previous p := if p.index = 0 then none else p.chars[p.index - 1]?
  advance p := if p.index < p.chars.size then { p with index := p.index + 1 } else p
  isBefore p q := p.index < q.index
  sameOffset p q := p.index == q.index
  between p q := (p.chars.extract p.index q.index).toList

end Indexed

end TextMatch
