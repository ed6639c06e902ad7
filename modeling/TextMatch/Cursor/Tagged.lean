import TextMatch.Cursor

namespace TextMatch

/-!
# Tagged cursors

A cursor with a number attached to it.  Advancing keeps the number and comparisons ignore it, so
the tag shows which of two cursors with the same offset was kept.

* `Tagged` — the cursor and its tag.
-/

/-- A cursor that carries a tag. -/
structure Tagged (P : Type) where
  cursor : P
  tag : Nat
deriving Repr, DecidableEq

namespace Tagged

variable {P : Type} [Cursor P]

instance : Cursor (Tagged P) where
  atStart p := Cursor.atStart p.cursor
  atEnd p := Cursor.atEnd p.cursor
  current p := Cursor.current p.cursor
  previous p := Cursor.previous p.cursor
  advance p := { p with cursor := Cursor.advance p.cursor }
  isBefore p q := Cursor.isBefore p.cursor q.cursor
  sameOffset p q := Cursor.sameOffset p.cursor q.cursor
  between p q := Cursor.between p.cursor q.cursor

end Tagged

end TextMatch
