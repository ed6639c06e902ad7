import TextMatch.Cursor.Indexed
import TextMatch.Cursor.Place
import TextMatch.Cursor.Tagged

namespace TextMatch.Session

/-!
# Streams

The cursors a session can run on.

* `Stream` — a cursor type with a beginning for every text and, possibly, a tag;
* `Stream.locate` — the cursor at a place;
* the instances, places without a tag and tagged indices.
-/

/-- A cursor type on which a session can run. -/
class Stream (P : Type) extends Cursor P where
  /-- The beginning of a text. -/
  start : String → P
  /-- The cursor with another tag, if it can have one. -/
  retag : Nat → P → P

/-- The cursor at a place of a text.  A text has no more places than characters behind its
    beginning, and further steps stay at its end. -/
def Stream.locate {P : Type} [Stream P] (text : String) (steps tag : Nat) : P :=
  Cursor.advanceBy (min steps text.length) (retag tag (start text))

instance : Stream Place where
  start := Place.start
  retag _ p := p

instance : Stream (Tagged Indexed) where
  start text := ⟨Indexed.start text, 0⟩
  retag tag p := { p with tag := tag }

end TextMatch.Session
