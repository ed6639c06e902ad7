import TextMatch.Cursor
import TextMatch.Decimal

namespace TextMatch

/-!
# Places

The cursor of a text that is kept in UTF-8 and read by people: it counts bytes, lines and columns.

* `Place` — the characters on either side, and the three counts;
* `Place.start`, `Place.advance` — the beginning of a text, and one step onward;
* `Place.byteSize`, `Place.takeBytes?` — sizes in UTF-8, and a front part of a given size;
* the `Cursor` instance, which compares byte offsets.
-/

/-- A place in a text.  The counts belong to the characters behind.

    A text could be kept whole, and be cut at the byte offset for every look at what lies on either
    side.  Here the characters of both sides are kept instead, so that induction on a text follows
    its characters; the offset is carried along and is what comparisons go by.  At every place that
    is reached from the beginning of a text the two say the same: the previous character, the
    current one and the rest are those of the text cut at the offset, and the end is where the
    offset has reached the size (`Place.Tells`). -/
structure Place where
  /-- The characters behind, the nearest first. -/
  behind : List Char
  /-- The characters ahead. -/
  ahead : List Char
  /-- The size in UTF-8 of what is behind. -/
  index : Nat
  /-- The number of line feeds behind. -/
  line : Nat
  /-- The number of characters since the last line feed. -/
  column : Nat
deriving Repr, DecidableEq

namespace Place

/-- The beginning of a list of characters. -/
def ofChars (cs : List Char) : Place := ⟨[], cs, 0, 0, 0⟩

/-- The beginning of a text. -/
def start (text : String) : Place := ofChars text.toList

/-- One step onward.  A line feed begins a new line; no other character does. -/
def advance (p : Place) : Place :=
  match p.ahead with
  | [] => p
  | c :: cs =>
    { behind := c :: p.behind
      ahead := cs
      index := p.index + c.utf8Size
      line := if c = '\n' then p.line + 1 else p.line
      column := if c = '\n' then 0 else p.column + 1 }

/-- The size in UTF-8 of a list of characters. -/
def byteSize : List Char → Nat
  | [] => 0
  | c :: cs => c.utf8Size + byteSize cs

/-- The front part of a text that takes exactly `n` bytes; nothing if the text is shorter or a
    character lies across the end. -/
def takeBytes? : Nat → List Char → Option (List Char)
  | 0, _ => some []
  | _ + 1, [] => none
  | n + 1, c :: cs =>
    if c.utf8Size ≤ n + 1 then (takeBytes? (n + 1 - c.utf8Size) cs).map (c :: ·) else none

/-- The characters up to a byte offset.  They are none when the offset is behind, past the end of
    the text or inside a character. -/
def upTo (p : Place) (index : Nat) : List Char :=
  (takeBytes? (index - p.index) p.ahead).getD []

instance : Cursor Place where
  atStart p := p.index == 0
  atEnd p := p.ahead.isEmpty
  current p := p.ahead.head?
  previous p := p.behind.head?
  advance := advance
  isBefore p q := p.index < q.index
  sameOffset p q := p.index == q.index
  between p q := p.upTo q.index

/-- At the end of the text there is no step onward. -/
@[simp] theorem advance_nil {p : Place} (h : p.ahead = []) : p.advance = p := by
  simp [advance, h]

/-- A step onward moves one character from what is ahead to what is behind. -/
theorem advance_cons {p : Place} {c : Char} {cs : List Char} (h : p.ahead = c :: cs) :
    p.advance.behind = c :: p.behind ∧ p.advance.ahead = cs ∧
      p.advance.index = p.index + c.utf8Size := by
  simp [advance, h]

@[simp] theorem takeBytes?_zero (cs : List Char) : takeBytes? 0 cs = some [] := by
  cases cs <;> rfl

/-- A whole front part is taken back by its size. -/
theorem takeBytes?_append (cs rest : List Char) :
    takeBytes? (byteSize cs) (cs ++ rest) = some cs := by
  induction cs with
  | nil => exact takeBytes?_zero _
  | cons c cs ih =>
    have hpos : 0 < c.utf8Size := c.utf8Size_pos
    obtain ⟨n, hn⟩ : ∃ n, c.utf8Size + byteSize cs = n + 1 :=
      ⟨c.utf8Size + byteSize cs - 1, by omega⟩
    have hrest : n + 1 - c.utf8Size = byteSize cs := by omega
    rw [byteSize, hn, List.cons_append, takeBytes?, if_pos (by omega), hrest, ih]
    rfl

/-- The place behind a number of characters of a text, or its end if it has fewer. -/
def ofText (text : String) (steps : Nat) : Place :=
  Cursor.advanceBy (min steps text.length) (start text)

/-- The text ahead. -/
def rest (p : Place) : String := String.ofList p.ahead

/-- The three counts in words. -/
def describe (p : Place) : String :=
  "StrPosition \x7b index: " ++ Decimal.ofNat p.index ++ ", line: " ++ Decimal.ofNat p.line ++
    ", column: " ++ Decimal.ofNat p.column ++ " \x7d"

end Place

end TextMatch
