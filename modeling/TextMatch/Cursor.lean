namespace TextMatch

/-!
# Cursors

What a matcher has to know about the text it runs on.

* `Cursor` — the operations of a position in some text;
* `Cursor.hasCurrent`, `Cursor.advanceBy` — derived from them.

Two cursors are compared by their offsets alone, so cursors of different texts can be compared
too; a cursor may carry more than its offset, and equal offsets do not make equal cursors.
-/

/-- A type of positions in texts. -/
class Cursor (P : Type) where
  /-- Nothing is behind the cursor. -/
  atStart : P → Bool
  /-- Nothing is ahead of the cursor. -/
  atEnd : P → Bool
  /-- The next character ahead. -/
  current : P → Option Char
  /-- The last character behind. -/
  previous : P → Option Char
  /-- The cursor behind the next character; the same cursor when nothing is ahead. -/
  advance : P → P
  /-- The first offset is smaller than the second. -/
  isBefore : P → P → Bool
  /-- The offsets are equal. -/
  sameOffset : P → P → Bool
  /-- The characters from the first cursor on, in its own text, up to the offset of the second. -/
  between : P → P → List Char

namespace Cursor

variable {P : Type} [Cursor P]

/-- A character is ahead of the cursor. -/
def hasCurrent (p : P) : Bool := !atEnd p

/-- The cursor advanced a number of times. -/
def advanceBy : Nat → P → P
  | 0, p => p
  | n + 1, p => advanceBy n (advance p)

/-- No steps lead nowhere else. -/
@[simp] theorem advanceBy_zero (p : P) : advanceBy 0 p = p := rfl

/-- The first step comes first, which is the way induction on the number of steps goes. -/
@[simp] theorem advanceBy_succ (n : Nat) (p : P) :
    advanceBy (n + 1) p = advanceBy n (advance p) := rfl

/-- Advancing by a sum is advancing twice. -/
theorem advanceBy_add (m n : Nat) (p : P) :
    advanceBy (m + n) p = advanceBy n (advanceBy m p) := by
  induction m generalizing p with
  | zero => simp
  | succ m ih => rw [Nat.succ_add, advanceBy_succ, ih, advanceBy_succ]

end Cursor

end TextMatch
