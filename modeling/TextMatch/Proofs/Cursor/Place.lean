import TextMatch.Cursor.Place
import TextMatch.Proofs.Engine.Invariants

namespace TextMatch.Place

open Cursor (advanceBy Ahead)

/-!
# Places along a text

What advancing a place a number of times does to it.

* `ahead_advanceBy`, `index_advanceBy` — the text left, and the bytes passed;
* `isBefore_advanceBy` — a place is before another exactly if characters lie between them;
* `length_ahead_lt_of_isBefore` — going onward uses up text, which is what ends repetitions.
-/

/-! ### The operations of a cursor, on places -/

@[simp] theorem cursor_current (p : Place) : Cursor.current p = p.ahead.head? := rfl

@[simp] theorem cursor_advance (p : Place) : Cursor.advance p = p.advance := rfl

@[simp] theorem cursor_atEnd (p : Place) : Cursor.atEnd p = p.ahead.isEmpty := rfl

theorem cursor_isBefore (p q : Place) : Cursor.isBefore p q = decide (p.index < q.index) := rfl

/-! ### Advancing a number of times -/

/-- A step takes the first character off what is ahead, and nothing at the end. -/
theorem ahead_advance (p : Place) : p.advance.ahead = p.ahead.tail := by
  cases h : p.ahead with
  | nil => rw [advance_nil h, h]; rfl
  | cons c cs => exact (advance_cons h).2.1

/-- Advancing takes characters from the front of what is ahead. -/
@[simp] theorem ahead_advanceBy (k : Nat) (p : Place) :
    (advanceBy k p).ahead = p.ahead.drop k := by
  induction k generalizing p with
  | zero => rfl
  | succ k ih => rw [Cursor.advanceBy_succ, ih, cursor_advance, ahead_advance, List.drop_tail]

/-- A step counts the bytes of the character it passes, and none at the end. -/
theorem index_advance (p : Place) : p.advance.index = p.index + byteSize (p.ahead.take 1) := by
  cases h : p.ahead with
  | nil => rw [advance_nil h]; rfl
  | cons c cs => rw [(advance_cons h).2.2]; rfl

theorem byteSize_append (cs ds : List Char) : byteSize (cs ++ ds) = byteSize cs + byteSize ds := by
  induction cs with
  | nil => simp [byteSize]
  | cons c cs ih => rw [List.cons_append, byteSize, byteSize, ih]; omega

/-- The size of the characters of a text is that of the text. -/
theorem byteSize_toList (text : String) : byteSize text.toList = text.utf8ByteSize := by
  have hlist (cs : List Char) : byteSize cs = (String.ofList cs).utf8ByteSize := by
    induction cs with
    | nil => rfl
    | cons c cs ih => simp [byteSize, ih]
  rw [hlist, String.ofList_toList]

/-- Advancing passes the bytes of the characters it takes. -/
theorem index_advanceBy (k : Nat) (p : Place) :
    (advanceBy k p).index = p.index + byteSize (p.ahead.take k) := by
  induction k generalizing p with
  | zero => rfl
  | succ k ih =>
    rw [Cursor.advanceBy_succ, ih, cursor_advance, index_advance, ahead_advance, Nat.add_assoc,
      ← byteSize_append]
    congr 2
    cases p.ahead <;> simp

/-- Every character takes at least one byte. -/
theorem byteSize_pos {cs : List Char} (h : cs ≠ []) : 0 < byteSize cs := by
  cases cs with
  | nil => exact absurd rfl h
  | cons c cs =>
    have := c.utf8Size_pos
    rw [byteSize]
    omega

/-- A place is before another one in the same text exactly if characters lie between them. -/
theorem isBefore_advanceBy (k : Nat) (p : Place) :
    Cursor.isBefore p (advanceBy k p) = true ↔ p.ahead.take k ≠ [] := by
  rw [cursor_isBefore, index_advanceBy, decide_eq_true_eq]
  constructor
  · intro h hnil
    rw [hnil] at h
    exact absurd h (Nat.lt_irrefl _)
  · intro h
    -- The bytes in between lie between the two indices, and a character has at least one.
    have := byteSize_pos h
    omega

/-- **Going onward uses up text.** -/
theorem length_ahead_lt_of_isBefore {p q : Place} (h : Ahead p q)
    (hb : Cursor.isBefore p q = true) : q.ahead.length < p.ahead.length := by
  obtain ⟨k, rfl⟩ := h
  have hne := (isBefore_advanceBy k p).1 hb
  rw [ahead_advanceBy, List.length_drop]
  rw [Ne, List.take_eq_nil_iff] at hne
  have : p.ahead.length ≠ 0 := fun h0 => hne (.inr (List.length_eq_zero_iff.1 h0))
  have : k ≠ 0 := fun h0 => hne (.inl h0)
  omega

/-- A place with less text left is further on. -/
theorem isBefore_of_length_ahead_lt {p q : Place} (h : Ahead p q)
    (hlt : q.ahead.length < p.ahead.length) : Cursor.isBefore p q = true := by
  obtain ⟨k, rfl⟩ := h
  rw [isBefore_advanceBy]
  intro hnil
  rw [ahead_advanceBy, List.length_drop] at hlt
  rcases List.take_eq_nil_iff.1 hnil with rfl | hempty
  · omega
  · rw [hempty] at hlt
    exact absurd hlt (Nat.not_lt_zero _)

/-- There is never more text ahead than there was before. -/
theorem length_ahead_le {p q : Place} (h : Ahead p q) : q.ahead.length ≤ p.ahead.length := by
  obtain ⟨k, rfl⟩ := h
  rw [ahead_advanceBy, List.length_drop]
  omega

/-- Of every kind of character there are no more ahead than there were before. -/
theorem countP_ahead_le {kind : Char → Bool} {p q : Place} (h : Ahead p q) :
    q.ahead.countP kind ≤ p.ahead.countP kind := by
  obtain ⟨k, rfl⟩ := h
  rw [ahead_advanceBy]
  exact (List.drop_sublist k p.ahead).countP_le

/-- Where a character has been passed there is less text left. -/
theorem length_ahead_lt_of_countP_lt {kind : Char → Bool} {p q : Place} (h : Ahead p q)
    (hlt : q.ahead.countP kind < p.ahead.countP kind) : q.ahead.length < p.ahead.length := by
  obtain ⟨k, rfl⟩ := h
  have hsub : (advanceBy k p).ahead.Sublist p.ahead := by
    rw [ahead_advanceBy]
    exact List.drop_sublist k p.ahead
  -- A part that is as long as the whole is the whole, and then it has as many of the kind.
  refine Nat.lt_of_le_of_ne hsub.length_le fun heq => ?_
  rw [hsub.eq_of_length heq] at hlt
  exact absurd hlt (Nat.lt_irrefl _)

end TextMatch.Place
