import TextMatch.Cursor.Indexed
import TextMatch.Proofs.Engine.Calls
import TextMatch.Proofs.Engine.Simulation

namespace TextMatch

open Cursor (advanceBy)

/-!
# Places as indexed characters

A place counts bytes and cuts its text in two; an indexed cursor only counts characters.  Along one
text they are related, and no matcher can tell them apart.

* `Corresponds` — a place and an indexed cursor behind the same characters of a text;
* `corresponds_advanceBy` — both after the same number of steps;
* `bisimulation_corresponds`, `sameBehind_corresponds` — corresponding cursors answer alike;
* `run_place_corresponds` — runs on places are runs on indexed characters.
-/

variable {text : String} {p p' : Place} {q q' : Indexed}

/-- A place and an indexed cursor of one text, both behind as many characters as the index says. -/
structure Corresponds (text : String) (p : Place) (q : Indexed) : Prop where
  chars_eq : q.chars = text.toList.toArray
  index_le : q.index ≤ text.toList.length
  marks : p.Marks (text.toList.take q.index) (text.toList.drop q.index)

namespace Corresponds

/-- The place is the start of the text advanced as many times as the index says. -/
theorem eq_advanceBy (h : Corresponds text p q) : p = advanceBy q.index (Place.start text) :=
  h.marks.unique (Place.marks_advanceBy_start _ _)

theorem getElem?_chars (h : Corresponds text p q) (i : Nat) : q.chars[i]? = text.toList[i]? := by
  rw [h.chars_eq, List.getElem?_toArray]

theorem size_chars (h : Corresponds text p q) : q.chars.size = text.toList.length := by
  rw [h.chars_eq, List.size_toArray]

/-- Places and indexed cursors start at the same character. -/
theorem start (text : String) : Corresponds text (.start text) (.start text) :=
  ⟨rfl, Nat.zero_le _, Place.marks_ofChars _⟩

/-- Nothing is ahead of a place exactly if the index has reached the number of characters. -/
theorem atEnd_eq (h : Corresponds text p q) : Cursor.atEnd p = Cursor.atEnd q := by
  show p.ahead.isEmpty = decide (q.chars.size ≤ q.index)
  rw [h.marks.ahead_eq, h.size_chars, Bool.eq_iff_iff, List.isEmpty_iff, List.drop_eq_nil_iff,
    decide_eq_true_eq]

/-- The first character ahead of a place is the one at the index. -/
theorem current_eq (h : Corresponds text p q) : Cursor.current p = Cursor.current q := by
  show p.ahead.head? = q.chars[q.index]?
  rw [h.marks.ahead_eq, h.getElem?_chars, List.head?_drop]

/-- At the end neither cursor moves, and before it both pass the next character. -/
theorem advance (h : Corresponds text p q) :
    Corresponds text (Cursor.advance p) (Cursor.advance q) := by
  show Corresponds text p.advance
    (if q.index < q.chars.size then { q with index := q.index + 1 } else q)
  have hmarks := Place.marks_advanceBy_start (q.index + 1) text
  -- What a place says after one step more, said of this place.
  rw [Cursor.advanceBy_add, ← h.eq_advanceBy] at hmarks
  split
  case isTrue hlt =>
    rw [h.size_chars] at hlt
    exact ⟨h.chars_eq, hlt, hmarks⟩
  case isFalse hge =>
    rw [h.size_chars] at hge
    -- At the end a step of the place leads nowhere, as does one of the index.
    have hnil : p.ahead = [] := by
      rw [h.marks.ahead_eq, List.drop_eq_nil_iff]
      omega
    rwa [Place.advance_nil hnil]

/-- Every character takes a byte at least, so bytes and characters are ordered alike. -/
theorem isBefore_eq (h : Corresponds text p q) (h' : Corresponds text p' q') :
    Cursor.isBefore p p' = Cursor.isBefore q q' := by
  rw [h.eq_advanceBy, h'.eq_advanceBy]
  exact Place.isBefore_advanceBy_advanceBy h'.index_le

/-- The text between two places is the characters between the two indices. -/
theorem between_eq (h : Corresponds text p q) (h' : Corresponds text p' q') :
    Cursor.between p p' = Cursor.between q q' := by
  show _ = (q.chars.extract q.index q'.index).toList
  rw [h.eq_advanceBy, h'.eq_advanceBy, Place.between_advanceBy, h.chars_eq, Array.toList_extract,
    List.extract_eq_take_drop]
  rfl

/-- Nothing is behind the first character only, however few bytes it takes. -/
theorem atStart_eq (h : Corresponds text p q) : Cursor.atStart p = Cursor.atStart q := by
  show (p.index == 0) = (q.index == 0)
  rw [h.marks.index_eq, Bool.eq_iff_iff, beq_iff_eq, beq_iff_eq]
  constructor
  · intro hzero
    by_contra hne
    have hlt : 0 < (text.toList.take q.index).length := by
      have := h.index_le
      rw [List.length_take]
      omega
    have := Place.byteSize_pos (List.ne_nil_of_length_pos hlt)
    omega
  · intro hzero
    rw [hzero]
    rfl

/-- The last character that a place has passed is the one in front of the index. -/
theorem previous_eq (h : Corresponds text p q) : Cursor.previous p = Cursor.previous q := by
  show p.behind.head? = if q.index = 0 then none else q.chars[q.index - 1]?
  rw [h.marks.behind_eq, h.getElem?_chars, List.head?_reverse, List.getLast?_take]
  split
  case isTrue => rfl
  case isFalse hne =>
    have hlt : q.index - 1 < text.toList.length := by
      have := h.index_le
      omega
    rw [List.getElem?_eq_getElem hlt]
    rfl

end Corresponds

/-- Places and indexed cursors of a text answer alike about what is ahead. -/
theorem bisimulation_corresponds (text : String) : Cursor.Bisimulation (Corresponds text) where
  atEnd_eq := Corresponds.atEnd_eq
  current_eq := Corresponds.current_eq
  advance := Corresponds.advance
  isBefore_eq := Corresponds.isBefore_eq
  between_eq := Corresponds.between_eq

/-- Places and indexed cursors of a text answer alike about what is behind. -/
theorem sameBehind_corresponds (text : String) : Cursor.SameBehind (Corresponds text) where
  atStart_eq := Corresponds.atStart_eq
  previous_eq := Corresponds.previous_eq

/-- As many steps from the start of a text lead to corresponding cursors. -/
theorem corresponds_advanceBy (text : String) (k : Nat) :
    Corresponds text (advanceBy k (Place.start text)) (advanceBy k (Indexed.start text)) := by
  induction k with
  | zero => exact .start text
  | succ k ih =>
    rw [Cursor.advanceBy_add, Cursor.advanceBy_add]
    exact ih.advance

/-- **Places are indexed characters.** From the same number of characters into a text, and with
    captures of the same stretches of it, a matcher runs on places and on indexed characters alike:
    both runs go on for ever, or both succeed with one value or both fail, and they end behind the
    same characters with captures of the same stretches and texts. -/
theorem run_place_corresponds {S : Signature} {ω α : Type} [IsEmpty S.Hook]
    (host : Host S Place ω) (host' : Host S Indexed ω) (hsame : host'.definition = host.definition)
    (m : Matcher S α) (text : String) (k : Nat) (st : State S Place ω) (st' : State S Indexed ω)
    (hst : st.Relates (Corresponds text) st') :
    m.Diverges host st (advanceBy k (.start text)) ∧
        m.Diverges host' st' (advanceBy k (.start text)) ∨
      ∃ bound o o' st₁ st₁',
        m.run host bound st (advanceBy k (.start text)) = some (o, st₁) ∧
        m.run host' bound st' (advanceBy k (.start text)) = some (o', st₁') ∧
        o.Relates (Corresponds text) o' ∧ st₁.Relates (Corresponds text) st₁' ∧
        ∀ name, st₁.context.captures.text? name = st₁'.context.captures.text? name := by
  have hR := bisimulation_corresponds text
  have hm : ¬m.MayReach (st.grammar host) (Matcher.TellsApart (Corresponds text)) :=
    Matcher.not_mayReach_tellsApart_of_sameBehind (sameBehind_corresponds text)
  rcases run_simulation hR hsame hm hst (corresponds_advanceBy text k) with
    hd | ⟨bound, o, o', st₁, st₁', hb, hb', ho, hst'⟩
  · exact .inl hd
  · exact .inr ⟨bound, o, o', st₁, st₁', hb, hb', ho, hst', hst'.captures.text?_eq hR⟩

/-- Pairs of characters of two bytes each, from the second character of a text on. -/
theorem run_place_corresponds_doubling :
    ∃ bound o o' st₁ st₁',
      (Matcher.defer (S := oneName) ()).run (doubling Place) bound ⟨.new none, .empty, ()⟩
        (advanceBy 1 (.start "xéé")) = some (o, st₁) ∧
      (Matcher.defer (S := oneName) ()).run (doubling Indexed) bound ⟨.new none, .empty, ()⟩
        (advanceBy 1 (.start "xéé")) = some (o', st₁') ∧
      o.Relates (Corresponds "xéé") o' ∧
      ∀ name, st₁.context.captures.text? name = st₁'.context.captures.text? name := by
  have hst : State.Relates (Corresponds "xéé")
      (⟨.new none, .empty, ()⟩ : State oneName Place Unit)
      (⟨.new none, .empty, ()⟩ : State oneName Indexed Unit) :=
    ⟨Captures.Relates.empty, rfl, rfl, rfl, rfl⟩
  rcases run_place_corresponds (doubling Place) (doubling Indexed) rfl
    (.defer (S := oneName) ()) "xéé" 1 _ _ hst with
    ⟨hd, -⟩ | ⟨bound, o, o', st₁, st₁', hb, hb', ho, -, htexts⟩
  · exact absurd (hd 4) (by rintro ⟨⟩)
  · exact ⟨bound, o, o', st₁, st₁', hb, hb', ho, htexts⟩

end TextMatch
