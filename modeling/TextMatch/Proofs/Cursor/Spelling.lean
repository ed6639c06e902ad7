import TextMatch.Proofs.Cursor.Place

namespace TextMatch

open Cursor (advanceBy)

/-!
# Words along a text

A word is spelled along a text character by character, and no further than the two agree.

* `sharedLength` — how far a word and a text agree;
* `sharedLength_eq_length_iff`, `take_sharedLength_isPrefix`, `getElem?_sharedLength_ne` — all of a
  word that the text begins with, and otherwise up to a character that the text has not there;
* `length_le_sharedLength` — word and text have no longer beginning in common;
* `Place.spell_eq` — what spelling a word comes to.
-/

/-- The number of characters a word and a text have in common before they
    first differ or one of them ends. -/
def sharedLength : List Char → List Char → Nat
  | [], _ => 0
  | _ :: _, [] => 0
  | c :: word, d :: text => if c = d then sharedLength word text + 1 else 0

@[simp] theorem sharedLength_nil_left (text : List Char) : sharedLength [] text = 0 := rfl

@[simp] theorem sharedLength_nil_right (word : List Char) : sharedLength word [] = 0 := by
  cases word <;> rfl

@[simp] theorem sharedLength_cons (c d : Char) (word text : List Char) :
    sharedLength (c :: word) (d :: text) = if c = d then sharedLength word text + 1 else 0 := rfl

theorem sharedLength_le_length (word text : List Char) : sharedLength word text ≤ word.length := by
  fun_induction sharedLength word text with
  | case1 | case2 | case4 => exact Nat.zero_le _
  | case3 c word text ih => exact Nat.succ_le_succ ih

/-- The text begins with as much of the word as the two agree on. -/
theorem take_sharedLength_isPrefix (word text : List Char) :
    word.take (sharedLength word text) <+: text := by
  fun_induction sharedLength word text with
  | case1 | case2 | case4 => exact List.nil_prefix
  | case3 c word text ih => exact List.cons_prefix_cons.2 ⟨rfl, ih⟩

/-- Whatever both begin with lies within it. -/
theorem length_le_sharedLength {common word text : List Char} (hword : common <+: word)
    (htext : common <+: text) : common.length ≤ sharedLength word text := by
  induction common generalizing word text with
  | nil => exact Nat.zero_le _
  | cons c common ih =>
    obtain ⟨more, rfl⟩ := hword
    obtain ⟨rest, rfl⟩ := htext
    have htail := ih (List.prefix_append common more) (List.prefix_append common rest)
    simpa using htail

/-- A word agrees with a text to its end exactly if the text begins with it. -/
theorem sharedLength_eq_length_iff {word text : List Char} :
    sharedLength word text = word.length ↔ word <+: text := by
  fun_induction sharedLength word text with
  | case1 | case2 => simp
  | case3 c word text ih => simpa using ih
  | case4 c word d text hne => simp [hne]

/-- Where they cease to agree, the text does not have the character of the word. -/
theorem getElem?_sharedLength_ne {word text : List Char} (h : ¬word <+: text) :
    text[sharedLength word text]? ≠ word[sharedLength word text]? := by
  fun_induction sharedLength word text with
  | case1 => exact absurd List.nil_prefix h
  | case2 => simp
  | case3 c word text ih => simpa using ih (by simpa using h)
  | case4 c word d text hne => simpa using Ne.symm hne

namespace Place

/-- **Spelling goes as far as the text agrees.** A word that the text begins with is passed, and
    for any other the failure is where it and the text cease to agree. -/
theorem spell_eq (word : List Char) (p : Place) :
    Run.spell word p =
      if word <+: p.ahead then .success () (advanceBy word.length p)
      else .failure (advanceBy (sharedLength word p.ahead) p) := by
  induction word generalizing p with
  | nil => simp [Run.spell]
  | cons c word ih =>
    rw [Run.spell, cursor_current, cursor_advance]
    cases hp : p.ahead with
    | nil => simp
    | cons d text =>
      have hadvance : p.advance.ahead = text := (advance_cons hp).2.1
      -- The first character decides, and the rest of the word meets the rest of the text.
      by_cases hcd : c = d
      · subst hcd
        simp [ih, hadvance]
      · simp [hcd, Ne.symm hcd]

end Place

end TextMatch
