namespace TextMatch

/-!
# Character classes

A class of characters is a union of closed ranges, and a single character is a range of its own.

* `CharClass` — the ranges;
* `CharClass.contains` — membership;
* `CharClass.digit`, `CharClass.blank` — the classes the calculator reads.
-/

/-- A class of characters: the union of closed ranges, each given by its first and its last
    character.  A range whose first character is after its last is empty. -/
structure CharClass where
  ranges : List (Char × Char)
deriving Repr, DecidableEq

namespace CharClass

/-- Whether a character is in the class. -/
def contains (k : CharClass) (c : Char) : Bool :=
  k.ranges.any fun r => r.1 ≤ c && c ≤ r.2

/-- The class of the characters of a list. -/
def ofList (cs : List Char) : CharClass := ⟨cs.map fun c => (c, c)⟩

/-- The decimal digits. -/
def digit : CharClass := ⟨[('0', '9')]⟩

/-- The characters that separate tokens: space, tab, carriage return and line feed. -/
def blank : CharClass := ofList [' ', '\t', '\r', '\n']

/-- Membership is a bound on both sides in some range. -/
theorem contains_iff (k : CharClass) (c : Char) :
    k.contains c = true ↔ ∃ r ∈ k.ranges, r.1 ≤ c ∧ c ≤ r.2 := by
  simp [contains]

/-- A class made of a list has the members of the list. -/
@[simp] theorem contains_ofList (cs : List Char) (c : Char) :
    (ofList cs).contains c = true ↔ c ∈ cs := by
  rw [contains_iff]
  constructor
  · rintro ⟨r, hr, hlo, hhi⟩
    obtain ⟨d, hd, rfl⟩ := List.mem_map.1 hr
    exact Char.le_antisymm hlo hhi ▸ hd
  · intro hc
    exact ⟨(c, c), List.mem_map.2 ⟨c, hc, rfl⟩, Char.le_refl c, Char.le_refl c⟩

end CharClass

end TextMatch
