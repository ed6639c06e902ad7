import TextMatch.Proofs.Cursor.Spelling
import TextMatch.Proofs.Engine.Repetition

namespace TextMatch

open Cursor (advanceBy)

/-!
# Literals

A literal, be it a text or a single character, spells its characters along the text.

* `IsLiteral` — a matcher of given characters, and the value it yields;
* `IsLiteral.run_eq`, `IsLiteral.run_seq_eq` — the run of a literal, and of two in a row, is the
  spelling of their characters;
* `run_literal_sharedPrefix` — a literal goes as far as it and the text have a beginning in common.
-/

variable {S : Signature} {P ω α β γ : Type}

/-! ### Spelling -/

/-- A word is spelled up to any point and then on from there. -/
theorem Run.spell_append [Cursor P] (word more : List Char) (p : P) :
    Run.spell (word ++ more) p =
      match Run.spell word p with
      | .success _ q => Run.spell more q
      | .failure q => .failure q := by
  induction word generalizing p with
  | nil => rfl
  | cons c word ih =>
    rw [List.cons_append, Run.spell, Run.spell]
    split
    · exact ih _
    · rfl

/-- A single character is spelled by looking for it. -/
theorem Run.satisfyAt_eq_spell [Cursor P] (c : Char) (p : P) :
    Run.satisfyAt (· == c) p = (Run.spell [c] p).map fun _ => c := by
  rw [Run.satisfyAt, Run.spell, Run.spell]
  cases Cursor.current p with
  | none => rfl
  | some d =>
    by_cases hdc : d = c
    · simp [hdc]
    · simp [hdc]

/-! ### The matchers of given characters -/

/-- A matcher of given characters, and the value it yields: a whole text, or a single character. -/
inductive IsLiteral : {α : Type} → Matcher S α → List Char → α → Prop where
  | text (text : String) : IsLiteral (.literal text) text.toList text
  | char (c : Char) : IsLiteral (.char c) [c] c

namespace IsLiteral

variable [Cursor P] {m : Matcher S α} {n : Matcher S β} {word more : List Char} {v : α} {w : β}

/-- A literal spells its characters and leaves the state alone. -/
theorem run_eq (host : Host S P ω) (bound : Nat) (st : State S P ω) (p : P)
    (h : IsLiteral m word v) :
    m.run host bound st p = some ((Run.spell word p).map fun _ => v, st) := by
  rw [Matcher.run_eq_step]
  cases h with
  | text text => rfl
  | char c => exact congrArg (fun o => some (o, st)) (Run.satisfyAt_eq_spell c p)

/-- Two literals in a row spell the characters of both. -/
theorem run_seq_eq (host : Host S P ω) (bound : Nat) (st : State S P ω) (p : P)
    (hm : IsLiteral m word v) (hn : IsLiteral n more w) :
    (m.seq n).run host bound st p =
      some ((Run.spell (word ++ more) p).map fun _ => (v, w), st) := by
  rw [Matcher.run_seq, Run.seq, hm.run_eq, Run.spell_append]
  cases Run.spell word p with
  | failure q => rfl
  | success _ q =>
    simp only [Outcome.map_success, hn.run_eq]
    cases Run.spell more q <;> rfl

end IsLiteral

/-- **A literal goes as far as the text agrees.**  It succeeds exactly where the rest of the text
    begins with its characters, and passes these.  Otherwise it fails behind the longest beginning
    that they and the rest of the text have in common.  So a literal cut in two is the same as the
    whole of it: both halves in a row succeed and fail where the whole does. -/
theorem run_literal_sharedPrefix (host : Host S Place ω) (bound : Nat) (st : State S Place ω)
    (p : Place) {m : Matcher S α} {word : List Char} {v : α} (hm : IsLiteral m word v) :
    (word <+: p.ahead →
        m.run host bound st p = some (.success v (advanceBy word.length p), st)) ∧
      (¬word <+: p.ahead → ∃ common, common <+: word ∧ common <+: p.ahead ∧
        (∀ other, other <+: word → other <+: p.ahead → other.length ≤ common.length) ∧
        m.run host bound st p = some (.failure (advanceBy common.length p), st)) ∧
      ∀ {β γ : Type} {n : Matcher S β} {more : List Char} {w : β} {whole : Matcher S γ} {u : γ},
        IsLiteral n more w → IsLiteral whole (word ++ more) u →
        ∃ o : Outcome Place Unit,
          (m.seq n).run host bound st p = some (o.map fun _ => (v, w), st) ∧
          whole.run host bound st p = some (o.map fun _ => u, st) := by
  refine ⟨fun hprefix => ?_, fun hprefix => ?_, fun hn hwhole => ?_⟩
  · rw [hm.run_eq, Place.spell_eq, if_pos hprefix]
    rfl
  · have hlength : (word.take (sharedLength word p.ahead)).length = sharedLength word p.ahead :=
      List.length_take_of_le (sharedLength_le_length _ _)
    refine ⟨word.take (sharedLength word p.ahead), List.take_prefix _ _,
      take_sharedLength_isPrefix _ _, fun other hword htext => ?_, ?_⟩
    · rw [hlength]
      exact length_le_sharedLength hword htext
    · rw [hm.run_eq, Place.spell_eq, if_neg hprefix, hlength]
      rfl
  · exact ⟨_, hm.run_seq_eq host bound st p hn, hwhole.run_eq host bound st p⟩

/-- Behind a dash, `äb` is found and the `c` after it is not, whether they are looked for one after
    the other or at once. -/
theorem run_literal_sharedPrefix_letters :
    let p : Place := advanceBy 1 (.start "-äbx")
    let st : State nameless Place Unit := ⟨.new none, .empty, ()⟩
    (Matcher.literal "äb").run nothingNamed 0 st p = some (.success "äb" (advanceBy 2 p), st) ∧
      (∃ common, common <+: "äbc".toList ∧ common <+: p.ahead ∧
        (∀ other, other <+: "äbc".toList → other <+: p.ahead → other.length ≤ common.length) ∧
        (Matcher.literal "äbc").run nothingNamed 0 st p =
          some (.failure (advanceBy common.length p), st)) ∧
      ∃ o : Outcome Place Unit,
        (Matcher.seq (.literal "äb") (.char 'c')).run nothingNamed 0 st p =
          some (o.map fun _ => ("äb", 'c'), st) ∧
        (Matcher.literal "äbc").run nothingNamed 0 st p = some (o.map fun _ => "äbc", st) := by
  intro p st
  obtain ⟨hfound, -, hcut⟩ := run_literal_sharedPrefix nothingNamed 0 st p (.text "äb")
  obtain ⟨-, hfails, -⟩ := run_literal_sharedPrefix nothingNamed 0 st p (.text "äbc")
  exact ⟨hfound (by decide), hfails (by decide), hcut (.char 'c') (.text "äbc")⟩

end TextMatch
