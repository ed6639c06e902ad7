import TextMatch.Proofs.Cursor.Place
import TextMatch.Proofs.Engine.Calls
import TextMatch.Proofs.Engine.Simulation

namespace TextMatch

open Cursor (advanceBy)

/-!
# Places behind more text

Two places with the same text ahead differ in what is behind: the one counts more bytes than the
other, and goes on to count as many more, since both pass the same characters.  Only a look behind
can tell which is which.

* `Shifted` — two places with the same text ahead, the first further on by a number of bytes;
* `bisimulation_shifted` — they answer alike about what is ahead;
* `shifted_start_append` — a text put in front of another shifts its beginning by its size;
* `run_shifted` — a run behind the text in front is the run without it, shifted.
-/

/-- The same text is ahead of both places, and the first is further on by a number of bytes. -/
structure Shifted (n : Nat) (p q : Place) : Prop where
  ahead_eq : p.ahead = q.ahead
  index_eq : p.index = n + q.index

namespace Shifted

variable {n : Nat} {p p' q q' : Place}

/-- Both pass the same character, if there is one. -/
theorem advance (h : Shifted n p q) : Shifted n (Cursor.advance p) (Cursor.advance q) where
  ahead_eq := by
    rw [Place.cursor_advance, Place.cursor_advance, Place.ahead_advance, Place.ahead_advance,
      h.ahead_eq]
  index_eq := by
    rw [Place.cursor_advance, Place.cursor_advance, Place.index_advance, Place.index_advance,
      h.ahead_eq, h.index_eq, Nat.add_assoc]

/-- Two places and the same two shifted are in the same order. -/
theorem isBefore_eq (h : Shifted n p q) (h' : Shifted n p' q') :
    Cursor.isBefore p p' = Cursor.isBefore q q' := by
  rw [Place.cursor_isBefore, Place.cursor_isBefore, h.index_eq, h'.index_eq]
  exact decide_eq_decide.2 Nat.add_lt_add_iff_left

/-- The text between two places depends on how far they are apart, not on where they are. -/
theorem between_eq (h : Shifted n p q) (h' : Shifted n p' q') :
    Cursor.between p p' = Cursor.between q q' := by
  show p.upTo p'.index = q.upTo q'.index
  rw [Place.upTo, Place.upTo, h.ahead_eq, h.index_eq, h'.index_eq, Nat.add_sub_add_left]

end Shifted

/-- Shifted places answer alike about what is ahead. -/
theorem bisimulation_shifted (n : Nat) : Cursor.Bisimulation (Shifted n) where
  atEnd_eq h := congrArg List.isEmpty h.ahead_eq
  current_eq h := congrArg List.head? h.ahead_eq
  advance := Shifted.advance
  isBefore_eq := Shifted.isBefore_eq
  between_eq := Shifted.between_eq

/-- The place behind a text in front of another is shifted by its size in UTF-8. -/
theorem shifted_start_append (u v : String) :
    Shifted u.utf8ByteSize (advanceBy u.length (.start (u ++ v))) (.start v) where
  ahead_eq := by
    rw [Place.ahead_advanceBy, Place.start, Place.ofChars, String.toList_append,
      ← String.length_toList, List.drop_left]
    rfl
  index_eq := by
    rw [Place.index_advanceBy, Place.start, Place.ofChars, String.toList_append,
      ← String.length_toList, List.take_left, Place.byteSize_toList]
    exact Nat.add_comm ..

/-- **What precedes a text does not matter.** If a matcher may not look behind, whatever rules it
    defines on the way, then its runs from an empty table on a text behind another one and on the
    text alone both go on for ever, or both succeed with one value or both fail.  They end at places
    and with captured spans that are the same but for the size of the text in front, which the
    former ones lie behind, and the texts captured are the same. -/
theorem run_shifted {S : Signature} {ω α : Type} [IsEmpty S.Hook] (host : Host S Place ω)
    (m : Matcher S α) (u v : String) (st : State S Place ω)
    (hempty : st.context.captures = .empty)
    (hbehind : ¬m.MayReach (st.grammar host) Matcher.IsLookBehind) :
    m.Diverges host st (advanceBy u.length (.start (u ++ v))) ∧ m.Diverges host st (.start v) ∨
      ∃ bound o o' st₁ st₁',
        m.run host bound st (advanceBy u.length (.start (u ++ v))) = some (o, st₁) ∧
        m.run host bound st (.start v) = some (o', st₁') ∧
        o.Relates (Shifted u.utf8ByteSize) o' ∧ st₁.Relates (Shifted u.utf8ByteSize) st₁' ∧
        ∀ name, st₁.context.captures.text? name = st₁'.context.captures.text? name := by
  have hR := bisimulation_shifted u.utf8ByteSize
  have hst : st.Relates (Shifted u.utf8ByteSize) st :=
    ⟨by rw [hempty]; exact .empty, rfl, rfl, rfl, rfl⟩
  rcases run_simulation hR rfl (Matcher.not_mayReach_tellsApart_of_isLookBehind hbehind) hst
    (shifted_start_append u v) with hd | ⟨bound, o, o', st₁, st₁', hb, hb', ho, hst'⟩
  · exact .inl hd
  · exact .inr ⟨bound, o, o', st₁, st₁', hb, hb', ho, hst', hst'.captures.text?_eq hR⟩

/-- A rule is given a definition, pairs of characters, and then run. -/
def pairsByRule : Matcher oneName (Unit × Unit) :=
  .seq (.define 0 (.defer (S := oneName) ())) (.rule 0)

/-- The rule before it has a definition. -/
def undefinedRule : State oneName Place Unit := ⟨.new (some 2), Rules.empty.declare.2, ()⟩

/-- What is neither in the tree nor in the definition of the name is not reached. -/
theorem undefinedRule_not_reaches {kind : Matcher.Kind oneName} {α : Type} {m : Matcher oneName α}
    (hm : m.Lacks kind) (hdefinition : ((doubling Place).definition ()).Lacks kind) :
    ¬m.Reaches (undefinedRule.grammar (doubling Place)) kind := by
  refine Matcher.not_reaches hm (fun _ => hdefinition) fun s d hd => ?_
  have hnone : undefinedRule.rules.definition? s = none := by
    simp only [undefinedRule, Rules.definition?, Rules.lookup?, Rules.declare, Rules.empty,
      List.find?_singleton]
    split <;> rfl
  exact absurd (hnone.symm.trans hd) (by simp)

/-- The rule is given a definition that does not look behind. -/
theorem pairsByRule_not_mayReach :
    ¬pairsByRule.MayReach (undefinedRule.grammar (doubling Place)) Matcher.IsLookBehind := by
  intro h
  cases h with
  | reaches h =>
    refine undefinedRule_not_reaches ?_ ?_ h <;>
      simp [pairsByRule, doubling, Matcher.anyChar, Matcher.Lacks, Matcher.IsLookBehind]
  | @defines _ _ d hd h =>
    by_cases hname : Matcher.defer (S := oneName) () = d
    · subst hname
      refine Matcher.not_mayReach (undefinedRule_not_reaches ?_ ?_)
        (undefinedRule_not_reaches ?_ ?_) h <;>
        simp [doubling, Matcher.anyChar, Matcher.Lacks, Matcher.IsLookBehind, Matcher.IsEdit]
    · refine undefinedRule_not_reaches ?_ ?_ hd <;>
        simp [pairsByRule, doubling, Matcher.anyChar, Matcher.Lacks, Matcher.IsDefining, hname]

/-- A pair of characters of two bytes each is found by a rule that is defined on the way, behind
    three bytes in front of it. -/
theorem run_shifted_pairsByRule :
    ¬pairsByRule.MayReach (undefinedRule.grammar (doubling Place)) Matcher.IsLookBehind ∧
      ∃ bound o o' st₁ st₁',
        pairsByRule.run (doubling Place) bound undefinedRule (advanceBy 2 (.start ("xé" ++ "éé"))) =
          some (o, st₁) ∧
        pairsByRule.run (doubling Place) bound undefinedRule (.start "éé") = some (o', st₁') ∧
        o.Relates (Shifted 3) o' ∧ st₁.Relates (Shifted 3) st₁' ∧ o'.next.index = 4 := by
  have hrun : pairsByRule.run (doubling Place) 4 undefinedRule (.start "éé") = some _ := rfl
  refine ⟨pairsByRule_not_mayReach, ?_⟩
  rcases run_shifted (doubling Place) pairsByRule "xé" "éé" undefinedRule rfl
    pairsByRule_not_mayReach with ⟨-, hd⟩ | ⟨bound, o, o', st₁, st₁', hb, hb', ho, hst, -⟩
  · exact absurd (hrun.symm.trans (hd 4)) (by rintro ⟨⟩)
  · have hindex := congrArg (fun r => r.1.next.index)
      (Matcher.run_unique (doubling Place) hb' hrun)
    exact ⟨bound, o, o', st₁, st₁', hb, hb', ho, hst, hindex⟩

end TextMatch
