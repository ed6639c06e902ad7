import TextMatch.Proofs.Cursor.Marks
import TextMatch.Proofs.Cursor.Spelling
import TextMatch.Proofs.Engine.Confined
import TextMatch.Proofs.Engine.Inversion
import TextMatch.Proofs.Engine.Repetition

namespace TextMatch

open Cursor (advanceBy)
open Matcher (not_mayReach_part)

/-!
# Backrefs

A capture puts its own span under its name when all inside it is done, so whatever was captured
there under the same name is gone.  From then on the span stays until something is captured under
the name again, and a backref spells the text of it.

* `Evaluates.get?_captures_eq` — a run that may not come to a capture under a name leaves what is
  found under it;
* `Evaluates.get?_captures_of_capture` — behind a capture that is its own span;
* `run_backref_of_get?` — a backref goes as far as the text agrees with that of the span;
* `run_backref_of_capture` — a backref matches exactly the text last captured.
-/

variable {S : Signature} {P ω α β : Type}

/-! ### What is found under a name -/

/-- **A name is left alone** by a run that may not come to a capture under it, whatever the run
    gives up on the way, and whatever definitions it gives. -/
theorem Evaluates.get?_captures_eq [Cursor P] {host : Host S P ω} {g : Grammar S} {name : String}
    (hg : g.named = host.definition) {m : Matcher S α} {st st' : State S P ω} {p : P}
    {o : Outcome P α} (h : Evaluates host m st p o st')
    (hm : ¬m.MayReach g (Matcher.IsCapture name))
    (hr : st.rules.Confined g (Matcher.IsCapture name)) :
    st'.context.captures.get? name = st.context.captures.get? name := by
  -- Induction on the run.  A second part finds the rules confined, since the first left them so.
  induction h with
  | map _ ih => exact ih (not_mayReach_part hm .map) hr
  | flatMap h _ ih ihn =>
    have hfirst := not_mayReach_part hm .flatMap
    exact (ihn (not_mayReach_part hm (.flatMapNext _)) (h.confined hg hfirst hr)).trans
      (ih hfirst hr)
  | flatMapFail _ ih => exact ih (not_mayReach_part hm .flatMap) hr
  | seq h _ ih ihb =>
    have hfirst := not_mayReach_part hm .seq
    exact (ihb (not_mayReach_part hm .seqNext) (h.confined hg hfirst hr)).trans (ih hfirst hr)
  | seqFail _ ih => exact ih (not_mayReach_part hm .seq) hr
  | choice _ ih => exact ih (not_mayReach_part hm .choice) hr
  | choiceElse h _ ih ihb =>
    have hfirst := not_mayReach_part hm .choice
    exact (ihb (not_mayReach_part hm .choiceElse) (h.confined hg hfirst hr)).trans (ih hfirst hr)
  | manyMore h _ _ ih ihm =>
    have hround := not_mayReach_part hm .many
    exact (ihm hm (h.confined hg hround hr)).trans (ih hround hr)
  | manyStuck _ _ ih | manyFail _ ih => exact ih (not_mayReach_part hm .many) hr
  | many1 h _ ih ihm =>
    have hround := not_mayReach_part hm fun h => .many1 (.many h)
    exact (ihm (not_mayReach_part hm .many1) (h.confined hg hround hr)).trans (ih hround hr)
  | many1Fail _ ih => exact ih (not_mayReach_part hm fun h => .many1 (.many h)) hr
  | optional _ ih | optionalNone _ ih => exact ih (not_mayReach_part hm .optional) hr
  | notFail _ ih | not _ ih => exact ih (not_mayReach_part hm .not) hr
  | guard _ ih | guardFail _ ih => exact ih (not_mayReach_part hm .guard) hr
  | @capture _ name' _ _ _ _ _ _ _ ih =>
    -- The capture is under another name.
    have hne : name' ≠ name := fun heq => hm (.reaches (.here heq))
    have hname := ih (not_mayReach_part hm .capture) hr
    simpa [State.capture, Context.capture, Captures.get?_insert, hne] using hname
  | captureFail _ ih => exact ih (not_mayReach_part hm .capture) hr
  | enter href _ _ ih => exact ih (href.not_mayReach hg hr hm) (hr.enter _)
  | shared _ ih => exact ih (not_mayReach_part hm .shared) hr
  | _ => rfl

/-- Behind a capture there is its own span under the name, not one from inside it. -/
theorem Evaluates.get?_captures_of_capture [Cursor P] {host : Host S P ω} {name : String}
    {m : Matcher S α} {st st' : State S P ω} {p q : P} {v : α}
    (h : Evaluates host (.capture name m) st p (.success v q) st') :
    st'.context.captures.get? name = some ⟨p, q⟩ := by
  obtain ⟨n, hn⟩ := Matcher.exists_run_of_evaluates h
  rw [Matcher.run_capture, Run.capture_eq_some_iff] at hn
  obtain ⟨v', q', st₁, -, ho, rfl⟩ | ⟨q', -, ho⟩ := hn
  · cases ho
    exact Captures.get?_insert_self _ _ _
  · cases ho

/-! ### The text of a name -/

variable {host : Host S Place ω} {st : State S Place ω} {p q r : Place} {name : String}

/-- A backref spells the characters of the span under its name. -/
theorem run_backref_of_get? (h : st.context.captures.get? name = some ⟨p, q⟩) (bound : Nat) :
    (Matcher.backref name).run host bound st r =
      some ((Run.spell (Cursor.between p q) r).map fun _ => String.ofList (Cursor.between p q),
        st) := by
  have htext : st.context.captures.text? name = some (String.ofList (Cursor.between p q)) := by
    rw [Captures.text?, h]
    rfl
  rw [Matcher.run_eq_step]
  simp only [Matcher.step, Run.backref, htext, Run.literalAt, String.toList_ofList]

/-- **A backref matches exactly the text last captured.**  If a capture succeeds, and behind it a
    matcher that may not come to a capture under the same name, then the text from where the
    capture began to where it ended is the text of the name: a backref behind both yields it and
    passes it if the rest of the text begins with it, and otherwise fails behind the characters
    that the two have in common, where the rest of the text has another character or ends. -/
theorem run_backref_of_capture [IsEmpty S.Hook] (host : Host S Place ω) (name : String)
    (m : Matcher S α) (k : Matcher S β) {st st₁ st₂ : State S Place ω} {p q r : Place} {v : α}
    {w : β} {n n' : Nat}
    (hm : (Matcher.capture name m).run host n st p = some (.success v q, st₁))
    (hk : k.run host n' st₁ q = some (.success w r, st₂))
    (hreach : ¬k.MayReach (st₁.grammar host) (Matcher.IsCapture name)) :
    let text := Cursor.between p q
    p.ahead = text ++ q.ahead ∧
      (text <+: r.ahead → ∀ bound, (Matcher.backref name).run host bound st₂ r =
        some (.success (String.ofList text) (advanceBy text.length r), st₂)) ∧
      (¬text <+: r.ahead → ∃ i < text.length, text.take i <+: r.ahead ∧
        r.ahead[i]? ≠ text[i]? ∧ ∀ bound, (Matcher.backref name).run host bound st₂ r =
          some (.failure (advanceBy i r), st₂)) := by
  intro text
  have hcapture := Matcher.evaluates_of_run hm
  have hname : st₂.context.captures.get? name = some ⟨p, q⟩ :=
    ((Matcher.evaluates_of_run hk).get?_captures_eq rfl hreach (Rules.confined_self st₁ _)).trans
      hcapture.get?_captures_of_capture
  refine ⟨(Place.between_append_ahead hcapture.ahead).symm, fun hprefix bound => ?_,
    fun hprefix => ⟨sharedLength text r.ahead, ?_, take_sharedLength_isPrefix _ _,
      getElem?_sharedLength_ne hprefix, fun bound => ?_⟩⟩
  · rw [run_backref_of_get? hname, Place.spell_eq, if_pos hprefix]
    rfl
  · have hne := mt sharedLength_eq_length_iff.1 hprefix
    exact Nat.lt_of_le_of_ne (sharedLength_le_length _ _) hne
  · rw [run_backref_of_get? hname, Place.spell_eq, if_neg hprefix]
    rfl

/-- `ä` and `b` are captured, and before that the `ä` by itself under the same name.  Behind a dash,
    which a first attempt has captured under another name, they are found again. -/
theorem run_backref_of_capture_letters :
    let m : Matcher nameless (Char × Char) := .seq (.capture "n" (.char 'ä')) (.char 'b')
    let k : Matcher nameless Char :=
      .choice (.keepLeft (.capture "o" (.char '-')) (.char '-')) (.char '-')
    let p : Place := .start "äb-äbc"
    let st : State nameless Place Unit := ⟨.new none, .empty, ()⟩
    let st₁ := (st.capture "n" ⟨p, advanceBy 1 p⟩).capture "n" ⟨p, advanceBy 2 p⟩
    let st₂ := st₁.capture "o" ⟨advanceBy 2 p, advanceBy 3 p⟩
    (Matcher.capture "n" m).run nothingNamed 0 st p =
        some (.success ('ä', 'b') (advanceBy 2 p), st₁) ∧
      k.run nothingNamed 0 st₁ (advanceBy 2 p) = some (.success '-' (advanceBy 3 p), st₂) ∧
      ¬k.MayReach (st₁.grammar nothingNamed) (Matcher.IsCapture "n") ∧
      (Matcher.backref "n").run nothingNamed 0 st₂ (advanceBy 3 p) =
        some (.success "äb" (advanceBy 5 p), st₂) := by
  intro m k p st st₁ st₂
  have hm : (Matcher.capture "n" m).run nothingNamed 0 st p =
      some (.success ('ä', 'b') (advanceBy 2 p), st₁) := rfl
  have hk : k.run nothingNamed 0 st₁ (advanceBy 2 p) =
      some (.success '-' (advanceBy 3 p), st₂) := rfl
  have hreach : ¬k.MayReach (st₁.grammar nothingNamed) (Matcher.IsCapture "n") := by
    refine Matcher.not_mayReach (Matcher.not_reaches ?_ nofun nofun)
      (Matcher.not_reaches ?_ nofun nofun)
    · simp [k, Matcher.keepLeft, Matcher.char, Matcher.Lacks, Matcher.IsCapture]
    · simp [k, Matcher.keepLeft, Matcher.char, Matcher.Lacks, Matcher.IsEdit]
  obtain ⟨-, hfound, -⟩ := run_backref_of_capture nothingNamed "n" m k hm hk hreach
  exact ⟨hm, hk, hreach, hfound (by decide) 0⟩

end TextMatch
