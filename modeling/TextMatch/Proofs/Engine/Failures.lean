import TextMatch.Proofs.Cursor.Marks
import TextMatch.Proofs.Engine.Texts

namespace TextMatch

open Cursor (Ahead)

/-!
# Where runs on texts fail

A failure has a place too.  For matchers that do not look behind it depends only on the characters
ahead, and is given here by those that are left there.

* `Fails` — a matcher fails on a text, and where it does so there is a rest;
* `Fails.seq`, `Fails.seqNext`, `Fails.choiceLeft`, … — one rule for each way in which a combination
  fails;
* `Fails.unique` — what a matcher fails on it does nothing else with.
-/

variable {S : Signature} {ω α β : Type}

/-- Wherever the text is ahead, the matcher fails, and what is ahead at the failure is the rest. -/
def Fails (host : Host S Place ω) (m : Matcher S α) (st : State S Place ω)
    (text rest : List Char) : Prop :=
  ∀ p : Place, p.ahead = text → ∃ q, Evaluates host m st p (.failure q) st ∧ q.ahead = rest

namespace Fails

variable {host : Host S Place ω} {st st' : State S Place ω} {p : Place}
  {text text' rest rest' : List Char}

/-- Whoever does not ask where a matcher fails, knows only that it does. -/
theorem rejects {m : Matcher S α} (h : Fails host m st text rest) : Rejects host m st text := by
  intro p hp
  obtain ⟨q, hq, -⟩ := h p hp
  exact ⟨q, hq⟩

/-- There is one end to a run, so a matcher that fails somewhere fails nowhere else. -/
theorem unique {m : Matcher S α} {o : Outcome Place α} (h : Fails host m st p.ahead rest)
    (h' : Evaluates host m st p o st') : ∃ q, o = .failure q ∧ q.ahead = rest := by
  obtain ⟨q, hq, hrest⟩ := h p rfl
  exact ⟨q, (h'.unique hq).1, hrest⟩

/-! ### Single characters and the end -/

/-- A character that is not accepted is still ahead at the failure. -/
theorem satisfy {accepts : Char → Bool} (h : ∀ c ∈ text.head?, accepts c = false) :
    Fails host (.satisfy accepts) st text text :=
  fun p hp => ⟨p, Run.satisfyAt_eq_failure (hp ▸ h) ▸ .satisfy, hp⟩

/-- The text that stands where the end should be is ahead at the failure. -/
theorem atEnd (h : text ≠ []) : Fails host .atEnd st text text :=
  fun p hp => ⟨p, Run.holdsAt_atEnd_eq_failure (hp ▸ h) ▸ .atEnd, hp⟩

/-! ### One part after another

The first part fails, or it takes something and the second part fails on what is left. -/

/-- Changing values moves no failure. -/
theorem map {m : Matcher S α} (h : Fails host m st text rest) (f : α → β) :
    Fails host (.map f m) st text rest := by
  intro p hp
  obtain ⟨q, hq, hrest⟩ := h p hp
  exact ⟨q, .map hq, hrest⟩

/-- A failure in front of what a value leads to is the failure of both. -/
theorem flatMap {m : Matcher S α} (h : Fails host m st text rest) (holds : List Slot)
    (next : α → Matcher S β) : Fails host (.flatMap m holds next) st text rest := by
  intro p hp
  obtain ⟨q, hq, hrest⟩ := h p hp
  exact ⟨q, .flatMapFail hq, hrest⟩

/-- If one match is asked for, its failure is that of the repetition. -/
theorem many1 {m : Matcher S α} (h : Fails host m st text rest) :
    Fails host (.many1 m) st text rest := by
  intro p hp
  obtain ⟨q, hq, hrest⟩ := h p hp
  exact ⟨q, .many1Fail hq, hrest⟩

/-- The failure of a first part is that of the sequence. -/
theorem seq {a : Matcher S α} (h : Fails host a st text rest) (b : Matcher S β) :
    Fails host (.seq a b) st text rest := by
  intro p hp
  obtain ⟨q, hq, hrest⟩ := h p hp
  exact ⟨q, .seqFail hq, hrest⟩

/-- Behind a first part the failure of the second is, further on in the text. -/
theorem seqNext {a : Matcher S α} {b : Matcher S β} {v : α} (ha : Takes host a st text v text')
    (hb : Fails host b st text' rest) : Fails host (.seq a b) st text rest := by
  intro p hp
  obtain ⟨r, hr, htext'⟩ := ha p hp
  obtain ⟨q, hq, hrest⟩ := hb r htext'
  exact ⟨q, .seq hr hq, hrest⟩

/-- A failure of the first part is that of the sequence, whichever value would be kept. -/
theorem keepLeft {a : Matcher S α} (h : Fails host a st text rest) (b : Matcher S β) :
    Fails host (.keepLeft a b) st text rest := (h.seq b).map Prod.fst

/-- A failure of the second part counts although only the first value would be kept. -/
theorem keepLeftNext {a : Matcher S α} {b : Matcher S β} {v : α}
    (ha : Takes host a st text v text') (hb : Fails host b st text' rest) :
    Fails host (.keepLeft a b) st text rest := (seqNext ha hb).map Prod.fst

/-- A failure of the first part counts although only the second value would be kept. -/
theorem keepRight {a : Matcher S α} (h : Fails host a st text rest) (b : Matcher S β) :
    Fails host (.keepRight a b) st text rest := (h.seq b).map Prod.snd

/-- A failure of the second part leaves no value to keep. -/
theorem keepRightNext {a : Matcher S α} {b : Matcher S β} {v : α}
    (ha : Takes host a st text v text') (hb : Fails host b st text' rest) :
    Fails host (.keepRight a b) st text rest := (seqNext ha hb).map Prod.snd

/-! ### Alternatives

Both fail, and the failure that has less text left is kept; of two that have equally much it is the
first. -/

section

variable [IsEmpty S.Hook] {a b : Matcher S α}

/-- The first failure is kept if it got at least as far, that is, if no more text is left there. -/
theorem choiceLeft (ha : Fails host a st text rest) (hb : Fails host b st text rest')
    (hle : rest.length ≤ rest'.length) : Fails host (.choice a b) st text rest := by
  intro p hp
  obtain ⟨r, hr, hrest⟩ := ha p hp
  obtain ⟨q, hq, hrest'⟩ := hb p hp
  -- Both failures are ahead of one place, so the text that is left says which is further on.
  have hpr : Ahead p r := hr.ahead
  have hpq : Ahead p q := hq.ahead
  have hnot : ¬Cursor.isBefore r q = true := by
    rw [Place.isBefore_iff_length_lt hpr hpq, hrest, hrest']
    exact Nat.not_lt_of_le hle
  have helse := Evaluates.choiceElse hr hq
  rw [Outcome.orElse_failure_failure, if_neg hnot] at helse
  exact ⟨r, helse, hrest⟩

/-- The second failure is kept only if it got further, which has to leave less text. -/
theorem choiceRight (ha : Fails host a st text rest) (hb : Fails host b st text rest')
    (hlt : rest'.length < rest.length) : Fails host (.choice a b) st text rest' := by
  intro p hp
  obtain ⟨r, hr, hrest⟩ := ha p hp
  obtain ⟨q, hq, hrest'⟩ := hb p hp
  have hpr : Ahead p r := hr.ahead
  have hpq : Ahead p q := hq.ahead
  have hbefore : Cursor.isBefore r q = true := by
    rwa [Place.isBefore_iff_length_lt hpr hpq, hrest, hrest']
  have helse := Evaluates.choiceElse hr hq
  rw [Outcome.orElse_failure_failure, if_pos hbefore] at helse
  exact ⟨q, helse, hrest'⟩

end

/-! ### References -/

/-- A reference below the limit fails where its definition does one level further in. -/
theorem defer {name : S.Name} (hfull : st.context.isFull = false)
    (h : Fails host (host.definition name) (st.enter (host.definition name).owned) text rest) :
    Fails host (.defer name) st text rest := by
  intro p hp
  obtain ⟨q, hq, hrest⟩ := h p hp
  refine ⟨q, ?_, hrest⟩
  have henter := Evaluates.enter .defer hfull hq
  rwa [State.leave_enter] at henter

end Fails

end TextMatch
