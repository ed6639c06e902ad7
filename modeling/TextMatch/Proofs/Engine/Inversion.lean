import TextMatch.Proofs.Engine.Evaluation

namespace TextMatch

/-!
# Inversion of evaluation

What the parts of a matcher must have done for the whole to end as it did.  The types of values
stand in the way of a case distinction on `Evaluates` itself, since `α × β` does not determine `α`;
so these facts are read off a bounded run.

* `evaluates_seq_iff`, `evaluates_choice_iff`, `evaluates_many1_iff` — the parts of any end;
* `Evaluates.map_success`, `Evaluates.seq_success`, `Evaluates.choice_success`, … — the parts of a
  success;
* `Evaluates.many_isSuccess` — a repetition never fails.
-/

variable {S : Signature} {P ω α β : Type} [Cursor P] {host : Host S P ω}
  {st st' : State S P ω} {p q : P}

open Matcher (exists_run_of_evaluates evaluates_of_run)

/-! ### The parts of any end -/

/-- A sequence ends as its second part does, unless the first one fails. -/
theorem evaluates_seq_iff {a : Matcher S α} {b : Matcher S β} {o : Outcome P (α × β)} :
    Evaluates host (.seq a b) st p o st' ↔
      (∃ v r st₁ o', Evaluates host a st p (.success v r) st₁ ∧ Evaluates host b st₁ r o' st' ∧
        o = o'.map fun w => (v, w)) ∨
        ∃ r, Evaluates host a st p (.failure r) st' ∧ o = .failure r := by
  constructor
  · intro h
    -- The indices of `Evaluates` forbid a case distinction, so the run within a bound is taken.
    obtain ⟨n, hn⟩ := exists_run_of_evaluates h
    rw [Matcher.run_seq, Run.seq_eq_some_iff] at hn
    obtain ⟨v, r, st₁, o', ha, hb, rfl⟩ | ⟨r, ha, rfl⟩ := hn
    · exact .inl ⟨v, r, st₁, o', evaluates_of_run ha, evaluates_of_run hb, rfl⟩
    · exact .inr ⟨r, evaluates_of_run ha, rfl⟩
  · rintro (⟨v, r, st₁, o', ha, hb, rfl⟩ | ⟨r, ha, rfl⟩)
    · exact .seq ha hb
    · exact .seqFail ha

/-- A choice ends as its first alternative does, unless that fails; two failures are compared. -/
theorem evaluates_choice_iff {a b : Matcher S α} {o : Outcome P α} :
    Evaluates host (.choice a b) st p o st' ↔
      (∃ v q, Evaluates host a st p (.success v q) st' ∧ o = .success v q) ∨
        ∃ q st₁ o', Evaluates host a st p (.failure q) st₁ ∧ Evaluates host b st₁ p o' st' ∧
          o = Outcome.orElse (.failure q) o' := by
  constructor
  · intro h
    obtain ⟨n, hn⟩ := exists_run_of_evaluates h
    rw [Matcher.run_choice, Run.choice_eq_some_iff] at hn
    obtain ⟨v, q, ha, rfl⟩ | ⟨q, st₁, o', ha, hb, rfl⟩ := hn
    · exact .inl ⟨v, q, evaluates_of_run ha, rfl⟩
    · exact .inr ⟨q, st₁, o', evaluates_of_run ha, evaluates_of_run hb, rfl⟩
  · rintro (⟨v, q, ha, rfl⟩ | ⟨q, st₁, o', ha, hb, rfl⟩)
    · exact .choice ha
    · exact .choiceElse ha hb

/-- At least one match is one match and then a repetition, which cannot fail. -/
theorem evaluates_many1_iff {m : Matcher S α} {o : Outcome P (List α)} :
    Evaluates host (.many1 m) st p o st' ↔
      (∃ v r st₁ vs q, Evaluates host m st p (.success v r) st₁ ∧
        Evaluates host (.many m) st₁ r (.success vs q) st' ∧ o = .success (v :: vs) q) ∨
        ∃ q, Evaluates host m st p (.failure q) st' ∧ o = .failure q := by
  constructor
  · intro h
    obtain ⟨n, hn⟩ := exists_run_of_evaluates h
    rw [Matcher.run_many1, Run.many1_eq_some_iff] at hn
    obtain ⟨v, r, st₁, vs, q, hm, hc, rfl⟩ | ⟨q, hm, rfl⟩ := hn
    · have hrest := Matcher.evaluates_of_chain (fun h => evaluates_of_run h) hc
      exact .inl ⟨v, r, st₁, vs, q, evaluates_of_run hm, hrest, rfl⟩
    · exact .inr ⟨q, evaluates_of_run hm, rfl⟩
  · rintro (⟨v, r, st₁, vs, q, hm, hrest, rfl⟩ | ⟨q, hm, rfl⟩)
    · exact .many1 hm hrest
    · exact .many1Fail hm

/-! ### The parts of a success -/

namespace Evaluates

/-- A changed value comes from a value. -/
theorem map_success {f : α → β} {m : Matcher S α} {w : β}
    (h : Evaluates host (.map f m) st p (.success w q) st') :
    ∃ v, f v = w ∧ Evaluates host m st p (.success v q) st' := by
  obtain ⟨n, hn⟩ := exists_run_of_evaluates h
  rw [Matcher.run_map, Run.map_eq_some_iff] at hn
  obtain ⟨o, hm, ho⟩ := hn
  cases o with
  | failure r => cases ho
  | success v r => cases ho; exact ⟨v, rfl, evaluates_of_run hm⟩

/-- The value in between says what has been run behind it. -/
theorem flatMap_success {m : Matcher S α} {holds : List Slot} {next : α → Matcher S β} {w : β}
    (h : Evaluates host (.flatMap m holds next) st p (.success w q) st') :
    ∃ v r st₁, Evaluates host m st p (.success v r) st₁ ∧
      Evaluates host (next v) st₁ r (.success w q) st' := by
  obtain ⟨n, hn⟩ := exists_run_of_evaluates h
  rw [Matcher.run_flatMap, Run.flatMap_eq_some_iff] at hn
  rcases hn with ⟨v, r, st₁, hm, hnext⟩ | ⟨r, _, ho⟩
  · exact ⟨v, r, st₁, evaluates_of_run hm, evaluates_of_run hnext⟩
  · cases ho

/-- A pair comes from a value of each part, the second one behind the first. -/
theorem seq_success {a : Matcher S α} {b : Matcher S β} {v : α} {w : β}
    (h : Evaluates host (.seq a b) st p (.success (v, w) q) st') :
    ∃ r st₁, Evaluates host a st p (.success v r) st₁ ∧
      Evaluates host b st₁ r (.success w q) st' := by
  rcases evaluates_seq_iff.1 h with ⟨v', r, st₁, o, ha, hb, ho⟩ | ⟨r, _, ho⟩
  · cases o with
    | failure r' => cases ho
    | success w' r' =>
      cases ho
      exact ⟨r, st₁, ha, hb⟩
  · cases ho

/-- The second value is lost, but there was one. -/
theorem keepLeft_success {a : Matcher S α} {b : Matcher S β} {v : α}
    (h : Evaluates host (.keepLeft a b) st p (.success v q) st') :
    ∃ r st₁ w, Evaluates host a st p (.success v r) st₁ ∧
      Evaluates host b st₁ r (.success w q) st' := by
  obtain ⟨⟨v', w⟩, rfl, hs⟩ := h.map_success
  obtain ⟨r, st₁, ha, hb⟩ := hs.seq_success
  exact ⟨r, st₁, w, ha, hb⟩

/-- The first value is lost, but there was one. -/
theorem keepRight_success {a : Matcher S α} {b : Matcher S β} {w : β}
    (h : Evaluates host (.keepRight a b) st p (.success w q) st') :
    ∃ r st₁ v, Evaluates host a st p (.success v r) st₁ ∧
      Evaluates host b st₁ r (.success w q) st' := by
  obtain ⟨⟨v, w'⟩, rfl, hs⟩ := h.map_success
  obtain ⟨r, st₁, ha, hb⟩ := hs.seq_success
  exact ⟨r, st₁, v, ha, hb⟩

/-- A success of a choice is one of either alternative, of the second only if the first failed. -/
theorem choice_success {a b : Matcher S α} {v : α}
    (h : Evaluates host (.choice a b) st p (.success v q) st') :
    Evaluates host a st p (.success v q) st' ∨
      ∃ r st₁, Evaluates host a st p (.failure r) st₁ ∧
        Evaluates host b st₁ p (.success v q) st' := by
  rcases evaluates_choice_iff.1 h with ⟨v', r, ha, ho⟩ | ⟨r, st₁, o, ha, hb, ho⟩
  · cases ho
    exact .inl ha
  · refine .inr ⟨r, st₁, ha, ?_⟩
    cases o with
    | success w r' => cases ho; exact hb
    | failure r' =>
      -- Two failures make a failure, whichever is kept.
      rw [Outcome.orElse_failure_failure] at ho
      split at ho <;> cases ho

/-- A repetition never fails. -/
theorem many_isSuccess {m : Matcher S α} {o : Outcome P (List α)}
    (h : Evaluates host (.many m) st p o st') : ∃ vs q, o = .success vs q := by
  obtain ⟨n, hn⟩ := exists_run_of_evaluates h
  rw [Matcher.run_many, Run.many_eq_some_iff] at hn
  obtain ⟨vs, q, _, ho⟩ := hn
  exact ⟨vs, q, ho⟩

/-- A repetition is a round and a repetition behind it, or a round that does not count. -/
theorem many_success {m : Matcher S α} {vs : List α}
    (h : Evaluates host (.many m) st p (.success vs q) st') :
    (∃ v ws r st₁, vs = v :: ws ∧ Evaluates host m st p (.success v r) st₁ ∧
      Cursor.isBefore p r = true ∧ Evaluates host (.many m) st₁ r (.success ws q) st') ∨
      vs = [] ∧ q = p ∧ ∃ o, Evaluates host m st p o st' ∧
        ∀ v r, o = .success v r → Cursor.isBefore p r = false := by
  obtain ⟨n, hn⟩ := exists_run_of_evaluates h
  rw [Matcher.run_many, Run.many_eq_some_iff] at hn
  obtain ⟨vs', q', hc, ho⟩ := hn
  cases ho
  -- Without any rounds to spend a repetition has no result.
  cases n with
  | zero => exact absurd hc (by simp [Run.chain])
  | succ n =>
    rcases Run.chain_succ_eq_some_iff.1 hc with
      ⟨v, r, st₁, ws, hm, hp, hws, rfl⟩ | ⟨v, r, hm, hp, rfl, rfl⟩ | ⟨r, hm, rfl, rfl⟩
    · have hrest := Matcher.evaluates_of_chain (fun h => evaluates_of_run h) hws
      exact .inl ⟨v, ws, r, st₁, rfl, evaluates_of_run hm, hp, hrest⟩
    · refine .inr ⟨rfl, rfl, _, evaluates_of_run hm, ?_⟩
      rintro _ _ ⟨⟩
      exact hp
    · refine .inr ⟨rfl, rfl, _, evaluates_of_run hm, ?_⟩
      rintro _ _ ⟨⟩

/-- The values of at least one match are never none. -/
theorem many1_success {m : Matcher S α} {vs : List α}
    (h : Evaluates host (.many1 m) st p (.success vs q) st') :
    ∃ v ws r st₁, vs = v :: ws ∧ Evaluates host m st p (.success v r) st₁ ∧
      Evaluates host (.many m) st₁ r (.success ws q) st' := by
  rcases evaluates_many1_iff.1 h with ⟨v, r, st₁, ws, q', hm, hrest, ho⟩ | ⟨r, _, ho⟩
  · cases ho
    exact ⟨v, ws, r, st₁, rfl, hm, hrest⟩
  · cases ho

/-- A reference succeeds below the limit, and there with its definition. -/
theorem refers_success {m definition : Matcher S α} {frame : List Slot} {v : α}
    (href : Refers host st.rules m frame definition)
    (h : Evaluates host m st p (.success v q) st') :
    st.context.isFull = false ∧
      ∃ st₁, Evaluates host definition (st.enter frame) p (.success v q) st₁ ∧
        st' = st₁.leave st := by
  obtain ⟨n, hn⟩ := exists_run_of_evaluates h
  have hn' := Matcher.run_mono (Nat.le_succ n) hn
  rw [Matcher.run_of_refers n href, Run.nested_eq_some_iff] at hn'
  rcases hn' with ⟨_, ho, _⟩ | ⟨hf, st₁, hd, hst⟩
  · cases ho
  · exact ⟨hf, st₁, evaluates_of_run hd, hst⟩

end Evaluates

end TextMatch
