import TextMatch.Engine.Monotone

namespace TextMatch.Run

/-!
# Results of the operations on runs

When each operation on runs has a result, and which: `seq_eq_some_iff`, `choice_eq_some_iff`,
`chain_succ_eq_some_iff`, `nested_eq_some_iff` and the like.  Everything that is said about the
result of a run further on goes through these lemmas, so the operations are opened here, and once
more only where they are compared with each other.
-/

variable {S : Signature} {P ω α β : Type}
variable {m a b : Run S P ω α} {st st' : State S P ω} {p : P} {o : Outcome P α}

/-- A run with its value changed has a result exactly if the run has one. -/
theorem map_eq_some_iff {f : α → β} {o : Outcome P β} :
    map f m st p = some (o, st') ↔ ∃ o', m st p = some (o', st') ∧ o = o'.map f := by
  unfold map
  rcases m st p with _ | ⟨o', st₁⟩
  · simp
  · constructor
    · rintro ⟨⟩
      exact ⟨o', rfl, rfl⟩
    · rintro ⟨_, ⟨⟩, rfl⟩
      rfl

/-- The result is that of what the value leads to, or else the failure in front of it. -/
theorem flatMap_eq_some_iff {next : α → Run S P ω β} {o : Outcome P β} :
    flatMap m next st p = some (o, st') ↔
      (∃ v q st₁, m st p = some (.success v q, st₁) ∧ next v st₁ q = some (o, st')) ∨
        ∃ q, m st p = some (.failure q, st') ∧ o = .failure q := by
  unfold flatMap
  -- The run has no result, or a success, or a failure, and in each of these cases only one side of
  -- the disjunction can be meant.
  rcases m st p with _ | ⟨⟨v, q⟩ | q, st₁⟩
  · simp
  · constructor
    · intro h
      exact .inl ⟨v, q, st₁, rfl, h⟩
    · rintro (⟨_, _, _, ⟨⟩, h⟩ | ⟨_, ⟨⟩, _⟩)
      exact h
  · constructor
    · rintro ⟨⟩
      exact .inr ⟨q, rfl, rfl⟩
    · rintro (⟨_, _, _, ⟨⟩, _⟩ | ⟨_, ⟨⟩, rfl⟩)
      rfl

/-- In a sequence the failure of the second part is where that part failed. -/
theorem seq_eq_some_iff {b : Run S P ω β} {o : Outcome P (α × β)} :
    seq a b st p = some (o, st') ↔
      (∃ v q st₁ o', a st p = some (.success v q, st₁) ∧ b st₁ q = some (o', st') ∧
        o = o'.map fun w => (v, w)) ∨
        ∃ q, a st p = some (.failure q, st') ∧ o = .failure q := by
  unfold seq
  rcases a st p with _ | ⟨⟨v, q⟩ | q, st₁⟩
  · simp
  · dsimp only
    -- The first part has succeeded; whether there is a result is up to the second.
    cases hb : b st₁ q with
    | none =>
      constructor
      · intro h
        cases h
      · rintro (⟨_, _, _, _, ⟨⟩, h, _⟩ | ⟨_, ⟨⟩, _⟩)
        rw [hb] at h
        cases h
    | some r =>
      constructor
      · rintro ⟨⟩
        exact .inl ⟨v, q, st₁, r.1, rfl, hb, rfl⟩
      · rintro (⟨_, _, _, _, ⟨⟩, h, rfl⟩ | ⟨_, ⟨⟩, _⟩)
        rw [hb] at h
        cases h
        rfl
  · constructor
    · rintro ⟨⟩
      exact .inr ⟨q, rfl, rfl⟩
    · rintro (⟨_, _, _, _, ⟨⟩, _, _⟩ | ⟨_, ⟨⟩, rfl⟩)
      rfl

/-- The second alternative begins where the first one did, with the
    state that the first one left. -/
theorem choice_eq_some_iff [Cursor P] :
    choice a b st p = some (o, st') ↔
      (∃ v q, a st p = some (.success v q, st') ∧ o = .success v q) ∨
        ∃ q st₁ o', a st p = some (.failure q, st₁) ∧ b st₁ p = some (o', st') ∧
          o = Outcome.orElse (.failure q) o' := by
  unfold choice
  rcases a st p with _ | ⟨⟨v, q⟩ | q, st₁⟩
  · simp
  · constructor
    · rintro ⟨⟩
      exact .inl ⟨v, q, rfl, rfl⟩
    · rintro (⟨_, _, ⟨⟩, rfl⟩ | ⟨_, _, _, ⟨⟩, _, _⟩)
      rfl
  · dsimp only
    -- The first alternative has failed; the second one is run, and decides.
    cases hb : b st₁ p with
    | none =>
      constructor
      · intro h
        cases h
      · rintro (⟨_, _, ⟨⟩, _⟩ | ⟨_, _, _, ⟨⟩, h, _⟩)
        rw [hb] at h
        cases h
    | some r =>
      constructor
      · rintro ⟨⟩
        exact .inr ⟨q, st₁, r.1, rfl, hb, rfl⟩
      · rintro (⟨_, _, ⟨⟩, _⟩ | ⟨_, _, _, ⟨⟩, h, rfl⟩)
        rw [hb] at h
        cases h
        rfl

/-- A chain goes on as long as each run moves on; the run that stops it leaves its state. -/
theorem chain_succ_eq_some_iff [Cursor P] {n : Nat} {vs : List α} {q : P} :
    chain m (n + 1) st p = some (vs, q, st') ↔
      (∃ v r st₁ ws, m st p = some (.success v r, st₁) ∧ Cursor.isBefore p r = true ∧
        chain m n st₁ r = some (ws, q, st') ∧ vs = v :: ws) ∨
        (∃ v r, m st p = some (.success v r, st') ∧ Cursor.isBefore p r = false ∧
          vs = [] ∧ q = p) ∨
        ∃ r, m st p = some (.failure r, st') ∧ vs = [] ∧ q = p := by
  rw [chain]
  rcases m st p with _ | ⟨⟨v, r⟩ | r, st₁⟩
  · simp
  · by_cases hb : Cursor.isBefore p r = true
    · simp only [if_pos hb]
      cases hc : chain m n st₁ r with
      | none =>
        constructor
        · intro h
          cases h
        · rintro (⟨_, _, _, _, ⟨⟩, _, h, _⟩ | ⟨_, _, ⟨⟩, h, _⟩ | ⟨_, ⟨⟩, _⟩)
          · rw [hc] at h
            cases h
          · rw [hb] at h
            cases h
      | some rest =>
        constructor
        · rintro ⟨⟩
          exact .inl ⟨v, r, st₁, rest.1, rfl, hb, hc, rfl⟩
        · rintro (⟨_, _, _, _, ⟨⟩, _, h, rfl⟩ | ⟨_, _, ⟨⟩, h, _⟩ | ⟨_, ⟨⟩, _⟩)
          · rw [hc] at h
            cases h
            rfl
          · rw [hb] at h
            cases h
    · -- The run has a value, but the chain does not take it.
      simp only [if_neg hb]
      constructor
      · rintro ⟨⟩
        exact .inr (.inl ⟨v, r, rfl, Bool.eq_false_iff.2 hb, rfl, rfl⟩)
      · rintro (⟨_, _, _, _, ⟨⟩, h, _⟩ | ⟨_, _, ⟨⟩, _, rfl, rfl⟩ | ⟨_, ⟨⟩, _⟩)
        · exact absurd h hb
        · rfl
  · constructor
    · rintro ⟨⟩
      exact .inr (.inr ⟨r, rfl, rfl, rfl⟩)
    · rintro (⟨_, _, _, _, ⟨⟩, _⟩ | ⟨_, _, ⟨⟩, _⟩ | ⟨_, ⟨⟩, rfl, rfl⟩)
      rfl

/-- A repetition has no failures: it yields the values of its rounds and ends behind the last. -/
theorem many_eq_some_iff [Cursor P] {n : Nat} {o : Outcome P (List α)} :
    many n m st p = some (o, st') ↔
      ∃ vs q, chain m n st p = some (vs, q, st') ∧ o = .success vs q := by
  unfold many
  rcases chain m n st p with _ | ⟨vs, q, st₁⟩
  · simp
  · constructor
    · rintro ⟨⟩
      exact ⟨vs, q, rfl, rfl⟩
    · rintro ⟨_, _, ⟨⟩, rfl⟩
      rfl

/-- If a first match is asked for, its failure is that of the repetition, which has no others. -/
theorem many1_eq_some_iff [Cursor P] {n : Nat} {o : Outcome P (List α)} :
    many1 n m st p = some (o, st') ↔
      (∃ v r st₁ vs q, m st p = some (.success v r, st₁) ∧
        chain m n st₁ r = some (vs, q, st') ∧ o = .success (v :: vs) q) ∨
        ∃ q, m st p = some (.failure q, st') ∧ o = .failure q := by
  unfold many1
  rcases m st p with _ | ⟨⟨v, r⟩ | r, st₁⟩
  · simp
  · dsimp only
    cases hc : chain m n st₁ r with
    | none =>
      constructor
      · intro h
        cases h
      · rintro (⟨_, _, _, _, _, ⟨⟩, h, _⟩ | ⟨_, ⟨⟩, _⟩)
        rw [hc] at h
        cases h
    | some rest =>
      constructor
      · rintro ⟨⟩
        exact .inl ⟨v, r, st₁, rest.1, rest.2.1, rfl, hc, rfl⟩
      · rintro (⟨_, _, _, _, _, ⟨⟩, h, rfl⟩ | ⟨_, ⟨⟩, _⟩)
        rw [hc] at h
        cases h
        rfl
  · constructor
    · rintro ⟨⟩
      exact .inr ⟨r, rfl, rfl⟩
    · rintro (⟨_, _, _, _, _, ⟨⟩, _⟩ | ⟨_, ⟨⟩, rfl⟩)
      rfl

/-! Three operations only change how a run ends. -/

/-- A failure is turned into an absent value, and the place is that of the beginning. -/
theorem optional_eq_some_iff {o : Outcome P (Option α)} :
    optional m st p = some (o, st') ↔
      (∃ v q, m st p = some (.success v q, st') ∧ o = .success (some v) q) ∨
        ∃ q, m st p = some (.failure q, st') ∧ o = .success none p := by
  unfold optional
  rcases m st p with _ | ⟨⟨v, q⟩ | q, st₁⟩
  · simp
  · constructor
    · rintro ⟨⟩
      exact .inl ⟨v, q, rfl, rfl⟩
    · rintro (⟨_, _, ⟨⟩, rfl⟩ | ⟨_, ⟨⟩, _⟩)
      rfl
  · constructor
    · rintro ⟨⟩
      exact .inr ⟨q, rfl, rfl⟩
    · rintro (⟨_, _, ⟨⟩, _⟩ | ⟨_, ⟨⟩, rfl⟩)
      rfl

/-- Success and failure change sides, both at the place of the beginning. -/
theorem not_eq_some_iff {o : Outcome P Unit} :
    Run.not m st p = some (o, st') ↔
      (∃ v q, m st p = some (.success v q, st') ∧ o = .failure p) ∨
        ∃ q, m st p = some (.failure q, st') ∧ o = .success () p := by
  unfold Run.not
  rcases m st p with _ | ⟨⟨v, q⟩ | q, st₁⟩
  · simp
  · constructor
    · rintro ⟨⟩
      exact .inl ⟨v, q, rfl, rfl⟩
    · rintro (⟨_, _, ⟨⟩, rfl⟩ | ⟨_, ⟨⟩, _⟩)
      rfl
  · constructor
    · rintro ⟨⟩
      exact .inr ⟨q, rfl, rfl⟩
    · rintro (⟨_, _, ⟨⟩, _⟩ | ⟨_, ⟨⟩, rfl⟩)
      rfl

/-- A match goes back to the beginning, but a failure stays where it was. -/
theorem guard_eq_some_iff :
    guard m st p = some (o, st') ↔
      (∃ v q, m st p = some (.success v q, st') ∧ o = .success v p) ∨
        ∃ q, m st p = some (.failure q, st') ∧ o = .failure q := by
  unfold guard
  rcases m st p with _ | ⟨⟨v, q⟩ | q, st₁⟩
  · simp
  · constructor
    · rintro ⟨⟩
      exact .inl ⟨v, q, rfl, rfl⟩
    · rintro (⟨_, _, ⟨⟩, rfl⟩ | ⟨_, ⟨⟩, _⟩)
      rfl
  · constructor
    · rintro ⟨⟩
      exact .inr ⟨q, rfl, rfl⟩
    · rintro (⟨_, _, ⟨⟩, _⟩ | ⟨_, ⟨⟩, rfl⟩)
      rfl

/-- The span goes from the beginning to the place behind the match; nothing is put under the name
    where there is no match. -/
theorem capture_eq_some_iff {name : String} :
    capture name m st p = some (o, st') ↔
      (∃ v q st₁, m st p = some (.success v q, st₁) ∧ o = .success v q ∧
        st' = st₁.capture name ⟨p, q⟩) ∨
        ∃ q, m st p = some (.failure q, st') ∧ o = .failure q := by
  unfold capture
  rcases m st p with _ | ⟨⟨v, q⟩ | q, st₁⟩
  · simp
  · constructor
    · rintro ⟨⟩
      exact .inl ⟨v, q, st₁, rfl, rfl, rfl⟩
    · rintro (⟨_, _, _, ⟨⟩, rfl, rfl⟩ | ⟨_, ⟨⟩, _⟩)
      rfl
  · constructor
    · rintro ⟨⟩
      exact .inr ⟨q, rfl, rfl⟩
    · rintro (⟨_, _, _, ⟨⟩, _, _⟩ | ⟨_, ⟨⟩, rfl⟩)
      rfl

/-- A reference is refused at the limit; below it the definition is run one level further in. -/
theorem nested_eq_some_iff {frame : List Slot} :
    nested frame m st p = some (o, st') ↔
      (st.context.isFull = true ∧ o = .failure p ∧ st' = st) ∨
        st.context.isFull = false ∧
          ∃ st₁, m (st.enter frame) p = some (o, st₁) ∧ st' = st₁.leave st := by
  unfold nested
  -- At the limit nothing is run; below it the result is that of the definition.
  by_cases hf : st.context.isFull = true
  · rw [if_pos hf]
    constructor
    · rintro ⟨⟩
      exact .inl ⟨hf, rfl, rfl⟩
    · rintro (⟨_, rfl, rfl⟩ | ⟨h, _⟩)
      · rfl
      · rw [hf] at h
        cases h
  · rw [if_neg hf]
    have hf' : st.context.isFull = false := Bool.eq_false_iff.2 hf
    rcases m (st.enter frame) p with _ | ⟨o', st₁⟩
    · simp [hf']
    · constructor
      · rintro ⟨⟩
        exact .inr ⟨hf', st₁, rfl, rfl⟩
      · rintro (⟨h, _⟩ | ⟨_, _, ⟨⟩, rfl⟩)
        · exact absurd h hf
        · rfl

end TextMatch.Run
