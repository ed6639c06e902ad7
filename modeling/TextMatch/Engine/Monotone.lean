import TextMatch.Engine

namespace TextMatch

/-!
# More steps

A run that has a result has the same result when it is allowed more steps.

* `Run.Refines` — a run has every result of another;
* `Run.Refines.map`, `Run.Refines.seq`, … — every operation on runs respects this order;
* `Matcher.run_refines` — a greater bound keeps all results;
* `Matcher.run_unique` — two bounds that both give a result give the same one.
-/

variable {S : Signature} {P ω α β : Type}

/-- The run `m'` has every result that `m` has. -/
def Run.Refines (m' m : Run S P ω α) : Prop :=
  ∀ st p r, m st p = some r → m' st p = some r

namespace Run.Refines

/-- Every run has its own results. -/
theorem refl (m : Run S P ω α) : Refines m m := fun _ _ _ h => h

/-- Results are passed on from the smaller run to the larger one. -/
theorem trans {m₁ m₂ m₃ : Run S P ω α} (h : Refines m₁ m₂) (h' : Refines m₂ m₃) :
    Refines m₁ m₃ := fun st p r hr => h st p r (h' st p r hr)

/-! ### One run after another -/

/-- The value of a result is changed in both runs alike. -/
theorem map {m' m : Run S P ω α} (h : Refines m' m) (f : α → β) :
    Refines (Run.map f m') (Run.map f m) := by
  intro st p r hr
  cases hm : m st p with
  | none => simp [Run.map, hm] at hr
  | some x => simpa [Run.map, hm, h _ _ _ hm] using hr

/-- What follows a match may have more results too, whatever the value of the match is. -/
theorem flatMap {m' m : Run S P ω α} {k' k : α → Run S P ω β} (h : Refines m' m)
    (hk : ∀ a, Refines (k' a) (k a)) : Refines (Run.flatMap m' k') (Run.flatMap m k) := by
  intro st p r hr
  cases hm : m st p with
  | none => simp [Run.flatMap, hm] at hr
  | some x =>
    obtain ⟨o, st'⟩ := x
    cases o with
    | failure q => simpa [Run.flatMap, hm, h _ _ _ hm] using hr
    | success a q =>
      simp only [Run.flatMap, hm] at hr
      simpa only [Run.flatMap, h _ _ _ hm] using hk a _ _ _ hr

/-- If the smaller sequence has a result, its first part has one, and so has the second part unless
    the first one fails. -/
theorem seq {a' a : Run S P ω α} {b' b : Run S P ω β} (ha : Refines a' a) (hb : Refines b' b) :
    Refines (Run.seq a' b') (Run.seq a b) := by
  intro st p r hr
  cases hm : a st p with
  | none => simp [Run.seq, hm] at hr
  | some x =>
    obtain ⟨o, st'⟩ := x
    cases o with
    | failure q => simpa [Run.seq, hm, ha _ _ _ hm] using hr
    | success v q =>
      cases hn : b st' q with
      | none => simp [Run.seq, hm, hn] at hr
      | some y => simpa [Run.seq, hm, hn, ha _ _ _ hm, hb _ _ _ hn] using hr

/-- If the smaller choice has a result, its first part has one, and so has the second part unless
    the first one succeeds. -/
theorem choice [Cursor P] {a' a b' b : Run S P ω α} (ha : Refines a' a) (hb : Refines b' b) :
    Refines (Run.choice a' b') (Run.choice a b) := by
  intro st p r hr
  cases hm : a st p with
  | none => simp [Run.choice, hm] at hr
  | some x =>
    obtain ⟨o, st'⟩ := x
    cases o with
    | success v q => simpa [Run.choice, hm, ha _ _ _ hm] using hr
    | failure q =>
      cases hn : b st' p with
      | none => simp [Run.choice, hm, hn] at hr
      | some y => simpa [Run.choice, hm, hn, ha _ _ _ hm, hb _ _ _ hn] using hr

/-! ### Repetition -/

/-- A chain that ended within a bound is the same within every greater one. -/
theorem chain [Cursor P] {m' m : Run S P ω α} (h : Refines m' m) {n n' : Nat} (hn : n ≤ n')
    {st : State S P ω} {p : P} {r : List α × P × State S P ω}
    (hr : Run.chain m n st p = some r) : Run.chain m' n' st p = some r := by
  -- By induction on the bound of the chain that ended; the other one is large enough for as many
  -- rounds, and they are the same one by one.
  induction n generalizing n' st p r with
  | zero => simp [Run.chain] at hr
  | succ n ih =>
    obtain ⟨k, rfl⟩ : ∃ k, n' = k + 1 := ⟨n' - 1, by omega⟩
    rw [Run.chain] at hr ⊢
    cases hm : m st p with
    | none => simp [hm] at hr
    | some x =>
      obtain ⟨o, st'⟩ := x
      rw [h _ _ _ hm]
      rw [hm] at hr
      cases o with
      | failure q => exact hr
      | success v q =>
        simp only at hr ⊢
        by_cases hb : Cursor.isBefore p q
        · rw [if_pos hb] at hr ⊢
          cases hc : Run.chain m n st' q with
          | none => simp [hc] at hr
          | some y =>
            rw [ih (by omega) hc]
            rwa [hc] at hr
        · rw [if_neg hb] at hr ⊢
          exact hr

/-- A repetition that ended is the same when it may go on for longer. -/
theorem many [Cursor P] {m' m : Run S P ω α} (h : Refines m' m) {n n' : Nat} (hn : n ≤ n') :
    Refines (Run.many n' m') (Run.many n m) := by
  intro st p r hr
  cases hc : Run.chain m n st p with
  | none => simp [Run.many, hc] at hr
  | some y => simpa [Run.many, hc, h.chain hn hc] using hr

/-- The first round is a run of its own, and the others are a chain. -/
theorem many1 [Cursor P] {m' m : Run S P ω α} (h : Refines m' m) {n n' : Nat} (hn : n ≤ n') :
    Refines (Run.many1 n' m') (Run.many1 n m) := by
  intro st p r hr
  cases hm : m st p with
  | none => simp [Run.many1, hm] at hr
  | some x =>
    obtain ⟨o, st'⟩ := x
    cases o with
    | failure q => simpa [Run.many1, hm, h _ _ _ hm] using hr
    | success v q =>
      cases hc : Run.chain m n st' q with
      | none => simp [Run.many1, hm, hc] at hr
      | some y => simpa [Run.many1, hm, hc, h _ _ _ hm, h.chain hn hc] using hr

/-! ### Runs that may be taken back, and effects -/

/-- A match that is absent is a result too, and no run without a result becomes one. -/
theorem optional {m' m : Run S P ω α} (h : Refines m' m) :
    Refines (Run.optional m') (Run.optional m) := by
  intro st p r hr
  cases hm : m st p with
  | none => simp [Run.optional, hm] at hr
  | some x => simpa [Run.optional, hm, h _ _ _ hm] using hr

/-- A lookahead has a result if what is looked for has one. -/
theorem not {m' m : Run S P ω α} (h : Refines m' m) : Refines (Run.not m') (Run.not m) := by
  intro st p r hr
  cases hm : m st p with
  | none => simp [Run.not, hm] at hr
  | some x => simpa [Run.not, hm, h _ _ _ hm] using hr

/-- A lookahead that keeps its value has a result if what is looked for has one. -/
theorem guard {m' m : Run S P ω α} (h : Refines m' m) : Refines (Run.guard m') (Run.guard m) := by
  intro st p r hr
  cases hm : m st p with
  | none => simp [Run.guard, hm] at hr
  | some x => simpa [Run.guard, hm, h _ _ _ hm] using hr

/-- What is captured is part of the result, and so the same in both runs. -/
theorem capture {m' m : Run S P ω α} (h : Refines m' m) (name : String) :
    Refines (Run.capture name m') (Run.capture name m) := by
  intro st p r hr
  cases hm : m st p with
  | none => simp [Run.capture, hm] at hr
  | some x => simpa [Run.capture, hm, h _ _ _ hm] using hr

/-- At the limit both runs are refused; below it they enter with the same state. -/
theorem nested {m' m : Run S P ω α} (h : Refines m' m) (frame : List Slot) :
    Refines (Run.nested frame m') (Run.nested frame m) := by
  intro st p r hr
  by_cases hf : st.context.isFull
  · simpa [Run.nested, hf] using hr
  · cases hm : m (st.enter frame) p with
    | none => simp [Run.nested, hf, hm] at hr
    | some x => simpa [Run.nested, hf, hm, h _ _ _ hm] using hr

end Run.Refines

namespace Matcher

variable [Cursor P]

/-- The run of a tree has more results when repetitions may be longer and the definitions it
    refers to have more results. -/
theorem step_refines (host : Host S P ω) {bound bound' : Nat} (hb : bound ≤ bound')
    {call call' : (β : Type) → Matcher S β → Run S P ω β}
    (hc : ∀ β m, (call' β m).Refines (call β m)) (m : Matcher S α) :
    Run.Refines (step host bound' call' m) (step host bound call m) := by
  induction m with
  | map f m ih => exact ih.map f
  | flatMap m holds next ih ihNext => exact ih.flatMap ihNext
  | seq a b iha ihb => exact iha.seq ihb
  | choice a b iha ihb => exact iha.choice ihb
  | many m ih => exact ih.many hb
  | many1 m ih => exact ih.many1 hb
  | optional m ih => exact ih.optional
  | not m ih => exact ih.not
  | guard m ih => exact ih.guard
  | capture name m ih => exact ih.capture name
  | shared holds m ih => exact ih
  | defer name => exact (hc _ _).nested _
  -- What a reference runs is looked up in the state, which is the same on both sides, so that the
  -- definition is one whose results only grow.
  | rule s =>
    intro st p r hr
    simp only [step] at hr ⊢
    cases hd : st.rules.definition? s with
    | none => simpa [hd] using hr
    | some m => exact (hc _ m).nested _ st p r (by simpa [hd] using hr)
  | weak s =>
    intro st p r hr
    simp only [step] at hr ⊢
    cases hd : st.rules.definition? s with
    | none => simpa [hd] using hr
    | some m => exact (hc _ m).nested _ st p r (by simpa [hd] using hr)
  | _ => exact Run.Refines.refl _

/-- One more step keeps all results. -/
theorem run_succ_refines (host : Host S P ω) (n : Nat) {α : Type} (m : Matcher S α) :
    (m.run host (n + 1)).Refines (m.run host n) := by
  induction n generalizing α with
  | zero => exact step_refines host (Nat.zero_le _) (fun _ _ _ _ _ h => absurd h (by simp)) m
  | succ n ih => exact step_refines host (by omega) (fun _ m => ih m) m

/-- A greater bound keeps all results. -/
theorem run_refines (host : Host S P ω) {n n' : Nat} (h : n ≤ n') (m : Matcher S α) :
    (m.run host n').Refines (m.run host n) := by
  induction h with
  | refl => exact Run.Refines.refl _
  | step _ ih => exact (run_succ_refines host _ m).trans ih

/-- Two bounds that both give a result give the same one. -/
theorem run_unique (host : Host S P ω) {n n' : Nat} {m : Matcher S α} {st : State S P ω} {p : P}
    {r r' : Outcome P α × State S P ω} (h : m.run host n st p = some r)
    (h' : m.run host n' st p = some r') : r = r' := by
  have hmax := run_refines host (Nat.le_max_left n n') m _ _ _ h
  have hmax' := run_refines host (Nat.le_max_right n n') m _ _ _ h'
  exact Option.some.inj (hmax.symm.trans hmax')

end Matcher

end TextMatch
