import TextMatch.Proofs.Engine.CaptureLog
import TextMatch.Proofs.Engine.Repetition

namespace TextMatch

/-!
# A common beginning

A choice between two sequences that begin alike comes to the common beginning and then a choice.
The choice runs the beginning a second time if the first alternative fails behind it, and then finds
the captures that it and the alternative have made.  Only backrefs see the difference.

* `Yields` — a run ends with an outcome, in whatever state;
* `Blind` — a matcher that neither sees captures nor changes anything else;
* `Matcher.Steady`, `blind_of_steady` — no backref and no change of a definition is enough for that;
* `Blind.yields_seq_iff`, `Blind.yields_choice_iff` — what combinations of such matchers yield is
  said without states;
* `run_common_beginning` — the two ways to write a choice yield the same.
-/

variable {S : Signature} {P ω α β : Type} [Cursor P]

/-! ### Matchers that do not see captures -/

/-- The run of a matcher ends with the outcome. -/
def Yields (host : Host S P ω) (m : Matcher S α) (st : State S P ω) (p : P) (o : Outcome P α) :
    Prop :=
  ∃ st', Evaluates host m st p o st'

/-- What the matcher yields with one table of captures it yields with every other, and it changes
    nothing but the table. -/
structure Blind (host : Host S P ω) (m : Matcher S α) (st : State S P ω) : Prop where
  yields : ∀ {t u p o}, Yields host m (st.withCaptures t) p o →
    Yields host m (st.withCaptures u) p o
  exists_captures : ∀ {t p o st'}, Evaluates host m (st.withCaptures t) p o st' →
    ∃ t', st' = st.withCaptures t'

variable {host : Host S P ω} {st st' : State S P ω} {p : P}

/-- Neither a backref nor a change of a definition is reached. -/
structure Matcher.Steady (m : Matcher S α) (g : Grammar S) : Prop where
  not_reads : ∀ name, ¬m.Reads g name
  not_edits : ¬m.Edits g

/-- Without backrefs the table is never read, and without changes of definitions nothing but the
    table is written. -/
theorem blind_of_steady [IsEmpty S.Hook] {m : Matcher S α} (h : m.Steady (st.grammar host)) :
    Blind host m st where
  yields := exists_evaluates_of_agree h.not_edits fun name hr => absurd hr (h.not_reads name)
  exists_captures he := by
    obtain ⟨log, -, rfl, -⟩ := exists_log_of_evaluates h.not_edits he
    exact ⟨_, rfl⟩

namespace Blind

variable {a a' : Matcher S α} {b : Matcher S β}

/-- Being blind does not depend on the table one begins with. -/
theorem withCaptures (h : Blind host a st) (t : Captures P) : Blind host a (st.withCaptures t) :=
  ⟨h.yields, h.exists_captures⟩

/-- Behind a blind run a blind matcher yields what it would have yielded in front of it. -/
theorem yields_iff_of_evaluates {o : Outcome P α} {o' : Outcome P β} {q : P}
    (ha : Blind host a st) (hb : Blind host b st) (h : Evaluates host a st p o st') :
    Yields host b st' q o' ↔ Yields host b st q o' := by
  obtain ⟨t, rfl⟩ := ha.exists_captures (t := st.context.captures) h
  exact ⟨hb.yields (u := st.context.captures), hb.yields (t := st.context.captures)⟩

/-- In a sequence of blind matchers the second yields what it would yield
    from the state in front of both. -/
theorem yields_seq_iff (ha : Blind host a st) (hb : Blind host b st) {o : Outcome P (α × β)} :
    Yields host (.seq a b) st p o ↔
      (∃ v r o', Yields host a st p (.success v r) ∧ Yields host b st r o' ∧
        o = o'.map fun w => (v, w)) ∨
        ∃ r, Yields host a st p (.failure r) ∧ o = .failure r := by
  constructor
  · rintro ⟨st', h⟩
    obtain ⟨v, r, st₁, o', h₁, h₂, rfl⟩ | ⟨r, h₁, rfl⟩ := evaluates_seq_iff.1 h
    · exact .inl ⟨v, r, o', ⟨st₁, h₁⟩, (ha.yields_iff_of_evaluates hb h₁).1 ⟨st', h₂⟩, rfl⟩
    · exact .inr ⟨r, ⟨st', h₁⟩, rfl⟩
  · rintro (⟨v, r, o', ⟨st₁, h₁⟩, h₂, rfl⟩ | ⟨r, ⟨st', h₁⟩, rfl⟩)
    · obtain ⟨st', h₂⟩ := (ha.yields_iff_of_evaluates hb h₁).2 h₂
      exact ⟨st', .seq h₁ h₂⟩
    · exact ⟨st', .seqFail h₁⟩

/-- The second of two blind alternatives yields what it would yield if
    the first had not been tried. -/
theorem yields_choice_iff (ha : Blind host a st) (ha' : Blind host a' st) {o : Outcome P α} :
    Yields host (.choice a a') st p o ↔
      (∃ v q, Yields host a st p (.success v q) ∧ o = .success v q) ∨
        ∃ q o', Yields host a st p (.failure q) ∧ Yields host a' st p o' ∧
          o = Outcome.orElse (.failure q) o' := by
  constructor
  · rintro ⟨st', h⟩
    obtain ⟨v, q, h₁, rfl⟩ | ⟨q, st₁, o', h₁, h₂, rfl⟩ := evaluates_choice_iff.1 h
    · exact .inl ⟨v, q, ⟨st', h₁⟩, rfl⟩
    · exact .inr ⟨q, o', ⟨st₁, h₁⟩, (ha.yields_iff_of_evaluates ha' h₁).1 ⟨st', h₂⟩, rfl⟩
  · rintro (⟨v, q, ⟨st', h₁⟩, rfl⟩ | ⟨q, o', ⟨st₁, h₁⟩, h₂, rfl⟩)
    · exact ⟨st', .choice h₁⟩
    · obtain ⟨st', h₂⟩ := (ha.yields_iff_of_evaluates ha' h₁).2 h₂
      exact ⟨st', .choiceElse h₁ h₂⟩

/-- Blindness goes through a sequence. -/
theorem seq (ha : Blind host a st) (hb : Blind host b st) : Blind host (.seq a b) st where
  yields {t u p o} h := by
    rw [(ha.withCaptures t).yields_seq_iff (hb.withCaptures t)] at h
    rw [(ha.withCaptures u).yields_seq_iff (hb.withCaptures u)]
    obtain ⟨v, r, o', h₁, h₂, rfl⟩ | ⟨r, h₁, rfl⟩ := h
    · exact .inl ⟨v, r, o', ha.yields h₁, hb.yields h₂, rfl⟩
    · exact .inr ⟨r, ha.yields h₁, rfl⟩
  exists_captures h := by
    obtain ⟨v, r, st₁, o', h₁, h₂, -⟩ | ⟨r, h₁, -⟩ := evaluates_seq_iff.1 h
    · obtain ⟨t, rfl⟩ := ha.exists_captures h₁
      exact hb.exists_captures h₂
    · exact ha.exists_captures h₁

/-- Blindness goes through a choice, where captures of a failed
    alternative are found by the other. -/
theorem choice (ha : Blind host a st) (ha' : Blind host a' st) :
    Blind host (.choice a a') st where
  yields {t u p o} h := by
    rw [(ha.withCaptures t).yields_choice_iff (ha'.withCaptures t)] at h
    rw [(ha.withCaptures u).yields_choice_iff (ha'.withCaptures u)]
    obtain ⟨v, q, h₁, rfl⟩ | ⟨q, o', h₁, h₂, rfl⟩ := h
    · exact .inl ⟨v, q, ha.yields h₁, rfl⟩
    · exact .inr ⟨q, o', ha.yields h₁, ha'.yields h₂, rfl⟩
  exists_captures h := by
    obtain ⟨v, q, h₁, -⟩ | ⟨q, st₁, o', h₁, h₂, -⟩ := evaluates_choice_iff.1 h
    · exact ha.exists_captures h₁
    · obtain ⟨t, rfl⟩ := ha.exists_captures h₁
      exact ha'.exists_captures h₂

end Blind

/-! ### The common beginning -/

/-- What is yielded is one thing, even where nothing is said of the state. -/
theorem Yields.unique {m : Matcher S α} {o o' : Outcome P α} (h : Yields host m st p o)
    (h' : Yields host m st p o') : o = o' := by
  obtain ⟨st₁, h⟩ := h
  obtain ⟨st₂, h'⟩ := h'
  exact (h.unique h').1

/-- Yielding something means doing so within some bound. -/
theorem yields_iff_exists_run {m : Matcher S α} {o : Outcome P α} :
    Yields host m st p o ↔ ∃ bound st', m.run host bound st p = some (o, st') := by
  rw [Yields, exists_comm]
  exact exists_congr fun _ => Matcher.evaluates_iff_exists_run

namespace Blind

variable {a : Matcher S α} {b c : Matcher S β}

/-- What is common to two sequences is found by the second as it was found by the first. -/
theorem yields_common_beginning_iff (ha : Blind host a st) (hb : Blind host b st)
    (hc : Blind host c st) {o : Outcome P (α × β)} :
    Yields host (.choice (.seq a b) (.seq a c)) st p o ↔
      Yields host (.seq a (.choice b c)) st p o := by
  -- Both sides are taken apart into what the three parts yield from one and the same state.
  rw [(ha.seq hb).yields_choice_iff (ha.seq hc), ha.yields_seq_iff (hb.choice hc)]
  simp only [ha.yields_seq_iff hb, ha.yields_seq_iff hc, hb.yields_choice_iff hc]
  constructor
  · rintro (⟨⟨v, w⟩, q, hab, rfl⟩ | ⟨q, o', hab, hac, rfl⟩)
    · obtain ⟨v', r, o', h₁, h₂, ho⟩ | ⟨r, -, ho⟩ := hab
      · cases o' <;> cases ho
        exact .inl ⟨v, r, .success w q, h₁, .inl ⟨w, q, h₂, rfl⟩, rfl⟩
      · cases ho
    · obtain ⟨v, r, o₁, h₁, h₂, ho⟩ | ⟨r, h₁, ho⟩ := hab
      · -- The beginning succeeded, so it does again.
        cases o₁ <;> cases ho
        obtain ⟨v', r', o₂, h₁', h₃, rfl⟩ | ⟨r', h₁', rfl⟩ := hac <;> cases h₁.unique h₁'
        exact .inl ⟨v, r, _, h₁, .inr ⟨q, o₂, h₂, h₃, rfl⟩, (Outcome.map_orElse _ q o₂).symm⟩
      · -- It failed, and does so again at the same cursor.
        cases ho
        obtain ⟨v', r', o₂, h₁', h₃, rfl⟩ | ⟨r', h₁', rfl⟩ := hac <;> cases h₁.unique h₁'
        exact .inr ⟨q, h₁, Outcome.orElse_self q⟩
  · -- In the other direction the beginning is repeated with what it has yielded before.
    rintro (⟨v, r, o', h₁, ⟨w, q, h₂, rfl⟩ | ⟨q, o₂, h₂, h₃, rfl⟩, rfl⟩ | ⟨r, h₁, rfl⟩)
    · exact .inl ⟨(v, w), q, .inl ⟨v, r, _, h₁, h₂, rfl⟩, rfl⟩
    · exact .inr ⟨q, _, .inl ⟨v, r, _, h₁, h₂, rfl⟩, .inl ⟨v, r, o₂, h₁, h₃, rfl⟩,
        Outcome.map_orElse _ q o₂⟩
    · exact .inr ⟨r, _, .inr ⟨r, h₁, rfl⟩, .inr ⟨r, h₁, rfl⟩, (Outcome.orElse_self r).symm⟩

end Blind

/-- **A common beginning may be taken out of a choice.**  If no backref and no change of a
    definition is reached from three matchers, then the choice between the first and then the second
    and the first and then the third yields what the first and then the choice between the others
    yields: the same value and end, or a failure at the same cursor, or neither returns. -/
theorem run_common_beginning [IsEmpty S.Hook] (host : Host S P ω) (a : Matcher S α)
    (b c : Matcher S β) (st : State S P ω) (p : P) (ha : a.Steady (st.grammar host))
    (hb : b.Steady (st.grammar host)) (hc : c.Steady (st.grammar host)) (o : Outcome P (α × β)) :
    (∃ bound st', (Matcher.choice (.seq a b) (.seq a c)).run host bound st p = some (o, st')) ↔
      ∃ bound st', (Matcher.seq a (.choice b c)).run host bound st p = some (o, st') := by
  rw [← yields_iff_exists_run, ← yields_iff_exists_run]
  exact (blind_of_steady ha).yields_common_beginning_iff (blind_of_steady hb) (blind_of_steady hc)

/-- A matcher without names and rules reaches only what is in its tree. -/
theorem nameless_steady {m : Matcher nameless α}
    (hread : ∀ name, m.Lacks (Matcher.IsBackref name)) (hedit : m.Lacks Matcher.IsEdit) :
    m.Steady (State.grammar nothingNamed ⟨.new none, .empty, ()⟩) where
  not_reads name := Matcher.not_reaches (hread name) nofun nofun
  not_edits := Matcher.not_reaches hedit nofun nofun

/-- Any number of `a`, captured; then `bx`, of which the `b` is captured under the same name, or
    `b`.  In front of `aab` the first way fails at the end, behind the second capture. -/
theorem run_common_beginning_letters :
    let a : Matcher nameless (List Char) := .capture "c" (.many (.char 'a'))
    let b : Matcher nameless Char := .keepLeft (.capture "c" (.char 'b')) (.char 'x')
    let c : Matcher nameless Char := .char 'b'
    let st : State nameless Place Unit := ⟨.new none, .empty, ()⟩
    a.Steady (st.grammar nothingNamed) ∧ b.Steady (st.grammar nothingNamed) ∧
      c.Steady (st.grammar nothingNamed) ∧
      ∃ bound q st', (Matcher.choice (.seq a b) (.seq a c)).run nothingNamed bound st
        (.start "aab") = some (.success (['a', 'a'], 'b') q, st') := by
  intro a b c st
  have ha : a.Steady (st.grammar nothingNamed) := nameless_steady
    (by simp [a, Matcher.char, Matcher.Lacks, Matcher.IsBackref])
    (by simp [a, Matcher.char, Matcher.Lacks, Matcher.IsEdit])
  have hb : b.Steady (st.grammar nothingNamed) := nameless_steady
    (by simp [b, Matcher.keepLeft, Matcher.char, Matcher.Lacks, Matcher.IsBackref])
    (by simp [b, Matcher.keepLeft, Matcher.char, Matcher.Lacks, Matcher.IsEdit])
  have hc : c.Steady (st.grammar nothingNamed) := nameless_steady
    (by simp [c, Matcher.char, Matcher.Lacks, Matcher.IsBackref])
    (by simp [c, Matcher.char, Matcher.Lacks, Matcher.IsEdit])
  refine ⟨ha, hb, hc, ?_⟩
  have hrun : (Matcher.seq a (.choice b c)).run nothingNamed 3 st (.start "aab") = some _ := rfl
  obtain ⟨bound, st', h⟩ :=
    (run_common_beginning nothingNamed a b c st (.start "aab") ha hb hc _).2 ⟨3, _, hrun⟩
  exact ⟨bound, _, st', h⟩

end TextMatch
