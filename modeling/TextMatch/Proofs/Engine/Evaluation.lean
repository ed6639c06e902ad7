import TextMatch.Proofs.Engine.Results

namespace TextMatch

/-!
# Evaluation — runs without a bound

`Matcher.run` carries a bound, so every statement about it would carry one too.  This module says
once what the run of a matcher is, rule by rule and without a bound, and proves that this is what
`Matcher.run` computes.

* `Refers` — which definition a reference stands for, and what it owns while that is run;
* `Evaluates` — from a matcher, a state and a cursor to an outcome and a state;
* `evaluates_iff_exists_run` — some bound gives exactly the results of `Evaluates`;
* `Diverges` — no bound gives a result;
* `Evaluates.unique` — there is at most one result.
-/

variable {S : Signature} {P ω α β : Type}

/-! ### The rules -/

/-- What a reference stands for: its definition, and the rules it owns while that is run. -/
inductive Refers (host : Host S P ω) (rules : Rules S) :
    {α : Type} → Matcher S α → List Slot → Matcher S α → Prop where
  | defer {name : S.Name} :
      Refers host rules (.defer name) (host.definition name).owned (host.definition name)
  | rule {s : Slot} {m : Matcher S S.Value} (h : rules.definition? s = some m) :
      Refers host rules (.rule s) m.owned m
  | weak {s : Slot} {m : Matcher S S.Value} (h : rules.definition? s = some m) :
      Refers host rules (.weak s) (s :: m.owned) m

/-- The run of a matcher from a state and a cursor ends with an outcome and a state. -/
inductive Evaluates [Cursor P] (host : Host S P ω) :
    {α : Type} → Matcher S α → State S P ω → P → Outcome P α → State S P ω → Prop where
  | satisfy {accepts st p} :
      Evaluates host (.satisfy accepts) st p (Run.satisfyAt accepts p) st
  | literal {text st p} : Evaluates host (.literal text) st p (Run.literalAt text p) st
  | atStart {st p} : Evaluates host .atStart st p (Run.holdsAt Cursor.atStart p) st
  | atEnd {st p} : Evaluates host .atEnd st p (Run.holdsAt Cursor.atEnd p) st
  | behind {accepts st p} :
      Evaluates host (.behind accepts) st p (Run.holdsAt (Run.isBehind accepts) p) st
  | succeed {α : Type} {value : α} {st p} :
      Evaluates host (.succeed value) st p (.success value p) st
  | fail {α : Type} {st p} : Evaluates host (.fail : Matcher S α) st p (.failure p) st
  | backref {name st p text} (h : st.context.captures.text? name = some text) :
      Evaluates host (.backref name) st p (Run.literalAt text p) st
  | backrefAbsent {name st p} (h : st.context.captures.text? name = none) :
      Evaluates host (.backref name) st p (.failure p) st
  -- One part after another: the second begins in the state and at the place the first ends with.
  | map {α β : Type} {f : α → β} {m st p o st'} (h : Evaluates host m st p o st') :
      Evaluates host (.map f m) st p (o.map f) st'
  | flatMap {α β : Type} {m : Matcher S α} {holds} {next : α → Matcher S β} {st p v q st₁ o st'}
      (h : Evaluates host m st p (.success v q) st₁) (hn : Evaluates host (next v) st₁ q o st') :
      Evaluates host (.flatMap m holds next) st p o st'
  | flatMapFail {α β : Type} {m : Matcher S α} {holds} {next : α → Matcher S β} {st p q st'}
      (h : Evaluates host m st p (.failure q) st') :
      Evaluates host (.flatMap m holds next) st p (.failure q) st'
  | seq {α β : Type} {a : Matcher S α} {b : Matcher S β} {st p v q st₁ o st'}
      (ha : Evaluates host a st p (.success v q) st₁) (hb : Evaluates host b st₁ q o st') :
      Evaluates host (.seq a b) st p (o.map fun w => (v, w)) st'
  | seqFail {α β : Type} {a : Matcher S α} {b : Matcher S β} {st p q st'}
      (ha : Evaluates host a st p (.failure q) st') :
      Evaluates host (.seq a b) st p (.failure q) st'
  -- The second alternative begins at the place again, but in the state the first one left.
  | choice {α : Type} {a b : Matcher S α} {st p v q st'}
      (ha : Evaluates host a st p (.success v q) st') :
      Evaluates host (.choice a b) st p (.success v q) st'
  | choiceElse {α : Type} {a b : Matcher S α} {st p q st₁ o st'}
      (ha : Evaluates host a st p (.failure q) st₁) (hb : Evaluates host b st₁ p o st') :
      Evaluates host (.choice a b) st p (Outcome.orElse (.failure q) o) st'
  -- A round counts if it moves on; the round that does not still leaves its state.
  | manyMore {α : Type} {m : Matcher S α} {st p v r st₁ vs q st'}
      (h : Evaluates host m st p (.success v r) st₁) (hp : Cursor.isBefore p r = true)
      (hm : Evaluates host (.many m) st₁ r (.success vs q) st') :
      Evaluates host (.many m) st p (.success (v :: vs) q) st'
  | manyStuck {α : Type} {m : Matcher S α} {st p v r st'}
      (h : Evaluates host m st p (.success v r) st') (hp : Cursor.isBefore p r = false) :
      Evaluates host (.many m) st p (.success [] p) st'
  | manyFail {α : Type} {m : Matcher S α} {st p r st'}
      (h : Evaluates host m st p (.failure r) st') :
      Evaluates host (.many m) st p (.success [] p) st'
  | many1 {α : Type} {m : Matcher S α} {st p v r st₁ vs q st'}
      (h : Evaluates host m st p (.success v r) st₁)
      (hm : Evaluates host (.many m) st₁ r (.success vs q) st') :
      Evaluates host (.many1 m) st p (.success (v :: vs) q) st'
  | many1Fail {α : Type} {m : Matcher S α} {st p q st'}
      (h : Evaluates host m st p (.failure q) st') :
      Evaluates host (.many1 m) st p (.failure q) st'
  -- What is taken back is the place, never the state.
  | optional {α : Type} {m : Matcher S α} {st p v q st'}
      (h : Evaluates host m st p (.success v q) st') :
      Evaluates host (.optional m) st p (.success (some v) q) st'
  | optionalNone {α : Type} {m : Matcher S α} {st p q st'}
      (h : Evaluates host m st p (.failure q) st') :
      Evaluates host (.optional m) st p (.success none p) st'
  | notFail {α : Type} {m : Matcher S α} {st p v q st'}
      (h : Evaluates host m st p (.success v q) st') :
      Evaluates host (.not m) st p (.failure p) st'
  | not {α : Type} {m : Matcher S α} {st p q st'} (h : Evaluates host m st p (.failure q) st') :
      Evaluates host (.not m) st p (.success () p) st'
  | guard {α : Type} {m : Matcher S α} {st p v q st'}
      (h : Evaluates host m st p (.success v q) st') :
      Evaluates host (.guard m) st p (.success v p) st'
  | guardFail {α : Type} {m : Matcher S α} {st p q st'}
      (h : Evaluates host m st p (.failure q) st') :
      Evaluates host (.guard m) st p (.failure q) st'
  | capture {α : Type} {name} {m : Matcher S α} {st p v q st'}
      (h : Evaluates host m st p (.success v q) st') :
      Evaluates host (.capture name m) st p (.success v q) (st'.capture name ⟨p, q⟩)
  | captureFail {α : Type} {name} {m : Matcher S α} {st p q st'}
      (h : Evaluates host m st p (.failure q) st') :
      Evaluates host (.capture name m) st p (.failure q) st'
  -- References, to names and to rules alike.
  | refuse {α : Type} {m : Matcher S α} {st p frame definition}
      (href : Refers host st.rules m frame definition) (hf : st.context.isFull = true) :
      Evaluates host m st p (.failure p) st
  | enter {α : Type} {m : Matcher S α} {st p frame definition o st'}
      (href : Refers host st.rules m frame definition) (hf : st.context.isFull = false)
      (h : Evaluates host definition (st.enter frame) p o st') :
      Evaluates host m st p o (st'.leave st)
  | ruleUndefined {s st p} (h : st.rules.definition? s = none) :
      Evaluates host (.rule s) st p (.failure p) st
  | weakUndefined {s st p} (h : st.rules.definition? s = none) :
      Evaluates host (.weak s) st p (.failure p) st
  -- Effects.
  | define {s definition st p} :
      Evaluates host (.define s definition) st p (.success () p)
        { st with rules := st.rules.define s definition }
  | undefine {s st p} :
      Evaluates host (.undefine s) st p (.success () p)
        { st with rules := st.rules.undefine s }
  | hook {action st p} :
      Evaluates host (.hook action) st p
        (.success () (host.act action st.context st.world p).2)
        { st with world := (host.act action st.context st.world p).1 }
  | shared {α : Type} {holds} {m : Matcher S α} {st p o st'} (h : Evaluates host m st p o st') :
      Evaluates host (.shared holds m) st p o st'

/-! ### Evaluation and bounded runs -/

namespace Matcher

variable [Cursor P] {host : Host S P ω}

/-- How a run within a bound runs the definitions that are referred to. -/
def callWithin (host : Host S P ω) : Nat → (β : Type) → Matcher S β → Run S P ω β
  | 0 => fun _ _ _ _ => none
  | n + 1 => fun _ m => m.run host n

/-- Every matcher is run by one step, whatever the bound. -/
theorem run_eq_step (m : Matcher S α) (n : Nat) :
    m.run host n = m.step host n (callWithin host n) := by
  cases n <;> rfl

variable {bound : Nat} {call : (β : Type) → Matcher S β → Run S P ω β}

/-- The three kinds of reference differ only in what they own while they run. -/
theorem evaluates_of_nested
    (hcall : ∀ {β : Type} {m : Matcher S β} {st p o st'}, call β m st p = some (o, st') →
      Evaluates host m st p o st')
    {m definition : Matcher S α} {frame : List Slot} {st st' : State S P ω} {p : P}
    {o : Outcome P α} (href : Refers host st.rules m frame definition)
    (h : Run.nested frame (call α definition) st p = some (o, st')) :
    Evaluates host m st p o st' := by
  rcases Run.nested_eq_some_iff.1 h with ⟨hf, rfl, rfl⟩ | ⟨hf, st₁, hd, rfl⟩
  · exact .refuse href hf
  · exact .enter href hf (hcall hd)

/-- A chain of runs is a repetition. -/
theorem evaluates_of_chain {m : Matcher S α} {r : Run S P ω α}
    (hr : ∀ {st p o st'}, r st p = some (o, st') → Evaluates host m st p o st')
    {n : Nat} {st st' : State S P ω} {p q : P} {vs : List α}
    (h : Run.chain r n st p = some (vs, q, st')) :
    Evaluates host (.many m) st p (.success vs q) st' := by
  induction n generalizing st p vs with
  | zero => simp [Run.chain] at h
  | succ n ih =>
    -- The three ends of a round are the three rules for repetitions.
    rcases Run.chain_succ_eq_some_iff.1 h with
      ⟨v, q', st₁, ws, hm, hp, hc, rfl⟩ | ⟨v, q', hm, hp, rfl, rfl⟩ | ⟨q', hm, rfl, rfl⟩
    · exact .manyMore (hr hm) hp (ih hc)
    · exact .manyStuck (hr hm) hp
    · exact .manyFail (hr hm)

/-- A step evaluates, provided the calls do. -/
theorem evaluates_of_step
    (hcall : ∀ {β : Type} {m : Matcher S β} {st p o st'}, call β m st p = some (o, st') →
      Evaluates host m st p o st')
    {m : Matcher S α} {st st' : State S P ω} {p : P} {o : Outcome P α}
    (h : m.step host bound call st p = some (o, st')) : Evaluates host m st p o st' := by
  -- By induction on the tree; only references lead out of it, and for those the
  -- calls are taken to evaluate.
  induction m generalizing st st' p with
  | satisfy accepts => cases h; exact .satisfy
  | literal text => cases h; exact .literal
  | atStart => cases h; exact .atStart
  | atEnd => cases h; exact .atEnd
  | behind accepts => cases h; exact .behind
  | succeed value => cases h; exact .succeed
  | fail => cases h; exact .fail
  | backref name =>
    simp only [step, Run.backref] at h
    cases ht : st.context.captures.text? name with
    | none => rw [ht] at h; cases h; exact .backrefAbsent ht
    | some text => rw [ht] at h; cases h; exact .backref ht
  | map f m ih =>
    obtain ⟨o', hm, rfl⟩ := Run.map_eq_some_iff.1 h
    exact .map (ih hm)
  | flatMap m holds next ih ihn =>
    rcases Run.flatMap_eq_some_iff.1 h with ⟨v, q, st₁, hm, hn⟩ | ⟨q, hm, rfl⟩
    · exact .flatMap (ih hm) (ihn v hn)
    · exact .flatMapFail (ih hm)
  | seq a b iha ihb =>
    rcases Run.seq_eq_some_iff.1 h with ⟨v, q, st₁, o', ha, hb, rfl⟩ | ⟨q, ha, rfl⟩
    · exact .seq (iha ha) (ihb hb)
    · exact .seqFail (iha ha)
  | choice a b iha ihb =>
    rcases Run.choice_eq_some_iff.1 h with ⟨v, q, ha, rfl⟩ | ⟨q, st₁, o', ha, hb, rfl⟩
    · exact .choice (iha ha)
    · exact .choiceElse (iha ha) (ihb hb)
  | many m ih =>
    obtain ⟨vs, q, hc, rfl⟩ := Run.many_eq_some_iff.1 h
    exact evaluates_of_chain ih hc
  | many1 m ih =>
    rcases Run.many1_eq_some_iff.1 h with ⟨v, r, st₁, vs, q, hm, hc, rfl⟩ | ⟨q, hm, rfl⟩
    · exact .many1 (ih hm) (evaluates_of_chain ih hc)
    · exact .many1Fail (ih hm)
  | optional m ih =>
    rcases Run.optional_eq_some_iff.1 h with ⟨v, q, hm, rfl⟩ | ⟨q, hm, rfl⟩
    · exact .optional (ih hm)
    · exact .optionalNone (ih hm)
  | not m ih =>
    rcases Run.not_eq_some_iff.1 h with ⟨v, q, hm, rfl⟩ | ⟨q, hm, rfl⟩
    · exact .notFail (ih hm)
    · exact .not (ih hm)
  | guard m ih =>
    rcases Run.guard_eq_some_iff.1 h with ⟨v, q, hm, rfl⟩ | ⟨q, hm, rfl⟩
    · exact .guard (ih hm)
    · exact .guardFail (ih hm)
  | capture name m ih =>
    rcases Run.capture_eq_some_iff.1 h with ⟨v, q, st₁, hm, rfl, rfl⟩ | ⟨q, hm, rfl⟩
    · exact .capture (ih hm)
    · exact .captureFail (ih hm)
  | defer name => exact evaluates_of_nested hcall .defer h
  | rule s =>
    simp only [step] at h
    cases hd : st.rules.definition? s with
    | none => rw [hd] at h; cases h; exact .ruleUndefined hd
    | some m => rw [hd] at h; exact evaluates_of_nested hcall (.rule hd) h
  | weak s =>
    simp only [step] at h
    cases hd : st.rules.definition? s with
    | none => rw [hd] at h; cases h; exact .weakUndefined hd
    | some m => rw [hd] at h; exact evaluates_of_nested hcall (.weak hd) h
  | define s definition => cases h; exact .define
  | undefine s => cases h; exact .undefine
  | hook action => cases h; exact .hook
  | shared holds m ih => exact .shared (ih h)

/-- **Every bounded run evaluates.** -/
theorem evaluates_of_run {n : Nat} {m : Matcher S α} {st st' : State S P ω} {p : P}
    {o : Outcome P α} (h : m.run host n st p = some (o, st')) : Evaluates host m st p o st' := by
  induction n generalizing α st st' p with
  | zero => exact evaluates_of_step (fun h => absurd h (by simp)) h
  | succ n ih => exact evaluates_of_step (fun h => ih h) h

/-- A greater bound keeps a result; `run_refines` for a result taken apart. -/
theorem run_mono {n n' : Nat} (hn : n ≤ n') {m : Matcher S α} {st st' : State S P ω} {p : P}
    {o : Outcome P α} (h : m.run host n st p = some (o, st')) :
    m.run host n' st p = some (o, st') :=
  run_refines host hn m st p _ h

/-- Two results are had within one bound. -/
theorem exists_common_bound {host' : Host S P ω} {m : Matcher S α} {m' : Matcher S β}
    {st st₁ st' st₂ : State S P ω} {p q : P} {o : Outcome P α} {o' : Outcome P β}
    (h : ∃ n, m.run host n st p = some (o, st₁))
    (h' : ∃ n, m'.run host' n st' q = some (o', st₂)) :
    ∃ n, m.run host n st p = some (o, st₁) ∧ m'.run host' n st' q = some (o', st₂) := by
  obtain ⟨n, hn⟩ := h
  obtain ⟨n', hn'⟩ := h'
  exact ⟨max n n', run_mono (Nat.le_max_left _ _) hn, run_mono (Nat.le_max_right _ _) hn'⟩

/-! The run of each combination is the operation on the runs of its parts. -/

section Equations

variable (n : Nat)

/-- A changed value is the last thing about a run. -/
theorem run_map (f : α → β) (m : Matcher S α) :
    (m.map f).run host n = Run.map f (m.run host n) := by
  simp only [run_eq_step]; rfl

/-- What follows is run within the bound of the whole, although no part of the
    tree as written says what it is. -/
theorem run_flatMap (m : Matcher S α) (holds : List Slot) (next : α → Matcher S β) :
    (m.flatMap holds next).run host n =
      Run.flatMap (m.run host n) fun v => (next v).run host n := by
  simp only [run_eq_step]; rfl

/-- Both parts of a sequence are run within the bound of the whole. -/
theorem run_seq (a : Matcher S α) (b : Matcher S β) :
    (a.seq b).run host n = Run.seq (a.run host n) (b.run host n) := by
  simp only [run_eq_step]; rfl

/-- Both alternatives are run within the bound of the whole. -/
theorem run_choice (a b : Matcher S α) :
    (a.choice b).run host n = Run.choice (a.run host n) (b.run host n) := by
  simp only [run_eq_step]; rfl

/-- The bound of a repetition is on its rounds as well as on the nesting inside each of them. -/
theorem run_many (m : Matcher S α) : m.many.run host n = Run.many n (m.run host n) := by
  simp only [run_eq_step]; rfl

/-- The first round is not counted against the bound of the others. -/
theorem run_many1 (m : Matcher S α) : m.many1.run host n = Run.many1 n (m.run host n) := by
  simp only [run_eq_step]; rfl

/-- Whether there is a match is tried within the same bound. -/
theorem run_optional (m : Matcher S α) :
    m.optional.run host n = Run.optional (m.run host n) := by
  simp only [run_eq_step]; rfl

/-- Looking ahead uses up nothing of the bound, whatever it looks for. -/
theorem run_not (m : Matcher S α) : m.not.run host n = Run.not (m.run host n) := by
  simp only [run_eq_step]; rfl

/-- Looking ahead for a value uses up nothing either. -/
theorem run_guard (m : Matcher S α) : m.guard.run host n = Run.guard (m.run host n) := by
  simp only [run_eq_step]; rfl

/-- The table is written behind the run of what is captured. -/
theorem run_capture (name : String) (m : Matcher S α) :
    (m.capture name).run host n = Run.capture name (m.run host n) := by
  simp only [run_eq_step]; rfl

/-- Sharing is about ownership alone: a shared tree is run as it is. -/
theorem run_shared (holds : List Slot) (m : Matcher S α) :
    (m.shared holds).run host n = m.run host n := by
  simp only [run_eq_step]; rfl

/-- What a reference stands for is run one level further in. -/
theorem run_of_refers {m definition : Matcher S α} {frame : List Slot} {st : State S P ω}
    (href : Refers host st.rules m frame definition) (p : P) :
    m.run host (n + 1) st p = Run.nested frame (definition.run host n) st p := by
  cases href with
  | defer => rfl
  | rule hd => simp only [run, step, hd]
  | weak hd => simp only [run, step, hd]

end Equations

/-- **Whatever evaluates is run within some bound.** -/
theorem exists_run_of_evaluates {m : Matcher S α} {st st' : State S P ω} {p : P}
    {o : Outcome P α} (h : Evaluates host m st p o st') :
    ∃ n, m.run host n st p = some (o, st') := by
  -- By induction on the evaluation.  The parts of a rule may need different bounds, of which the
  -- larger one serves for all.
  induction h with
  | satisfy | literal | atStart | atEnd | behind | succeed | fail | define | undefine | hook =>
    exact ⟨0, rfl⟩
  | backref ht => exact ⟨0, by simp only [run, step, Run.backref, ht]⟩
  | backrefAbsent ht => exact ⟨0, by simp only [run, step, Run.backref, ht]⟩
  | ruleUndefined hd | weakUndefined hd => exact ⟨0, by simp only [run, step, hd]; rfl⟩
  | map _ ih =>
    obtain ⟨n, hn⟩ := ih
    exact ⟨n, by rw [run_map, Run.map_eq_some_iff]; exact ⟨_, hn, rfl⟩⟩
  | flatMap _ _ ih ihn =>
    obtain ⟨n, hm, hn⟩ := exists_common_bound ih ihn
    exact ⟨n, by rw [run_flatMap, Run.flatMap_eq_some_iff]; exact .inl ⟨_, _, _, hm, hn⟩⟩
  | flatMapFail _ ih =>
    obtain ⟨n, hn⟩ := ih
    exact ⟨n, by rw [run_flatMap, Run.flatMap_eq_some_iff]; exact .inr ⟨_, hn, rfl⟩⟩
  | seq _ _ iha ihb =>
    obtain ⟨n, ha, hb⟩ := exists_common_bound iha ihb
    exact ⟨n, by rw [run_seq, Run.seq_eq_some_iff]; exact .inl ⟨_, _, _, _, ha, hb, rfl⟩⟩
  | seqFail _ ih =>
    obtain ⟨n, hn⟩ := ih
    exact ⟨n, by rw [run_seq, Run.seq_eq_some_iff]; exact .inr ⟨_, hn, rfl⟩⟩
  | choice _ ih =>
    obtain ⟨n, hn⟩ := ih
    exact ⟨n, by rw [run_choice, Run.choice_eq_some_iff]; exact .inl ⟨_, _, hn, rfl⟩⟩
  | choiceElse _ _ iha ihb =>
    obtain ⟨n, ha, hb⟩ := exists_common_bound iha ihb
    exact ⟨n, by rw [run_choice, Run.choice_eq_some_iff]; exact .inr ⟨_, _, _, ha, hb, rfl⟩⟩
  | manyMore _ hp _ ih ihm =>
    -- One round more than the rest of the repetition needs, and every call as deep as before.
    obtain ⟨n, hm, hn⟩ := exists_common_bound ih ihm
    rw [run_many, Run.many_eq_some_iff] at hn
    obtain ⟨ws, r, hc, ho⟩ := hn
    cases ho
    -- The round that ends a repetition is counted too.
    refine ⟨n + 1, ?_⟩
    rw [run_many, Run.many_eq_some_iff]
    have hm' := run_mono (Nat.le_succ n) hm
    have hc' := (run_succ_refines host n _).chain (Nat.le_refl n) hc
    exact ⟨_, _, Run.chain_succ_eq_some_iff.2 (.inl ⟨_, _, _, _, hm', hp, hc', rfl⟩), rfl⟩
  | manyStuck _ hp ih =>
    obtain ⟨n, hn⟩ := ih
    refine ⟨n + 1, ?_⟩
    rw [run_many, Run.many_eq_some_iff]
    have hm := run_mono (Nat.le_succ n) hn
    exact ⟨_, _, Run.chain_succ_eq_some_iff.2 (.inr (.inl ⟨_, _, hm, hp, rfl, rfl⟩)), rfl⟩
  | manyFail _ ih =>
    obtain ⟨n, hn⟩ := ih
    refine ⟨n + 1, ?_⟩
    rw [run_many, Run.many_eq_some_iff]
    have hm := run_mono (Nat.le_succ n) hn
    exact ⟨_, _, Run.chain_succ_eq_some_iff.2 (.inr (.inr ⟨_, hm, rfl, rfl⟩)), rfl⟩
  | many1 _ _ ih ihm =>
    obtain ⟨n, hm, hn⟩ := exists_common_bound ih ihm
    rw [run_many, Run.many_eq_some_iff] at hn
    obtain ⟨ws, r, hc, ho⟩ := hn
    cases ho
    refine ⟨n, ?_⟩
    rw [run_many1, Run.many1_eq_some_iff]
    exact .inl ⟨_, _, _, _, _, hm, hc, rfl⟩
  | many1Fail _ ih =>
    obtain ⟨n, hn⟩ := ih
    exact ⟨n, by rw [run_many1, Run.many1_eq_some_iff]; exact .inr ⟨_, hn, rfl⟩⟩
  | optional _ ih =>
    obtain ⟨n, hn⟩ := ih
    exact ⟨n, by rw [run_optional, Run.optional_eq_some_iff]; exact .inl ⟨_, _, hn, rfl⟩⟩
  | optionalNone _ ih =>
    obtain ⟨n, hn⟩ := ih
    exact ⟨n, by rw [run_optional, Run.optional_eq_some_iff]; exact .inr ⟨_, hn, rfl⟩⟩
  | notFail _ ih =>
    obtain ⟨n, hn⟩ := ih
    exact ⟨n, by rw [run_not, Run.not_eq_some_iff]; exact .inl ⟨_, _, hn, rfl⟩⟩
  | not _ ih =>
    obtain ⟨n, hn⟩ := ih
    exact ⟨n, by rw [run_not, Run.not_eq_some_iff]; exact .inr ⟨_, hn, rfl⟩⟩
  | guard _ ih =>
    obtain ⟨n, hn⟩ := ih
    exact ⟨n, by rw [run_guard, Run.guard_eq_some_iff]; exact .inl ⟨_, _, hn, rfl⟩⟩
  | guardFail _ ih =>
    obtain ⟨n, hn⟩ := ih
    exact ⟨n, by rw [run_guard, Run.guard_eq_some_iff]; exact .inr ⟨_, hn, rfl⟩⟩
  | capture _ ih =>
    obtain ⟨n, hn⟩ := ih
    exact ⟨n, by rw [run_capture, Run.capture_eq_some_iff]; exact .inl ⟨_, _, _, hn, rfl, rfl⟩⟩
  | captureFail _ ih =>
    obtain ⟨n, hn⟩ := ih
    exact ⟨n, by rw [run_capture, Run.capture_eq_some_iff]; exact .inr ⟨_, hn, rfl⟩⟩
  | refuse href hf =>
    exact ⟨1, by rw [run_of_refers 0 href, Run.nested_eq_some_iff]; exact .inl ⟨hf, rfl, rfl⟩⟩
  | enter href hf _ ih =>
    obtain ⟨n, hn⟩ := ih
    refine ⟨n + 1, ?_⟩
    rw [run_of_refers n href, Run.nested_eq_some_iff]
    exact .inr ⟨hf, _, hn, rfl⟩
  | shared _ ih =>
    obtain ⟨n, hn⟩ := ih
    exact ⟨n, by rw [run_shared]; exact hn⟩

/-- **Evaluation is running within a sufficient bound.** -/
theorem evaluates_iff_exists_run {m : Matcher S α} {st st' : State S P ω} {p : P}
    {o : Outcome P α} :
    Evaluates host m st p o st' ↔ ∃ n, m.run host n st p = some (o, st') :=
  ⟨exists_run_of_evaluates, fun ⟨_, h⟩ => evaluates_of_run h⟩

/-- The run of a matcher never ends: no bound is sufficient. -/
def Diverges (host : Host S P ω) (m : Matcher S α) (st : State S P ω) (p : P) : Prop :=
  ∀ n, m.run host n st p = none

/-- A run that does not end has no outcome. -/
theorem diverges_iff {m : Matcher S α} {st : State S P ω} {p : P} :
    Diverges host m st p ↔ ∀ o st', ¬Evaluates host m st p o st' := by
  constructor
  · intro h o st' he
    obtain ⟨n, hn⟩ := exists_run_of_evaluates he
    rw [h n] at hn
    cases hn
  · intro h n
    rw [Option.eq_none_iff_forall_ne_some]
    exact fun r hr => h r.1 r.2 (evaluates_of_run hr)

/-- There is no third way for a run.  Which of the two it is cannot be computed. -/
theorem diverges_or_evaluates (host : Host S P ω) (m : Matcher S α) (st : State S P ω) (p : P) :
    Diverges host m st p ∨ ∃ o st', Evaluates host m st p o st' := by
  by_cases h : ∃ o st', Evaluates host m st p o st'
  · exact .inr h
  · exact .inl (diverges_iff.2 fun o st' he => h ⟨o, st', he⟩)

end Matcher

/-- A run has one outcome and leaves one state. -/
theorem Evaluates.unique [Cursor P] {host : Host S P ω} {m : Matcher S α}
    {st st₁ st₂ : State S P ω} {p : P} {o₁ o₂ : Outcome P α}
    (h₁ : Evaluates host m st p o₁ st₁) (h₂ : Evaluates host m st p o₂ st₂) :
    o₁ = o₂ ∧ st₁ = st₂ := by
  obtain ⟨n₁, h₁⟩ := Matcher.exists_run_of_evaluates h₁
  obtain ⟨n₂, h₂⟩ := Matcher.exists_run_of_evaluates h₂
  exact Prod.mk.inj (Matcher.run_unique host h₁ h₂)

end TextMatch
