import Mathlib.Algebra.Group.Nat.Defs
import Mathlib.Logic.Relation
import TextMatch.Proofs.Engine.Calls
import TextMatch.Proofs.Engine.Reach

namespace TextMatch

/-!
# Nesting — how deep a run goes

Every reference that is entered counts one level up, and one level down when it is left.  So the
count is balanced over every run, and a limit bounds it in every state that a run goes through,
whether the run ends or not, and whatever happens to the rules meanwhile.

* `Call.Inside` — the calls that make up a call;
* `Call.Visits` — the states in which these begin and end;
* `Call.Makes.nesting` — one call counts one level up at most, and only below the limit;
* `Call.Inside.depth_le` — so no call inside is nested more deeply than the limit allows;
* `Call.Inside.lacks_reference` — without references there is no nesting;
* `run_nesting_bounded` — the count over a whole run.
-/

variable {S : Signature} {P ω α : Type}

/-! ### Inside a call -/

/-- The calls inside a call: the call itself, those that it makes,
    those that these make, and so on. -/
abbrev Call.Inside [Cursor P] (host : Host S P ω) (c c' : Call S P ω) : Prop :=
  Relation.ReflTransGen (Call.Makes host) c c'

/-- The states that a call goes through: each call inside begins in one, and
    ends in one if it ends at all. -/
inductive Call.Visits [Cursor P] (host : Host S P ω) (c : Call S P ω) : State S P ω → Prop where
  | start {c' : Call S P ω} (h : c.Inside host c') : Visits host c c'.state
  | stop {c' : Call S P ω} {o st'} (h : c.Inside host c')
      (he : Evaluates host c'.matcher c'.state c'.cursor o st') : Visits host c st'

section

variable [Cursor P] {host : Host S P ω} {c c' : Call S P ω} {n : Nat}

/-- **One call.** The limit stays, and the depth too unless a
    reference is entered below the limit. -/
theorem Call.Makes.nesting (h : c.Makes host c') :
    c'.state.context.limit = c.state.context.limit ∧
      (c'.state.context.depth = c.state.context.depth ∨
        c.state.context.isFull = false ∧
          c'.state.context.depth = c.state.context.depth + 1) := by
  cases h with
  | flatMapNext h | seqNext h | choiceElse h | manyMore h _ | many1More h =>
    -- Behind a part that has ended the count is what it was in front of it.
    obtain ⟨hdepth, hlimit⟩ := h.nesting_eq
    exact ⟨hlimit, .inl hdepth⟩
  | enter _ hf => exact ⟨rfl, .inr ⟨hf, rfl⟩⟩
  | _ => exact ⟨rfl, .inl rfl⟩

/-- The limit is set once for all calls inside. -/
theorem Call.Inside.limit_eq (h : c.Inside host c') :
    c'.state.context.limit = c.state.context.limit := by
  induction h with
  | refl => rfl
  | tail _ h ih => exact h.nesting.1.trans ih

/-- No call inside is nested less deeply. -/
theorem Call.Inside.le_depth (h : c.Inside host c') :
    c.state.context.depth ≤ c'.state.context.depth := by
  induction h with
  | refl => exact Nat.le_refl _
  | tail _ h ih =>
    have := h.nesting.2
    omega

/-- No call inside is nested more deeply than the limit allows. -/
theorem Call.Inside.depth_le (h : c.Inside host c') (hlimit : c.state.context.limit = some n)
    (hle : c.state.context.depth ≤ n) : c'.state.context.depth ≤ n := by
  induction h with
  | refl => exact hle
  | tail hinside h ih =>
    rcases h.nesting.2 with hsame | ⟨hf, hmore⟩
    · omega
    · have hlimit' := (Call.Inside.limit_eq hinside).trans hlimit
      rw [Context.isFull_of_limit_some hlimit', decide_eq_false_iff_not] at hf
      omega

/-- A call that ends does so in a state that is nested as the one it began in. -/
theorem Call.Visits.exists_inside {x : State S P ω} (h : c.Visits host x) :
    ∃ c', c.Inside host c' ∧ x.context.depth = c'.state.context.depth := by
  cases h with
  | start h => exact ⟨_, h, rfl⟩
  | stop h he => exact ⟨_, h, he.nesting_eq.1⟩

end

/-! ### Without references -/

/-- A reference of any kind. -/
def Matcher.IsReference : Matcher.Kind S
  | _, .defer _ | _, .rule _ | _, .weak _ => True
  | _, _ => False

/-- Only references stand for something else. -/
theorem Refers.isReference {host : Host S P ω} {rules : Rules S} {m definition : Matcher S α}
    {frame : List Slot} (h : Refers host rules m frame definition) : Matcher.IsReference _ m := by
  cases h <;> trivial

section

variable [Cursor P] {host : Host S P ω} {c c' : Call S P ω}

/-- A matcher that holds no reference makes no call that would be
    nested more deeply, or hold one. -/
theorem Call.Makes.lacks_reference (h : c.Makes host c')
    (hc : c.matcher.Lacks Matcher.IsReference) :
    c'.matcher.Lacks Matcher.IsReference ∧ c'.state.context.depth = c.state.context.depth := by
  cases h with
  | map | many | optional | not | guard | capture | shared => exact ⟨hc.2, rfl⟩
  | flatMap | seq | choice => exact ⟨hc.2.1, rfl⟩
  | flatMapNext h => exact ⟨hc.2.2 _, h.nesting_eq.1⟩
  | seqNext h | choiceElse h => exact ⟨hc.2.2, h.nesting_eq.1⟩
  | manyMore h _ => exact ⟨hc, h.nesting_eq.1⟩
  | many1 => exact ⟨hc.2.2, rfl⟩
  | many1More h => exact ⟨hc.2, h.nesting_eq.1⟩
  | enter href _ => exact absurd href.isReference hc.not_kind

/-- Nothing inside a call without references is nested more deeply, or holds a reference. -/
theorem Call.Inside.lacks_reference (h : c.Inside host c')
    (hc : c.matcher.Lacks Matcher.IsReference) :
    c'.matcher.Lacks Matcher.IsReference ∧ c'.state.context.depth = c.state.context.depth := by
  induction h with
  | refl => exact ⟨hc, rfl⟩
  | tail _ h ih =>
    obtain ⟨hlacks, hdepth⟩ := h.lacks_reference ih.1
    exact ⟨hlacks, hdepth.trans ih.2⟩

/-- A reference makes no call but that of its definition. -/
theorem Call.Makes.of_isReference (h : c.Makes host c') (hc : Matcher.IsReference _ c.matcher) :
    ∃ frame definition, Refers host c.state.rules c.matcher frame definition ∧
      c' = ⟨definition, c.state.enter frame, c.cursor⟩ := by
  cases h with
  | enter href hf => exact ⟨_, _, href, rfl⟩
  | _ => exact hc.elim

end

/-! ### The count over a run -/

/-- **Nesting is balanced and bounded.** A run that ends, with success or with failure, leaves the
    depth and the limit as they were.  From a depth within the limit a run, whether it ends or not,
    goes through states between this depth and the limit only.  So where a reference is entered
    there is room to count up, in a counter that can hold the limit, and where it is left there is
    something to count down. -/
theorem run_nesting_bounded [Cursor P] (host : Host S P ω) (m : Matcher S α) (st : State S P ω)
    (p : P) :
    (∀ bound o st', m.run host bound st p = some (o, st') →
      st'.context.depth = st.context.depth ∧ st'.context.limit = st.context.limit) ∧
      ∀ n, st.context.limit = some n → st.context.depth ≤ n →
        (∀ x, Call.Visits host ⟨m, st, p⟩ x →
          st.context.depth ≤ x.context.depth ∧ x.context.depth ≤ n) ∧
        ∀ {β : Type} (r definition : Matcher S β) frame st₁ q,
          Call.Inside host ⟨m, st, p⟩ ⟨r, st₁, q⟩ → Refers host st₁.rules r frame definition →
          st₁.context.isFull = false →
            st₁.context.depth + 1 ≤ n ∧ (n < 2 ^ 32 → st₁.context.depth + 1 < 2 ^ 32) ∧
            ∀ o st₂, Evaluates host definition (st₁.enter frame) q o st₂ →
              0 < st₂.context.depth ∧ (st₂.leave st₁).context.depth = st₁.context.depth := by
  refine ⟨fun bound o st' h => (Matcher.evaluates_of_run h).nesting_eq, ?_⟩
  intro n hlimit hle
  refine ⟨fun x hx => ?_, ?_⟩
  · obtain ⟨c, hc, hdepth⟩ := hx.exists_inside
    rw [hdepth]
    exact ⟨hc.le_depth, hc.depth_le hlimit hle⟩
  · intro β r definition frame st₁ q hinside href hf
    -- The definition is one call further inside, and one level deeper.
    have hdeeper : Call.Inside host ⟨m, st, p⟩ ⟨definition, st₁.enter frame, q⟩ :=
      hinside.tail (.enter href hf)
    have hroom : st₁.context.depth + 1 ≤ n := hdeeper.depth_le hlimit hle
    refine ⟨hroom, fun hn => Nat.lt_of_le_of_lt hroom hn, fun o st₂ he => ?_⟩
    have hdepth : st₂.context.depth = st₁.context.depth + 1 := he.nesting_eq.1
    refine ⟨by omega, ?_⟩
    show st₂.context.depth - 1 = st₁.context.depth
    omega

/-- A declared rule, held by whoever declared it. -/
def oneRule : Rules oneName := (Rules.empty.declare).2

/-- A rule is given a definition that takes itself away before it refers to the rule again, and so
    fails one level in. -/
def selfErasing : Matcher oneName Unit :=
  .keepRight (.define 0 (.keepRight (.undefine 0) (.rule 0))) (.rule 0)

/-- A rule that is cleared while it runs is left again like any other, and the one level that is
    allowed is enough: where the rule is entered there is room for it, and where it is left there is
    a level to count down. -/
theorem run_nesting_bounded_selfErasing :
    (∃ o st', selfErasing.run leftRecursive 1 ⟨.new (some 1), oneRule, ()⟩ (.start "a") =
        some (o, st') ∧ st'.context.depth = 0 ∧ st'.rules.definition? 0 = none) ∧
      (∀ x, Call.Visits leftRecursive ⟨selfErasing, ⟨.new (some 1), oneRule, ()⟩, .start "a"⟩ x →
        x.context.depth ≤ 1) ∧
      ∃ (st : State oneName Place Unit) (definition : Matcher oneName Unit),
        Call.Inside leftRecursive ⟨selfErasing, ⟨.new (some 1), oneRule, ()⟩, .start "a"⟩
          ⟨.rule 0, st, .start "a"⟩ ∧
        st.rules.definition? 0 = some definition ∧ st.context.depth + 1 < 2 ^ 32 ∧
        ∀ o st', Evaluates leftRecursive definition (st.enter definition.owned) (.start "a") o st' →
          0 < st'.context.depth := by
  obtain ⟨hbalanced, hbounded⟩ :=
    run_nesting_bounded leftRecursive selfErasing ⟨.new (some 1), oneRule, ()⟩ (.start "a")
  obtain ⟨hvisits, henters⟩ := hbounded 1 rfl (Nat.zero_le 1)
  refine ⟨⟨_, _, rfl, (hbalanced 1 _ _ rfl).1, rfl⟩, fun x hx => (hvisits x hx).2, ?_⟩
  -- The rule is run behind its own definition.
  have hinside : Call.Inside leftRecursive
      ⟨selfErasing, ⟨.new (some 1), oneRule, ()⟩, .start "a"⟩ ⟨.rule 0, _, .start "a"⟩ :=
    .tail (.tail .refl .map) (.seqNext .define)
  have hentered := henters _ _ _ _ _ hinside (.rule rfl) rfl
  exact ⟨_, _, hinside, rfl, hentered.2.1 (by decide), fun o st' he => (hentered.2.2 o st' he).1⟩

end TextMatch
