import TextMatch.Proofs.Engine.Evaluation

namespace TextMatch

/-!
# Combinations made of others

Some ways to combine matchers can be said with the others.  Said so they come to the same outcome
and the same state, and they run their parts as often, in the same order and from the same states
and cursors.

* `Run.gather` — the loop of a repetition, which adds to the values that it already has;
* `Run.optional_eq_choice`, `Run.seq_eq_flatMap`, `Run.many1_eq_map_seq`,
  `Run.map_fst_seq_atEnd` — the equations;
* `Run.listed`, `Run.Lists` — parts that list their runs in the world, and what a combination of
  such parts has to do with that of the parts themselves;
* `Run.Same` — two combinations come to the same, and have the same list;
* `run_derived` — the combinations that are made of others.
-/

variable {S : Signature} {P ω α β γ : Type}

namespace Run

/-! ### One value after another -/

/-- A sequence is a match and then what its value leads to, paired with the value. -/
theorem seq_eq_flatMap (a : Run S P ω α) (b : Run S P ω β) :
    seq a b = flatMap a fun v => map (fun w => (v, w)) b := by
  funext st p
  unfold seq flatMap map
  rcases a st p with _ | ⟨_ | _, _⟩ <;> rfl

/-- Two changes of a value are one change. -/
theorem map_map (f : α → β) (g : β → γ) (m : Run S P ω α) :
    map g (map f m) = map (fun v => g (f v)) m := by
  funext st p
  unfold map
  rcases m st p with _ | ⟨_ | _, _⟩ <;> rfl

/-- What is done to the value at the end may be done inside, behind the match. -/
theorem map_flatMap (f : β → γ) (m : Run S P ω α) (next : α → Run S P ω β) :
    map f (flatMap m next) = flatMap m fun v => map f (next v) := by
  funext st p
  unfold map flatMap
  rcases m st p with _ | ⟨_ | _, _⟩ <;> rfl

/-- Nothing is the alternative to a match. -/
theorem optional_eq_choice [Cursor P] (m : Run S P ω α) :
    optional m = choice (map some m) (ofCursor (.success none)) := by
  funext st p
  unfold optional choice map
  rcases m st p with _ | ⟨_ | _, _⟩ <;> rfl

/-! ### Loops -/

section

variable [Cursor P]

/-- The loop of a repetition.  A value is added behind those there are when its run has moved on,
    and otherwise the loop ends with the values there are. -/
def gather (m : Run S P ω α) : Nat → List α → Run S P ω (List α)
  | 0, _, _, _ => none
  | n + 1, values, st, p =>
    match m st p with
    | some (.success v q, st') =>
      if Cursor.isBefore p q then gather m n (values ++ [v]) st' q
      else some (.success values p, st')
    | some (.failure _, st') => some (.success values p, st')
    | none => none

/-- **A loop that has values is a fresh loop** with the values put in front of its own. -/
theorem gather_eq_map_many (m : Run S P ω α) (n : Nat) (values : List α) :
    gather m n values = map (fun vs => values ++ vs) (many n m) := by
  funext st p
  -- Induction on the rounds that are left, for all values: every round adds one.
  induction n generalizing values st p with
  | zero => rfl
  | succ n ih =>
    unfold gather map many chain
    -- What the part does is all there is to know: no result, a value, or a failure.
    rcases m st p with _ | ⟨⟨v, q⟩ | q, st'⟩
    · rfl
    · dsimp only
      split
      · rw [ih]
        unfold map many
        rcases chain m n st' q with _ | ⟨vs, r, st''⟩
        · rfl
        · simp
      · simp
    · simp

/-- After the first value the loop goes on with that. -/
theorem many1_eq_flatMap_gather (m : Run S P ω α) (n : Nat) :
    many1 n m = flatMap m fun v => gather m n [v] := by
  funext st p
  simp only [gather_eq_map_many]
  unfold many1 flatMap map many
  rcases m st p with _ | ⟨⟨v, q⟩ | q, st'⟩
  · rfl
  · dsimp only
    rcases chain m n st' q with _ | ⟨vs, r, st''⟩ <;> rfl
  · rfl

/-- At least one match is a pair of a match and a repetition, made into one list. -/
theorem many1_eq_map_seq (m : Run S P ω α) (n : Nat) :
    many1 n m = map (fun v => v.1 :: v.2) (seq m (many n m)) := by
  calc many1 n m = flatMap m fun v => map (fun vs => [v] ++ vs) (many n m) := by
        rw [many1_eq_flatMap_gather]
        simp only [gather_eq_map_many]
    _ = flatMap m fun v => map (fun v => v.1 :: v.2) (map (fun vs => (v, vs)) (many n m)) := by
        simp only [map_map]
        rfl
    _ = map (fun v => v.1 :: v.2) (seq m (many n m)) := by
        rw [seq_eq_flatMap, map_flatMap]

end

end Run

/-! ### Up to the end -/

/-- The outcome if nothing may be left: a success in front of more text is a failure there. -/
def Outcome.toEnd [Cursor P] : Outcome P α → Outcome P α
  | success v q => if Cursor.atEnd q then success v q else failure q
  | failure q => failure q

/-- A run after which nothing may be left. -/
def Run.toEnd [Cursor P] (m : Run S P ω α) : Run S P ω α := fun st p =>
  (m st p).map fun r => (r.1.toEnd, r.2)

/-- A match and the end, of which the first value is kept, is a match
    behind which nothing may be left. -/
theorem Run.map_fst_seq_atEnd [Cursor P] (m : Run S P ω α) :
    map Prod.fst (seq m (ofCursor (holdsAt Cursor.atEnd))) = m.toEnd := by
  funext st p
  unfold map seq toEnd ofCursor holdsAt
  rcases m st p with _ | ⟨⟨v, q⟩ | q, st'⟩
  · rfl
  · by_cases hend : Cursor.atEnd q = true <;> simp [Outcome.toEnd, hend]
  · rfl

/-! ### The runs of the parts -/

/-- The state without the list that is kept in the world. -/
def State.forget {τ : Type} (st : State S P (ω × List τ)) : State S P ω :=
  ⟨st.context, st.rules, st.world.1⟩

namespace Run

variable {τ : Type}

/-- A part that lists its runs.  What is noted of a run may depend on the state and the cursor it
    begins with and on what it ends with. -/
def listed (note : State S P ω → P → Outcome P α × State S P ω → τ) (m : Run S P ω α) :
    Run S P (ω × List τ) α := fun st p =>
  (m st.forget p).map fun r =>
    (r.1, ⟨r.2.context, r.2.rules, r.2.world, st.world.2 ++ [note st.forget p r]⟩)

/-- The first run is the second and keeps a list besides. -/
def Lists (m' : Run S P (ω × List τ) α) (m : Run S P ω α) : Prop :=
  ∀ st p, (m' st p).map (fun r => (r.1, r.2.forget)) = m st.forget p

/-- Noting down what a run does is not noticed by the run. -/
theorem lists_listed (note : State S P ω → P → Outcome P α × State S P ω → τ)
    (m : Run S P ω α) : (m.listed note).Lists m := by
  intro st p
  unfold listed
  rw [Option.map_map]
  exact Option.map_id'

namespace Lists

variable {m' a' : Run S P (ω × List τ) α} {m a : Run S P ω α}
  {b' : Run S P (ω × List τ) β} {b : Run S P ω β}

/-- What looks at nothing but the cursor keeps no list. -/
theorem ofCursor (f : P → Outcome P α) :
    Lists (Run.ofCursor f : Run S P (ω × List τ) α) (Run.ofCursor f) := fun _ _ => rfl

/-- The list is not touched by a change of the value. -/
theorem map (h : m'.Lists m) (f : α → β) : (Run.map f m').Lists (Run.map f m) := by
  intro st p
  unfold Run.map
  rw [← h st p]
  rcases m' st p with _ | ⟨_ | _, _⟩ <;> rfl

/-- The second part goes on with the list of the first. -/
theorem flatMap {next' : α → Run S P (ω × List τ) β} {next : α → Run S P ω β}
    (h : m'.Lists m) (hnext : ∀ v, (next' v).Lists (next v)) :
    (Run.flatMap m' next').Lists (Run.flatMap m next) := by
  intro st p
  unfold Run.flatMap
  rw [← h st p]
  rcases m' st p with _ | ⟨⟨v, q⟩ | q, st'⟩
  · rfl
  · exact hnext v st' q
  · rfl

/-- A sequence keeps the lists of its parts, one behind the other. -/
theorem seq (ha : a'.Lists a) (hb : b'.Lists b) : (Run.seq a' b').Lists (Run.seq a b) := by
  rw [seq_eq_flatMap, seq_eq_flatMap]
  exact ha.flatMap fun v => hb.map fun w => (v, w)

variable [Cursor P]

/-- An alternative that is given up has been listed all the same. -/
theorem choice (hm : m'.Lists m) (ha : a'.Lists a) :
    (Run.choice m' a').Lists (Run.choice m a) := by
  intro st p
  unfold Run.choice
  rw [← hm st p]
  rcases m' st p with _ | ⟨⟨v, q⟩ | q, st'⟩
  · rfl
  · rfl
  · dsimp only [Option.map_some]
    -- The alternative begins with the list that the first part has left.
    rw [← ha st' p]
    rcases a' st' p with _ | ⟨_ | _, _⟩ <;> rfl

/-- Nothing, as an alternative, has nothing to list. -/
theorem optional (h : m'.Lists m) : (Run.optional m').Lists (Run.optional m) := by
  rw [optional_eq_choice, optional_eq_choice]
  exact (h.map some).choice (.ofCursor _)

/-- The rounds of a loop are listed in their order, whatever values there are already. -/
theorem gather (h : m'.Lists m) (n : Nat) (values : List α) :
    (Run.gather m' n values).Lists (Run.gather m n values) := by
  -- Induction on the rounds that are left.
  induction n generalizing values with
  | zero => exact fun _ _ => rfl
  | succ n ih =>
    intro st p
    unfold Run.gather
    rw [← h st p]
    rcases m' st p with _ | ⟨⟨v, q⟩ | q, st'⟩
    · rfl
    · dsimp only [Option.map_some]
      split
      · exact ih (values ++ [v]) st' q
      · rfl
    · rfl

/-- The first match of a repetition is listed in front of its rounds. -/
theorem many1 (h : m'.Lists m) (n : Nat) : (Run.many1 n m').Lists (Run.many1 n m) := by
  rw [many1_eq_flatMap_gather, many1_eq_flatMap_gather]
  exact h.flatMap fun v => h.gather n [v]

end Lists

/-- Two ways to combine two parts come to the same outcomes and states.  If the parts
    list their runs, whatever is noted of them, the lists are the same too, and but
    for them nothing has changed. -/
structure Same (F G : {ω : Type} → Run S P ω α → Run S P ω β → Run S P ω γ) (a : Run S P ω α)
    (b : Run S P ω β) : Prop where
  run_eq : F a b = G a b
  listed_eq : ∀ {τ : Type} (note : State S P ω → P → Outcome P α × State S P ω → τ)
    (note' : State S P ω → P → Outcome P β × State S P ω → τ),
    F (a.listed note) (b.listed note') = G (a.listed note) (b.listed note')
  lists : ∀ {τ : Type} (note : State S P ω → P → Outcome P α × State S P ω → τ)
    (note' : State S P ω → P → Outcome P β × State S P ω → τ),
    (F (a.listed note) (b.listed note')).Lists (F a b)

/-- Combinations are compared by their runs, if those are equal for any parts in any world. -/
theorem Same.of_eq {F G : {ω : Type} → Run S P ω α → Run S P ω β → Run S P ω γ}
    (h : ∀ {ω : Type} (a : Run S P ω α) (b : Run S P ω β), F a b = G a b) {a : Run S P ω α}
    {b : Run S P ω β}
    (hlists : ∀ {τ : Type} {a' : Run S P (ω × List τ) α} {b' : Run S P (ω × List τ) β},
      a'.Lists a → b'.Lists b → (F a' b').Lists (F a b)) : Same F G a b where
  run_eq := h a b
  listed_eq note note' := h (a.listed note) (b.listed note')
  lists note note' := hlists (lists_listed note a) (lists_listed note' b)

end Run

/-! ### The equations -/

/-- **Combinations made of others.**  A match or nothing is a choice between the match and nothing.
    One match and more are a match and then any number, the first value put in front of theirs; the
    loop that has the first value when it begins does the same.  Two matches are the first and,
    whatever its value is, the second.  A match up to the end is a match with no text behind it, and
    fails where the match fails or else where the rest of the text begins.  Matchers that are made
    in these ways have the same runs.  So have combinations of any runs whatever, and what is noted
    of the runs of their parts is noted in the same order. -/
theorem run_derived [Cursor P] (host : Host S P ω) (bound : Nat) (m : Matcher S α)
    (k : Matcher S β) (holds : List Slot) (a : Run S P ω α) (b : Run S P ω β) :
    ((Matcher.optional m).run host bound =
        (Matcher.choice (.map some m) (.succeed none)).run host bound ∧
      Run.Same (fun a _ => Run.optional a)
        (fun a _ => Run.choice (Run.map some a) (Run.ofCursor (.success none))) a b) ∧
    ((Matcher.many1 m).run host bound =
        (Matcher.map (fun v => v.1 :: v.2) (.seq m (.many m))).run host bound ∧
      Run.Same (fun a _ => Run.many1 bound a)
        (fun a _ => Run.map (fun v => v.1 :: v.2) (Run.seq a (Run.many bound a))) a b ∧
      Run.Same (fun a _ => Run.many1 bound a)
        (fun a _ => Run.flatMap a fun v => Run.gather a bound [v]) a b) ∧
    ((Matcher.seq m k).run host bound =
        (Matcher.flatMap m holds fun v => .map (fun w => (v, w)) k).run host bound ∧
      Run.Same (fun a b => Run.seq a b)
        (fun a b => Run.flatMap a fun v => Run.map (fun w => (v, w)) b) a b) ∧
    ((Matcher.matchAll m).run host bound = (m.run host bound).toEnd ∧
      Run.Same
        (fun a _ => Run.map Prod.fst (Run.seq a (Run.ofCursor (Run.holdsAt Cursor.atEnd))))
        (fun a _ => a.toEnd) a b) := by
  have hsucceed : (Matcher.succeed (none : Option α)).run host bound =
      Run.ofCursor (.success none) := by
    rw [Matcher.run_eq_step]
    rfl
  have hatEnd : Matcher.run host bound .atEnd = Run.ofCursor (Run.holdsAt Cursor.atEnd) := by
    rw [Matcher.run_eq_step]
    rfl
  refine ⟨⟨?_, ?_⟩, ⟨?_, ?_, ?_⟩, ⟨?_, ?_⟩, ⟨?_, ?_⟩⟩
  · rw [Matcher.run_optional, Matcher.run_choice, Matcher.run_map, hsucceed,
      Run.optional_eq_choice]
  · exact .of_eq (fun a _ => Run.optional_eq_choice a) fun ha _ => ha.optional
  · rw [Matcher.run_many1, Matcher.run_map, Matcher.run_seq, Matcher.run_many,
      Run.many1_eq_map_seq]
  · exact .of_eq (fun a _ => Run.many1_eq_map_seq a bound) fun ha _ => ha.many1 bound
  · exact .of_eq (fun a _ => Run.many1_eq_flatMap_gather a bound) fun ha _ => ha.many1 bound
  · rw [Matcher.run_seq, Matcher.run_flatMap, Run.seq_eq_flatMap]
    simp only [Matcher.run_map]
  · exact .of_eq (fun a b => Run.seq_eq_flatMap a b) fun ha hb => ha.seq hb
  · rw [Matcher.matchAll, Matcher.keepLeft, Matcher.run_map, Matcher.run_seq, hatEnd,
      Run.map_fst_seq_atEnd]
  · exact .of_eq (fun a _ => Run.map_fst_seq_atEnd a) fun ha _ => (ha.seq (.ofCursor _)).map _

end TextMatch
