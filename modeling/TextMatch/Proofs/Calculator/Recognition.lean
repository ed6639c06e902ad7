import TextMatch.Proofs.Calculator.Tokens

namespace TextMatch.Calculator

/-!
# The matchers recognize the phrases

Ordered choices and greedy repetitions against derivations: neither ever cuts a derivation off.

* `Phrase.matcher` — the matcher of a phrase;
* `takes_of_derives` — what is derived is taken, unless it is nested too deeply;
* `sound` — what is taken is derived, and not nested too deeply.

The first is by induction on the derivation.  The second is by induction on the length of the text:
a factor refers only to what stands behind its first character.
-/

open Matcher (many seq map)

/-! ### The matcher of a phrase -/

/-- The matcher of the operands of a tier. -/
def Tier.operandMatcher : Tier → Matcher signature Expr
  | .product => factor recursion
  | .sum => term recursion

/-- The matcher of a phrase. -/
def Phrase.matcher : Phrase → Matcher signature Expr
  | .factor => Calculator.factor recursion
  | .chain t => chainLeft t.operandMatcher t.operator
  | .tail t lhs => map (foldLeft lhs) (many (seq t.operator t.operandMatcher))

/-- An operand is matched by what the tier below is matched by. -/
theorem Tier.matcher_operand (t : Tier) : t.operand.matcher = t.operandMatcher := by
  cases t <;> rfl

variable {st st' : State signature Place Unit} {p q : Place} {rest : List Char}

/-! ### What is derived is taken -/

/-- What may be nested inside a reference may be taken by it. -/
theorem takes_reference (name : Nonterminal) {text : List Char} {e : Expr} {d : Nat}
    (hd : st.context.Allows (d + 1))
    (h : ∀ {st : State signature Place Unit}, st.context.Allows d →
      Takes (host Place) (definition name) st text e rest) :
    Takes (host Place) (.defer (S := signature) name) st text e rest :=
  Takes.defer (S := signature) hd.isFull_eq_false (h hd.deeper)

/-! The three alternatives of a factor.  Each begins with a character that the others reject. -/

/-- A number is taken as the factor it is, by the first of three alternatives. -/
theorem takes_factor_number {ds w : List Char} {v : Int64} (hds : Numeral ds v) (hw : Blanks w)
    (hdigit : ∀ c ∈ (w ++ rest).head?, ¬('0' ≤ c ∧ c ≤ '9'))
    (hblank : ∀ c ∈ rest.head?, c ∉ blankChars) :
    Takes (host Place) (factor recursion) st (ds ++ (w ++ rest)) (.number v) rest := by
  have hnumber : Takes (host Place) number st (ds ++ (w ++ rest)) (.number v) rest :=
    takes_number hds hw hdigit hblank
  exact .choice (.choice hnumber _) _

/-- Between parentheses the expression is taken, which the number in front of it was not. -/
theorem takes_factor_parens {w w' s : List Char} {e : Expr} (hw : Blanks w)
    (hs : ∀ c ∈ (s ++ (')' :: (w' ++ rest))).head?, c ∉ blankChars) (hw' : Blanks w')
    (hrest : ∀ c ∈ rest.head?, c ∉ blankChars)
    (h : Takes (host Place) recursion.expression st (s ++ (')' :: (w' ++ rest))) e
      (')' :: (w' ++ rest))) :
    Takes (host Place) (factor recursion) st
      ('(' :: (w ++ (s ++ (')' :: (w' ++ rest))))) e rest := by
  have hnumber : Rejects (host Place) number st ('(' :: (w ++ (s ++ (')' :: (w' ++ rest))))) :=
    rejects_number (by rintro _ ⟨⟩; decide)
  have hopen : Takes (host Place) (token '(') st ('(' :: (w ++ (s ++ (')' :: (w' ++ rest))))) '('
      (s ++ (')' :: (w' ++ rest))) := takes_token hw hs
  have hclose : Takes (host Place) (token ')') st (')' :: (w' ++ rest)) ')' rest :=
    takes_token hw' hrest
  exact .choice (.choiceElse hnumber (.keepLeft (.keepRight hopen h) hclose)) _

/-- A sign is tried last, after a number and a parenthesis have not been found. -/
theorem takes_factor_minus {w s : List Char} {e : Expr} (hw : Blanks w)
    (hs : ∀ c ∈ (s ++ rest).head?, c ∉ blankChars)
    (h : Takes (host Place) recursion.factor st (s ++ rest) e rest) :
    Takes (host Place) (factor recursion) st ('-' :: (w ++ (s ++ rest))) (.negate e) rest := by
  have hnumber : Rejects (host Place) number st ('-' :: (w ++ (s ++ rest))) :=
    rejects_number (by rintro _ ⟨⟩; decide)
  have hopen : Rejects (host Place) (token '(') st ('-' :: (w ++ (s ++ rest))) :=
    rejects_token (by rintro _ ⟨⟩; decide)
  have hsign : Takes (host Place) (token '-') st ('-' :: (w ++ (s ++ rest))) '-' (s ++ rest) :=
    takes_token hw hs
  exact .choiceElse (.choice hnumber (.keepLeft (.keepRight hopen _) _))
    (.map (.keepRight hsign h) Expr.negate)

/-- The rest of a chain goes on, at every place, with some operations. -/
theorem exists_of_takes_tail {t : Tier} {lhs e : Expr} {text : List Char}
    (h : Takes (host Place) (Phrase.tail t lhs).matcher st text e rest) {p : Place}
    (hp : p.ahead = text) :
    ∃ rs q, foldLeft lhs rs = e ∧ q.ahead = rest ∧
      Evaluates (host Place) (many (seq t.operator t.operandMatcher)) st p (.success rs q) st := by
  obtain ⟨q, hq, hrest⟩ := h p hp
  obtain ⟨rs, he, hrs⟩ := hq.map_success
  exact ⟨rs, q, he, hrest, hrs⟩

/-- A chain is taken with its first operand and its rest. -/
theorem takes_chain {t : Tier} {first e : Expr} {text text' : List Char}
    (hfirst : Takes (host Place) t.operandMatcher st text first text')
    (htail : Takes (host Place) (Phrase.tail t first).matcher st text' e rest) :
    Takes (host Place) (Phrase.chain t).matcher st text e rest := by
  intro p hp
  obtain ⟨r, hr, hr'⟩ := hfirst p hp
  obtain ⟨rs, q, rfl, hq, hrs⟩ := exists_of_takes_tail htail hr'
  exact ⟨q, .map (.seq hr hrs), hq⟩

/-- The rest of a chain is taken with its first operation and what follows that. -/
theorem takes_tail_more {t : Tier} {op : Operator} {lhs rhs e : Expr} {text text' : List Char}
    (hround : Takes (host Place) (seq t.operator t.operandMatcher) st text (op, rhs) text')
    (hlt : text'.length < text.length)
    (htail : Takes (host Place) (Phrase.tail t (.binary op lhs rhs)).matcher st text' e rest) :
    Takes (host Place) (Phrase.tail t lhs).matcher st text e rest := by
  intro p hp
  obtain ⟨r, hr, hr'⟩ := hround p hp
  obtain ⟨rs, q, rfl, hq, hrs⟩ := exists_of_takes_tail htail hr'
  have hbefore : Cursor.isBefore p r = true :=
    Place.isBefore_of_length_ahead_lt hr.ahead (by rw [hp, hr']; exact hlt)
  exact ⟨q, .map (.manyMore hr hbefore hrs), hq⟩

/-- The rest of a chain is nothing where no operation can be taken. -/
theorem takes_tail_done {t : Tier} {lhs : Expr} {text : List Char}
    (h : Rejects (host Place) (seq t.operator t.operandMatcher) st text) :
    Takes (host Place) (Phrase.tail t lhs).matcher st text lhs text :=
  .map (v := []) (.manyNone h) (foldLeft lhs)

/-- **Completeness.** A matcher takes what its phrase derives in front of an end of the phrase, if
    there is room for the nesting. -/
theorem takes_of_derives {x : Phrase} {d : Nat} {s : List Char} {e : Expr} (h : Derives x d s e)
    (hrest : x.Ends rest) (hd : st.context.Allows d) :
    Takes (host Place) x.matcher st (s ++ rest) e rest := by
  -- Induction on the derivation, for every rest that the phrase may end in front of.
  induction h generalizing rest st with
  | @number ds w v hds hw =>
    rw [List.append_assoc]
    exact takes_factor_number hds hw (hw.not_digit hrest) hrest.not_blank
  | @parens w s w' d e hw h hw' ih =>
    simp only [List.cons_append, List.append_assoc]
    refine takes_factor_parens hw h.not_blank_of_chain hw' hrest.not_blank ?_
    exact takes_reference .expression hd fun hd => ih .close hd
  | @minus w s d e hw h ih =>
    simp only [List.cons_append, List.append_assoc]
    refine takes_factor_minus hw (h.not_blank_of_operand (t := .product)) ?_
    exact takes_reference .factor hd fun hd => ih hrest hd
  | @chain t s₁ s₂ d₁ d₂ first e h₁ h₂ ih₁ ih₂ =>
    have hoperand := ih₁ (h₂.operand_ends hrest.tail) (hd.mono (Nat.le_max_left ..))
    have htail := ih₂ hrest.tail (hd.mono (Nat.le_max_right ..))
    rw [t.matcher_operand] at hoperand
    rw [List.append_assoc]
    exact takes_chain hoperand htail
  | @done t lhs =>
    -- The repetition stops, since no operator of the tier comes next.
    refine takes_tail_done (.seq (rejects_operator ?_) _)
    intro c hc op hop heq
    cases rest with
    | nil => cases hc
    | cons c' cs =>
      obtain rfl : c' = c := Option.some.inj hc
      rw [heq] at hrest
      exact Phrase.Ends.not_tail_symbol hop hrest
  | @more t op w s₁ s₂ d₁ d₂ lhs rhs e hop hw h₁ h₂ ih₁ ih₂ =>
    have hoperand := ih₁ (h₂.operand_ends hrest.tail_congr) (hd.mono (Nat.le_max_left ..))
    have htail := ih₂ hrest.tail_congr (hd.mono (Nat.le_max_right ..))
    rw [t.matcher_operand] at hoperand
    simp only [List.cons_append, List.append_assoc]
    have hoperator : Takes (host Place) t.operator st (op.symbol :: (w ++ (s₁ ++ (s₂ ++ rest)))) op
        (s₁ ++ (s₂ ++ rest)) := takes_operator hop hw h₁.not_blank_of_operand
    refine takes_tail_more (hoperator.seq hoperand) ?_ htail
    simp only [List.length_cons, List.length_append]
    omega

/-! ### What is taken is derived -/

/-- At a place every success of the phrase's matcher takes the characters of a derivation. -/
def Sound (x : Phrase) (p : Place) : Prop :=
  ∀ (st st' : State signature Place Unit) (e : Expr) (q : Place), st.context.Allows 0 →
    Evaluates (host Place) x.matcher st p (.success e q) st' →
      ∃ d s, Derives x d s e ∧ p.ahead = s ++ q.ahead ∧ st.context.Allows d

/-- What a reference takes is derived inside it, where there is room for one level less. -/
theorem reference_success {x : Phrase} {name : Nonterminal} (hname : definition name = x.matcher)
    (hsound : Sound x p) {e : Expr}
    (h : Evaluates (host Place) (.defer (S := signature) name) st p (.success e q) st') :
    ∃ d s, Derives x d s e ∧ p.ahead = s ++ q.ahead ∧ st.context.Allows (d + 1) := by
  obtain ⟨hfull, st₁, hdef, -⟩ := h.refers_success .defer
  rw [show (host Place).definition name = x.matcher from hname] at hdef
  obtain ⟨d, s, hs, hp, hd⟩ := hsound _ _ _ _ (Context.Allows.zero_deeper hfull) hdef
  exact ⟨d, s, hs, hp, hd.of_deeper⟩

/-- A factor refers only to what stands behind its first character. -/
theorem sound_factor
    (hshorter : ∀ q : Place, q.ahead.length < p.ahead.length →
      Sound .expression q ∧ Sound .factor q) : Sound .factor p := by
  intro st st' e q h0 h
  -- Three alternatives, of which the first two are one choice.
  rcases h.choice_success with hinner | ⟨r₀, st₀, hfail, hminus⟩
  · rcases hinner.choice_success with hnumber | ⟨r₀, st₀, hfail, hparens⟩
    · obtain ⟨ds, w, v, hds, hw, rfl, hp⟩ := number_success hnumber
      exact ⟨0, ds ++ w, .number hds hw, hp, h0⟩
    · obtain ⟨r₂, st₂, _, hopened, hclose⟩ := hparens.keepLeft_success
      obtain ⟨r₁, st₁, _, hopen, hexpression⟩ := hopened.keepRight_success
      obtain ⟨w, hw, hp⟩ := token_success hopen
      have hlt : r₁.ahead.length < p.ahead.length := by
        rw [hp, List.length_cons, List.length_append]
        omega
      obtain ⟨d, s, hs, hr₁, hd⟩ :=
        reference_success (x := .expression) rfl (hshorter r₁ hlt).1 hexpression
      obtain ⟨w', hw', hr₂⟩ := token_success hclose
      refine ⟨d + 1, _, .parens hw hs hw', ?_, ?_⟩
      · simp only [hp, hr₁, hr₂, List.cons_append, List.append_assoc]
      · rwa [Context.Allows.of_evaluates hopen, Context.Allows.of_evaluates hfail] at hd
  · obtain ⟨e, rfl, hsigned⟩ := hminus.map_success
    obtain ⟨r₁, st₁, _, hsign, hfactor⟩ := hsigned.keepRight_success
    obtain ⟨w, hw, hp⟩ := token_success hsign
    have hlt : r₁.ahead.length < p.ahead.length := by
      rw [hp, List.length_cons, List.length_append]
      omega
    obtain ⟨d, s, hs, hr₁, hd⟩ :=
      reference_success (x := .factor) rfl (hshorter r₁ hlt).2 hfactor
    refine ⟨d + 1, _, .minus hw hs, ?_, ?_⟩
    · simp only [hp, hr₁, List.cons_append, List.append_assoc]
    · rwa [Context.Allows.of_evaluates hsign, Context.Allows.of_evaluates hfail] at hd

/-- The rest of a chain is operations one after another. -/
theorem sound_tail {t : Tier} (lhs : Expr)
    (hoperand : ∀ q : Place, q.ahead.length ≤ p.ahead.length → Sound t.operand q) :
    Sound (.tail t lhs) p := by
  intro st st' e q h0 h
  obtain ⟨rs, rfl, hrs⟩ := h.map_success
  clear h
  -- Induction on the operations: the first of them makes the tree that the others go on from.
  induction rs generalizing st p lhs with
  | nil =>
    rcases hrs.many_success with ⟨v, ws, r, st₁, heq, _⟩ | ⟨_, rfl, _⟩
    · cases heq
    · exact ⟨0, [], .done, rfl, h0⟩
  | cons v rs ih =>
    rcases hrs.many_success with ⟨v, ws, r₂, st₂, heq, hround, hbefore, hmore⟩ | ⟨heq, _⟩
    · cases heq
      obtain ⟨op, rhs⟩ := v
      obtain ⟨r₁, st₁, hop, hrhs⟩ := hround.seq_success
      obtain ⟨w, hmem, hw, hp⟩ := operator_success hop
      have hle₁ : r₁.ahead.length ≤ p.ahead.length := Place.length_ahead_le hop.ahead
      have hle₂ : r₂.ahead.length ≤ p.ahead.length := Place.length_ahead_le hround.ahead
      rw [← t.matcher_operand] at hrhs
      obtain ⟨d, s, hs, hr₁, hd⟩ :=
        hoperand r₁ hle₁ _ _ _ _ ((Context.Allows.of_evaluates hop).2 h0) hrhs
      obtain ⟨d', s', hs', hr₂, hd'⟩ := ih (.binary op lhs rhs)
        (fun q hq => hoperand q (Nat.le_trans hq hle₂))
        _ ((Context.Allows.of_evaluates hround).2 h0) hmore
      refine ⟨max d d', _, .more hmem hw hs hs', ?_, ?_⟩
      · simp only [hp, hr₁, hr₂, List.cons_append, List.append_assoc]
      · rw [Context.Allows.of_evaluates hop] at hd
        rw [Context.Allows.of_evaluates hround] at hd'
        exact hd.max hd'
    · cases heq

/-- A chain is sound if its operands are, in what is left of the text behind each. -/
theorem sound_chain {t : Tier}
    (hoperand : ∀ q : Place, q.ahead.length ≤ p.ahead.length → Sound t.operand q) :
    Sound (.chain t) p := by
  intro st st' e q h0 h
  obtain ⟨⟨first, rs⟩, rfl, hchain⟩ := h.map_success
  obtain ⟨r, st₁, hfirst, hrs⟩ := hchain.seq_success
  have hle : r.ahead.length ≤ p.ahead.length := Place.length_ahead_le hfirst.ahead
  rw [← t.matcher_operand] at hfirst
  obtain ⟨d, s, hs, hp, hd⟩ := hoperand p (Nat.le_refl _) _ _ _ _ h0 hfirst
  obtain ⟨d', s', hs', hr, hd'⟩ := sound_tail first (fun q hq => hoperand q (Nat.le_trans hq hle))
    _ _ _ _ ((Context.Allows.of_evaluates hfirst).2 h0) (.map hrs)
  refine ⟨max d d', s ++ s', .chain hs hs', by rw [hp, hr, List.append_assoc], ?_⟩
  rw [Context.Allows.of_evaluates hfirst] at hd'
  exact hd.max hd'

/-- **Soundness.** What the matcher of a phrase takes is derived from the phrase, and there was room
    for the nesting. -/
theorem sound (x : Phrase) (p : Place) : Sound x p := by
  induction hn : p.ahead.length using Nat.strongRecOn generalizing x p with
  | ind n ih =>
  -- At one place the phrases follow from each other, the tightest first.
  have hfactor : ∀ q : Place, q.ahead.length ≤ n → Sound .factor q := fun q hq =>
    sound_factor fun r hr => ⟨ih _ (by omega) _ r rfl, ih _ (by omega) _ r rfl⟩
  have hterm : ∀ q : Place, q.ahead.length ≤ n → Sound .term q := fun q hq =>
    sound_chain fun r hr => hfactor r (Nat.le_trans hr hq)
  have hoperand : ∀ t : Tier, ∀ q : Place, q.ahead.length ≤ n → Sound t.operand q := by
    rintro (_ | _)
    · exact hfactor
    · exact hterm
  cases x with
  | factor => exact hfactor p (Nat.le_of_eq hn)
  | chain t => exact sound_chain fun q hq => hoperand t q (Nat.le_trans hq (Nat.le_of_eq hn))
  | tail t lhs => exact sound_tail lhs fun q hq => hoperand t q (Nat.le_trans hq (Nat.le_of_eq hn))

end TextMatch.Calculator
