import TextMatch.Proofs.Calculator.Recognition
import TextMatch.Proofs.Calculator.Scanning

namespace TextMatch.Calculator

open Matcher (seq keepLeft keepRight)

/-!
# Where the matchers stop

On a text whose numbers fit, the matcher of a phrase takes a part that is derived or fails behind a
part that a derivation begins with.  Either way it says why it goes no further: the next character
fits in no sentence there, or it is an operator that was given back because no factor follows it.

* `RunsFit`, `Ready` — texts whose numbers fit, and without blanks in front;
* `Dangling`, `Settled` — operators without a factor behind them, and rests that begin with nothing
  else that goes on with a phrase;
* `Accepted`, `Refused` — what a matcher takes and where it fails, each with its reason;
* `verdict` — one of the two is the case for every phrase and every text.

As in the proof of soundness, the induction is on the length of the text: a factor refers only to
what stands behind its first character.
-/

/-! ### Texts whose numbers fit -/

/-- Every stretch of digits stands for a number of sixty-four bits. -/
def RunsFit (text : List Char) : Prop :=
  ∀ a ds b, text = a ++ (ds ++ b) → (∀ c ∈ ds, '0' ≤ c ∧ c ≤ '9') →
    ∃ n, Decimal.value ds = some n ∧ n ≤ 2 ^ 63 - 1

/-- A text for a phrase to begin in: its numbers fit, and the blanks in front have been taken. -/
structure Ready (text : List Char) : Prop where
  fits : RunsFit text
  not_blank : ∀ c ∈ text.head?, c ∉ blankChars

variable {text rest cs : List Char} {c : Char} {m : Mode} {t : Tier}

/-- What comes at the end of a text has no other stretches of digits than that. -/
theorem RunsFit.of_append {a : List Char} (h : RunsFit (a ++ text)) : RunsFit text := by
  intro a' ds b htext
  rw [htext, ← List.append_assoc] at h
  exact h (a ++ a') ds b rfl

/-- Without its first character a text has shorter stretches of digits, if others at all. -/
theorem RunsFit.tail (h : RunsFit (c :: cs)) : RunsFit cs := RunsFit.of_append (a := [c]) h

/-- A text begins with as many blanks as there are. -/
theorem exists_blanks (text : List Char) :
    ∃ w rest, text = w ++ rest ∧ Blanks w ∧ ∀ c ∈ rest.head?, c ∉ blankChars := by
  obtain ⟨w, rest, htext, hw, hrest⟩ := exists_longest_front CharClass.blank.contains text
  refine ⟨w, rest, htext, fun c hc => contains_blank_iff.1 (hw c hc), fun c hc hmem => ?_⟩
  exact absurd (contains_blank_iff.2 hmem) (Bool.eq_false_iff.1 (hrest c hc))

/-- Behind the blanks in front a text is ready. -/
theorem RunsFit.exists_ready (h : RunsFit text) :
    ∃ w rest, text = w ++ rest ∧ Blanks w ∧ Ready rest := by
  obtain ⟨w, rest, rfl, hw, hrest⟩ := exists_blanks text
  exact ⟨w, rest, rfl, hw, h.of_append, hrest⟩

/-! ### Reasons to stop -/

/-- Whatever the nesting is, as long as it has no limit. -/
def Unlimited (judgement : State signature Place Unit → Prop) : Prop :=
  ∀ st, st.context.limit = none → judgement st

/-- An operator with blanks behind it, and behind those no factor. -/
def Dangling (c : Char) (cs : List Char) : Prop :=
  ∃ (op : Operator) (w rest : List Char), c = op.symbol ∧ cs = w ++ rest ∧ Blanks w ∧
    (∀ c' ∈ rest.head?, c' ∉ blankChars) ∧
    Unlimited fun st => Rejects (host Place) (factor recursion) st rest

/-- Behind an operand, the rest begins with no blank, no digit of the same number, and with none of
    some operators unless it is dangling. -/
def Settled (ops : List Operator) (m : Mode) (rest : List Char) : Prop :=
  ∀ c cs, rest = c :: cs → c ∉ blankChars ∧ (m = .digits → ¬('0' ≤ c ∧ c ≤ '9')) ∧
    ∀ op ∈ ops, c = op.symbol → Dangling c cs

/-- Behind a whole expression only a closing parenthesis could come next. -/
theorem Settled.stuck (h : Settled (Phrase.continuations .expression) m (c :: cs))
    (hm : m ≠ .operand) :
    (∀ n, (c = ')' → n = 0) → Scan.push? ⟨m, n⟩ c = none) ∨ Dangling c cs := by
  obtain ⟨hblank, hdigit, hops⟩ := h c cs rfl
  by_cases hop : ∃ op : Operator, c = op.symbol
  · obtain ⟨op, hop⟩ := hop
    exact .inr (hops op (by cases op <;> decide) hop)
  · exact .inl fun n => Scan.push?_eq_none hm hblank hdigit fun op heq => hop ⟨op, heq⟩

/-- The rest of a chain goes on with what its operands go on with, and
    with the operators of the chain. -/
theorem mem_continuations_tail {lhs : Expr} {op : Operator} :
    op ∈ (Phrase.tail t lhs).continuations ↔ op ∈ t.operand.continuations ∨ op ∈ t.operators := by
  cases t <;> simp [Phrase.continuations, Tier.operand, Tier.operators, or_assoc]

/-- The operands before do not matter for it. -/
theorem continuations_tail (lhs : Expr) :
    (Phrase.tail t lhs).continuations = (Phrase.chain t).continuations := by
  cases t <;> rfl

/-! ### Verdicts -/

/-- The matcher takes a part of the text that is derived, and the rest is settled.  The text comes
    behind what leads to the mode `m`. -/
inductive Accepted (x : Phrase) (m : Mode) (text : List Char) : Prop where
  | intro {d : Nat} {s rest : List Char} {e : Expr} {m' : Mode} (text_eq : text = s ++ rest)
      (derives : Derives x d s e) (leads : Leads m s m' 0) (mode : m' ≠ .operand)
      (settled : Settled x.continuations m' rest)
      (takes : Unlimited fun st => Takes (host Place) x.matcher st text e rest)

/-- The matcher fails behind a part that some derivation begins with, and the rest cannot go on with
    that, or begins with a dangling operator.  A factor fails on the text too. -/
inductive Refused (x : Phrase) (text : List Char) : Prop where
  | intro {d k : Nat} {u v rest : List Char} {e : Expr} {m : Mode} (text_eq : text = u ++ rest)
      (derives : Derives x d (u ++ v) e) (leads : Leads .operand u m k)
      (stuck : ∀ c cs, rest = c :: cs → (∀ n, Scan.push? ⟨m, n + k⟩ c = none) ∨ Dangling c cs)
      (fails : Unlimited fun st => Fails (host Place) x.matcher st text rest)
      (factor : Unlimited fun st => Rejects (host Place) (factor recursion) st text)

/-- What a matcher does with a text. -/
def Verdict (x : Phrase) (text : List Char) : Prop := Accepted x .operand text ∨ Refused x text

/-! ### References -/

/-- Without a limit a name takes what its definition takes. -/
theorem takes_reference_of_unlimited (name : Nonterminal) {e : Expr}
    (h : Unlimited fun st => Takes (host Place) (definition name) st text e rest) :
    Unlimited fun st => Takes (host Place) (.defer (S := signature) name) st text e rest :=
  fun _ hst => Takes.defer (S := signature) (Context.isFull_of_limit_none hst) (h _ hst)

/-- Without a limit a name fails where its definition fails. -/
theorem fails_reference_of_unlimited (name : Nonterminal)
    (h : Unlimited fun st => Fails (host Place) (definition name) st text rest) :
    Unlimited fun st => Fails (host Place) (.defer (S := signature) name) st text rest :=
  fun _ hst => Fails.defer (S := signature) (Context.isFull_of_limit_none hst) (h _ hst)

/-! ### Factors -/

section

variable {st : State signature Place Unit}

/-- Without a first character of a factor all three alternatives fail where they begin. -/
theorem fails_factor (h : ∀ c ∈ text.head?, ¬Opens c) :
    Fails (host Place) (factor recursion) st text text := by
  have hnumber : Fails (host Place) number st text text :=
    fails_number fun c hc hd => h c hc (.inl hd)
  have hopen : Fails (host Place) (token '(') st text text :=
    fails_token fun c hc heq => h c hc (.inr (.inl heq))
  have hsign : Fails (host Place) (token '-') st text text :=
    fails_token fun c hc heq => h c hc (.inr (.inr heq))
  have hparens : Fails (host Place)
      (keepLeft (keepRight (token '(') recursion.expression) (token ')')) st text text :=
    .keepLeft (.keepRight hopen _) _
  have hminus : Fails (host Place) (.map Expr.negate (keepRight (token '-') recursion.factor)) st
      text text := .map (.keepRight hsign _) _
  exact .choiceLeft (.choiceLeft hnumber hparens (Nat.le_refl _)) hminus (Nat.le_refl _)

/-- Behind a parenthesis the alternative in parentheses gets furthest. -/
theorem fails_factor_parens
    (h : Fails (host Place) (keepLeft (keepRight (token '(') recursion.expression) (token ')')) st
      ('(' :: cs) rest) (hle : rest.length ≤ cs.length) :
    Fails (host Place) (factor recursion) st ('(' :: cs) rest := by
  have hnumber : Fails (host Place) number st ('(' :: cs) ('(' :: cs) :=
    fails_number (by rintro _ ⟨⟩; decide)
  have hsign : Fails (host Place) (token '-') st ('(' :: cs) ('(' :: cs) :=
    fails_token (by rintro _ ⟨⟩; decide)
  have hlt : rest.length < ('(' :: cs).length := Nat.lt_succ_of_le hle
  exact .choiceLeft (.choiceRight hnumber h hlt) (.map (.keepRight hsign _) _) (Nat.le_of_lt hlt)

/-- Behind a minus sign the last alternative gets furthest. -/
theorem fails_factor_minus
    (h : Fails (host Place) (keepRight (token '-') recursion.factor) st ('-' :: cs) rest)
    (hle : rest.length ≤ cs.length) :
    Fails (host Place) (factor recursion) st ('-' :: cs) rest := by
  have hnumber : Fails (host Place) number st ('-' :: cs) ('-' :: cs) :=
    fails_number (by rintro _ ⟨⟩; decide)
  have hopen : Fails (host Place) (token '(') st ('-' :: cs) ('-' :: cs) :=
    fails_token (by rintro _ ⟨⟩; decide)
  have hparens : Fails (host Place)
      (keepLeft (keepRight (token '(') recursion.expression) (token ')')) st ('-' :: cs)
      ('-' :: cs) := .keepLeft (.keepRight hopen _) _
  exact .choiceRight (.choiceLeft hnumber hparens (Nat.le_refl _)) (.map h _)
    (Nat.lt_succ_of_le hle)

end

/-- The shortest factor. -/
theorem derives_one : Derives .factor 0 ['1'] (.number 1) := by
  have hone : Numeral ['1'] 1 := ⟨List.cons_ne_nil _ _, 1, rfl, by decide, rfl⟩
  exact .number hone blanks_nil

/-- Where nothing opens a factor it is refused on the spot. -/
theorem refused_factor (hready : Ready text) (h : ∀ c ∈ text.head?, ¬Opens c) :
    Refused .factor text := by
  refine .intro (u := []) (v := ['1']) rfl derives_one .nil (fun c cs hrest => .inl fun n => ?_)
    (fun st _ => fails_factor h) fun st _ => (fails_factor h).rejects
  have hc : c ∈ text.head? := by rw [hrest]; rfl
  exact Scan.push?_due_eq_none (hready.not_blank c hc) (h c hc)

/-- All the digits there are make a number, and it fits. -/
theorem accepted_factor_number (hfits : RunsFit (c :: cs)) (hc : '0' ≤ c ∧ c ≤ '9') :
    Accepted .factor .operand (c :: cs) := by
  obtain ⟨ds, rest, htext, hds, hrest⟩ :=
    exists_longest_front CharClass.digit.contains (c :: cs)
  obtain ⟨w, rest, rfl, hw, hblank⟩ := exists_blanks rest
  have hdigits : ∀ c ∈ ds, '0' ≤ c ∧ c ≤ '9' := fun c hc => contains_digit_iff.1 (hds c hc)
  have hdigit : ∀ c ∈ (w ++ rest).head?, ¬('0' ≤ c ∧ c ≤ '9') := fun c hc hd =>
    absurd (contains_digit_iff.2 hd) (Bool.eq_false_iff.1 (hrest c hc))
  have hne : ds ≠ [] := by
    rintro rfl
    rw [List.nil_append] at htext
    exact hdigit c (by rw [← htext]; rfl) hc
  obtain ⟨n, hn, hle⟩ := hfits [] ds (w ++ rest) htext hdigits
  have hnumeral : Numeral ds (Int64.ofNat n) :=
    numeral_iff.2 ⟨hne, n, Decimal.foldBounded?_eq_some_iff.2 ⟨hn, hle⟩, rfl⟩
  obtain ⟨m', hleads, hm', hmode⟩ := Leads.blanks (m := .digits) (by decide) hw
  refine .intro (htext.trans (List.append_assoc ..).symm) (.number hnumeral hw)
    ((Leads.digits (by decide) hne hdigits).append hleads) hm' ?_ ?_
  · rintro c cs rfl
    refine ⟨hblank c rfl, fun hm => ?_, fun op hop => nomatch hop⟩
    -- Only without blanks behind it could the number go on.
    rw [(hmode hm).1] at hdigit
    exact hdigit c rfl
  · intro st _
    rw [htext]
    exact takes_factor_number hnumeral hw hdigit hblank

section

variable {w u v : List Char} {d k : Nat} {e : Expr}

/-- An expression in parentheses is refused where the alternative for it fails, behind what an
    expression begins with. -/
theorem refused_factor_parens (hw : Blanks w) (hs : Derives .expression d (u ++ v) e)
    (hleads : Leads .operand u m k)
    (hstuck : ∀ c cs, rest = c :: cs →
      (∀ n, Scan.push? ⟨m, n + 1 + k⟩ c = none) ∨ Dangling c cs)
    (hfails : Unlimited fun st => Fails (host Place)
      (keepLeft (keepRight (token '(') recursion.expression) (token ')')) st
      ('(' :: (w ++ (u ++ rest))) rest) : Refused .factor ('(' :: (w ++ (u ++ rest))) := by
  have hle : rest.length ≤ (w ++ (u ++ rest)).length := by
    simp only [List.length_append]
    omega
  have hfactor : Unlimited fun st =>
      Fails (host Place) (factor recursion) st ('(' :: (w ++ (u ++ rest))) rest :=
    fun st hst => fails_factor_parens (hfails st hst) hle
  have htext : '(' :: (w ++ (u ++ rest)) = '(' :: (w ++ u) ++ rest := by
    simp only [List.cons_append, List.append_assoc]
  have hwhole : Derives .factor (d + 1) ('(' :: (w ++ u) ++ (v ++ [')'])) e := by
    simpa only [List.cons_append, List.append_assoc] using Derives.parens hw hs blanks_nil
  refine .intro htext hwhole (.opening hw hleads) (fun c cs hrest => ?_) hfactor
    fun st hst => (hfactor st hst).rejects
  -- One more parenthesis is open outside than inside.
  refine (hstuck c cs hrest).imp_left fun hnone n => ?_
  rw [← Nat.add_assoc, Nat.add_right_comm]
  exact hnone n

end

/-- Behind a parenthesis an expression is looked for, and behind that another parenthesis. -/
theorem verdict_factor_parens (hexpression : ∀ text : List Char, text.length ≤ cs.length →
    Ready text → Verdict .expression text) (hfits : RunsFit ('(' :: cs)) :
    Verdict .factor ('(' :: cs) := by
  obtain ⟨w, inner, rfl, hw, hready⟩ := hfits.tail.exists_ready
  have hopen : ∀ {st}, Takes (host Place) (token '(') st ('(' :: (w ++ inner)) '(' inner :=
    fun {st} => takes_token hw hready.not_blank
  rcases hexpression inner (List.suffix_append w inner).length_le hready with
    @⟨d, s, rest, e, m, rfl, hs, hleads, hm, hsettled, htakes⟩ |
    @⟨d, k, u, v, rest, e, m, rfl, hs, hleads, hstuck, hfails, -⟩
  · have hinner := takes_reference_of_unlimited .expression htakes
    by_cases hclose : ∃ cs, rest = ')' :: cs
    · obtain ⟨cs, rfl⟩ := hclose
      obtain ⟨w', rest, rfl, hw', hblank⟩ := exists_blanks cs
      have htext : '(' :: (w ++ (s ++ (')' :: (w' ++ rest)))) =
          '(' :: (w ++ (s ++ (')' :: w'))) ++ rest := by
        simp only [List.cons_append, List.append_assoc]
      refine .inl (.intro htext (.parens hw hs hw') (.parens hw hleads hm hw') (by decide) ?_
        fun st hst => takes_factor_parens hw hready.not_blank hw' hblank (hinner st hst))
      rintro c cs rfl
      exact ⟨hblank c rfl, fun h => (nomatch h), fun op hop => nomatch hop⟩
    · -- The expression ends where the closing parenthesis should be.
      have hnot : ∀ c ∈ rest.head?, c ≠ ')' := by
        rintro _ hc rfl
        exact hclose (List.head?_eq_some_iff.1 hc)
      rw [← List.append_nil s] at hs
      refine .inr (refused_factor_parens hw hs hleads (fun c cs hrest => ?_) fun st hst =>
        .keepLeftNext (.keepRight hopen (hinner st hst)) (fails_token hnot))
      subst hrest
      exact (hsettled.stuck hm).imp_left fun hnone n =>
        hnone (n + 1) fun hc => absurd hc (hnot c rfl)
  · -- Without an expression inside there is none with parentheses, and the failure is the same.
    have hinner := fails_reference_of_unlimited .expression hfails
    exact .inr (refused_factor_parens hw hs hleads
      (fun c cs hrest => (hstuck c cs hrest).imp_left fun hnone n => hnone (n + 1))
      fun st hst => .keepLeft (.keepRightNext hopen (hinner st hst)) _)

/-- Behind a minus sign a factor is looked for. -/
theorem verdict_factor_minus (hfactor : ∀ text : List Char, text.length ≤ cs.length → Ready text →
    Verdict .factor text) (hfits : RunsFit ('-' :: cs)) : Verdict .factor ('-' :: cs) := by
  obtain ⟨w, inner, rfl, hw, hready⟩ := hfits.tail.exists_ready
  have hsign : ∀ {st}, Takes (host Place) (token '-') st ('-' :: (w ++ inner)) '-' inner :=
    fun {st} => takes_token hw hready.not_blank
  rcases hfactor inner (List.suffix_append w inner).length_le hready with
    @⟨d, s, rest, e, m, rfl, hs, hleads, hm, hsettled, htakes⟩ |
    @⟨d, k, u, v, rest, e, m, rfl, hs, hleads, hstuck, hfails, -⟩
  · have hinner := takes_reference_of_unlimited .factor htakes
    have htext : '-' :: (w ++ (s ++ rest)) = '-' :: (w ++ s) ++ rest := by
      simp only [List.cons_append, List.append_assoc]
    exact .inl (.intro htext (.minus hw hs) (.minus hw hleads) hm hsettled fun st hst =>
      takes_factor_minus hw hready.not_blank (hinner st hst))
  · -- Without a factor behind the sign there is none with it, and the failure is the same.
    have hinner := fails_reference_of_unlimited .factor hfails
    have hle : rest.length ≤ (w ++ (u ++ rest)).length := by
      simp only [List.length_append]
      omega
    have hminus : Unlimited fun st =>
        Fails (host Place) (factor recursion) st ('-' :: (w ++ (u ++ rest))) rest :=
      fun st hst => fails_factor_minus (.keepRightNext hsign (hinner st hst)) hle
    have htext : '-' :: (w ++ (u ++ rest)) = '-' :: (w ++ u) ++ rest := by
      simp only [List.cons_append, List.append_assoc]
    have hwhole : Derives .factor (d + 1) ('-' :: (w ++ u) ++ v) (.negate e) := by
      simpa only [List.cons_append, List.append_assoc] using Derives.minus hw hs
    exact .inr (.intro htext hwhole (.minus hw hleads) hstuck hminus
      fun st hst => (hminus st hst).rejects)

/-- A factor refers only to what stands behind its first character. -/
theorem verdict_factor (hready : Ready text)
    (hshorter : ∀ text' : List Char, text'.length < text.length → Ready text' →
      Verdict .expression text' ∧ Verdict .factor text') : Verdict .factor text := by
  by_cases h : ∃ c cs, text = c :: cs ∧ Opens c
  · obtain ⟨c, cs, rfl, hdigit | rfl | rfl⟩ := h
    · exact .inl (accepted_factor_number hready.fits hdigit)
    · exact verdict_factor_parens
        (fun text' hle hready' => (hshorter text' (Nat.lt_succ_of_le hle) hready').1) hready.fits
    · exact verdict_factor_minus
        (fun text' hle hready' => (hshorter text' (Nat.lt_succ_of_le hle) hready').2) hready.fits
  · refine .inr (refused_factor hready fun c hc hopens => h ?_)
    obtain ⟨cs, rfl⟩ := List.head?_eq_some_iff.1 hc
    exact ⟨c, cs, rfl, hopens⟩

/-! ### Chains -/

/-- The rest of a chain is nothing where no operation is taken. -/
theorem accepted_tail_done {lhs : Expr} (hm : m ≠ .operand)
    (hsettled : Settled (Phrase.tail t lhs).continuations m text)
    (h : Unlimited fun st => Rejects (host Place) (seq t.operator t.operandMatcher) st text) :
    Accepted (.tail t lhs) m text :=
  .intro (s := []) rfl .done .nil hm hsettled fun st hst => takes_tail_done (h st hst)

/-- An operation, and behind it the rest of the chain that it belongs to. -/
theorem accepted_tail_more {op : Operator} {lhs rhs : Expr} {w s : List Char} {d : Nat}
    {m' : Mode} (hop : op ∈ t.operators) (hw : Blanks w) (hm : m ≠ .operand)
    (hs : Derives t.operand d s rhs) (hleads : Leads .operand s m' 0)
    (htakes : Unlimited fun st =>
      Takes (host Place) t.operand.matcher st (s ++ rest) rhs rest)
    (hrest : Accepted (.tail t (.binary op lhs rhs)) m' rest) :
    Accepted (.tail t lhs) m (op.symbol :: (w ++ (s ++ rest))) := by
  rcases hrest with @⟨d₂, s₂, rest₂, e, m₂, rfl, hs₂, hleads₂, hm₂, hsettled₂, htakes₂⟩
  rw [continuations_tail, ← continuations_tail lhs] at hsettled₂
  have htext : op.symbol :: (w ++ (s ++ (s₂ ++ rest₂))) =
      op.symbol :: (w ++ (s ++ s₂)) ++ rest₂ := by
    simp only [List.cons_append, List.append_assoc]
  have hlt : (s₂ ++ rest₂).length < (op.symbol :: (w ++ (s ++ (s₂ ++ rest₂)))).length := by
    simp only [List.length_cons, List.length_append]
    omega
  refine .intro htext (.more hop hw hs hs₂) (.operator hm op hw (hleads.append hleads₂)) hm₂
    hsettled₂ fun st hst => ?_
  have hoperator : Takes (host Place) t.operator st (op.symbol :: (w ++ (s ++ (s₂ ++ rest₂)))) op
      (s ++ (s₂ ++ rest₂)) := takes_operator hop hw hs.not_blank_of_operand
  have hrhs := htakes st hst
  rw [t.matcher_operand] at hrhs
  exact takes_tail_more (hoperator.seq hrhs) hlt (htakes₂ st hst)

/-- The rest of a chain goes on as long as there are operators with an operand behind them. -/
theorem accepted_tail {lhs : Expr} (hfits : RunsFit text) (hm : m ≠ .operand)
    (hsettled : Settled t.operand.continuations m text)
    (hoperand : ∀ text' : List Char, text'.length ≤ text.length → Ready text' →
      Verdict t.operand text') : Accepted (.tail t lhs) m text := by
  -- By induction on the text that is left, which every operator and operand shortens.
  induction hn : text.length using Nat.strongRecOn generalizing text m lhs with
  | ind n ih =>
  subst hn
  by_cases hop : ∃ op cs, op ∈ t.operators ∧ text = op.symbol :: cs
  · obtain ⟨op, cs, hop, rfl⟩ := hop
    obtain ⟨w, inner, rfl, hw, hready⟩ := hfits.tail.exists_ready
    have hle : inner.length ≤ (op.symbol :: (w ++ inner)).length := by
      simp only [List.length_cons, List.length_append]
      omega
    rcases hoperand inner hle hready with
      @⟨d, s, rest, rhs, m', rfl, hs, hleads, hm', hsettled', htakes⟩ |
      @⟨_, _, _, _, rest, _, _, _, _, _, _, hfails, hfactor⟩
    · have hlt : rest.length < (op.symbol :: (w ++ (s ++ rest))).length := by
        simp only [List.length_cons, List.length_append]
        omega
      exact accepted_tail_more hop hw hm hs hleads htakes <|
        ih rest.length hlt hready.fits.of_append hm' hsettled'
          (fun text' hle' => hoperand text' (Nat.le_trans hle' (Nat.le_of_lt hlt))) rfl
    · -- The operator is taken, but no operand behind it, and so it is given back.
      refine accepted_tail_done hm ?_ fun st hst => ?_
      · rintro c cs ⟨⟩
        obtain ⟨hblank, hdigit, -⟩ := hsettled _ _ rfl
        exact ⟨hblank, hdigit, fun _ _ _ => ⟨op, w, inner, rfl, rfl, hw, hready.not_blank, hfactor⟩⟩
      · have hoperator : Takes (host Place) t.operator st (op.symbol :: (w ++ inner)) op inner :=
          takes_operator hop hw hready.not_blank
        have hrhs := hfails st hst
        rw [t.matcher_operand] at hrhs
        exact (Fails.seqNext hoperator hrhs).rejects
  · -- No operator of the tier comes next, so the rest of the chain is empty.
    refine accepted_tail_done hm ?_ fun st _ => ?_
    · rintro c cs rfl
      obtain ⟨hblank, hdigit, hops⟩ := hsettled c cs rfl
      refine ⟨hblank, hdigit, fun op hmem heq => ?_⟩
      rcases mem_continuations_tail.1 hmem with hmem | hmem
      · exact hops op hmem heq
      · exact absurd ⟨op, cs, hmem, by rw [heq]⟩ hop
    · refine .seq (rejects_operator fun c hc op hmem heq => hop ?_) _
      obtain ⟨cs, rfl⟩ := List.head?_eq_some_iff.1 hc
      exact ⟨op, cs, hmem, by rw [heq]⟩

/-- A chain fails where its first operand does, and otherwise not at all. -/
theorem verdict_chain (hready : Ready text)
    (hoperand : ∀ text' : List Char, text'.length ≤ text.length → Ready text' →
      Verdict t.operand text') : Verdict (.chain t) text := by
  rcases hoperand text (Nat.le_refl _) hready with
    @⟨d₁, s₁, rest₁, first, m₁, rfl, hs₁, hleads₁, hm₁, hsettled₁, htakes₁⟩ |
    @⟨d, k, u, v, rest, e, m, rfl, hs, hleads, hstuck, hfails, hfactor⟩
  · have hle : rest₁.length ≤ (s₁ ++ rest₁).length := (List.suffix_append s₁ rest₁).length_le
    have htail : Accepted (.tail t first) m₁ rest₁ :=
      accepted_tail hready.fits.of_append hm₁ hsettled₁ fun text' hle' =>
        hoperand text' (Nat.le_trans hle' hle)
    rcases htail with @⟨d₂, s₂, rest₂, e, m₂, rfl, hs₂, hleads₂, hm₂, hsettled₂, htakes₂⟩
    rw [continuations_tail] at hsettled₂
    refine .inl (.intro (List.append_assoc ..).symm (.chain hs₁ hs₂) (hleads₁.append hleads₂) hm₂
      hsettled₂ fun st hst => ?_)
    have hfirst := htakes₁ st hst
    rw [t.matcher_operand] at hfirst
    exact takes_chain hfirst (htakes₂ st hst)
  · -- A chain fails where its first operand does.
    refine .inr (.intro rfl hs.single hleads hstuck (fun st hst => ?_) hfactor)
    have hfirst := hfails st hst
    rw [t.matcher_operand] at hfirst
    exact .map (.seq hfirst _) _

/-- **Every matcher of the grammar has a reason to stop.** -/
theorem verdict (hready : Ready text) : Verdict .expression text ∧ Verdict .factor text := by
  induction hn : text.length using Nat.strongRecOn generalizing text with
  | ind n ih =>
  have hfactor : ∀ text' : List Char, text'.length ≤ n → Ready text' → Verdict .factor text' :=
    fun text' hle hready' => verdict_factor hready' fun text'' hlt hready'' =>
      ih _ (Nat.lt_of_lt_of_le hlt hle) hready'' rfl
  have hterm : ∀ text' : List Char, text'.length ≤ n → Ready text' → Verdict .term text' :=
    fun text' hle hready' => verdict_chain hready' fun text'' hle' =>
      hfactor text'' (Nat.le_trans hle' hle)
  have hle := Nat.le_of_eq hn
  exact ⟨verdict_chain hready fun text' hle' => hterm text' (Nat.le_trans hle' hle),
    hfactor text hle hready⟩

end TextMatch.Calculator
