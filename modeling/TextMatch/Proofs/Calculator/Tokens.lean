import TextMatch.Calculator.Parse
import TextMatch.Proofs.Calculator.Derivation
import TextMatch.Proofs.Engine.Failures

namespace TextMatch.Calculator

/-!
# Tokens

For each token what its matcher takes, what it rejects, and what a success tells.

* `takes_blanks`, `blanks_success` — the blanks between tokens;
* `takes_token`, `fails_token`, `token_success` — single characters;
* `takes_number`, `fails_number`, `number_success` — numbers;
* `takes_operator`, `rejects_operator`, `operator_success` — the operators of a tier.

A token takes the blanks behind it, so what is taken depends on what follows: there the blanks
must have come to their end.
-/

variable {S : Signature} {ω : Type} {host : Host S Place ω} {st st' : State S Place ω}
  {p q : Place} {w rest text : List Char}

/-! ### Character classes -/

/-- The class of blanks is the list of them. -/
theorem contains_blank_iff {c : Char} : CharClass.blank.contains c = true ↔ c ∈ blankChars :=
  CharClass.contains_ofList _ _

/-- The class of digits is the interval between the first and the last. -/
theorem contains_digit_iff {c : Char} : CharClass.digit.contains c = true ↔ '0' ≤ c ∧ c ≤ '9' := by
  simp [CharClass.contains, CharClass.digit]

/-! ### Blanks -/

/-- All blanks there are get taken, up to a character that is none. -/
theorem takes_blanks [IsEmpty S.Hook] (hw : Blanks w)
    (hrest : ∀ c ∈ rest.head?, c ∉ blankChars) : Takes host blanks st (w ++ rest) w rest :=
  takes_many_satisfy (fun c hc => contains_blank_iff.2 (hw c hc)) fun c hc =>
    Bool.eq_false_iff.2 fun h => hrest c hc (contains_blank_iff.1 h)

/-- What is taken as blanks is blank; there may be none. -/
theorem blanks_success [IsEmpty S.Hook] (h : Evaluates host blanks st p (.success w q) st') :
    Blanks w ∧ p.ahead = w ++ q.ahead := by
  obtain ⟨hw, hp, -⟩ := many_satisfy_success h
  exact ⟨fun c hc => contains_blank_iff.1 (hw c hc), hp⟩

/-! ### Single characters -/

/-- A token is its character and all blanks behind it. -/
theorem takes_token [IsEmpty S.Hook] {c : Char} (hw : Blanks w)
    (hrest : ∀ c ∈ rest.head?, c ∉ blankChars) :
    Takes host (token c) st (c :: (w ++ rest)) c rest :=
  .keepLeft (.satisfy (beq_self_eq_true c)) (takes_blanks hw hrest)

/-- Where its character is missing a token fails on the spot. -/
theorem fails_token {c : Char} (h : ∀ c' ∈ text.head?, c' ≠ c) :
    Fails host (token c) st text text :=
  .keepLeft (.satisfy fun c' hc' => beq_eq_false_iff_ne.2 (h c' hc')) _

/-- Without its character there is no token. -/
theorem rejects_token {c : Char} (h : ∀ c' ∈ text.head?, c' ≠ c) :
    Rejects host (token c) st text := (fails_token h).rejects

/-- Where a token is found there was its character, and then blanks. -/
theorem token_success [IsEmpty S.Hook] {c v : Char}
    (h : Evaluates host (token c) st p (.success v q) st') :
    ∃ w, Blanks w ∧ p.ahead = c :: (w ++ q.ahead) := by
  obtain ⟨r, st₁, w, hc, hblanks⟩ := h.keepLeft_success
  obtain ⟨heq, hp, -⟩ := satisfy_success hc
  obtain ⟨hw, hr⟩ := blanks_success hblanks
  obtain rfl : v = c := beq_iff_eq.1 heq
  exact ⟨w, hw, by rw [hp, hr]⟩

/-! ### Numbers -/

/-- The largest number is the largest that 64 bits hold with a sign. -/
theorem maxNumber_eq : maxNumber = 2 ^ 63 - 1 := rfl

/-- The digits of a numeral are those that a number is read from. -/
theorem numeral_iff {ds : List Char} {v : Int64} :
    Numeral ds v ↔ ds ≠ [] ∧
      ∃ n, Decimal.foldBounded? maxNumber ds = some n ∧ v = Int64.ofNat n := by
  constructor
  · rintro ⟨hne, n, hn, hle, hv⟩
    refine ⟨hne, n, Decimal.foldBounded?_eq_some_iff.2 ⟨hn, hle⟩, Int64.toInt_inj.1 ?_⟩
    rw [hv, Int64.toInt_ofNat_of_lt (by omega)]
  · rintro ⟨hne, n, hn, rfl⟩
    obtain ⟨hvalue, hle⟩ := Decimal.foldBounded?_eq_some_iff.1 hn
    rw [maxNumber_eq] at hle
    exact ⟨hne, n, hvalue, hle, Int64.toInt_ofNat_of_lt (by omega)⟩

/-- Digits that stand for a number are taken to the last one, and the blanks behind them. -/
theorem takes_number [IsEmpty S.Hook] {ds : List Char} {v : Int64} (hds : Numeral ds v)
    (hw : Blanks w) (hdigit : ∀ c ∈ (w ++ rest).head?, ¬('0' ≤ c ∧ c ≤ '9'))
    (hblank : ∀ c ∈ rest.head?, c ∉ blankChars) :
    Takes host number st (ds ++ (w ++ rest)) (.number v) rest := by
  obtain ⟨hne, n, hn, rfl⟩ := numeral_iff.1 hds
  have hdigits : Takes host (.many1 (.satisfy CharClass.digit.contains)) st (ds ++ (w ++ rest)) ds
      (w ++ rest) := by
    refine takes_many1_satisfy hne (fun c hc => ?_) (fun c hc => ?_)
    · exact contains_digit_iff.2 (hds.forall_digit c hc)
    · exact Bool.eq_false_iff.2 fun h => hdigit c hc (contains_digit_iff.1 h)
  have hnumber : Takes host (numberOf ds) st (w ++ rest) (.number (Int64.ofNat n)) (w ++ rest) := by
    rw [numberOf, hn]
    exact .succeed
  exact .keepLeft (.flatMap hdigits hnumber) (takes_blanks hw hblank)

/-- Without a digit in front there is no number, and no character is taken. -/
theorem fails_number (h : ∀ c ∈ text.head?, ¬('0' ≤ c ∧ c ≤ '9')) :
    Fails host number st text text := by
  have hdigit : Fails host (.satisfy CharClass.digit.contains) st text text :=
    .satisfy fun c hc => Bool.eq_false_iff.2 fun hd => h c hc (contains_digit_iff.1 hd)
  exact .keepLeft (.flatMap (.many1 hdigit) _ _) _

/-- No number begins with anything but a digit. -/
theorem rejects_number (h : ∀ c ∈ text.head?, ¬('0' ≤ c ∧ c ≤ '9')) :
    Rejects host number st text := (fails_number h).rejects

/-- Where a number is found there were its digits, and then blanks. -/
theorem number_success [IsEmpty S.Hook] {e : Expr}
    (h : Evaluates host number st p (.success e q) st') :
    ∃ ds w v, Numeral ds v ∧ Blanks w ∧ e = .number v ∧ p.ahead = ds ++ w ++ q.ahead := by
  obtain ⟨r, st₁, w, hnumber, hblanks⟩ := h.keepLeft_success
  obtain ⟨ds, r', st₂, hdigits, hvalue⟩ := hnumber.flatMap_success
  obtain ⟨hne, -, hp, -⟩ := many1_satisfy_success hdigits
  obtain ⟨hw, hr⟩ := blanks_success hblanks
  rw [numberOf] at hvalue
  cases hn : Decimal.foldBounded? maxNumber ds with
  | none =>
    rw [hn] at hvalue
    exact absurd hvalue Rejects.fail.not_success
  | some n =>
    rw [hn] at hvalue
    obtain ⟨rfl, hr', rfl⟩ := Takes.succeed.unique hvalue
    refine ⟨ds, w, _, numeral_iff.2 ⟨hne, n, hn, rfl⟩, hw, rfl, ?_⟩
    rw [hp, ← hr', hr, List.append_assoc]

/-! ### Operators -/

/-- The matcher of the operators of a tier. -/
def Tier.operator : Tier → Matcher S Operator
  | .product => multiplicative
  | .sum => additive

/-- One of two operators. -/
def eitherOperator (a b : Operator) : Matcher S Operator :=
  .choice (.map (fun _ => a) (token a.symbol)) (.map (fun _ => b) (token b.symbol))

/-- The operators of both tiers are matched alike. -/
theorem Tier.exists_operator_eq (t : Tier) :
    ∃ a b, t.operators = [a, b] ∧ (t.operator : Matcher S Operator) = eitherOperator a b := by
  cases t with
  | product => exact ⟨.mul, .div, rfl, rfl⟩
  | sum => exact ⟨.add, .sub, rfl, rfl⟩

/-- The operators of a tier are told apart by their first characters, so the right one is taken. -/
theorem takes_operator [IsEmpty S.Hook] {t : Tier} {op : Operator} (hop : op ∈ t.operators)
    (hw : Blanks w) (hrest : ∀ c ∈ rest.head?, c ∉ blankChars) :
    Takes host t.operator st (op.symbol :: (w ++ rest)) op rest := by
  obtain ⟨a, b, hab, hm⟩ := t.exists_operator_eq (S := S)
  rw [hm]
  rw [hab, List.mem_cons, List.mem_singleton] at hop
  by_cases ha : op = a
  · subst ha
    exact .choice (.map (takes_token hw hrest) _) _
  · obtain rfl : op = b := hop.resolve_left ha
    refine .choiceElse (.map (rejects_token ?_) _) (.map (takes_token hw hrest) _)
    rintro _ ⟨⟩ hsymbol
    exact ha (Operator.symbol_injective hsymbol)

/-- In front of any other character there is no operator of the tier. -/
theorem rejects_operator {t : Tier} (h : ∀ c ∈ text.head?, ∀ op ∈ t.operators, c ≠ op.symbol) :
    Rejects host t.operator st text := by
  obtain ⟨a, b, hab, hm⟩ := t.exists_operator_eq (S := S)
  rw [hm]
  refine .choice (.map (rejects_token fun c hc => h c hc a ?_) _)
    (.map (rejects_token fun c hc => h c hc b ?_) _)
  · rw [hab]; exact List.mem_cons_self ..
  · rw [hab]; exact List.mem_cons_of_mem _ (List.mem_cons_self ..)

/-- Where an operator is found there was its symbol, and then blanks. -/
theorem operator_success [IsEmpty S.Hook] {t : Tier} {op : Operator}
    (h : Evaluates host t.operator st p (.success op q) st') :
    ∃ w, op ∈ t.operators ∧ Blanks w ∧ p.ahead = op.symbol :: (w ++ q.ahead) := by
  obtain ⟨a, b, hab, hm⟩ := t.exists_operator_eq (S := S)
  rw [hm] at h
  rw [hab]
  rcases h.choice_success with ha | ⟨r, st₁, -, hb⟩
  · obtain ⟨c, rfl, hc⟩ := ha.map_success
    obtain ⟨w, hw, hp⟩ := token_success hc
    exact ⟨w, List.mem_cons_self .., hw, hp⟩
  · obtain ⟨c, rfl, hc⟩ := hb.map_success
    obtain ⟨w, hw, hp⟩ := token_success hc
    exact ⟨w, List.mem_cons_of_mem _ (List.mem_cons_self ..), hw, hp⟩

end TextMatch.Calculator
