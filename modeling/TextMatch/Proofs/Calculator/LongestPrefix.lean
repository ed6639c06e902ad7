import TextMatch.Proofs.Calculator.Stopping

namespace TextMatch.Calculator

open Cursor (advanceBy)
open Matcher (seq keepLeft keepRight)

/-!
# The longest prefix

The matchers of the grammar are parts of other matchers too, and then anything may follow in the
text.  Wherever they are run, they take the longest part of what is ahead that their phrase derives.

* `DerivesAt` — derivations inside a text, whose numbers are whole stretches of digits there;
* `Longest`, `Underivable` — the longest part of a text that is derived, and that there is none;
* `decided` — one of the two is the case for every phrase and every text;
* `takes_longest_prefix` — so much is taken by the matcher, or it fails.

A greedy matcher that gives nothing back but a dangling operator could stop short of a derivation
that goes further.  It does not, because operands in front of an operator leave no choice: an
operand that ends there is what its matcher takes (`Longest.eq_of_ends`).
-/

/-! ### Derivations inside a text -/

/-- No digit comes first. -/
def NoDigit (cs : List Char) : Prop := ∀ c ∈ cs.head?, ¬('0' ≤ c ∧ c ≤ '9')

/-- A derivation of a phrase inside a text: what is behind, the nearest character first, the
    characters of the phrase, what is ahead of them, and the tree.  A number is a whole stretch of
    digits of the text. -/
inductive DerivesAt : Phrase → List Char → List Char → List Char → Expr → Prop where
  | number {behind ds w ahead : List Char} {v : Int64} (hds : Numeral ds v) (hw : Blanks w)
      (hbehind : NoDigit behind) (hahead : NoDigit (w ++ ahead)) :
      DerivesAt .factor behind (ds ++ w) ahead (.number v)
  | parens {behind w s w' ahead : List Char} {e : Expr} (hw : Blanks w)
      (h : DerivesAt .expression (w.reverse ++ '(' :: behind) s (')' :: (w' ++ ahead)) e)
      (hw' : Blanks w') : DerivesAt .factor behind ('(' :: (w ++ (s ++ (')' :: w')))) ahead e
  | minus {behind w s ahead : List Char} {e : Expr} (hw : Blanks w)
      (h : DerivesAt .factor (w.reverse ++ '-' :: behind) s ahead e) :
      DerivesAt .factor behind ('-' :: (w ++ s)) ahead (.negate e)
  | chain {t : Tier} {behind s s' ahead : List Char} {first e : Expr}
      (h : DerivesAt t.operand behind s (s' ++ ahead) first)
      (h' : DerivesAt (.tail t first) (s.reverse ++ behind) s' ahead e) :
      DerivesAt (.chain t) behind (s ++ s') ahead e
  | done {t : Tier} {lhs : Expr} {behind ahead : List Char} :
      DerivesAt (.tail t lhs) behind [] ahead lhs
  | more {t : Tier} {op : Operator} {behind w s s' ahead : List Char} {lhs rhs e : Expr}
      (hop : op ∈ t.operators) (hw : Blanks w)
      (h : DerivesAt t.operand (w.reverse ++ op.symbol :: behind) s (s' ++ ahead) rhs)
      (h' : DerivesAt (.tail t (.binary op lhs rhs))
        (s.reverse ++ (w.reverse ++ op.symbol :: behind)) s' ahead e) :
      DerivesAt (.tail t lhs) behind (op.symbol :: (w ++ (s ++ s'))) ahead e

/-- Where a phrase may begin: not inside a number.  The rest of a chain begins with an operator. -/
def Phrase.MayFollow : Phrase → List Char → Prop
  | .tail _ _, _ => True
  | .factor, behind | .chain _, behind => NoDigit behind

variable {x : Phrase} {t : Tier} {behind behind' text s s' rest rest' w : List Char} {e e' : Expr}

/-- At the beginning of a text no digit is behind. -/
theorem noDigit_nil : NoDigit [] := nofun

/-- Blanks and digits are different characters. -/
theorem not_digit_of_blank {c : Char} (h : c ∈ blankChars) : ¬('0' ≤ c ∧ c ≤ '9') := by
  simp only [blankChars, List.mem_cons, List.not_mem_nil, or_false] at h
  obtain rfl | rfl | rfl | rfl := h <;> decide

/-- Behind a token other than a number, and its blanks, there is no digit. -/
theorem Blanks.noDigit_behind (hw : Blanks w) {c : Char} (hc : ¬('0' ≤ c ∧ c ≤ '9')) :
    NoDigit (w.reverse ++ c :: behind) := by
  intro c' hc'
  cases hrev : w.reverse with
  | nil =>
    rw [hrev] at hc'
    obtain rfl : c = c' := Option.some.inj hc'
    exact hc
  | cons b bs =>
    rw [hrev] at hc'
    obtain rfl : b = c' := Option.some.inj hc'
    have hmem : b ∈ w := by rw [← List.mem_reverse, hrev]; exact List.mem_cons_self ..
    exact not_digit_of_blank (hw b hmem)

/-- No operator is a digit. -/
theorem Operator.symbol_not_digit (op : Operator) : ¬('0' ≤ op.symbol ∧ op.symbol ≤ '9') := by
  cases op <;> decide

/-- Where no number is broken any phrase may begin. -/
theorem Phrase.mayFollow_of_noDigit (x : Phrase) (h : NoDigit behind) : x.MayFollow behind := by
  cases x with
  | tail => trivial
  | factor | chain => exact h

/-- Operands of either tier may begin with a number. -/
theorem Tier.mayFollow_operand_iff : t.operand.MayFollow behind ↔ NoDigit behind := by
  cases t <;> rfl

namespace DerivesAt

/-- A derivation inside a text is one by itself. -/
theorem exists_derives (h : DerivesAt x behind s rest e) : ∃ d, Derives x d s e := by
  induction h with
  | number hds hw => exact ⟨0, .number hds hw⟩
  | parens hw _ hw' ih =>
    obtain ⟨d, hd⟩ := ih
    exact ⟨d + 1, .parens hw hd hw'⟩
  | minus hw _ ih =>
    obtain ⟨d, hd⟩ := ih
    exact ⟨d + 1, .minus hw hd⟩
  | chain _ _ ih ih' =>
    obtain ⟨d, hd⟩ := ih
    obtain ⟨d', hd'⟩ := ih'
    exact ⟨max d d', .chain hd hd'⟩
  | done => exact ⟨0, .done⟩
  | more hop hw _ _ ih ih' =>
    obtain ⟨d, hd⟩ := ih
    obtain ⟨d', hd'⟩ := ih'
    exact ⟨max d d', .more hop hw hd hd'⟩

/-- What is behind counts only at the first character, and there only if it is a digit. -/
theorem of_behind (h : DerivesAt x behind s rest e) (hfollow : x.MayFollow behind') :
    DerivesAt x behind' s rest e := by
  induction h generalizing behind' with
  | number hds hw _ hahead => exact .number hds hw hfollow hahead
  | parens hw _ hw' ih => exact .parens hw (ih (hw.noDigit_behind (by decide))) hw'
  | minus hw _ ih => exact .minus hw (ih (hw.noDigit_behind (by decide)))
  | chain _ _ ih ih' => exact .chain (ih (Tier.mayFollow_operand_iff.2 hfollow)) (ih' trivial)
  | done => exact .done
  -- In front of the operand there is the operator now, which is no digit.
  | @more t op _ _ _ _ _ _ _ _ hop hw _ _ ih ih' =>
    have hbehind : NoDigit (_ ++ op.symbol :: behind') := hw.noDigit_behind op.symbol_not_digit
    exact .more hop hw (ih (Tier.mayFollow_operand_iff.2 hbehind)) (ih' trivial)

/-- What is derived with nothing behind is derived anywhere that is not inside a number. -/
theorem of_noDigit (h : DerivesAt x [] s rest e) (hbehind : NoDigit behind) :
    DerivesAt x behind s rest e := h.of_behind (x.mayFollow_of_noDigit hbehind)

/-- What is derived somewhere in a text is derived with nothing behind. -/
theorem alone (h : DerivesAt x behind s rest e) : DerivesAt x [] s rest e :=
  h.of_behind (x.mayFollow_of_noDigit noDigit_nil)

/-- Characters have one tree. -/
theorem expr_unique (h : DerivesAt x behind s rest e) (h' : DerivesAt x behind' s rest' e') :
    e' = e := by
  obtain ⟨d, hd⟩ := h.exists_derives
  obtain ⟨d', hd'⟩ := h'.exists_derives
  exact (hd'.unique hd .nil .nil rfl).2.2

/-- A chain does not begin with a blank, wherever it stands. -/
theorem not_blank_of_chain (h : DerivesAt (.chain t) behind s rest e) (text : List Char) :
    ∀ c ∈ (s ++ text).head?, c ∉ blankChars := by
  obtain ⟨d, hd⟩ := h.exists_derives
  exact hd.not_blank_of_chain

/-- An operand does not begin with a blank, be it a factor or a chain of factors. -/
theorem not_blank_of_operand (h : DerivesAt t.operand behind s rest e) (text : List Char) :
    ∀ c ∈ (s ++ text).head?, c ∉ blankChars := by
  obtain ⟨d, hd⟩ := h.exists_derives
  exact hd.not_blank_of_operand

/-! What a text begins with tells how a phrase is derived in front of it. -/

/-- A factor has a first character, which is a digit or one of two signs. -/
theorem opens_of_factor (h : DerivesAt .factor behind s rest e) :
    ∃ c s', s = c :: s' ∧ Opens c := by
  obtain ⟨d, hd⟩ := h.exists_derives
  exact hd.opens nofun

/-- Behind a digit a factor can only be a number. -/
theorem of_digit (h : DerivesAt .factor behind s rest e) {c : Char} {cs : List Char}
    (htext : c :: cs = s ++ rest) (hc : '0' ≤ c ∧ c ≤ '9') :
    ∃ ds w v, s = ds ++ w ∧ Numeral ds v ∧ Blanks w ∧ NoDigit (w ++ rest) := by
  cases h with
  | number hds hw _ hahead => exact ⟨_, _, _, rfl, hds, hw, hahead⟩
  | parens =>
    obtain rfl : c = '(' := (List.cons.inj htext).1
    exact absurd hc (by decide)
  | minus =>
    obtain rfl : c = '-' := (List.cons.inj htext).1
    exact absurd hc (by decide)

section

variable {inner : List Char} (hw : Blanks w) (hinner : ∀ c ∈ inner.head?, c ∉ blankChars)
include hw hinner

/-- Behind an opening parenthesis and its blanks there is an expression and the closing one. -/
theorem of_parens (h : DerivesAt .factor behind s rest e)
    (htext : '(' :: (w ++ inner) = s ++ rest) :
    ∃ s' w', s = '(' :: (w ++ (s' ++ (')' :: w'))) ∧ inner = s' ++ (')' :: (w' ++ rest)) ∧
      Blanks w' ∧ DerivesAt .expression [] s' (')' :: (w' ++ rest)) e := by
  cases h with
  -- The first character decides between the three kinds of factors.
  | number hds => exact absurd htext.symm (hds.append_ne (by decide))
  | parens hw₁ hs hw' =>
    simp only [List.cons_append, List.append_assoc, List.cons.injEq, true_and] at htext
    obtain ⟨rfl, rfl⟩ := hw.unique hw₁ hinner (hs.not_blank_of_chain _) htext
    exact ⟨_, _, rfl, rfl, hw', hs.alone⟩
  | minus => exact absurd (List.cons.inj htext).1 (by decide)

/-- Behind a sign and its blanks there is a factor. -/
theorem of_minus (h : DerivesAt .factor behind s rest e)
    (htext : '-' :: (w ++ inner) = s ++ rest) :
    ∃ s' e', s = '-' :: (w ++ s') ∧ inner = s' ++ rest ∧ DerivesAt .factor [] s' rest e' := by
  cases h with
  | number hds => exact absurd htext.symm (hds.append_ne (by decide))
  | parens => exact absurd (List.cons.inj htext).1 (by decide)
  | minus hw₁ hs =>
    simp only [List.cons_append, List.append_assoc, List.cons.injEq, true_and] at htext
    have hblank := not_blank_of_operand (t := .product) hs
    obtain ⟨rfl, rfl⟩ := hw.unique hw₁ hinner (hblank _) htext
    exact ⟨_, _, rfl, rfl, hs.alone⟩

/-- Behind an operator a chain goes on with an operand, or else it had ended in front. -/
theorem of_symbol {op : Operator} {lhs : Expr} (h : DerivesAt (.tail t lhs) behind s rest e)
    (htext : op.symbol :: (w ++ inner) = s ++ rest) :
    s = [] ∨ ∃ s₁ s₂ rhs, op ∈ t.operators ∧ s = op.symbol :: (w ++ (s₁ ++ s₂)) ∧
      inner = s₁ ++ (s₂ ++ rest) ∧ DerivesAt t.operand [] s₁ (s₂ ++ rest) rhs ∧
      DerivesAt (.tail t (.binary op lhs rhs)) [] s₂ rest e := by
  cases h with
  | done => exact .inl rfl
  | more hop hw₁ hs hs' =>
    -- The operators are the same, and so are the blanks behind them, since
    -- no operand begins with one.
    simp only [List.cons_append, List.append_assoc, List.cons.injEq] at htext
    obtain ⟨hsymbol, htext⟩ := htext
    obtain rfl := Operator.symbol_injective hsymbol
    obtain ⟨rfl, rfl⟩ := hw.unique hw₁ hinner (hs.not_blank_of_operand _) htext
    exact .inr ⟨_, _, _, hop, rfl, rfl, hs.alone, hs'.alone⟩

end

end DerivesAt

/-! ### Decisions -/

/-- The longest part in front of a text that is derived, and the matcher takes it. -/
structure Longest (x : Phrase) (text s rest : List Char) (e : Expr) : Prop where
  text_eq : text = s ++ rest
  derives : DerivesAt x [] s rest e
  longest : ∀ s' rest' e', text = s' ++ rest' → DerivesAt x [] s' rest' e' → s'.length ≤ s.length
  takes : Unlimited fun st => Takes (host Place) x.matcher st text e rest

/-- No part in front of a text is derived, and the matcher fails. -/
structure Underivable (x : Phrase) (text : List Char) : Prop where
  not_derives : ∀ s rest e, text = s ++ rest → ¬DerivesAt x [] s rest e
  rejects : Unlimited fun st => Rejects (host Place) x.matcher st text

/-- What a phrase derives in front of a text, and what its matcher does there. -/
def Decided (x : Phrase) (text : List Char) : Prop :=
  (∃ s rest e, Longest x text s rest e) ∨ Underivable x text

/-- **In front of an end of the phrase there is no choice.**  What is derived there is the longest
    part, since the matcher takes both. -/
theorem Longest.eq_of_ends (h : Longest x text s rest e) (hs' : DerivesAt x behind s' rest' e')
    (htext : text = s' ++ rest') (hends : x.Ends rest') : s' = s ∧ rest' = rest ∧ e' = e := by
  obtain ⟨d, hd⟩ := hs'.exists_derives
  have hallows : (initial Place none).context.Allows d := nofun
  -- In front of an end the grammar says what the matcher takes, and the matcher takes one thing.
  have htakes := takes_of_derives hd hends hallows
  rw [← htext] at htakes
  obtain ⟨q, hq, hrest'⟩ := htakes (.ofChars text) rfl
  obtain ⟨rfl, hrest, -⟩ := (h.takes (initial Place none) rfl).unique (p := .ofChars text) hq
  obtain rfl : rest' = rest := hrest'.symm.trans hrest
  exact ⟨List.append_cancel_right (htext.symm.trans h.text_eq), rfl, rfl⟩

/-! ### Factors -/

/-- Of the blanks in front of something else no more can be taken than there are. -/
theorem Blanks.length_le {w' : List Char} (hw' : Blanks w')
    (hrest : ∀ c ∈ rest.head?, c ∉ blankChars) (h : w ++ rest = w' ++ rest') :
    w'.length ≤ w.length := by
  obtain ⟨more, rfl, hmore⟩ | ⟨more, rfl, -⟩ := List.append_eq_append_iff.1 h
  · cases more with
    | nil => simp
    | cons c more =>
      -- The first of them that is too many would be no blank.
      have hc : c ∈ w ++ c :: more := List.mem_append_right _ (List.mem_cons_self ..)
      exact absurd (hw' c hc) (hrest c (by rw [hmore]; rfl))
  · simp

section

variable {c : Char} {cs inner : List Char} {st : State signature Place Unit}

/-- In front of a digit all depends on the number: the other alternatives want a sign. -/
theorem rejects_factor_number (hc : '0' ≤ c ∧ c ≤ '9')
    (h : Rejects (host Place) number st (c :: cs)) :
    Rejects (host Place) (factor recursion) st (c :: cs) := by
  have hopen : Rejects (host Place) (token '(') st (c :: cs) :=
    rejects_token (by rintro _ ⟨⟩ rfl; exact absurd hc (by decide))
  have hsign : Rejects (host Place) (token '-') st (c :: cs) :=
    rejects_token (by rintro _ ⟨⟩ rfl; exact absurd hc (by decide))
  exact .choice (.choice h (.keepLeft (.keepRight hopen _) _)) (.map (.keepRight hsign _) _)

/-- In front of an opening parenthesis all depends on what is in it. -/
theorem rejects_factor_parens
    (h : Rejects (host Place) (keepLeft (keepRight (token '(') recursion.expression) (token ')')) st
      ('(' :: cs)) : Rejects (host Place) (factor recursion) st ('(' :: cs) := by
  have hnumber : Rejects (host Place) number st ('(' :: cs) :=
    rejects_number (by rintro _ ⟨⟩; decide)
  have hsign : Rejects (host Place) (token '-') st ('(' :: cs) :=
    rejects_token (by rintro _ ⟨⟩; decide)
  exact .choice (.choice hnumber h) (.map (.keepRight hsign _) _)

/-- In front of a sign all depends on the factor behind it. -/
theorem rejects_factor_minus
    (h : Rejects (host Place) (keepRight (token '-') recursion.factor) st ('-' :: cs)) :
    Rejects (host Place) (factor recursion) st ('-' :: cs) := by
  have hnumber : Rejects (host Place) number st ('-' :: cs) :=
    rejects_number (by rintro _ ⟨⟩; decide)
  have hopen : Rejects (host Place) (token '(') st ('-' :: cs) :=
    rejects_token (by rintro _ ⟨⟩; decide)
  exact .choice (.choice hnumber (.keepLeft (.keepRight hopen _) _)) (.map h _)

/-- Without a limit a name rejects what its definition rejects. -/
theorem rejects_reference_of_unlimited (name : Nonterminal)
    (h : Unlimited fun st => Rejects (host Place) (definition name) st text) :
    Unlimited fun st => Rejects (host Place) (.defer (S := signature) name) st text :=
  fun _ hst => Rejects.defer (S := signature) (Context.isFull_of_limit_none hst) (h _ hst)

/-- Digits that stand for no number are rejected. -/
theorem rejects_number_of_foldBounded? {ds : List Char} (hne : ds ≠ [])
    (hds : ∀ c ∈ ds, CharClass.digit.contains c = true)
    (hrest : ∀ c ∈ rest.head?, CharClass.digit.contains c = false)
    (h : Decimal.foldBounded? maxNumber ds = none) :
    Rejects (host Place) number st (ds ++ rest) := by
  have hdigits : Takes (host Place) (.many1 (.satisfy CharClass.digit.contains)) st (ds ++ rest) ds
      rest := takes_many1_satisfy hne hds hrest
  have hvalue : Rejects (host Place) (numberOf ds) st rest := by
    rw [numberOf, h]
    exact .fail
  exact .keepLeft (.flatMapNext hdigits hvalue) _

end

/-- The digits there are make a number if they fit, and otherwise there is no factor. -/
theorem decided_factor_number {c : Char} {cs : List Char} (hc : '0' ≤ c ∧ c ≤ '9') :
    Decided .factor (c :: cs) := by
  obtain ⟨ds, rest, htext, hds, hrest⟩ := exists_longest_front CharClass.digit.contains (c :: cs)
  -- All digits there are, and then all blanks.
  obtain ⟨w, rest, rfl, hw, hblank⟩ := exists_blanks rest
  have hdigits : ∀ c ∈ ds, '0' ≤ c ∧ c ≤ '9' := fun c hc => contains_digit_iff.1 (hds c hc)
  have hdigit : NoDigit (w ++ rest) := fun c hc hd =>
    absurd (contains_digit_iff.2 hd) (Bool.eq_false_iff.1 (hrest c hc))
  have hne : ds ≠ [] := by
    rintro rfl
    rw [List.nil_append] at htext
    exact hdigit c (by rw [← htext]; rfl) hc
  -- Every derivation begins with the same digits.
  have hsame : ∀ s' rest' e', c :: cs = s' ++ rest' → DerivesAt .factor [] s' rest' e' →
      ∃ w' v, s' = ds ++ w' ∧ Numeral ds v ∧ Blanks w' ∧ w ++ rest = w' ++ rest' := by
    intro s' rest' e' htext' h
    obtain ⟨ds', w', v, rfl, hds', hw', hdigit'⟩ := h.of_digit htext' hc
    rw [htext, List.append_assoc] at htext'
    obtain ⟨rfl, heq⟩ := eq_of_append_eq hdigits hds'.forall_digit hdigit hdigit' htext'
    exact ⟨w', v, rfl, hds', hw', heq⟩
  cases hn : Decimal.foldBounded? maxNumber ds with
  | some n =>
    have hnumeral : Numeral ds (Int64.ofNat n) := numeral_iff.2 ⟨hne, n, hn, rfl⟩
    refine .inl ⟨ds ++ w, rest, .number (Int64.ofNat n), htext.trans (List.append_assoc ..).symm,
      .number hnumeral hw noDigit_nil hdigit, ?_, ?_⟩
    · intro s' rest' e' htext' h
      obtain ⟨w', v, rfl, -, hw', heq⟩ := hsame s' rest' e' htext' h
      rw [List.length_append, List.length_append]
      exact Nat.add_le_add_left (hw'.length_le hblank heq) _
    · intro st _
      rw [htext]
      exact takes_factor_number hnumeral hw hdigit hblank
  | none =>
    refine .inr ⟨fun s' rest' e' htext' h => ?_, fun st _ => rejects_factor_number hc ?_⟩
    · obtain ⟨-, v, -, hnumeral, -⟩ := hsame s' rest' e' htext' h
      obtain ⟨-, n, hn', -⟩ := numeral_iff.1 hnumeral
      rw [hn] at hn'
      cases hn'
    · rw [htext]
      exact rejects_number_of_foldBounded? hne hds hrest hn

/-- Behind a parenthesis it is up to the expression there, and to another parenthesis. -/
theorem decided_factor_parens {cs : List Char}
    (hexpression : ∀ text : List Char, text.length ≤ cs.length → Decided .expression text) :
    Decided .factor ('(' :: cs) := by
  obtain ⟨w, inner, rfl, hw, hinner⟩ := exists_blanks cs
  have hopen : ∀ {st}, Takes (host Place) (token '(') st ('(' :: (w ++ inner)) '(' inner :=
    fun {st} => takes_token hw hinner
  obtain ⟨s, rest, e, hlongest⟩ | hnone := hexpression inner (List.suffix_append w inner).length_le
  · have htakes := takes_reference_of_unlimited .expression hlongest.takes
    by_cases hclose : ∃ cs, rest = ')' :: cs
    · obtain ⟨cs, rfl⟩ := hclose
      obtain ⟨w', rest, rfl, hw', hblank⟩ := exists_blanks cs
      have hbehind : NoDigit (w.reverse ++ '(' :: []) := hw.noDigit_behind (by decide)
      have hs := hlongest.derives.of_noDigit hbehind
      have htext := hlongest.text_eq
      refine .inl ⟨'(' :: (w ++ (s ++ (')' :: w'))), rest, e, ?_, .parens hw hs hw', ?_, ?_⟩
      · simp only [htext, List.cons_append, List.append_assoc]
      · intro s₁ rest₁ e₁ htext₁ h
        obtain ⟨s', w₁, rfl, heq, hw₁, hs'⟩ := h.of_parens hw hinner htext₁
        -- What is in the parentheses is the same, and only the blanks behind them may differ.
        obtain ⟨rfl, hrest, -⟩ := hlongest.eq_of_ends hs' heq .close
        have hle := hw₁.length_le hblank (List.cons.inj hrest).2.symm
        simp only [List.length_cons, List.length_append]
        omega
      · intro st hst
        have hinner' := htakes st hst
        rw [htext] at hinner hinner' ⊢
        exact takes_factor_parens hw hinner hw' hblank hinner'
    · refine .inr ⟨fun s₁ rest₁ e₁ htext₁ h => ?_, fun st hst => rejects_factor_parens ?_⟩
      · obtain ⟨s', w₁, -, heq, -, hs'⟩ := h.of_parens hw hinner htext₁
        obtain ⟨-, hrest, -⟩ := hlongest.eq_of_ends hs' heq .close
        exact hclose ⟨_, hrest.symm⟩
      · refine .keepLeftNext (.keepRight hopen (htakes st hst)) (rejects_token ?_)
        rintro _ hc rfl
        exact hclose (List.head?_eq_some_iff.1 hc)
  · have hrejects := rejects_reference_of_unlimited .expression hnone.rejects
    refine .inr ⟨fun s₁ rest₁ e₁ htext₁ h => ?_, fun st hst => rejects_factor_parens ?_⟩
    · obtain ⟨s', w₁, -, heq, -, hs'⟩ := h.of_parens hw hinner htext₁
      exact hnone.not_derives s' _ e₁ heq hs'
    · exact .keepLeft (.keepRightNext hopen (hrejects st hst)) _

/-- Behind a minus sign it is up to the factor there. -/
theorem decided_factor_minus {cs : List Char}
    (hfactor : ∀ text : List Char, text.length ≤ cs.length → Decided .factor text) :
    Decided .factor ('-' :: cs) := by
  obtain ⟨w, inner, rfl, hw, hinner⟩ := exists_blanks cs
  obtain ⟨s, rest, e, hlongest⟩ | hnone := hfactor inner (List.suffix_append w inner).length_le
  · have htakes := takes_reference_of_unlimited .factor hlongest.takes
    have hbehind : NoDigit (w.reverse ++ '-' :: []) := hw.noDigit_behind (by decide)
    have hs := hlongest.derives.of_noDigit hbehind
    have htext := hlongest.text_eq
    refine .inl ⟨'-' :: (w ++ s), rest, .negate e, ?_, .minus hw hs, ?_, ?_⟩
    · simp only [htext, List.cons_append, List.append_assoc]
    · intro s₁ rest₁ e₁ htext₁ h
      obtain ⟨s', e', rfl, heq, hs'⟩ := h.of_minus hw hinner htext₁
      have hle := hlongest.longest s' rest₁ e' heq hs'
      simp only [List.length_cons, List.length_append]
      omega
    · intro st hst
      have hinner' := htakes st hst
      rw [htext] at hinner hinner' ⊢
      exact takes_factor_minus hw hinner hinner'
  · have hrejects := rejects_reference_of_unlimited .factor hnone.rejects
    refine .inr ⟨fun s₁ rest₁ e₁ htext₁ h => ?_, fun st hst => rejects_factor_minus ?_⟩
    · obtain ⟨s', e', -, heq, hs'⟩ := h.of_minus hw hinner htext₁
      exact hnone.not_derives s' _ e' heq hs'
    · exact .keepRightNext (takes_token hw hinner) (hrejects st hst)

/-- A factor is decided by what stands behind its first character. -/
theorem decided_factor (hshorter : ∀ text' : List Char, text'.length < text.length →
    Decided .expression text' ∧ Decided .factor text') : Decided .factor text := by
  by_cases h : ∃ c cs, text = c :: cs ∧ Opens c
  · obtain ⟨c, cs, rfl, hdigit | rfl | rfl⟩ := h
    · exact decided_factor_number hdigit
    · exact decided_factor_parens fun text' hle => (hshorter text' (Nat.lt_succ_of_le hle)).1
    · exact decided_factor_minus fun text' hle => (hshorter text' (Nat.lt_succ_of_le hle)).2
  · refine .inr ⟨fun s rest e htext hs => ?_,
      fun st _ => (fails_factor fun c hc hopens => ?_).rejects⟩
    · obtain ⟨c, s', rfl, hopens⟩ := hs.opens_of_factor
      exact h ⟨c, s' ++ rest, htext, hopens⟩
    · obtain ⟨cs, rfl⟩ := List.head?_eq_some_iff.1 hc
      exact h ⟨c, cs, rfl, hopens⟩

/-! ### Chains -/

/-- No derivation gets further than the longest operand and the longest rest behind it.  If
    one has something behind its operand, then that begins with an operator, and the
    operand is the longest one too. -/
theorem Longest.length_le {f : Expr → Expr} {first first' : Expr}
    {s₁ s₂ s₁' s₂' rest₁ rest₂ : List Char} (h₁ : Longest t.operand text s₁ rest₁ first)
    (h₂ : Longest (.tail t (f first)) rest₁ s₂ rest₂ e) (htext : text = s₁' ++ (s₂' ++ rest'))
    (h₁' : DerivesAt t.operand [] s₁' (s₂' ++ rest') first')
    (h₂' : DerivesAt (.tail t (f first')) [] s₂' rest' e') :
    (s₁' ++ s₂').length ≤ (s₁ ++ s₂).length := by
  by_cases hnil : s₂' = []
  · subst hnil
    have hle := h₁.longest s₁' _ first' htext h₁'
    simp only [List.length_append, List.length_nil]
    omega
  · have hends : t.operand.Ends (s₂' ++ rest') := by
      cases h₂' with
      | done => exact absurd rfl hnil
      | more hop => exact .operand_symbol hop
    obtain ⟨rfl, hrest, rfl⟩ := h₁.eq_of_ends h₁' htext hends
    have hle := h₂.longest s₂' rest' e' hrest.symm h₂'
    simp only [List.length_append]
    omega

/-- Where no operation is taken and none is derived, the rest of a chain is nothing. -/
theorem longest_tail_done {lhs : Expr}
    (h : ∀ s' rest' e', text = s' ++ rest' → DerivesAt (.tail t lhs) [] s' rest' e' → s' = [])
    (hrejects : Unlimited fun st =>
      Rejects (host Place) (seq t.operator t.operandMatcher) st text) :
    Longest (.tail t lhs) text [] text lhs where
  text_eq := rfl
  derives := .done
  longest s' rest' e' htext hs := Nat.le_of_eq (congrArg List.length (h s' rest' e' htext hs))
  takes st hst := takes_tail_done (hrejects st hst)

/-- An operation, and behind it the rest of the chain that it belongs to. -/
theorem longest_tail_more {op : Operator} {lhs rhs : Expr} {inner s₁ s₂ rest₁ rest₂ : List Char}
    (hop : op ∈ t.operators) (hw : Blanks w) (hinner : ∀ c ∈ inner.head?, c ∉ blankChars)
    (h₁ : Longest t.operand inner s₁ rest₁ rhs)
    (h₂ : Longest (.tail t (.binary op lhs rhs)) rest₁ s₂ rest₂ e) :
    Longest (.tail t lhs) (op.symbol :: (w ++ inner)) (op.symbol :: (w ++ (s₁ ++ s₂))) rest₂ e where
  text_eq := by rw [h₁.text_eq, h₂.text_eq]; simp only [List.cons_append, List.append_assoc]
  derives := by
    have hbehind : NoDigit (w.reverse ++ op.symbol :: []) := hw.noDigit_behind op.symbol_not_digit
    have hs₁ := h₁.derives.of_noDigit hbehind
    rw [h₂.text_eq] at hs₁
    exact .more hop hw hs₁ (h₂.derives.of_behind trivial)
  longest s' rest' e' htext hs := by
    obtain rfl | ⟨s₁', s₂', rhs', -, rfl, heq, h₁', h₂'⟩ := hs.of_symbol hw hinner htext
    · exact Nat.zero_le _
    · have hle := h₁.length_le (f := Expr.binary op lhs) h₂ heq h₁' h₂'
      simp only [List.length_cons, List.length_append] at hle ⊢
      omega
  takes st hst := by
    have hoperator : Takes (host Place) t.operator st (op.symbol :: (w ++ inner)) op inner :=
      takes_operator hop hw hinner
    have hrhs := h₁.takes st hst
    rw [t.matcher_operand] at hrhs
    have hlt : rest₁.length < (op.symbol :: (w ++ inner)).length := by
      rw [h₁.text_eq]
      simp only [List.length_cons, List.length_append]
      omega
    exact takes_tail_more (hoperator.seq hrhs) hlt (h₂.takes st hst)

/-- The rest of a chain goes on as long as there are operators with an operand behind them. -/
theorem exists_longest_tail (lhs : Expr) (hoperand : ∀ text' : List Char,
    text'.length ≤ text.length → Decided t.operand text') :
    ∃ s rest e, Longest (.tail t lhs) text s rest e := by
  induction hn : text.length using Nat.strongRecOn generalizing text lhs with
  | ind n ih =>
  subst hn
  by_cases hop : ∃ op cs, op ∈ t.operators ∧ text = op.symbol :: cs
  · obtain ⟨op, cs, hop, rfl⟩ := hop
    obtain ⟨w, inner, rfl, hw, hinner⟩ := exists_blanks cs
    have hle : inner.length ≤ (op.symbol :: (w ++ inner)).length := by
      simp only [List.length_cons, List.length_append]
      omega
    obtain ⟨s₁, rest₁, rhs, h₁⟩ | hnone := hoperand inner hle
    · have hlt : rest₁.length < (op.symbol :: (w ++ inner)).length := by
        rw [h₁.text_eq]
        simp only [List.length_cons, List.length_append]
        omega
      obtain ⟨s₂, rest₂, e, h₂⟩ := ih rest₁.length hlt (.binary op lhs rhs)
        (fun text' hle' => hoperand text' (Nat.le_trans hle' (Nat.le_of_lt hlt))) rfl
      exact ⟨_, _, _, longest_tail_more hop hw hinner h₁ h₂⟩
    · -- The operator is given back.
      refine ⟨[], _, lhs, longest_tail_done (fun s' rest' e' htext hs => ?_) fun st hst => ?_⟩
      · obtain rfl | ⟨s₁, s₂, rhs, -, -, heq, h₁, -⟩ := hs.of_symbol hw hinner htext
        · rfl
        · exact absurd h₁ (hnone.not_derives s₁ _ rhs heq)
      · have hrejects := hnone.rejects st hst
        rw [t.matcher_operand] at hrejects
        exact .seqNext (takes_operator hop hw hinner) hrejects
  · refine ⟨[], _, lhs, longest_tail_done (fun s' rest' e' htext hs => ?_) fun st _ => ?_⟩
    · cases hs with
      | done => rfl
      | more hmem => exact absurd ⟨_, _, hmem, htext⟩ hop
    · refine .seq (rejects_operator fun c hc op hmem heq => hop ?_) _
      obtain ⟨cs, rfl⟩ := List.head?_eq_some_iff.1 hc
      exact ⟨op, cs, hmem, by rw [heq]⟩

/-- A chain is derived where its first operand is. -/
theorem decided_chain (hoperand : ∀ text' : List Char, text'.length ≤ text.length →
    Decided t.operand text') : Decided (.chain t) text := by
  obtain ⟨s₁, rest₁, first, h₁⟩ | hnone := hoperand text (Nat.le_refl _)
  · have hle : rest₁.length ≤ text.length := by
      rw [h₁.text_eq, List.length_append]
      omega
    obtain ⟨s₂, rest₂, e, h₂⟩ := exists_longest_tail first
      fun text' hle' => hoperand text' (Nat.le_trans hle' hle)
    refine .inl ⟨s₁ ++ s₂, rest₂, e, ?_, ?_, ?_, ?_⟩
    · rw [h₁.text_eq, h₂.text_eq, List.append_assoc]
    · have hs₁ := h₁.derives
      rw [h₂.text_eq] at hs₁
      exact .chain hs₁ (h₂.derives.of_behind trivial)
    · intro s' rest' e' htext h
      cases h with
      | chain h₁' h₂' =>
        rw [List.append_assoc] at htext
        exact h₁.length_le (f := id) h₂ htext h₁' h₂'.alone
    · intro st hst
      have hfirst := h₁.takes st hst
      rw [t.matcher_operand] at hfirst
      exact takes_chain hfirst (h₂.takes st hst)
  · refine .inr ⟨fun s rest e htext h => ?_, fun st hst => ?_⟩
    · cases h with
      | chain h₁ =>
        rw [List.append_assoc] at htext
        exact hnone.not_derives _ _ _ htext h₁
    · have hfirst := hnone.rejects st hst
      rw [t.matcher_operand] at hfirst
      exact .map (.seq hfirst _) _

/-- **Every text is decided.** -/
theorem decided (x : Phrase) (text : List Char) : Decided x text := by
  induction hn : text.length using Nat.strongRecOn generalizing x text with
  | ind n ih =>
  subst hn
  -- At one place the phrases follow from each other, the tightest first.
  have hfactor : ∀ text' : List Char, text'.length ≤ text.length → Decided .factor text' :=
    fun text' hle => decided_factor fun text'' hlt =>
      ⟨ih _ (Nat.lt_of_lt_of_le hlt hle) _ _ rfl, ih _ (Nat.lt_of_lt_of_le hlt hle) _ _ rfl⟩
  have hterm : ∀ text' : List Char, text'.length ≤ text.length → Decided .term text' :=
    fun text' hle => decided_chain fun text'' hle' => hfactor text'' (Nat.le_trans hle' hle)
  have hoperand : ∀ t : Tier, ∀ text' : List Char, text'.length ≤ text.length →
      Decided t.operand text' := by
    rintro (_ | _)
    · exact hfactor
    · exact hterm
  cases x with
  | factor => exact hfactor text (Nat.le_refl _)
  | chain t => exact decided_chain (hoperand t)
  | tail t lhs => exact .inl (exists_longest_tail lhs (hoperand t))

/-! ### Main result -/

/-- **Maximal munch.**  Without a limit the matcher of a phrase ends wherever it is run, and leaves
    the state as it was.  It succeeds exactly if some part in front of what is ahead is derived, the
    numbers in it being whole stretches of digits of what is ahead; it stops behind the longest such
    part, with the only tree of that.  Where no digit is just behind, the numbers are whole
    stretches of digits of the whole text. -/
theorem takes_longest_prefix (x : Phrase) (p : Place) (st : State signature Place Unit)
    (hlimit : st.context.limit = none) :
    (∃ o, Evaluates (host Place) x.matcher st p o st) ∧
      ((∃ e q st', Evaluates (host Place) x.matcher st p (.success e q) st') ↔
        ∃ s rest e, p.ahead = s ++ rest ∧ DerivesAt x [] s rest e) ∧
      (∀ e q st', Evaluates (host Place) x.matcher st p (.success e q) st' →
        ∃ s rest, p.ahead = s ++ rest ∧ DerivesAt x [] s rest e ∧ q = advanceBy s.length p ∧
          ∀ s' rest' e', p.ahead = s' ++ rest' → DerivesAt x [] s' rest' e' →
            s'.length ≤ s.length ∧ (s' = s → e' = e)) ∧
      (NoDigit p.behind → ∀ s rest e,
        DerivesAt x p.behind s rest e ↔ DerivesAt x [] s rest e) := by
  have hbehind : NoDigit p.behind → ∀ s rest e,
      DerivesAt x p.behind s rest e ↔ DerivesAt x [] s rest e :=
    fun hdigit s rest e => ⟨fun h => h.alone, fun h => h.of_noDigit hdigit⟩
  obtain ⟨s, rest, e, hlongest⟩ | hnone := decided x p.ahead
  · have htakes := hlongest.takes st hlimit
    obtain ⟨q, hq, hrest⟩ := htakes p rfl
    refine ⟨⟨_, hq⟩, ⟨fun _ => ⟨s, rest, e, hlongest.text_eq, hlongest.derives⟩,
      fun _ => ⟨e, q, st, hq⟩⟩, fun e' q' st' h => ?_, hbehind⟩
    obtain ⟨rfl, hrest', -⟩ := htakes.unique h
    have htext : p.ahead = s ++ q'.ahead := by rw [hrest', hlongest.text_eq]
    refine ⟨s, rest, hlongest.text_eq, hlongest.derives, Place.eq_advanceBy_of_ahead h.ahead htext,
      fun s' rest' e' htext' hs => ⟨hlongest.longest s' rest' e' htext' hs, ?_⟩⟩
    rintro rfl
    exact hlongest.derives.expr_unique hs
  · have hrejects := hnone.rejects st hlimit
    obtain ⟨q, hq⟩ := hrejects p rfl
    refine ⟨⟨_, hq⟩, ⟨?_, ?_⟩, fun e q st' h => absurd h hrejects.not_success, hbehind⟩
    · rintro ⟨e, q, st', h⟩
      exact absurd h hrejects.not_success
    · rintro ⟨s, rest, e, htext, hs⟩
      exact absurd hs (hnone.not_derives s rest e htext)

/-- An operator without an operand is given back: in front of `1+2*)` nothing longer
    than `1+2` is an expression. -/
theorem takes_longest_prefix_dangling :
    (initial Place none).context.limit = none ∧
      DerivesAt .expression [] ['1', '+', '2'] ['*', ')'] (.binary .add (.number 1) (.number 2)) ∧
      ∀ s rest e, "1+2*)".toList = s ++ rest → DerivesAt .expression [] s rest e →
        s.length ≤ 3 := by
  have hrun : (expression recursion).run (host Place) 6 (initial Place none) (.start "1+2*)") =
      some (.success (.binary .add (.number 1) (.number 2)) (advanceBy 3 (.start "1+2*)")),
        initial Place none) := rfl
  obtain ⟨-, -, hlongest, -⟩ :=
    takes_longest_prefix .expression (.start "1+2*)") (initial Place none) rfl
  obtain ⟨s, rest, htext, hs, hq, hmax⟩ := hlongest _ _ _ (Matcher.evaluates_of_run hrun)
  -- The place behind tells what is left, and so what was taken.
  have hrest : rest = ['*', ')'] := by
    have hahead := congrArg Place.ahead hq
    rw [Place.ahead_advanceBy s.length, htext, List.drop_left] at hahead
    exact hahead.symm
  subst hrest
  obtain rfl : ['1', '+', '2'] = s := List.append_cancel_right htext
  exact ⟨rfl, hs, fun s' rest' e' htext' hs' => (hmax s' rest' e' htext' hs').1⟩

/-- Inside a number a factor is found, though what is left of the number is not a whole stretch of
    digits of the text. -/
theorem factor_inside_number :
    ¬((∃ e q st', Evaluates (host Place) Phrase.factor.matcher (initial Place none)
        (Place.start "12").advance (.success e q) st') ↔
      ∃ s rest e, (Place.start "12").advance.ahead = s ++ rest ∧
        DerivesAt .factor (Place.start "12").advance.behind s rest e) := by
  intro hiff
  have hrun : Phrase.factor.matcher.run (host Place) 2 (initial Place none)
      (Place.start "12").advance =
        some (.success (.number 2) (Place.start "12").advance.advance, initial Place none) := rfl
  obtain ⟨s, rest, e, htext, hs⟩ := hiff.1 ⟨_, _, _, Matcher.evaluates_of_run hrun⟩
  cases hs with
  | number _ _ hbehind => exact hbehind '1' rfl (by decide)
  | parens => exact absurd (List.cons.inj htext).1 (by decide)
  | minus => exact absurd (List.cons.inj htext).1 (by decide)

end TextMatch.Calculator
