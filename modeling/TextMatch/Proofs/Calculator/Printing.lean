import TextMatch.Proofs.Calculator.Parsing

namespace TextMatch.Calculator

/-!
# Printing and parsing

The text of a tree without negative leaves is a sentence of the grammar, and it has that tree.

* `Expr.NonNegative` — no leaf is negative, as in every tree of a sentence;
* `Expr.levels` — the nesting of the text of a tree;
* `Derives.printed_negation`, `Derives.printed_operation` — what is printed from the texts of
  operands;
* `derives_chars` — the text of a tree is derived as a factor;
* `parse_text_eq_ok` — printing and parsing gives the tree back, down to the exact limit.

A negative leaf is written with a minus sign, which the grammar reads as a negation.
-/

/-! ### Trees of sentences -/

/-- No number in the tree is negative. -/
def Expr.NonNegative : Expr → Prop
  | .number v => 0 ≤ v.toInt
  | .negate e => e.NonNegative
  | .binary _ l r => l.NonNegative ∧ r.NonNegative

/-- Whether a number of the tree is negative can be computed. -/
def Expr.decideNonNegative : (e : Expr) → Decidable e.NonNegative
  | .number v => inferInstanceAs (Decidable (0 ≤ v.toInt))
  | .negate e => e.decideNonNegative
  | .binary _ l r => @instDecidableAnd _ _ l.decideNonNegative r.decideNonNegative

instance (e : Expr) : Decidable e.NonNegative := e.decideNonNegative

/-- The levels of nesting that the text of a tree has: a negation is a minus sign in parentheses,
    a binary operation is parentheses alone. -/
def Expr.levels : Expr → Nat
  | .number _ => 0
  | .negate e => 2 + e.levels
  | .binary _ l r => 1 + max l.levels r.levels

/-- The tree that a phrase begins with, if any, has no negative number. -/
def Phrase.NonNegative : Phrase → Prop
  | .tail _ lhs => lhs.NonNegative
  | _ => True

/-- Operands of either tier have a tree without negative numbers. -/
theorem Tier.nonNegative_operand (t : Tier) : t.operand.NonNegative := by
  cases t <;> trivial

/-- Digits stand for no negative number, so no derived tree has one. -/
theorem Derives.nonNegative {x : Phrase} {d : Nat} {s : List Char} {e : Expr}
    (h : Derives x d s e) (hx : x.NonNegative) : e.NonNegative := by
  induction h with
  | @number ds w v hds hw =>
    obtain ⟨n, _, _, hv⟩ := hds.value_eq
    show 0 ≤ v.toInt
    omega
  | parens _ _ _ ih => exact ih trivial
  | minus _ _ ih => exact ih trivial
  | @chain t _ _ _ _ _ _ _ _ ih ih' => exact ih' (ih t.nonNegative_operand)
  | done => exact hx
  | @more t _ _ _ _ _ _ _ _ _ _ _ _ _ ih ih' => exact ih' ⟨hx, ih t.nonNegative_operand⟩

/-! ### Phrases of one operand -/

namespace Derives

variable {t : Tier} {d d' : Nat} {s s' w : List Char} {e e' : Expr}

/-- Two operands with an operator between them are a chain. -/
theorem pair {op : Operator} (hop : op ∈ t.operators) (h : Derives t.operand d s e)
    (hw : Blanks w) (h' : Derives t.operand d' s' e') :
    Derives (.chain t) (max d d') (s ++ (op.symbol :: (w ++ s'))) (.binary op e e') := by
  have hchain := Derives.chain h (.more hop hw h' .done)
  rwa [Nat.max_zero, List.append_nil] at hchain

/-- A factor is an operand of either tier. -/
theorem operand_of_factor (h : Derives .factor d s e) : Derives t.operand d s e := by
  cases t with
  | product => exact h
  | sum => exact h.single (t := .product)

/-- A chain of either tier is an expression. -/
theorem expression_of_chain (h : Derives (.chain t) d s e) : Derives .expression d s e := by
  cases t with
  | product => exact h.single (t := .sum)
  | sum => exact h

end Derives

/-! ### The text of a tree -/

/-- Every operator joins the operands of some tier. -/
theorem Operator.exists_tier (op : Operator) : ∃ t : Tier, op ∈ t.operators := by
  cases op with
  | add => exact ⟨.sum, by decide⟩
  | sub => exact ⟨.sum, by decide⟩
  | mul => exact ⟨.product, by decide⟩
  | div => exact ⟨.product, by decide⟩

/-- The numeral of a number that is not negative stands for it. -/
theorem numeral_signedDigits {v : Int64} (h : 0 ≤ v.toInt) :
    Numeral (Decimal.signedDigits v.toInt) v := by
  have hlt : v.toInt < 2 ^ 63 := v.toInt_lt
  obtain ⟨n, hn⟩ := Int.eq_ofNat_of_zero_le h
  rw [hn] at hlt ⊢
  exact ⟨Decimal.digits_ne_nil n, n, Decimal.value_digits n, by omega, hn⟩

/-- One space is enough between two tokens. -/
theorem blanks_space : Blanks [' '] := by
  intro c hc
  obtain rfl := List.mem_singleton.1 hc
  decide

namespace Derives

variable {d d' : Nat} {s s' w : List Char} {e l r : Expr}

/-- A negation is printed as a minus sign in parentheses. -/
theorem printed_negation (h : Derives .factor d s e) (hw : Blanks w) :
    Derives .factor (2 + d) (['(', '-'] ++ s ++ [')'] ++ w) (.negate e) := by
  have hinner : Derives .factor (d + 1) ('-' :: ([] ++ s)) (.negate e) := .minus blanks_nil h
  have hparens := Derives.parens blanks_nil
    (hinner.single (t := .product)).expression_of_chain hw
  rw [Nat.add_comm]
  simpa using hparens

/-- The blank that is printed in front of an operator belongs to the operand before it. -/
theorem printed_operation (op : Operator) (hl : Derives .factor d (s ++ [' ']) l)
    (hr : Derives .factor d' s' r) (hw : Blanks w) :
    Derives .factor (1 + max d d') (['('] ++ s ++ [' ', op.symbol, ' '] ++ s' ++ [')'] ++ w)
      (.binary op l r) := by
  obtain ⟨t, hop⟩ := op.exists_tier
  have hinner := (Derives.pair hop hl.operand_of_factor blanks_space
    hr.operand_of_factor).expression_of_chain
  have hparens := Derives.parens blanks_nil hinner hw
  rw [Nat.add_comm]
  simpa using hparens

end Derives

/-- **The text of a tree is a factor**, together with the blanks that may follow it. -/
theorem derives_chars {e : Expr} (he : e.NonNegative) {w : List Char} (hw : Blanks w) :
    Derives .factor e.levels (e.chars ++ w) e := by
  induction e generalizing w with
  | number v =>
    rw [Expr.chars_number]
    exact .number (numeral_signedDigits he) hw
  | negate e ih =>
    have hoperand := ih he blanks_nil
    rw [List.append_nil] at hoperand
    rw [Expr.chars_negate]
    exact hoperand.printed_negation hw
  | binary op l r ihl ihr =>
    have hr := ihr he.2 blanks_nil
    rw [List.append_nil] at hr
    rw [Expr.chars_binary]
    exact .printed_operation op (ihl he.1 blanks_space) hr hw

/-- A text that is a factor is a sentence. -/
theorem Derives.sentence_text {d : Nat} {e e' : Expr} (h : Derives .factor d e.chars e') :
    Sentence d e.text.toList e' := by
  rw [Expr.text, String.toList_ofList]
  exact ⟨[], e.chars, blanks_nil, rfl, (h.single (t := .product)).expression_of_chain⟩

/-- The text of a tree is a sentence as it stands, without blanks in front. -/
theorem sentence_text {e : Expr} (he : e.NonNegative) : Sentence e.levels e.text.toList e := by
  have hfactor := derives_chars he blanks_nil
  rw [List.append_nil] at hfactor
  exact hfactor.sentence_text

/-- The text of a tree is parsed under every limit that is not below its levels. -/
theorem parseWithin_text {e : Expr} (he : e.NonNegative) {limit : Option Nat}
    (h : ∀ n, limit = some n → e.levels ≤ n) : parseWithin limit e.text = .ok e :=
  parseWithin_eq_ok_iff.2 ⟨e.levels, sentence_text he, h⟩

/-- Below its levels the text of a tree is rejected: it has no other nesting. -/
theorem parseWithin_text_of_lt {e : Expr} (he : e.NonNegative) {n : Nat} (h : n < e.levels) :
    ∃ err, parseWithin (some n) e.text = .error err := by
  cases hparse : parseWithin (some n) e.text with
  | error err => exact ⟨err, rfl⟩
  | ok e' =>
    obtain ⟨d, hs, hd⟩ := parseWithin_eq_ok_iff.1 hparse
    obtain ⟨rfl, -⟩ := hs.unique (sentence_text he)
    exact absurd (hd n rfl) (Nat.not_le_of_lt h)

/-- The numbers of a parsed tree are not negative. -/
theorem nonNegative_of_parseWithin {limit : Option Nat} {input : String} {e : Expr}
    (h : parseWithin limit input = .ok e) : e.NonNegative := by
  obtain ⟨d, ⟨w, s, _, _, hs⟩, _⟩ := parseWithin_eq_ok_iff.1 h
  exact hs.nonNegative trivial

/-- **Printing and parsing gives the tree back.** A tree without negative numbers comes back from
    its text without a limit and with every limit from its levels on, and below that its text is
    rejected.  Every parsed tree is one of these. -/
theorem parse_text_eq_ok :
    (∀ e : Expr, e.NonNegative →
      parse e.text = .ok e ∧
        ∀ n, (e.levels ≤ n → parseWithin (some n) e.text = .ok e) ∧
          (n < e.levels → ∃ err, parseWithin (some n) e.text = .error err)) ∧
      ∀ (input : String) (e : Expr), parse input = .ok e →
        e.NonNegative ∧ parse e.text = .ok e := by
  have hnone : ∀ e : Expr, e.NonNegative → parse e.text = .ok e := fun e he =>
    parseWithin_text he fun n hn => nomatch hn
  refine ⟨fun e he => ⟨hnone e he, fun n => ⟨fun hle => ?_, parseWithin_text_of_lt he⟩⟩, ?_⟩
  · refine parseWithin_text he ?_
    rintro _ ⟨⟩
    exact hle
  · intro input e h
    have he := nonNegative_of_parseWithin h
    exact ⟨he, hnone e he⟩

/-- The negation of a sum. -/
def negatedSum : Expr := .negate (.binary .add (.number 1) (.number 2))

/-- The text of a negated sum takes three levels, and two are not enough, though its tree can be
    written with two. -/
theorem parse_text_negatedSum :
    negatedSum.NonNegative ∧ parseWithin (some 2) "-(1+2)" = .ok negatedSum ∧
      parse negatedSum.text = .ok negatedSum ∧
      parseWithin (some 3) negatedSum.text = .ok negatedSum ∧
      ∃ err, parseWithin (some 2) negatedSum.text = .error err := by
  have hparse : parse "-(1+2)" = .ok negatedSum := rfl
  obtain ⟨hnonNegative, htext⟩ := parse_text_eq_ok.2 _ negatedSum hparse
  have hlimits := (parse_text_eq_ok.1 negatedSum (by decide)).2
  exact ⟨hnonNegative, rfl, htext, (hlimits 3).1 (by decide), (hlimits 2).2 (by decide)⟩

end TextMatch.Calculator
