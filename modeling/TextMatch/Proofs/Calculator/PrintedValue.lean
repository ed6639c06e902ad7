import TextMatch.Proofs.Calculator.Printing
import TextMatch.Proofs.Calculator.Stopping

namespace TextMatch.Calculator

/-!
# The value of a printed tree

The text of a tree has the value of the tree, even where it is read as another tree.  A negative
number is printed with a minus sign and read as a negation, so its digits have to stand for a number
of their own.  They do for every number but the least one, and with the digits of that one no text
is a sentence.

* `Expr.HasNumber` — a number is a leaf of a tree;
* `Expr.reread` — the tree that the text of a tree is read as;
* `Expr.eval_reread` — both have one value, or one error;
* `exists_derives_reread` — the text is a factor with that tree;
* `Sentence.runsFit` — the digits in a sentence never stand for too large a number;
* `evaluate_text` — evaluating the text of a tree.
-/

/-! ### Leaves -/

/-- The number is a leaf of the tree. -/
def Expr.HasNumber (n : Int64) : Expr → Prop
  | .number v => v = n
  | .negate e => e.HasNumber n
  | .binary _ l r => l.HasNumber n ∨ r.HasNumber n

/-- Whether a number is a leaf of a tree can be computed. -/
def Expr.decideHasNumber (n : Int64) : (e : Expr) → Decidable (e.HasNumber n)
  | .number v => inferInstanceAs (Decidable (v = n))
  | .negate e => e.decideHasNumber n
  | .binary _ l r => @instDecidableOr _ _ (l.decideHasNumber n) (r.decideHasNumber n)

instance (n : Int64) (e : Expr) : Decidable (e.HasNumber n) := e.decideHasNumber n

/-- Every number but the least one has a negation. -/
theorem toInt_neg_of_ne_minValue {v : Int64} (h : v ≠ Int64.minValue) :
    (-v).toInt = -v.toInt := by
  have hlt : v.toInt < 2 ^ 63 := v.toInt_lt
  have hle : -2 ^ 63 ≤ v.toInt := v.le_toInt
  have hne : v.toInt ≠ -2 ^ 63 := fun heq =>
    h (Int64.toInt_inj.1 (heq.trans Int64.toInt_minValue.symm))
  rw [Int64.toInt_neg, Int.bmod_eq_of_le] <;> omega

/-- A number that has been stored once can be stored again. -/
theorem fit_toInt (v : Int64) : fit v.toInt = .ok v := by
  rw [fit, if_pos ⟨v.minValue_le_toInt, v.toInt_le⟩, Int64.ofInt_toInt]

/-! ### Reading a tree back -/

/-- The tree that the text of a tree is read as: negative numbers are negations. -/
def Expr.reread : Expr → Expr
  | .number v => if v.toInt < 0 then .negate (.number (-v)) else .number v
  | .negate e => .negate e.reread
  | .binary op l r => .binary op l.reread r.reread

/-- **Reading back keeps the value**, and the error if there is one: the negation of a number that
    has a negation never overflows. -/
theorem Expr.eval_reread {e : Expr} (h : ¬e.HasNumber Int64.minValue) :
    e.reread.eval = e.eval := by
  induction e with
  | number v =>
    unfold reread
    by_cases hv : v.toInt < 0
    · rw [if_pos hv]
      show fit (-(-v).toInt) = .ok v
      rw [toInt_neg_of_ne_minValue h, Int.neg_neg, fit_toInt]
    · rw [if_neg hv]
  | negate e ih => rw [reread, eval, eval, ih h]
  | binary op l r ihl ihr =>
    have hl := ihl fun hl => h (.inl hl)
    have hr := ihr fun hr => h (.inr hr)
    rw [reread, eval, eval, hl, hr]

/-- The digits of a negative number stand for its negation. -/
theorem numeral_natAbs {v : Int64} (hv : v.toInt < 0) (h : v ≠ Int64.minValue) :
    Numeral (Decimal.digits v.toInt.natAbs) (-v) := by
  have hneg := toInt_neg_of_ne_minValue h
  have hlt : (-v).toInt < 2 ^ 63 := (-v).toInt_lt
  exact ⟨Decimal.digits_ne_nil _, _, Decimal.value_digits _, by omega, by omega⟩

/-- **The text of a tree is a factor**, with the tree that it is read as. -/
theorem exists_derives_reread {e : Expr} (h : ¬e.HasNumber Int64.minValue) {w : List Char}
    (hw : Blanks w) : ∃ d, Derives .factor d (e.chars ++ w) e.reread := by
  induction e generalizing w with
  | number v =>
    rw [Expr.chars_number, Expr.reread]
    by_cases hv : v.toInt < 0
    · -- The sign is in front of the digits, and nothing is between them.
      have hfactor : Derives .factor 1 ('-' :: ([] ++ (Decimal.digits v.toInt.natAbs ++ w))) _ :=
        .minus blanks_nil (.number (numeral_natAbs hv h) hw)
      rw [if_pos hv, Decimal.signedDigits_eq, if_pos hv]
      exact ⟨1, hfactor⟩
    · rw [if_neg hv]
      exact ⟨0, .number (numeral_signedDigits (Int.not_lt.1 hv)) hw⟩
  | negate e ih =>
    obtain ⟨d, hoperand⟩ := ih h blanks_nil
    rw [List.append_nil] at hoperand
    rw [Expr.chars_negate]
    exact ⟨_, hoperand.printed_negation hw⟩
  | binary op l r ihl ihr =>
    obtain ⟨d, hl⟩ := ihl (fun hl => h (.inl hl)) blanks_space
    obtain ⟨d', hr⟩ := ihr (fun hr => h (.inr hr)) blanks_nil
    rw [List.append_nil] at hr
    rw [Expr.chars_binary]
    exact ⟨_, .printed_operation op hl hr hw⟩

/-- What has been printed is parsed, but for negative numbers, which come back as negations. -/
theorem parse_text_eq_reread {e : Expr} (h : ¬e.HasNumber Int64.minValue) :
    parse e.text = .ok e.reread := by
  obtain ⟨d, hfactor⟩ := exists_derives_reread h blanks_nil
  rw [List.append_nil] at hfactor
  exact parse_eq_ok_iff.2 ⟨d, hfactor.sentence_text⟩

/-! ### Digits in sentences -/

variable {s s' w : List Char} {c : Char}

namespace RunsFit

/-- Without digits nothing can fail to fit. -/
theorem nil : RunsFit [] := by
  intro a ds b h _
  obtain ⟨-, h⟩ := List.append_eq_nil_iff.1 h.symm
  obtain ⟨rfl, -⟩ := List.append_eq_nil_iff.1 h
  exact ⟨0, rfl, Nat.zero_le _⟩

/-- A character in front that is no digit makes no number longer. -/
theorem cons (hc : ¬('0' ≤ c ∧ c ≤ '9')) (h : RunsFit s) : RunsFit (c :: s) := by
  intro a ds b heq hds
  cases a with
  | cons c' a =>
    obtain ⟨-, heq⟩ := List.cons.inj heq
    exact h a ds b heq hds
  | nil =>
    cases ds with
    | nil => exact ⟨0, rfl, Nat.zero_le _⟩
    | cons d ds =>
      obtain ⟨rfl, -⟩ := List.cons.inj heq
      exact absurd (hds _ (List.mem_cons_self ..)) hc

/-- Blanks in front make no number longer either. -/
theorem blanks (hw : Blanks w) (h : RunsFit s) : RunsFit (w ++ s) := by
  induction w with
  | nil => exact h
  | cons c w ih =>
    rw [Blanks, List.forall_mem_cons] at hw
    exact .cons (fun hd => Opens.not_blank (.inl hd) hw.1) (ih hw.2)

/-- No stretch of digits goes on behind a text that is not followed by a digit. -/
theorem append (h : RunsFit s) (h' : RunsFit s') (hhead : ∀ c ∈ s'.head?, ¬('0' ≤ c ∧ c ≤ '9')) :
    RunsFit (s ++ s') := by
  intro a ds b heq hds
  rcases List.append_eq_append_iff.1 heq with ⟨k, rfl, hs'⟩ | ⟨k, rfl, hk⟩
  · exact h' k ds b hs' hds
  · rcases List.append_eq_append_iff.1 hk with ⟨l, rfl, -⟩ | ⟨l, rfl, rfl⟩
    · exact h a ds l rfl hds
    · -- What of the stretch were behind the first text would begin with a digit.
      cases l with
      | nil =>
        rw [List.append_nil] at hds ⊢
        exact h a k [] (by rw [List.append_nil]) hds
      | cons d l => exact absurd (hds d (by simp)) (hhead d rfl)

end RunsFit

/-- The digits of a numeral fit, and so do fewer of them. -/
theorem Numeral.runsFit {v : Int64} (h : Numeral s v) : RunsFit s := by
  obtain ⟨n, hn, hle, -⟩ := h.value_eq
  rintro a ds b rfl -
  obtain ⟨k, hk, hkn⟩ := Decimal.exists_value_le_of_append hn
  exact ⟨k, hk, Nat.le_trans hkn hle⟩

/-- The rest of a chain begins with an operator. -/
theorem Derives.tail_not_digit {t : Tier} {lhs e : Expr} {d : Nat}
    (h : Derives (.tail t lhs) d s e) : ∀ c ∈ s.head?, ¬('0' ≤ c ∧ c ≤ '9') := by
  have hends := h.operand_ends (r := []) .nil
  rw [List.append_nil] at hends
  exact fun c hc => (hends c hc).2.1

/-- **The numbers of a phrase are not too large.** -/
theorem Derives.runsFit {x : Phrase} {d : Nat} {e : Expr} (h : Derives x d s e) : RunsFit s := by
  -- Every stretch of digits is a whole numeral: what stands on either side of one is no digit.
  induction h with
  | @number ds w v hds hw =>
    have hblanks : RunsFit (w ++ []) := .blanks hw .nil
    rw [List.append_nil] at hblanks
    refine hds.runsFit.append hblanks fun c hc hd => ?_
    exact Opens.not_blank (.inl hd) (hw c (List.mem_of_mem_head? hc))
  | parens hw _ hw' ih =>
    have hblanks := RunsFit.blanks hw' .nil
    rw [List.append_nil] at hblanks
    refine .cons (by decide) (.blanks hw (ih.append (.cons (by decide) hblanks) ?_))
    rintro _ ⟨⟩
    decide
  | minus hw _ ih => exact .cons (by decide) (.blanks hw ih)
  | chain _ htail ih ih' => exact ih.append ih' htail.tail_not_digit
  | done => exact .nil
  | @more t op w s s' d d' lhs rhs e hop hw h h' ih ih' =>
    exact .cons (by cases op <;> decide) (.blanks hw (ih.append ih' h'.tail_not_digit))

/-- In a sentence every stretch of digits is a numeral, and fits. -/
theorem Sentence.runsFit {d : Nat} {e : Expr} (h : Sentence d s e) : RunsFit s := by
  obtain ⟨w, s', hw, rfl, hs⟩ := h
  exact .blanks hw hs.runsFit

/-- The digits of every leaf are a part of the text of a tree. -/
theorem exists_chars_eq_of_hasNumber {n : Int64} {e : Expr} (h : e.HasNumber n) :
    ∃ a b, e.chars = a ++ (Decimal.digits n.toInt.natAbs ++ b) := by
  induction e with
  | number v =>
    obtain rfl : v = n := h
    rw [Expr.chars_number, Decimal.signedDigits_eq]
    exact ⟨_, [], by rw [List.append_nil]⟩
  | negate e ih =>
    obtain ⟨a, b, heq⟩ := ih h
    rw [Expr.chars_negate, heq]
    exact ⟨['(', '-'] ++ a, b ++ [')'], by simp only [List.append_assoc]⟩
  | binary op l r ihl ihr =>
    rw [Expr.chars_binary]
    rcases h with h | h
    · obtain ⟨a, b, heq⟩ := ihl h
      rw [heq]
      exact ⟨['('] ++ a, b ++ [' ', op.symbol, ' '] ++ r.chars ++ [')'],
        by simp only [List.append_assoc]⟩
    · obtain ⟨a, b, heq⟩ := ihr h
      rw [heq]
      exact ⟨['('] ++ l.chars ++ [' ', op.symbol, ' '] ++ a, b ++ [')'],
        by simp only [List.append_assoc]⟩

/-- The digits of the least number stand for too large a number. -/
theorem not_runsFit_of_hasNumber_minValue {e : Expr} (h : e.HasNumber Int64.minValue) :
    ¬RunsFit e.chars := by
  intro hfits
  obtain ⟨a, b, heq⟩ := exists_chars_eq_of_hasNumber h
  have hvalue := Decimal.value_digits Int64.minValue.toInt.natAbs
  have hdigits : ∀ c ∈ Decimal.digits Int64.minValue.toInt.natAbs, '0' ≤ c ∧ c ≤ '9' :=
    Decimal.value_isSome_iff.1 (by rw [hvalue]; rfl)
  obtain ⟨n, hn, hle⟩ := hfits a _ b heq hdigits
  have hmin : Int64.minValue.toInt.natAbs = 2 ^ 63 := rfl
  rw [hvalue, Option.some.injEq] at hn
  omega

/-- **Printing keeps the value.** A tree without the least number evaluates from its text as it does
    by itself, with the same value or the same error.  A tree with the least number is printed as no
    sentence, and evaluating its text ends at the place where the parser stops. -/
theorem evaluate_text :
    (∀ e : Expr, ¬e.HasNumber Int64.minValue → evaluate e.text = e.eval) ∧
      ∀ e : Expr, e.HasNumber Int64.minValue →
        ∃ q, parse e.text = .error (.unexpected q) ∧ evaluate e.text = .error (.unexpected q) := by
  constructor
  · intro e h
    rw [evaluate, parse_text_eq_reread h]
    exact Expr.eval_reread h
  · intro e h
    cases hparse : parse e.text with
    | ok e' =>
      obtain ⟨d, hs⟩ := parse_eq_ok_iff.1 hparse
      rw [Expr.text, String.toList_ofList] at hs
      exact absurd hs.runsFit (not_runsFit_of_hasNumber_minValue h)
    | error err =>
      obtain ⟨q, -, -, rfl⟩ := exists_failure_of_parseWithin hparse
      exact ⟨q, rfl, by rw [evaluate, hparse]; rfl⟩

/-- Negative numbers in a quotient, in a difference that is too small, in front of a zero divisor,
    and the least number, which the parser does not read even below a negation. -/
theorem evaluate_text_negative :
    evaluate (Expr.text (.binary .div (.number (-7)) (.negate (.number (-2))))) = .ok (-3) ∧
      evaluate (Expr.text (.binary .sub (.number (-9223372036854775807)) (.number 2))) =
        .error .overflow ∧
      evaluate (Expr.text (.binary .div (.number (-1)) (.number 0))) = .error .divisionByZero ∧
      ∃ q, parse (Expr.text (.negate (.number Int64.minValue))) = .error (.unexpected q) := by
  refine ⟨?_, ?_, ?_, ?_⟩
  · rw [evaluate_text.1 _ (by decide)]
    rfl
  · rw [evaluate_text.1 _ (by decide)]
    rfl
  · rw [evaluate_text.1 _ (by decide)]
    rfl
  · obtain ⟨q, hparse, -⟩ := evaluate_text.2 (.negate (.number Int64.minValue)) rfl
    exact ⟨q, hparse⟩

end TextMatch.Calculator
