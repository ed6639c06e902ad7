import Mathlib.Algebra.Group.Nat.Defs
import TextMatch.Calculator.Expr
import TextMatch.Proofs.Decimal

namespace TextMatch.Calculator

/-!
# The context-free grammar of expressions

What the texts of expressions are, said without a parser.

    sentence   := W expression
    expression := term (('+' | '-') W term)*
    term       := factor (('*' | '/') W factor)*
    factor     := digits W | '(' W expression ')' W | '-' W factor

* `Blanks`, `Numeral` — `W`, and `digits` with the number they stand for;
* `Phrase` — the left-hand sides, and what is left of a chain behind its first operands;
* `Derives` — the derivations, each with its nesting, its characters and its tree;
* `Sentence` — whole texts;
* `Derives.unique` — the grammar is unambiguous.

The nesting of a derivation is the greatest number of parentheses and minus signs around one of its
points that have been opened and not closed yet.
-/

/-! ### Tokens -/

/-- The characters that separate tokens. -/
def blankChars : List Char := [' ', '\t', '\r', '\n']

/-- A run of blanks, which may be empty. -/
def Blanks (w : List Char) : Prop := ∀ c ∈ w, c ∈ blankChars

/-- No characters are blanks, as far as that goes. -/
theorem blanks_nil : Blanks [] := fun _ h => nomatch h

/-- A run of digits, not empty, whose value is a number of sixty-four bits. -/
structure Numeral (ds : List Char) (v : Int64) : Prop where
  ne_nil : ds ≠ []
  value_eq : ∃ n, Decimal.value ds = some n ∧ n ≤ 2 ^ 63 - 1 ∧ v.toInt = n

/-! ### Phrases -/

/-- The two kinds of chains, by how tightly their operators bind. -/
inductive Tier where
  | product
  | sum
deriving Repr, DecidableEq

/-- The operators between the operands of a chain. -/
def Tier.operators : Tier → List Operator
  | .product => [.mul, .div]
  | .sum => [.add, .sub]

/-- What a part of a text can be derived as. -/
inductive Phrase where
  | factor
  /-- Operands of a tier with its operators between them. -/
  | chain (t : Tier)
  /-- The rest of a chain, behind operands whose tree is `lhs`. -/
  | tail (t : Tier) (lhs : Expr)

namespace Phrase

/-- Factors joined by `*` and `/`. -/
abbrev term : Phrase := chain .product

/-- Terms joined by `+` and `-`. -/
abbrev expression : Phrase := chain .sum

end Phrase

/-- The operands of a chain. -/
def Tier.operand : Tier → Phrase
  | .product => .factor
  | .sum => .term

/-! ### Derivations -/

/-- A derivation of a phrase, with its nesting, its characters and its tree.  The tree
    of a chain grows to the left: the rest behind `lhs` has all of `lhs` as the left
    operand of its first operator. -/
inductive Derives : Phrase → Nat → List Char → Expr → Prop where
  | number {ds w : List Char} {v : Int64} (hds : Numeral ds v) (hw : Blanks w) :
      Derives .factor 0 (ds ++ w) (.number v)
  | parens {w s w' : List Char} {d : Nat} {e : Expr} (hw : Blanks w)
      (h : Derives .expression d s e) (hw' : Blanks w') :
      Derives .factor (d + 1) ('(' :: (w ++ (s ++ (')' :: w')))) e
  | minus {w s : List Char} {d : Nat} {e : Expr} (hw : Blanks w) (h : Derives .factor d s e) :
      Derives .factor (d + 1) ('-' :: (w ++ s)) (.negate e)
  | chain {t : Tier} {s s' : List Char} {d d' : Nat} {first e : Expr}
      (h : Derives t.operand d s first) (h' : Derives (.tail t first) d' s' e) :
      Derives (.chain t) (max d d') (s ++ s') e
  | done {t : Tier} {lhs : Expr} : Derives (.tail t lhs) 0 [] lhs
  | more {t : Tier} {op : Operator} {w s s' : List Char} {d d' : Nat} {lhs rhs e : Expr}
      (hop : op ∈ t.operators) (hw : Blanks w) (h : Derives t.operand d s rhs)
      (h' : Derives (.tail t (.binary op lhs rhs)) d' s' e) :
      Derives (.tail t lhs) (max d d') (op.symbol :: (w ++ (s ++ s'))) e

/-- A whole text: blanks and an expression. -/
def Sentence (d : Nat) (s : List Char) (e : Expr) : Prop :=
  ∃ w s', Blanks w ∧ s = w ++ s' ∧ Derives .expression d s' e

/-! ### What may follow a phrase -/

/-- The operators that go on with a phrase. -/
def Phrase.continuations : Phrase → List Operator
  | .factor => []
  | .chain .product | .tail .product _ => [.mul, .div]
  | .chain .sum | .tail .sum _ => [.mul, .div, .add, .sub]

/-- A phrase ends in front of `rest`: what comes next is no blank, no digit, and no operator that
    goes on with it. -/
def Phrase.Ends (x : Phrase) (rest : List Char) : Prop :=
  ∀ c ∈ rest.head?, c ∉ blankChars ∧ ¬('0' ≤ c ∧ c ≤ '9') ∧
    ∀ op ∈ x.continuations, c ≠ op.symbol

namespace Phrase.Ends

variable {x : Phrase} {t : Tier} {lhs lhs' : Expr} {rest : List Char}

/-- The end of the text is an end for every phrase. -/
theorem nil : x.Ends [] := by
  intro c hc
  cases hc

/-- In front of an end no blank is left over. -/
theorem not_blank (h : x.Ends rest) : ∀ c ∈ rest.head?, c ∉ blankChars := fun c hc => (h c hc).1

/-- No phrase goes on with a closing parenthesis. -/
theorem close : x.Ends (')' :: rest) := by
  rintro _ ⟨⟩
  exact ⟨by decide, by decide, fun op _ => by cases op <;> decide⟩

/-- Where a chain ends its rest does too. -/
theorem tail (h : (Phrase.chain t).Ends rest) : (Phrase.tail t lhs).Ends rest := by
  cases t <;> exact h

/-- What the rest of a chain ends in front of does not depend on the operands before. -/
theorem tail_congr (h : (Phrase.tail t lhs).Ends rest) : (Phrase.tail t lhs').Ends rest := by
  cases t <;> exact h

/-- Where a chain ends its last operand does too. -/
theorem operand (h : (Phrase.tail t lhs).Ends rest) : t.operand.Ends rest := by
  intro c hc
  obtain ⟨hblank, hdigit, hop⟩ := h c hc
  refine ⟨hblank, hdigit, fun op hmem => hop op ?_⟩
  cases t with
  | product => cases hmem
  | sum => exact List.mem_append_left [.add, .sub] hmem

/-- An operand ends in front of an operator of its chain. -/
theorem operand_symbol {op : Operator} (h : op ∈ t.operators) :
    t.operand.Ends (op.symbol :: rest) := by
  rintro _ ⟨⟩
  refine ⟨by cases op <;> decide, by cases op <;> decide, ?_⟩
  cases t <;> simp [Tier.operators] at h <;> rcases h with rfl | rfl <;>
    simp [Tier.operand, continuations, Operator.symbol]

/-- The rest of a chain does not end in front of an operator of the chain. -/
theorem not_tail_symbol {op : Operator} (h : op ∈ t.operators) :
    ¬(Phrase.tail t lhs).Ends (op.symbol :: rest) := by
  intro hends
  refine (hends _ rfl).2.2 op ?_ rfl
  cases t with
  | product => exact h
  | sum => exact List.mem_append_right [.mul, .div] h

end Phrase.Ends

/-! ### Unambiguity -/

/-- A text has at most one front part that is as long as the characters of some kind go on. -/
theorem eq_of_append_eq {kind : Char → Prop} {a a' b b' : List Char} (ha : ∀ c ∈ a, kind c)
    (ha' : ∀ c ∈ a', kind c) (hb : ∀ c ∈ b.head?, ¬kind c) (hb' : ∀ c ∈ b'.head?, ¬kind c)
    (h : a ++ b = a' ++ b') : a = a' ∧ b = b' := by
  -- The first character where only one of the fronts goes on would be of the kind and not of it.
  induction a generalizing a' with
  | nil =>
    cases a' with
    | nil => exact ⟨rfl, h⟩
    | cons c a' =>
      obtain rfl : b = c :: (a' ++ b') := h
      exact absurd (ha' c (List.mem_cons_self ..)) (hb c rfl)
  | cons c a ih =>
    cases a' with
    | nil =>
      obtain rfl : c :: (a ++ b) = b' := h
      exact absurd (ha c (List.mem_cons_self ..)) (hb' c rfl)
    | cons c' a' =>
      obtain ⟨rfl, hcs⟩ := List.cons.inj h
      rw [List.forall_mem_cons] at ha ha'
      obtain ⟨rfl, rfl⟩ := ih ha.2 ha'.2 hcs
      exact ⟨rfl, rfl⟩

/-- The blanks in front of something else are determined. -/
theorem Blanks.unique {w w' b b' : List Char} (hw : Blanks w) (hw' : Blanks w')
    (hb : ∀ c ∈ b.head?, c ∉ blankChars) (hb' : ∀ c ∈ b'.head?, c ∉ blankChars)
    (h : w ++ b = w' ++ b') : w = w' ∧ b = b' :=
  eq_of_append_eq hw hw' hb hb' h

/-- Behind a numeral and its blanks there is no digit, and no blank is one. -/
theorem Blanks.not_digit {x : Phrase} {w rest : List Char} (hw : Blanks w) (h : x.Ends rest) :
    ∀ c ∈ (w ++ rest).head?, ¬('0' ≤ c ∧ c ≤ '9') := by
  cases w with
  | nil => exact fun c hc => (h c hc).2.1
  | cons c w =>
    rintro _ ⟨⟩
    have hc := hw c (List.mem_cons_self ..)
    simp only [blankChars, List.mem_cons, List.not_mem_nil, or_false] at hc
    rcases hc with rfl | rfl | rfl | rfl <;> decide

namespace Numeral

variable {ds : List Char} {v v' : Int64}

/-- A numeral has digits only. -/
theorem forall_digit (h : Numeral ds v) : ∀ c ∈ ds, '0' ≤ c ∧ c ≤ '9' := by
  obtain ⟨n, hn, _, _⟩ := h.value_eq
  exact Decimal.value_isSome_iff.1 (by rw [hn]; rfl)

/-- Nothing but a digit is in front of a numeral. -/
theorem append_ne (h : Numeral ds v) {w r rest : List Char} {c : Char}
    (hc : ¬('0' ≤ c ∧ c ≤ '9')) : ds ++ w ++ r ≠ c :: rest := by
  cases ds with
  | nil => exact absurd rfl h.ne_nil
  | cons c' ds =>
    intro heq
    obtain rfl : c' = c := (List.cons.inj heq).1
    exact hc (h.forall_digit c' (List.mem_cons_self ..))

/-- Digits have one value. -/
theorem unique (h : Numeral ds v) (h' : Numeral ds v') : v = v' := by
  obtain ⟨n, hn, _, hv⟩ := h.value_eq
  obtain ⟨n', hn', _, hv'⟩ := h'.value_eq
  obtain rfl : n = n' := Option.some.inj (hn.symm.trans hn')
  exact Int64.toInt_inj.1 (hv.trans hv'.symm)

end Numeral

/-- Operators are told apart by their signs. -/
theorem Operator.symbol_injective {op op' : Operator} (h : op.symbol = op'.symbol) : op = op' := by
  cases op <;> cases op' <;> first | rfl | cases h

/-- The first characters of a phrase that is not the rest of a chain. -/
def Opens (c : Char) : Prop := ('0' ≤ c ∧ c ≤ '9') ∨ c = '(' ∨ c = '-'

/-- What opens a factor is no blank. -/
theorem Opens.not_blank {c : Char} (h : Opens c) : c ∉ blankChars := by
  rintro hc
  simp only [blankChars, List.mem_cons, List.not_mem_nil, or_false] at hc
  rcases hc with rfl | rfl | rfl | rfl <;> exact absurd h (by unfold Opens; decide)

namespace Derives

variable {t : Tier} {d d' : Nat} {s s' r r' : List Char} {e e' : Expr}

/-- An operand by itself is a chain. -/
theorem single (h : Derives t.operand d s e) : Derives (.chain t) d s e := by
  have hchain := Derives.chain h .done
  rwa [Nat.max_zero, List.append_nil] at hchain

/-- A phrase that is not the rest of a chain begins with a digit, a parenthesis or a minus sign. -/
theorem opens {x : Phrase} (h : Derives x d s e) (hx : ∀ t lhs, x ≠ .tail t lhs) :
    ∃ c s', s = c :: s' ∧ Opens c := by
  induction h with
  | @number ds w v hds hw =>
    cases ds with
    | nil => exact absurd rfl hds.ne_nil
    | cons c ds => exact ⟨c, ds ++ w, rfl, .inl (hds.forall_digit c (List.mem_cons_self ..))⟩
  | parens => exact ⟨_, _, rfl, .inr (.inl rfl)⟩
  | minus => exact ⟨_, _, rfl, .inr (.inr rfl)⟩
  | @chain t s s' _ _ _ _ _ _ ih _ =>
    obtain ⟨c, cs, rfl, hc⟩ := ih fun t' lhs h => by cases t <;> cases h
    exact ⟨c, cs ++ s', rfl, hc⟩
  | done => exact absurd rfl (hx _ _)
  | more => exact absurd rfl (hx _ _)

/-- No blank is in front of a phrase: blanks belong to the token before. -/
theorem not_blank_of_operand (h : Derives t.operand d s e) :
    ∀ c ∈ (s ++ r).head?, c ∉ blankChars := by
  obtain ⟨c, s', rfl, hc⟩ := h.opens fun t' lhs heq => by cases t <;> cases heq
  rintro _ ⟨⟩
  exact hc.not_blank

/-- A chain begins with its first operand, so not with a blank. -/
theorem not_blank_of_chain (h : Derives (.chain t) d s e) :
    ∀ c ∈ (s ++ r).head?, c ∉ blankChars := by
  obtain ⟨c, s', rfl, hc⟩ := h.opens fun t' lhs heq => by cases heq
  rintro _ ⟨⟩
  exact hc.not_blank

/-- An operand ends where the rest of its chain begins. -/
theorem operand_ends {lhs : Expr} (h : Derives (.tail t lhs) d s e)
    (hr : (Phrase.tail t lhs).Ends r) : t.operand.Ends (s ++ r) := by
  cases h with
  | done => exact hr.operand
  | more hop => exact .operand_symbol hop

/-- **Unambiguity.** Of the front parts of a text that a phrase could end behind, only one is
    derived, and it has one nesting and one tree. -/
theorem unique {x : Phrase} (h : Derives x d s e) (h' : Derives x d' s' e') (hr : x.Ends r)
    (hr' : x.Ends r') (heq : s ++ r = s' ++ r') : d = d' ∧ s = s' ∧ e = e' := by
  -- Induction on the first derivation.  The second has to be of the same form, since what comes
  -- first tells the forms apart: a digit, a parenthesis, a sign, an operator or none.
  induction h generalizing d' s' e' r r' with
  | @number ds w v hds hw =>
    cases h' with
    | number hds' hw' =>
      rw [List.append_assoc, List.append_assoc] at heq
      obtain ⟨rfl, hrest⟩ := eq_of_append_eq hds.forall_digit hds'.forall_digit
        (hw.not_digit hr) (hw'.not_digit hr') heq
      obtain ⟨rfl, -⟩ := hw.unique hw' hr.not_blank hr'.not_blank hrest
      exact ⟨rfl, rfl, congrArg Expr.number (hds.unique hds')⟩
    | parens => exact absurd heq (hds.append_ne (by decide))
    | minus => exact absurd heq (hds.append_ne (by decide))
  | @parens w s w' d e hw h hw' ih =>
    cases h' with
    | number hds' _ => exact absurd heq.symm (hds'.append_ne (by decide))
    | @parens w₂ s₂ w₂' d₂ e₂ hw₂ h₂ hw₂' =>
      simp only [List.cons_append, List.append_assoc, List.cons.injEq, true_and] at heq
      obtain ⟨rfl, hinner⟩ := hw.unique hw₂ h.not_blank_of_chain h₂.not_blank_of_chain heq
      obtain ⟨rfl, rfl, rfl⟩ := ih h₂ .close .close hinner
      -- Behind the closing parentheses only the blanks are left to compare.
      have hclose := (List.cons.inj (List.append_cancel_left hinner)).2
      obtain ⟨rfl, -⟩ := hw'.unique hw₂' hr.not_blank hr'.not_blank hclose
      exact ⟨rfl, rfl, rfl⟩
    | minus => exact absurd (List.cons.inj heq).1 (by decide)
  | @minus w s d e hw h ih =>
    cases h' with
    | number hds' _ => exact absurd heq.symm (hds'.append_ne (by decide))
    | parens => exact absurd (List.cons.inj heq).1 (by decide)
    | @minus w₂ s₂ d₂ e₂ hw₂ h₂ =>
      simp only [List.cons_append, List.append_assoc, List.cons.injEq, true_and] at heq
      obtain ⟨rfl, hinner⟩ := hw.unique hw₂ (not_blank_of_operand (t := .product) h)
        (not_blank_of_operand (t := .product) h₂) heq
      obtain ⟨rfl, rfl, rfl⟩ := ih h₂ hr hr' hinner
      exact ⟨rfl, rfl, rfl⟩
  | @chain t s₁ s₂ d₁ d₂ first e h₁ h₂ ih₁ ih₂ =>
    cases h' with
    | chain h₁' h₂' =>
      rw [List.append_assoc, List.append_assoc] at heq
      obtain ⟨rfl, rfl, rfl⟩ := ih₁ h₁' (h₂.operand_ends hr.tail) (h₂'.operand_ends hr'.tail) heq
      obtain ⟨rfl, rfl, rfl⟩ := ih₂ h₂' hr.tail hr'.tail (List.append_cancel_left heq)
      exact ⟨rfl, rfl, rfl⟩
  | @done t lhs =>
    cases h' with
    | done => exact ⟨rfl, rfl, rfl⟩
    | more hop =>
      obtain rfl : r = _ := heq
      exact absurd hr (Phrase.Ends.not_tail_symbol hop)
  | @more t op w s₁ s₂ d₁ d₂ lhs rhs e hop hw h₁ h₂ ih₁ ih₂ =>
    cases h' with
    | done =>
      obtain rfl : _ = r' := heq
      exact absurd hr' (Phrase.Ends.not_tail_symbol hop)
    | more hop' hw' h₁' h₂' =>
      -- Operator, blanks, operand and the rest are compared from left to right.
      simp only [List.cons_append, List.append_assoc, List.cons.injEq] at heq
      obtain ⟨hsymbol, heq⟩ := heq
      obtain rfl := Operator.symbol_injective hsymbol
      obtain ⟨rfl, hrest⟩ := hw.unique hw' h₁.not_blank_of_operand h₁'.not_blank_of_operand heq
      obtain ⟨rfl, rfl, rfl⟩ := ih₁ h₁' (h₂.operand_ends hr.tail_congr)
        (h₂'.operand_ends hr'.tail_congr) hrest
      obtain ⟨rfl, rfl, rfl⟩ := ih₂ h₂' hr.tail_congr hr'.tail_congr
        (List.append_cancel_left hrest)
      exact ⟨rfl, rfl, rfl⟩

end Derives

/-- **No text has two trees**, nor two nestings. -/
theorem Sentence.unique {d d' : Nat} {s : List Char} {e e' : Expr} (h : Sentence d s e)
    (h' : Sentence d' s e') : d = d' ∧ e = e' := by
  obtain ⟨w, s₁, hw, rfl, hs⟩ := h
  obtain ⟨w', s₁', hw', heq, hs'⟩ := h'
  have hhead := hs.not_blank_of_chain (r := [])
  have hhead' := hs'.not_blank_of_chain (r := [])
  rw [List.append_nil] at hhead hhead'
  obtain ⟨rfl, rfl⟩ := hw.unique hw' hhead hhead' heq
  obtain ⟨hd, -, he⟩ := hs.unique hs' .nil .nil rfl
  exact ⟨hd, he⟩

end TextMatch.Calculator
