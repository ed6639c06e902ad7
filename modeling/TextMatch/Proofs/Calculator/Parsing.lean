import TextMatch.Proofs.Calculator.Recognition
import TextMatch.Proofs.Engine.Guarded

namespace TextMatch.Calculator

/-!
# Parsing

The parser accepts the sentences of the grammar and no others.

* `exists_run_program` — the bound on its steps is enough for every text;
* `parseWithin_eq_ok_iff` — with a limit, the sentences that are nested no deeper are accepted;
* `parse_eq_ok_iff_sentence` — without one, all of them are;
* `parseWithin_eq_ok_iff_nesting_le` — a limit rejects what is nested too deeply and has no other
  effect.
-/

open Matcher (Quiet Guarded Consumes keepLeft keepRight matchAll)

/-! ### Enough steps -/

section

variable {S : Signature} {r : Recursion S} {c : Char} {t : Tier} {kind : Char → Bool}

/-- A token is looked for without captures, rules or actions. -/
theorem quiet_token : (token c : Matcher S Char).Quiet := by
  simp [token, blanks, keepLeft, Matcher.char, Quiet]

/-- A token refers to nothing, so there is nothing that would need a guard. -/
theorem guarded_token : (token c : Matcher S Char).Guarded kind := by
  simp [token, blanks, keepLeft, Matcher.char, Guarded]

/-- A token uses up its own character, whatever blanks follow it. -/
theorem consumes_token (hc : kind c = true) : (token c : Matcher S Char).Consumes kind := by
  simp [token, keepLeft, Matcher.char, Consumes, hc]

/-- What a run of digits leads to is a value or a failure. -/
theorem quiet_number : (number : Matcher S Expr).Quiet := by
  refine ⟨⟨trivial, fun ds => ?_⟩, trivial⟩
  unfold numberOf
  split <;> trivial

/-- Numbers are read without references, whatever the digits are. -/
theorem guarded_number : (number : Matcher S Expr).Guarded kind := by
  refine ⟨⟨trivial, .inr fun ds => ?_⟩, .inr trivial⟩
  unfold numberOf
  split <;> trivial

/-- Operators are alternatives of two tokens. -/
theorem quiet_operator : (t.operator : Matcher S Operator).Quiet := by
  cases t <;> exact ⟨quiet_token, quiet_token⟩

/-- Neither of the two tokens of a tier refers to anything. -/
theorem guarded_operator : (t.operator : Matcher S Operator).Guarded kind := by
  cases t <;> exact ⟨guarded_token, guarded_token⟩

/-- A chain does with operands and operators what these do. -/
theorem quiet_chainLeft {operand : Matcher S Expr} (h : operand.Quiet) :
    (chainLeft operand t.operator).Quiet := ⟨h, quiet_operator, h⟩

/-- In a chain only the operands refer to anything. -/
theorem guarded_chainLeft {operand : Matcher S Expr} (h : operand.Guarded kind) :
    (chainLeft operand t.operator).Guarded kind := ⟨h, .inr ⟨guarded_operator, .inr h⟩⟩

/-- A factor is quiet if the references in it are. -/
theorem quiet_factor (hexpression : r.expression.Quiet) (hfactor : r.factor.Quiet) :
    (factor r).Quiet :=
  ⟨⟨quiet_number, ⟨quiet_token, hexpression⟩, quiet_token⟩, quiet_token, hfactor⟩

/-- Both references of a factor come behind a sign of their own. -/
theorem guarded_factor (hopen : kind '(' = true) (hminus : kind '-' = true) :
    (factor r).Guarded kind :=
  ⟨⟨guarded_number, ⟨guarded_token, .inl (consumes_token hopen)⟩, .inr guarded_token⟩,
    guarded_token, .inl (consumes_token hminus)⟩

/-- Expressions are chains of chains of factors, none of which touches the state. -/
theorem quiet_expression (hexpression : r.expression.Quiet) (hfactor : r.factor.Quiet) :
    (expression r).Quiet :=
  quiet_chainLeft (t := .sum) (quiet_chainLeft (t := .product) (quiet_factor hexpression hfactor))

/-- The references of an expression are those of its factors. -/
theorem guarded_expression (hopen : kind '(' = true) (hminus : kind '-' = true) :
    (expression r).Guarded kind :=
  guarded_chainLeft (t := .sum) (guarded_chainLeft (t := .product) (guarded_factor hopen hminus))

end

/-! The grammar leaves the state alone, and each of its references comes behind a sign. -/

/-- A name is quiet whatever it stands for, so its definition is. -/
theorem quiet_definition (name : Nonterminal) : (definition name).Quiet := by
  cases name with
  | expression => exact quiet_expression trivial trivial
  | factor => exact quiet_factor trivial trivial

/-- Around the expression of a program there are blanks and the end. -/
theorem quiet_program : (program recursion).Quiet :=
  ⟨⟨trivial, quiet_expression trivial trivial⟩, trivial⟩

section

variable {kind : Char → Bool} (hopen : kind '(' = true) (hminus : kind '-' = true)
include hopen hminus

/-- Both definitions refer to names behind `(` and `-` only. -/
theorem guarded_definition (name : Nonterminal) : (definition name).Guarded kind := by
  cases name with
  | expression => exact guarded_expression hopen hminus
  | factor => exact guarded_factor hopen hminus

/-- A program is guarded as its expression is. -/
theorem guarded_program : (program recursion).Guarded kind :=
  ⟨⟨trivial, .inr (guarded_expression hopen hminus)⟩, .inr trivial⟩

end

/-- **The bound is enough.** The parser has an outcome for every text. -/
theorem exists_run_program (limit : Option Nat) (input : String) :
    ∃ o st', (program recursion).run (host Place) (bound input.toList) (initial Place limit)
      (.start input) = some (o, st') := by
  -- Here a character of any kind will do.
  have hguarded : (program recursion).Guarded fun _ => true := guarded_program rfl rfl
  exact exists_run_of_affords quiet_definition (guarded_definition rfl rfl) quiet_program
    (initial Place limit) (.inl ⟨hguarded, Nat.lt_succ_self _⟩)

/-- The parser accepts what the matcher of programs takes. -/
theorem parseWithin_eq_ok_iff_evaluates {limit : Option Nat} {input : String} {e : Expr} :
    parseWithin limit input = .ok e ↔ ∃ q st', Evaluates (host Place) (program recursion)
      (initial Place limit) (.start input) (.success e q) st' := by
  obtain ⟨o, st', hrun⟩ := exists_run_program limit input
  have heval := Matcher.evaluates_of_run hrun
  simp only [parseWithin, hrun]
  constructor
  · intro h
    -- The bound is enough, so the parser has run to an end, and says which.
    cases o with
    | success v q => cases h; exact ⟨q, st', heval⟩
    | failure q => cases h
  · rintro ⟨q, st₁, he⟩
    obtain ⟨rfl, rfl⟩ := he.unique heval
    rfl

/-- The parser reports the place where the matcher of programs fails. -/
theorem exists_failure_of_parseWithin {limit : Option Nat} {input : String} {err : Error}
    (h : parseWithin limit input = .error err) :
    ∃ q st', Evaluates (host Place) (program recursion) (initial Place limit) (.start input)
      (.failure q) st' ∧ err = .unexpected q := by
  obtain ⟨o, st', hrun⟩ := exists_run_program limit input
  simp only [parseWithin, hrun] at h
  cases o with
  | success v q => cases h
  | failure q => cases h; exact ⟨q, st', Matcher.evaluates_of_run hrun, rfl⟩

/-! ### Sentences -/

/-- At the start every nesting within the limit is allowed. -/
theorem allows_initial {limit : Option Nat} {d : Nat} :
    (initial Place limit).context.Allows d ↔ ∀ n, limit = some n → d ≤ n := by
  simp [Context.Allows, initial, Context.new]

/-- A program takes a sentence, if there is room for its nesting. -/
theorem takes_program {d : Nat} {s : List Char} {e : Expr} {st : State signature Place Unit}
    (h : Sentence d s e) (hd : st.context.Allows d) :
    Takes (host Place) (program recursion) st s e [] := by
  obtain ⟨w, s', hw, rfl, hs⟩ := h
  have hexpression : Takes (host Place) (expression recursion) st s' e [] := by
    -- Behind the expression there is nothing, which no phrase could go on with.
    have htakes := takes_of_derives hs .nil hd
    rwa [List.append_nil] at htakes
  have hhead := hs.not_blank_of_chain (r := [])
  rw [List.append_nil] at hhead
  exact .keepLeft (.keepRight (takes_blanks hw hhead) hexpression) .atEnd

/-- What a program takes is a sentence, and there was room for its nesting. -/
theorem program_success {e : Expr} {st st' : State signature Place Unit} {p q : Place}
    (h0 : st.context.Allows 0)
    (h : Evaluates (host Place) (program recursion) st p (.success e q) st') :
    ∃ d, Sentence d p.ahead e ∧ st.context.Allows d := by
  obtain ⟨r₂, st₂, _, hbody, hend⟩ := h.keepLeft_success
  obtain ⟨r₁, st₁, w, hblanks, hexpression⟩ := hbody.keepRight_success
  obtain ⟨hw, hp⟩ := blanks_success hblanks
  -- The end is reached, so the expression was all that was left.
  obtain ⟨hr₂, -⟩ := atEnd_success hend
  obtain ⟨d, s, hs, hr₁, hd⟩ := sound .expression r₁ _ _ _ _
    ((Context.Allows.of_evaluates hblanks).2 h0) hexpression
  rw [hr₂, List.append_nil] at hr₁
  rw [Context.Allows.of_evaluates hblanks] at hd
  exact ⟨d, ⟨w, s, hw, by rw [hp, hr₁], hs⟩, hd⟩

/-- **The parser accepts exactly the sentences** that are nested no deeper than the limit. -/
theorem parseWithin_eq_ok_iff {limit : Option Nat} {input : String} {e : Expr} :
    parseWithin limit input = .ok e ↔
      ∃ d, Sentence d input.toList e ∧ ∀ n, limit = some n → d ≤ n := by
  rw [parseWithin_eq_ok_iff_evaluates]
  constructor
  · rintro ⟨q, st', he⟩
    have h0 : (initial Place limit).context.Allows 0 := allows_initial.2 fun n _ => Nat.zero_le n
    obtain ⟨d, hs, hd⟩ := program_success h0 he
    exact ⟨d, hs, allows_initial.1 hd⟩
  · rintro ⟨d, hs, hd⟩
    obtain ⟨q, he, -⟩ := takes_program hs (allows_initial.2 hd) (.start input) rfl
    exact ⟨q, _, he⟩

/-- Without a limit the parser accepts every sentence. -/
theorem parse_eq_ok_iff {input : String} {e : Expr} :
    parse input = .ok e ↔ ∃ d, Sentence d input.toList e := by
  rw [parse, parseWithin_eq_ok_iff]
  exact exists_congr fun d => and_iff_left (by rintro n ⟨⟩)

example : parse "2 * (3 + 4)" =
    .ok (.binary .mul (.number 2) (.binary .add (.number 3) (.number 4))) := rfl

/-- **The parser is the grammar.** A text parses to a tree exactly if it is a sentence with that
    tree, and no text has two trees. -/
theorem parse_eq_ok_iff_sentence :
    (∀ (input : String) (e : Expr), parse input = .ok e ↔ ∃ d, Sentence d input.toList e) ∧
      ∀ (s : List Char) (d d' : Nat) (e e' : Expr), Sentence d s e → Sentence d' s e' → e = e' := by
  refine ⟨fun input e => ?_, fun s d d' e e' h h' => (h.unique h').2⟩
  rw [parse, parseWithin_eq_ok_iff]
  constructor
  · rintro ⟨d, hs, -⟩
    exact ⟨d, hs⟩
  · rintro ⟨d, hs⟩
    exact ⟨d, hs, fun n hn => nomatch hn⟩

/-- Differences are grouped from the left, and in no other way. -/
theorem sentence_difference :
    (∃ d, Sentence d "1 - 2 - 3".toList
      (.binary .sub (.binary .sub (.number 1) (.number 2)) (.number 3))) ∧
      ¬∃ d, Sentence d "1 - 2 - 3".toList
        (.binary .sub (.number 1) (.binary .sub (.number 2) (.number 3))) := by
  obtain ⟨d, hs⟩ := (parse_eq_ok_iff_sentence.1 "1 - 2 - 3" _).1 rfl
  refine ⟨⟨d, hs⟩, ?_⟩
  rintro ⟨d', hs'⟩
  exact absurd (parse_eq_ok_iff_sentence.2 _ _ _ _ _ hs hs') (by decide)

/-! ### Limits -/

/-- **A limit rejects what is nested too deeply, and nothing else.** With a limit a text parses to a
    tree exactly if it does so without one and its nesting, of which there is only one, does not
    pass the limit; so a greater limit accepts what a smaller one accepts. -/
theorem parseWithin_eq_ok_iff_nesting_le :
    (∀ (input : String) (n : Nat) (e : Expr), parseWithin (some n) input = .ok e ↔
      parse input = .ok e ∧ ∃ d, Sentence d input.toList e ∧ d ≤ n) ∧
      (∀ (s : List Char) (d d' : Nat) (e e' : Expr),
        Sentence d s e → Sentence d' s e' → d = d') ∧
      ∀ (input : String) (n n' : Nat) (e : Expr), n ≤ n' →
        parseWithin (some n) input = .ok e → parseWithin (some n') input = .ok e := by
  refine ⟨fun input n e => ?_, fun s d d' e e' h h' => (h.unique h').1, ?_⟩
  · rw [parse, parseWithin_eq_ok_iff, parseWithin_eq_ok_iff]
    constructor
    · rintro ⟨d, hs, hd⟩
      exact ⟨⟨d, hs, fun n hn => nomatch hn⟩, d, hs, hd n rfl⟩
    · rintro ⟨-, d, hs, hd⟩
      refine ⟨d, hs, ?_⟩
      rintro _ ⟨⟩
      exact hd
  · intro input n n' e hle h
    rw [parseWithin_eq_ok_iff] at h ⊢
    obtain ⟨d, hs, hd⟩ := h
    refine ⟨d, hs, ?_⟩
    rintro _ ⟨⟩
    exact Nat.le_trans (hd n rfl) hle

/-- Two pairs of parentheses are a nesting of two, whatever the limit above that. -/
theorem parseWithin_three_eq_ok :
    parseWithin (some 3) "((1))" = .ok (.number 1) ∧
      (∃ d, Sentence d "((1))".toList (.number 1) ∧ d ≤ 2) ∧
      ¬∃ d, Sentence d "((1))".toList (.number 1) ∧ d ≤ 1 := by
  have htwo : parseWithin (some 2) "((1))" = .ok (.number 1) := rfl
  have hone : parseWithin (some 1) "((1))" ≠ .ok (.number 1) := by
    rintro ⟨⟩
  refine ⟨parseWithin_eq_ok_iff_nesting_le.2.2 _ 2 3 _ (by decide) htwo,
    ((parseWithin_eq_ok_iff_nesting_le.1 _ _ _).1 htwo).2, ?_⟩
  rintro ⟨d, hs, hd⟩
  obtain ⟨d', hs', hd'⟩ := ((parseWithin_eq_ok_iff_nesting_le.1 _ _ _).1 htwo).2
  obtain rfl := parseWithin_eq_ok_iff_nesting_le.2.1 _ _ _ _ _ hs hs'
  exact hone ((parseWithin_eq_ok_iff_nesting_le.1 _ _ _).2 ⟨rfl, d, hs, hd⟩)

end TextMatch.Calculator
