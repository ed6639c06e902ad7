import TextMatch.Proofs.Calculator.Parsing
import TextMatch.Proofs.Engine.GuardedNesting
import TextMatch.Proofs.Engine.Limits

namespace TextMatch.Calculator

/-!
# How deep a text can be nested

A factor refers to another expression behind an opening parenthesis and to another factor behind a
minus sign, and nowhere else.  So these characters are all that nests, in texts that are rejected as
well as in sentences, and as many levels as there are of them are as good as no limit.

* `openers` — the number of opening parentheses and minus signs;
* `depth_le_openers` — no run of the grammar is nested more deeply;
* `parseWithin_eq_parse_of_openers_le` — the parser ends without a limit, and with a limit that is
  not smaller it gives the same answer.

Some minus signs are operators between two terms, which do not nest; they are counted too.
-/

/-- The characters behind which a rule is referred to. -/
def isOpener (c : Char) : Bool := c == '(' || c == '-'

/-- The number of opening parentheses and minus signs in a text. -/
def openers (s : List Char) : Nat := s.countP isOpener

/-- **Only openers nest.** With or without a limit, and whether the text is a sentence or not. -/
theorem depth_le_openers {limit : Option Nat} {input : String} {x : State signature Place Unit}
    (h : Call.Visits (host Place) ⟨program recursion, initial Place limit, .start input⟩ x) :
    x.context.depth ≤ openers input.toList := by
  have hguarded : (program recursion).Guarded isOpener := guarded_program rfl rfl
  have hdepth := h.depth_le_of_guarded quiet_definition (guarded_definition rfl rfl) quiet_program
    hguarded
  -- At the start of the text nothing is nested and everything is ahead.
  exact Nat.le_trans hdepth (Nat.le_of_eq (Nat.zero_add _))

/-- What an outcome of the matcher of programs says about a text. -/
def answer : Outcome Place Expr → Except Error Expr
  | .success e _ => .ok e
  | .failure q => .error (.unexpected q)

/-- The parser answers what the matcher of programs ends with. -/
theorem parseWithin_eq_answer {limit : Option Nat} {input : String} {o : Outcome Place Expr}
    {st' : State signature Place Unit}
    (h : Evaluates (host Place) (program recursion) (initial Place limit) (.start input) o st') :
    parseWithin limit input = answer o := by
  obtain ⟨o', st₁, hrun⟩ := exists_run_program limit input
  obtain ⟨rfl, -⟩ := h.unique (Matcher.evaluates_of_run hrun)
  simp only [parseWithin, hrun]
  cases o <;> rfl

/-- **As many levels as openers are enough.** Without a limit the matcher of programs has an outcome
    for every text, the same within every bound from that of the parser on, and this is the
    parser's answer.  On the way nothing is nested more deeply than there are opening parentheses
    and minus signs in the text; so under a limit that is not smaller the parser gives the very same
    answer, tree or error. -/
theorem parseWithin_eq_parse_of_openers_le (input : String) :
    (∃ o st', (∀ larger, bound input.toList ≤ larger →
        (program recursion).run (host Place) larger (initial Place none) (.start input) =
          some (o, st')) ∧
      parse input = answer o) ∧
      (∀ x, Call.Visits (host Place) ⟨program recursion, initial Place none, .start input⟩ x →
        x.context.depth ≤ openers input.toList) ∧
      ∀ n, openers input.toList ≤ n → parseWithin (some n) input = parse input := by
  obtain ⟨o, st', hrun⟩ := exists_run_program none input
  have he := Matcher.evaluates_of_run hrun
  have hparse : parse input = answer o := parseWithin_eq_answer he
  refine ⟨⟨o, st', fun larger hle => Matcher.run_mono hle hrun, hparse⟩,
    fun x hx => depth_le_openers hx, fun n hn => ?_⟩
  -- The limit is not reached in the run without one.
  have hl : Call.Comparable (host Place) (some n)
      ⟨program recursion, initial Place none, .start input⟩ :=
    .inl (Call.indifferent_of_depth_le rfl fun x hx => Nat.le_trans (depth_le_openers hx) hn)
  rw [hparse]
  exact parseWithin_eq_answer (he.withLimit hl)

/-- Of a text that ends inside its second parenthesis two levels tell as much as any number does,
    and a single one does not. -/
theorem parseWithin_eq_parse_unclosed :
    openers "((1".toList ≤ 2 ∧ parseWithin (some 2) "((1" = parse "((1" ∧
      parse "((1" = .error (.unexpectedEnd ⟨3, 0, 3⟩) ∧
      parseWithin (some 1) "((1" = .error (.unexpectedChar '1' ⟨2, 0, 2⟩) := by
  have hopeners : openers "((1".toList ≤ 2 := by decide
  exact ⟨hopeners, (parseWithin_eq_parse_of_openers_le "((1").2.2 2 hopeners, rfl, rfl⟩

end TextMatch.Calculator
