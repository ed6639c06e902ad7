import TextMatch.Proofs.Calculator.Parsing
import TextMatch.Proofs.Calculator.Stopping

namespace TextMatch.Calculator

open Cursor (advanceBy Ahead)
open Place (byteSize)

/-!
# Where errors are reported

The parser reports the first place where the text stops being the beginning of a sentence, or an
operator before that place which it has given back.

* `Viable` — a text that some sentence begins with;
* `MaximalRunsFit` — the numbers of a text are not too large;
* `program_verdict` — a text is a sentence, or the matcher of programs fails and has a reason to;
* `parse_error_location` — what the reported place says of the text;
* `parseWithin_error_truthful` — what the error says of the reported place.
-/

variable {text : List Char}

/-! ### Beginnings of sentences -/

/-- Some continuation of the text is accepted. -/
def Viable (s : List Char) : Prop := ∃ k e, parse (String.ofList (s ++ k)) = .ok e

/-- To be viable is to have a continuation that makes a sentence. -/
theorem viable_iff_sentence {s : List Char} : Viable s ↔ ∃ k d e, Sentence d (s ++ k) e := by
  simp only [Viable, parse_eq_ok_iff, String.toList_ofList]
  exact exists_congr fun k => exists_comm

/-- Behind a character that the machine of beginnings stops at no text is viable. -/
theorem not_viable_append_singleton {s : List Char} {c : Char} {m : Mode} {k : Nat}
    (hleads : Leads .operand s m k) (hc : Scan.push? ⟨m, k⟩ c = none) : ¬Viable (s ++ [c]) := by
  rw [viable_iff_sentence]
  rintro ⟨v, d, e, hs⟩
  rw [List.append_assoc] at hs
  exact Sentence.not_append_cons hleads hc hs

/-! ### Texts whose numbers fit -/

/-- Every stretch of digits that is not part of a longer one stands for
    a number of sixty-four bits. -/
def MaximalRunsFit (text : List Char) : Prop :=
  ∀ a ds b, text = a ++ (ds ++ b) → (∀ c ∈ ds, '0' ≤ c ∧ c ≤ '9') →
    (∀ c ∈ a.getLast?, ¬('0' ≤ c ∧ c ≤ '9')) → (∀ c ∈ b.head?, ¬('0' ≤ c ∧ c ≤ '9')) →
    ∃ n, Decimal.value ds = some n ∧ n ≤ 2 ^ 63 - 1

/-- Shorter stretches of digits stand for smaller numbers. -/
theorem RunsFit.of_maximal (h : MaximalRunsFit text) : RunsFit text := by
  intro a ds b htext hds
  -- The stretch is made as long as it can be, to the left and to the right.
  obtain ⟨w, a', ha, hw, ha'⟩ := exists_longest_front CharClass.digit.contains a.reverse
  obtain ⟨w', b', rfl, hw', hb'⟩ := exists_longest_front CharClass.digit.contains b
  obtain rfl : a = a'.reverse ++ w.reverse := by
    rw [← List.reverse_append, ← ha, List.reverse_reverse]
  have hlonger : ∀ c ∈ w.reverse ++ (ds ++ w'), '0' ≤ c ∧ c ≤ '9' := by
    intro c hc
    rcases List.mem_append.1 hc with hc | hc
    · exact contains_digit_iff.1 (hw c (List.mem_reverse.1 hc))
    · rcases List.mem_append.1 hc with hc | hc
      · exact hds c hc
      · exact contains_digit_iff.1 (hw' c hc)
  have hleft : ∀ c ∈ a'.reverse.getLast?, ¬('0' ≤ c ∧ c ≤ '9') := by
    intro c hc hd
    rw [List.getLast?_reverse] at hc
    exact absurd (contains_digit_iff.2 hd) (Bool.eq_false_iff.1 (ha' c hc))
  have hright : ∀ c ∈ b'.head?, ¬('0' ≤ c ∧ c ≤ '9') := fun c hc hd =>
    absurd (contains_digit_iff.2 hd) (Bool.eq_false_iff.1 (hb' c hc))
  obtain ⟨n, hn, hle⟩ := h a'.reverse (w.reverse ++ (ds ++ w')) b'
    (by simpa only [List.append_assoc] using htext) hlonger hleft hright
  obtain ⟨k, hk, hkn⟩ := Decimal.exists_value_le_of_append hn
  exact ⟨k, hk, Nat.le_trans hkn hle⟩

/-- Eighteen digits always fit. -/
theorem maximalRunsFit_of_length_le (h : text.length ≤ 18) : MaximalRunsFit text := by
  rintro a ds b rfl hds - -
  obtain ⟨n, hn⟩ := Option.isSome_iff_exists.1 (Decimal.value_isSome_iff.2 hds)
  have hlength : ds.length ≤ 18 := by
    simp only [List.length_append] at h
    omega
  have hpow : 10 ^ ds.length ≤ 10 ^ 18 := Nat.pow_le_pow_right (by decide) hlength
  have hlt := Decimal.value_lt hn
  exact ⟨n, hn, by omega⟩

/-! ### Programs -/

/-- A text is a sentence, or the matcher of programs fails on it behind a beginning of a sentence,
    and has a reason to. -/
theorem program_verdict (hfits : RunsFit text) :
    (∃ d e, Sentence d text e) ∨ ∃ s rest m k, text = s ++ rest ∧ Viable s ∧
      Leads .operand s m k ∧
      (∀ c cs, rest = c :: cs → Scan.push? ⟨m, k⟩ c = none ∨ Dangling c cs) ∧
      Unlimited fun st => Fails (host Place) (program recursion) st text rest := by
  obtain ⟨w, inner, rfl, hw, hready⟩ := hfits.exists_ready
  have hblanks : ∀ {st}, Takes (host Place) blanks st (w ++ inner) w inner :=
    fun {st} => takes_blanks hw hready.not_blank
  rcases (verdict hready).1 with
    @⟨d, s, rest, e, m, rfl, hs, hleads, hm, hsettled, htakes⟩ |
    @⟨d, k, u, v, rest, e, m, rfl, hs, hleads, hstuck, hfails, -⟩
  · cases rest with
    | nil =>
      rw [List.append_nil]
      exact .inl ⟨d, e, w, s, hw, rfl, hs⟩
    | cons c cs =>
      -- The expression ends before the text does.
      refine .inr ⟨w ++ s, c :: cs, m, 0, (List.append_assoc ..).symm,
        viable_iff_sentence.2 ⟨[], d, e, w, s, hw, List.append_nil _, hs⟩,
        (Leads.blanks_due hw).append hleads, ?_, fun st hst => ?_⟩
      · rintro _ _ ⟨⟩
        exact (hsettled.stuck hm).imp_left fun hstuck => hstuck 0 fun _ => rfl
      · exact .keepLeftNext (.keepRight hblanks (htakes st hst)) (.atEnd (List.cons_ne_nil _ _))
  · refine .inr ⟨w ++ u, rest, m, k, (List.append_assoc ..).symm,
      viable_iff_sentence.2 ⟨v, d, e, w, u ++ v, hw, List.append_assoc .., hs⟩,
      (Leads.blanks_due hw).append hleads, fun c cs hrest => ?_, fun st hst => ?_⟩
    · refine (hstuck c cs hrest).imp_left fun hstuck => ?_
      have hzero := hstuck 0
      rwa [Nat.zero_add] at hzero
    · exact .keepLeft (.keepRightNext hblanks (hfails st hst)) _

/-! ### Reported places -/

/-- Where nothing is ahead the end is unexpected. -/
theorem Error.unexpected_of_nil {q : Place} (h : q.ahead = []) :
    Error.unexpected q = .unexpectedEnd (locate q) := by
  simp [Error.unexpected, h]

/-- Where a character is ahead this character is unexpected. -/
theorem Error.unexpected_of_cons {q : Place} {c : Char} {cs : List Char} (h : q.ahead = c :: cs) :
    Error.unexpected q = .unexpectedChar c (locate q) := by
  simp [Error.unexpected, h]

/-- Right behind a dangling operator and its blanks the matcher of factors fails. -/
theorem Dangling.exists_run {input : String} {s cs : List Char} {c : Char} (h : Dangling c cs)
    (hinput : input.toList = s ++ (c :: cs)) :
    ∃ (op : Operator) (w rest : List Char), c = op.symbol ∧ cs = w ++ rest ∧ Blanks w ∧
      (∀ c' ∈ rest.head?, c' ∉ blankChars) ∧
      ∃ bound q st', (factor recursion).run (host Place) bound (initial Place none)
        (advanceBy (s.length + 1 + w.length) (.start input)) = some (.failure q, st') := by
  obtain ⟨op, w, rest, hc, rfl, hw, hblank, hfactor⟩ := h
  refine ⟨op, w, rest, hc, rfl, hw, hblank, ?_⟩
  have hfront : input.toList = (s ++ (c :: w)) ++ rest := by
    rw [hinput, List.append_assoc, List.cons_append]
  have hlength : s.length + 1 + w.length = (s ++ (c :: w)).length := by
    rw [List.length_append, List.length_cons]
    omega
  have hahead : (advanceBy (s.length + 1 + w.length) (Place.start input)).ahead = rest := by
    rw [Place.ahead_advanceBy]
    show input.toList.drop _ = rest
    rw [hfront, hlength, List.drop_left]
  obtain ⟨q, hq⟩ := hfactor (initial Place none) rfl _ hahead
  obtain ⟨bound, hrun⟩ := Matcher.exists_run_of_evaluates hq
  exact ⟨bound, q, _, hrun⟩

/-- **Errors are reported where a text stops being the beginning of a sentence.** For a text that is
    rejected although its numbers are not too large, what stands in front of the reported place is
    the beginning of a sentence.  An unexpected end is the end of the text.  An unexpected character
    is the one at that place: with it no sentence begins any more, or it is an operator, and right
    behind it and its blanks the matcher of factors fails. -/
theorem parse_error_location (input : String) (err : Error) (hfits : MaximalRunsFit input.toList)
    (h : parse input = .error err) :
    (∃ l, err = .unexpectedEnd l ∧ l.index = byteSize input.toList ∧ Viable input.toList) ∨
      ∃ s c cs l, err = .unexpectedChar c l ∧ input.toList = s ++ (c :: cs) ∧
        l.index = byteSize s ∧ Viable s ∧
        (¬Viable (s ++ [c]) ∨
          ∃ (op : Operator) (w rest : List Char), c = op.symbol ∧ cs = w ++ rest ∧ Blanks w ∧
            (∀ c' ∈ rest.head?, c' ∉ blankChars) ∧
            ∃ bound q st', (factor recursion).run (host Place) bound (initial Place none)
              (advanceBy (s.length + 1 + w.length) (.start input)) = some (.failure q, st')) := by
  rcases program_verdict (RunsFit.of_maximal hfits) with
    ⟨d, e, hs⟩ | ⟨s, rest, m, k, htext, hviable, hleads, hstuck, hfails⟩
  · have hok : parse input = .ok e := parse_eq_ok_iff.2 ⟨d, hs⟩
    rw [h] at hok
    cases hok
  · obtain ⟨q, st', he, rfl⟩ := exists_failure_of_parseWithin h
    have hfail := hfails (initial Place none) rfl
    obtain ⟨q', hq', hrest⟩ := Fails.unique (p := Place.start input) hfail he
    cases hq'
    have hahead : Ahead (Place.start input) q := he.ahead
    -- What is left at the failure says how much of the text has been passed.
    have hmarks : q.Marks s q.ahead :=
      Place.marks_of_ahead (Place.marks_ofChars input.toList) hahead (by rw [htext, hrest])
    cases rest with
    | nil =>
      rw [List.append_nil] at htext
      rw [htext]
      exact .inl ⟨locate q, Error.unexpected_of_nil hrest, hmarks.index_eq, hviable⟩
    | cons c cs =>
      refine .inr ⟨s, c, cs, locate q, Error.unexpected_of_cons hrest, htext, hmarks.index_eq,
        hviable, ?_⟩
      rcases hstuck c cs rfl with hnone | hdangling
      · exact .inl (not_viable_append_singleton hleads hnone)
      · exact .inr (hdangling.exists_run htext)

/-- Of two unfinished parentheses it is the outer one whose last operator is reported. -/
theorem parse_error_location_nested :
    ∃ l, parse "(1 + (2 *" = .error (.unexpectedChar '+' l) ∧ l.index = 3 ∧
      ∃ s cs, "(1 + (2 *".toList = s ++ ('+' :: cs) ∧ byteSize s = 3 ∧ Viable s := by
  have herror : parse "(1 + (2 *" = .error (.unexpectedChar '+' ⟨3, 0, 3⟩) := rfl
  refine ⟨_, herror, rfl, ?_⟩
  rcases parse_error_location _ _ (maximalRunsFit_of_length_le (by decide)) herror with
    ⟨l, hl, -⟩ | ⟨s, c, cs, l, hl, htext, hindex, hviable, -⟩
  · cases hl
  · cases hl
    exact ⟨s, cs, htext, hindex.symm, hviable⟩

/-! ### What an error says of its place -/

/-- With or without a limit, the error is that of a place of the text. -/
theorem exists_marks_of_parseWithin {limit : Option Nat} {input : String} {err : Error}
    (h : parseWithin limit input = .error err) :
    ∃ q passed rest, err = .unexpected q ∧ input.toList = passed ++ rest ∧
      q.Marks passed rest := by
  obtain ⟨q, st', he, rfl⟩ := exists_failure_of_parseWithin h
  obtain ⟨k, rfl⟩ : Ahead (Place.start input) q := he.ahead
  exact ⟨_, _, _, rfl, (List.take_append_drop k _).symm, Place.marks_advanceBy_start k input⟩

/-- **Errors tell the truth.** Whatever the limit, a text that is rejected is unexpected
    somewhere: the offset is the size of what has been passed there, the line is the number of
    line feeds in that, and the column the number of characters since the last of them.  The end
    is unexpected exactly if the offset is the size of the whole text, and otherwise the
    character that comes next.  Lines and columns of a text of fewer than `2 ^ 32 - 1`
    characters fit in thirty-two bits. -/
theorem parseWithin_error_truthful (limit : Option Nat) (input : String) (err : Error)
    (h : parseWithin limit input = .error err) :
    ∃ (passed rest : List Char) (l : Location), input.toList = passed ++ rest ∧
      l.index = byteSize passed ∧ l.line = passed.count '\n' ∧
      (∃ lines last, passed = lines ++ last ∧ (∀ c ∈ lines.getLast?, c = '\n') ∧ '\n' ∉ last ∧
        l.column = last.length) ∧
      (input.length < 2 ^ 32 - 1 → l.line < 2 ^ 32 ∧ l.column < 2 ^ 32) ∧
      (err = .unexpectedEnd l ∧ rest = [] ∧ l.index = input.utf8ByteSize ∨
        ∃ c cs, err = .unexpectedChar c l ∧ rest = c :: cs ∧ l.index < input.utf8ByteSize) := by
  obtain ⟨q, passed, rest, rfl, htext, hmarks⟩ := exists_marks_of_parseWithin h
  have hsize : input.utf8ByteSize = byteSize passed + byteSize rest := by
    rw [← Place.byteSize_toList, htext, Place.byteSize_append]
  have hcounts : q.line + q.column ≤ input.length := by
    rw [← String.length_toList, htext, List.length_append]
    exact Nat.le_trans hmarks.line_add_column_le (Nat.le_add_right ..)
  refine ⟨passed, rest, locate q, htext, hmarks.index_eq, hmarks.line_eq, hmarks.exists_column,
    fun hlength => ?_, ?_⟩
  · show q.line < 2 ^ 32 ∧ q.column < 2 ^ 32
    omega
  · show _ ∧ _ ∧ q.index = _ ∨ ∃ c cs, _ ∧ _ ∧ q.index < _
    rw [hmarks.index_eq, hsize]
    cases rest with
    | nil => exact .inl ⟨Error.unexpected_of_nil hmarks.ahead_eq, rfl, rfl⟩
    | cons c cs =>
      -- The character that is left takes a byte at least, so the end is not reached.
      have hpos : 0 < byteSize (c :: cs) := Place.byteSize_pos (List.cons_ne_nil c cs)
      exact .inr ⟨c, cs, Error.unexpected_of_cons hmarks.ahead_eq, rfl, by omega⟩

/-- On the second line, inside a parenthesis, a character of two bytes
    is unexpected where it stands. -/
theorem parseWithin_error_truthful_secondLine :
    parseWithin (some 1) "(1\n é" = .error (.unexpectedChar 'é' ⟨4, 1, 1⟩) ∧
      ∃ passed cs, "(1\n é".toList = passed ++ ('é' :: cs) ∧ byteSize passed = 4 ∧
        passed.count '\n' = 1 ∧ ∃ lines last, passed = lines ++ last ∧ last.length = 1 := by
  have herror : parseWithin (some 1) "(1\n é" = .error (.unexpectedChar 'é' ⟨4, 1, 1⟩) := rfl
  obtain ⟨passed, rest, l, htext, hindex, hline, ⟨lines, last, hlines, -, -, hcolumn⟩, -, hend⟩ :=
    parseWithin_error_truthful _ _ _ herror
  rcases hend with ⟨hnot, -⟩ | ⟨c, cs, heq, rfl, -⟩
  · cases hnot
  · cases heq
    exact ⟨herror, passed, cs, htext, hindex.symm, hline.symm, lines, last, hlines, hcolumn.symm⟩

end TextMatch.Calculator
