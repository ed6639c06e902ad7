import Mathlib.Algebra.Group.Nat.Defs
import TextMatch.Proofs.Cursor.Place

namespace TextMatch.Place

open Cursor (advanceBy Ahead)

/-!
# The counts of a place

A place counts as it goes.  Here the counts are said of the characters that were passed, and the
text between two places is said to be those passed from the one to the other.

* `Marks` — a place between a front part of a text and the rest of it, counts and all;
* `marks_advanceBy` — advancing from such a place leads to the next ones;
* `Marks.exists_column` — the column, said of the last line;
* `CountsFit`, `countsFit_of_ahead` — line and column in 32 bits, and the texts that ensure it;
* `isBefore_advanceBy_advanceBy` — of two places ahead, the one that is fewer steps ahead is
  before;
* `between_append_ahead`, `between_advanceBy` — the text between two places ahead.
-/

variable {p q : Place} {passed rest : List Char}

/-! ### What a place says of a text -/

/-- The place between the characters `passed` and the rest of a text. -/
structure Marks (p : Place) (passed rest : List Char) : Prop where
  behind_eq : p.behind = passed.reverse
  ahead_eq : p.ahead = rest
  index_eq : p.index = byteSize passed
  /-- Line feeds are counted, whatever stands in front of them. -/
  line_eq : p.line = passed.count '\n'
  /-- What was passed since the last line feed is what comes first when looking back. -/
  column_eq : p.column = (passed.reverse.takeWhile (· ≠ '\n')).length

/-- The characters passed and the rest leave a place no freedom. -/
theorem Marks.unique (hp : p.Marks passed rest) (hq : q.Marks passed rest) : p = q := by
  obtain ⟨b, a, i, l, c⟩ := p
  obtain ⟨b', a', i', l', c'⟩ := q
  -- Each of the five fields is said to be a function of the two lists.
  obtain ⟨rfl, rfl, rfl, rfl, rfl⟩ := hp
  obtain ⟨rfl, rfl, rfl, rfl, rfl⟩ := hq
  rfl

theorem marks_ofChars (cs : List Char) : (ofChars cs).Marks [] cs := ⟨rfl, rfl, rfl, rfl, rfl⟩

/-- A step passes one more character. -/
theorem Marks.advance {c : Char} {cs : List Char} (h : p.Marks passed (c :: cs)) :
    p.advance.Marks (passed ++ [c]) cs := by
  have hadvance := h.ahead_eq
  refine ⟨?_, ?_, ?_, ?_, ?_⟩ <;> simp only [Place.advance, hadvance]
  · simp [h.behind_eq]
  · rw [h.index_eq, byteSize_append, byteSize, byteSize, Nat.add_zero]
  · rw [h.line_eq, List.count_append]
    -- A line feed begins a line, whose column is zero.
    by_cases hc : c = '\n' <;> simp [hc]
  · rw [h.column_eq, List.reverse_append, List.reverse_singleton, List.singleton_append]
    by_cases hc : c = '\n' <;> simp [hc]

/-- **Counting is faithful.** Advancing a number of times passes as many
    characters, or all there are. -/
theorem marks_advanceBy (k : Nat) (h : p.Marks passed rest) :
    (advanceBy k p).Marks (passed ++ rest.take k) (rest.drop k) := by
  induction k generalizing p passed rest with
  | zero => simpa using h
  | succ k ih =>
    rw [Cursor.advanceBy_succ, cursor_advance]
    cases rest with
    | nil =>
      rw [advance_nil h.ahead_eq]
      simpa using ih h
    | cons c cs => simpa using ih h.advance

/-- A place of a text stands behind the characters it has passed. -/
theorem marks_advanceBy_start (k : Nat) (text : String) :
    (advanceBy k (start text)).Marks (text.toList.take k) (text.toList.drop k) :=
  marks_advanceBy k (marks_ofChars text.toList)

/-- The column counts what follows the last line feed, or everything if there is none. -/
theorem Marks.exists_column (h : p.Marks passed rest) :
    ∃ lines last, passed = lines ++ last ∧ (∀ c ∈ lines.getLast?, c = '\n') ∧ '\n' ∉ last ∧
      p.column = last.length := by
  refine ⟨(passed.reverse.dropWhile (· ≠ '\n')).reverse,
    (passed.reverse.takeWhile (· ≠ '\n')).reverse, ?_, fun c hc => ?_, fun hmem => ?_, ?_⟩
  · rw [← List.reverse_append, List.takeWhile_append_dropWhile, List.reverse_reverse]
  · have hnot := List.head?_dropWhile_not (· ≠ '\n') passed.reverse
    rw [List.getLast?_reverse] at hc
    rw [hc] at hnot
    simpa using hnot
  · have hall := List.all_eq_true.1 List.all_takeWhile _ (List.mem_reverse.1 hmem)
    simp at hall
  · rw [List.length_reverse, h.column_eq]

/-- Line feeds and what follows the last of them are different characters. -/
theorem Marks.line_add_column_le (h : p.Marks passed rest) :
    p.line + p.column ≤ passed.length := by
  obtain ⟨lines, last, rfl, -, hlast, hcolumn⟩ := h.exists_column
  rw [h.line_eq, hcolumn, List.count_append, List.count_eq_zero_of_not_mem hlast,
    List.length_append]
  have := List.count_le_length (a := '\n') (l := lines)
  omega

/-- The line and the column fit into 32 bits, in which they are counted. -/
structure CountsFit (p : Place) : Prop where
  line_lt : p.line < 2 ^ 32
  column_lt : p.column < 2 ^ 32

/-- Behind fewer than `2 ^ 32` characters line and column fit into 32 bits. -/
theorem Marks.countsFit (h : p.Marks passed rest) (hlength : passed.length < 2 ^ 32) :
    p.CountsFit := by
  have hle := h.line_add_column_le
  exact ⟨by omega, by omega⟩

/-- In a text of fewer than `2 ^ 32` characters no count grows too large, however far one goes. -/
theorem countsFit_of_ahead {text : String} (hlength : text.length < 2 ^ 32)
    (h : Ahead (start text) p) : p.CountsFit := by
  obtain ⟨k, rfl⟩ := h
  refine (marks_advanceBy_start k text).countsFit ?_
  rw [List.length_take, String.length_toList]
  omega

/-! ### Two places of a text -/

/-- What lies further ahead is reached by going on. -/
theorem advanceBy_of_le {i j : Nat} (h : i ≤ j) (p : Place) :
    advanceBy j p = advanceBy (j - i) (advanceBy i p) := by
  rw [← Cursor.advanceBy_add, Nat.add_sub_cancel' h]

/-- Steps never lead back. -/
theorem index_advanceBy_le {i j : Nat} (h : i ≤ j) (p : Place) :
    (advanceBy i p).index ≤ (advanceBy j p).index := by
  rw [advanceBy_of_le h p, index_advanceBy (j - i)]
  exact Nat.le_add_right _ _

/-- As long as there are characters, one step more is one place further on. -/
theorem isBefore_advanceBy_advanceBy {i j : Nat} (hj : j ≤ p.ahead.length) :
    Cursor.isBefore (advanceBy i p) (advanceBy j p) = decide (i < j) := by
  rw [Bool.eq_iff_iff, decide_eq_true_eq]
  rcases Nat.lt_or_ge i j with hlt | hge
  · rw [advanceBy_of_le (Nat.le_of_lt hlt), isBefore_advanceBy, ahead_advanceBy, Ne,
      List.take_eq_nil_iff, List.drop_eq_nil_iff]
    omega
  · -- Going back needs fewer bytes, never more.
    have hindex := index_advanceBy_le hge p
    rw [cursor_isBefore, decide_eq_true_eq]
    omega

/-- No place is before one that it lies ahead of. -/
theorem not_isBefore_of_ahead (h : Ahead p q) : Cursor.isBefore q p = false := by
  obtain ⟨k, rfl⟩ := h
  rw [cursor_isBefore, decide_eq_false_iff_not, index_advanceBy]
  omega

/-- Of two places ahead of the same one, the one with less text left is further on. -/
theorem isBefore_iff_length_lt {r : Place} (hq : Ahead p q) (hr : Ahead p r) :
    Cursor.isBefore q r = true ↔ r.ahead.length < q.ahead.length := by
  obtain ⟨i, rfl⟩ := hq
  obtain ⟨j, rfl⟩ := hr
  rcases Nat.le_total i j with hle | hge
  · have hahead : Ahead (advanceBy i p) (advanceBy j p) := ⟨j - i, advanceBy_of_le hle p⟩
    exact ⟨length_ahead_lt_of_isBefore hahead, isBefore_of_length_ahead_lt hahead⟩
  · have hahead : Ahead (advanceBy j p) (advanceBy i p) := ⟨i - j, advanceBy_of_le hge p⟩
    have hle := length_ahead_le hahead
    rw [not_isBefore_of_ahead hahead]
    exact ⟨fun h => (nomatch h), fun h => absurd h (Nat.not_lt_of_le hle)⟩

/-- What a place has passed is known from what is ahead of it. -/
theorem marks_of_ahead (hp : p.Marks passed rest) (hq : Ahead p q) {middle : List Char}
    (hrest : rest = middle ++ q.ahead) : q.Marks (passed ++ middle) q.ahead := by
  obtain ⟨k, rfl⟩ := hq
  have hmarks := marks_advanceBy k hp
  rw [hmarks.ahead_eq] at hrest ⊢
  have htake : rest.take k = middle :=
    List.append_cancel_right ((List.take_append_drop k rest).trans hrest)
  rwa [htake] at hmarks

/-- At the end no step leads on. -/
theorem advanceBy_of_ahead_eq_nil (k : Nat) (h : p.ahead = []) : advanceBy k p = p := by
  induction k with
  | zero => rfl
  | succ k ih => rw [Cursor.advanceBy_succ, cursor_advance, advance_nil h, ih]

/-- A place ahead is as many steps away as there are characters in between. -/
theorem eq_advanceBy_of_ahead (h : Ahead p q) {middle : List Char}
    (hp : p.ahead = middle ++ q.ahead) : q = advanceBy middle.length p := by
  obtain ⟨k, rfl⟩ := h
  have hlength := congrArg List.length hp
  simp only [ahead_advanceBy, List.length_append, List.length_drop] at hlength
  obtain hlt | hle := Nat.lt_or_ge p.ahead.length k
  · -- There were more steps than characters, and those too many led nowhere.
    have hend : (advanceBy middle.length p).ahead = [] := by
      rw [ahead_advanceBy, List.drop_eq_nil_iff]
      omega
    rw [advanceBy_of_le (show middle.length ≤ k by omega), advanceBy_of_ahead_eq_nil _ hend]
  · rw [show middle.length = k by omega]

/-- The text up to a place ahead is what is passed on the way. -/
theorem between_advanceBy_self (k : Nat) (p : Place) :
    Cursor.between p (advanceBy k p) = p.ahead.take k := by
  show p.upTo (advanceBy k p).index = _
  have hbytes : takeBytes? (byteSize (p.ahead.take k)) p.ahead = some (p.ahead.take k) := by
    have hfront := takeBytes?_append (p.ahead.take k) (p.ahead.drop k)
    rwa [List.take_append_drop] at hfront
  rw [upTo, index_advanceBy, Nat.add_sub_cancel_left, hbytes, Option.getD_some]

/-- The text up to a place ahead, and then the text ahead of it. -/
theorem between_append_ahead (h : Ahead p q) : Cursor.between p q ++ q.ahead = p.ahead := by
  obtain ⟨k, rfl⟩ := h
  rw [between_advanceBy_self, ahead_advanceBy, List.take_append_drop]

/-- **Texts between places.** From the place after `i` steps to the one after `j` there are the
    characters from `i` to `j`; they are none if the second place is not further ahead. -/
theorem between_advanceBy (i j : Nat) (p : Place) :
    Cursor.between (advanceBy i p) (advanceBy j p) = (p.ahead.drop i).take (j - i) := by
  rcases Nat.le_total i j with hle | hge
  · rw [advanceBy_of_le hle, between_advanceBy_self, ahead_advanceBy]
  · have hindex := index_advanceBy_le hge p
    have hback : Cursor.between (advanceBy i p) (advanceBy j p) = [] := by
      show (advanceBy i p).upTo (advanceBy j p).index = []
      rw [upTo, Nat.sub_eq_zero_of_le hindex, takeBytes?_zero, Option.getD_some]
    rw [hback, Nat.sub_eq_zero_of_le hge, List.take_zero]

end TextMatch.Place
