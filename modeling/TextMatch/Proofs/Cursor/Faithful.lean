import Mathlib.Algebra.Group.Nat.Defs
import TextMatch.Proofs.Cursor.Marks

namespace TextMatch.Place

open Cursor (advanceBy)

/-!
# Places are faithful

A place is known by the number of characters passed.  Whatever it tells of its text is said here of
these characters and of those that are left, and the byte offsets of two places cut out of the
text, as it is kept in UTF-8, exactly the characters between them.

* `Tells` — what the place after a number of steps tells;
* `extract_index` — the bytes on either side of a place;
* `tells_advanceBy` — it tells so, as long as the counts fit into 32 bits;
* `sameOffset_advanceBy_advanceBy` — different numbers of steps lead to different offsets;
* `extract_index_index` — the bytes between two places;
* `advanceBy_start_faithful` — the places of a text, one by one and in pairs.
-/

/-! ### One place -/

/-- What the place after `i` steps from the beginning of a text tells. -/
structure Tells (text : String) (i : Nat) (p : Place) : Prop where
  /-- The index is the size of the characters passed. -/
  index_eq : p.index = (String.ofList (text.toList.take i)).utf8ByteSize
  /-- The line is the number of line feeds among them. -/
  line_eq : p.line = (text.toList.take i).count '\n'
  /-- The column is the number of those behind the last line feed, or of all if there is none. -/
  column_eq : ∃ lines last, text.toList.take i = lines ++ last ∧
    (∀ c ∈ lines.getLast?, c = '\n') ∧ '\n' ∉ last ∧ p.column = last.length
  /-- Both counts fit into 32 bits. -/
  line_lt : p.line < 2 ^ 32
  column_lt : p.column < 2 ^ 32
  /-- The rest is what has not been passed, and what the text has from the index on. -/
  rest_eq : p.rest = String.ofList (text.toList.drop i)
  bytes_eq : text.toByteArray.extract p.index text.utf8ByteSize = p.rest.toByteArray
  /-- What has been passed is what the text has up to the index. -/
  front_eq : text.toByteArray.extract 0 p.index = (String.ofList (text.toList.take i)).toByteArray
  /-- The current character is the first one that is left, also in the text cut at the index. -/
  current_eq : Cursor.current p = (text.toList.drop i).head?
  current_slice : ∀ back : String, back.toByteArray = text.toByteArray.extract p.index
    text.utf8ByteSize → Cursor.current p = back.toList.head?
  /-- The previous character is the last one passed, also in the text cut at the index. -/
  previous_eq : Cursor.previous p = (text.toList.take i).getLast?
  previous_slice : ∀ front : String, front.toByteArray = text.toByteArray.extract 0 p.index →
    Cursor.previous p = front.toList.getLast?
  /-- The end is where nothing is left, so where the index has reached the size of the text. -/
  atEnd_iff : Cursor.atEnd p = true ↔ text.toList.drop i = []
  atEnd_iff_le : Cursor.atEnd p = true ↔ text.utf8ByteSize ≤ p.index
  atStart_iff : Cursor.atStart p = true ↔ text.toList.take i = []
  advance_eq : Cursor.atEnd p = true → Cursor.advance p = p

/-- The size of a list of characters is that of the string they make up. -/
theorem byteSize_eq_utf8ByteSize (cs : List Char) :
    byteSize cs = (String.ofList cs).utf8ByteSize := by
  rw [← byteSize_toList, String.toList_ofList]

theorem byteSize_eq_zero_iff {cs : List Char} : byteSize cs = 0 ↔ cs = [] := by
  constructor
  · intro hzero
    by_contra hne
    have := byteSize_pos hne
    omega
  · rintro rfl
    rfl

/-- The bytes of a part of a text lie behind those of what precedes it. -/
theorem extract_toByteArray (front middle rest : List Char) :
    (String.ofList (front ++ (middle ++ rest))).toByteArray.extract (byteSize front)
        (byteSize front + byteSize middle) = (String.ofList middle).toByteArray := by
  have hsize (cs : List Char) : byteSize cs = (String.ofList cs).toByteArray.size := by
    rw [byteSize_eq_utf8ByteSize, String.size_toByteArray]
  rw [String.ofList_append, String.toByteArray_append, String.ofList_append,
    String.toByteArray_append]
  calc ((String.ofList front).toByteArray ++ ((String.ofList middle).toByteArray ++
          (String.ofList rest).toByteArray)).extract (byteSize front + 0)
            (byteSize front + byteSize middle)
      = ((String.ofList middle).toByteArray ++ (String.ofList rest).toByteArray).extract 0
          (byteSize middle) := ByteArray.extract_append_size_add' (hsize front)
    _ = (String.ofList middle).toByteArray := ByteArray.extract_append_eq_left (hsize middle)

/-- A text is cut at the index of a place into what has been passed and what is left. -/
theorem extract_index (text : String) (i : Nat) :
    text.toByteArray.extract 0 (advanceBy i (start text)).index =
        (String.ofList (text.toList.take i)).toByteArray ∧
      text.toByteArray.extract (advanceBy i (start text)).index text.utf8ByteSize =
        (String.ofList (text.toList.drop i)).toByteArray := by
  rw [(marks_advanceBy_start i text).index_eq]
  constructor
  · have hfront := extract_toByteArray [] (text.toList.take i) (text.toList.drop i)
    rwa [List.nil_append, List.take_append_drop, String.ofList_toList, byteSize, Nat.zero_add]
      at hfront
  · have hback := extract_toByteArray (text.toList.take i) (text.toList.drop i) []
    rwa [List.append_nil, List.take_append_drop, ← byteSize_append, List.take_append_drop,
      String.ofList_toList, byteSize_toList] at hback

/-- Nothing is left exactly where the index has reached the size of the text. -/
theorem drop_eq_nil_iff_le_index (text : String) (i : Nat) :
    text.toList.drop i = [] ↔ text.utf8ByteSize ≤ (advanceBy i (start text)).index := by
  have hsize : text.utf8ByteSize =
      byteSize (text.toList.take i) + byteSize (text.toList.drop i) := by
    rw [← byteSize_append, List.take_append_drop, byteSize_toList]
  rw [(marks_advanceBy_start i text).index_eq, hsize, ← byteSize_eq_zero_iff]
  omega

/-- **What a place tells is true.**  With fewer than `2 ^ 32`
    characters no count grows too large. -/
theorem tells_advanceBy {text : String} (hlength : text.length < 2 ^ 32) (i : Nat) :
    Tells text i (advanceBy i (start text)) := by
  have hmarks := marks_advanceBy_start i text
  have hfit : (advanceBy i (start text)).CountsFit := countsFit_of_ahead hlength ⟨i, rfl⟩
  obtain ⟨hfront, hback⟩ := extract_index text i
  have hcurrent : Cursor.current (advanceBy i (start text)) = (text.toList.drop i).head? := by
    rw [cursor_current, hmarks.ahead_eq]
  have hprevious : Cursor.previous (advanceBy i (start text)) = (text.toList.take i).getLast? := by
    show (advanceBy i (start text)).behind.head? = _
    rw [hmarks.behind_eq, List.head?_reverse]
  have hend : Cursor.atEnd (advanceBy i (start text)) = true ↔ text.toList.drop i = [] := by
    rw [cursor_atEnd, hmarks.ahead_eq, List.isEmpty_iff]
  exact {
    index_eq := by rw [hmarks.index_eq, byteSize_eq_utf8ByteSize]
    line_eq := hmarks.line_eq
    column_eq := hmarks.exists_column
    line_lt := hfit.line_lt
    column_lt := hfit.column_lt
    rest_eq := by rw [rest, hmarks.ahead_eq]
    bytes_eq := by rw [rest, hmarks.ahead_eq, hback]
    front_eq := hfront
    current_eq := hcurrent
    -- No other text has the same bytes as the part that is cut out.
    current_slice := fun back hslice => by
      rw [hback, String.toByteArray_inj] at hslice
      rw [hcurrent, hslice, String.toList_ofList]
    previous_eq := hprevious
    previous_slice := fun front hslice => by
      rw [hfront, String.toByteArray_inj] at hslice
      rw [hprevious, hslice, String.toList_ofList]
    atEnd_iff := hend
    atEnd_iff_le := hend.trans (drop_eq_nil_iff_le_index text i)
    atStart_iff := by
      show ((advanceBy i (start text)).index == 0) = true ↔ _
      rw [hmarks.index_eq, beq_iff_eq, byteSize_eq_zero_iff]
    advance_eq := fun hnone => advance_nil (List.isEmpty_iff.1 hnone) }

/-! ### Two places -/

/-- As long as there are characters, every step changes the offset. -/
theorem sameOffset_advanceBy_advanceBy {i j : Nat} {p : Place} (hi : i ≤ p.ahead.length)
    (hj : j ≤ p.ahead.length) :
    Cursor.sameOffset (advanceBy i p) (advanceBy j p) = decide (i = j) := by
  have hlt := isBefore_advanceBy_advanceBy (i := i) hj
  have hgt := isBefore_advanceBy_advanceBy (i := j) hi
  rw [cursor_isBefore, decide_eq_decide] at hlt hgt
  show ((advanceBy i p).index == (advanceBy j p).index) = decide (i = j)
  rw [Bool.eq_iff_iff, beq_iff_eq, decide_eq_true_eq]
  omega

/-- **The offsets of two places cut out the text between them.**  Where the second is not further
    ahead there is nothing. -/
theorem extract_index_index (text : String) (i j : Nat) :
    text.toByteArray.extract (advanceBy i (start text)).index (advanceBy j (start text)).index =
      (String.ofList (Cursor.between (advanceBy i (start text))
        (advanceBy j (start text)))).toByteArray := by
  rw [between_advanceBy]
  rcases Nat.le_total i j with hle | hge
  · have hstart : (advanceBy i (start text)).index = byteSize (text.toList.take i) :=
      (marks_advanceBy_start i text).index_eq
    have hstop : (advanceBy j (start text)).index =
        byteSize (text.toList.take i) + byteSize ((text.toList.drop i).take (j - i)) := by
      rw [advanceBy_of_le hle, index_advanceBy (j - i), hstart, ahead_advanceBy]
      rfl
    have hbytes := extract_toByteArray (text.toList.take i) ((text.toList.drop i).take (j - i))
      ((text.toList.drop i).drop (j - i))
    rw [List.take_append_drop, List.take_append_drop, String.ofList_toList] at hbytes
    rw [hstart, hstop, hbytes]
    rfl
  · have hback := index_advanceBy_le hge (start text)
    rw [Nat.sub_eq_zero_of_le hge, List.take_zero]
    exact ByteArray.extract_eq_empty_iff.2 (Nat.le_trans (Nat.min_le_left _ _) hback)

/-- Texts between places that follow each other make up one text. -/
theorem between_append_between {i j k : Nat} (hij : i ≤ j) (hjk : j ≤ k) (p : Place) :
    Cursor.between (advanceBy i p) (advanceBy j p) ++
        Cursor.between (advanceBy j p) (advanceBy k p) =
      Cursor.between (advanceBy i p) (advanceBy k p) := by
  rw [between_advanceBy, between_advanceBy, between_advanceBy]
  have hdrop : p.ahead.drop j = (p.ahead.drop i).drop (j - i) := by
    rw [List.drop_drop, Nat.add_sub_cancel' hij]
  rw [hdrop, ← List.take_add]
  congr 1
  omega

/-- **The places of a text are faithful.**  Every place tells the truth about what has been passed
    and what is left.  Of two places, as long as there were characters, the one after fewer steps
    is before the other and no two share an offset.  The text between them consists of the
    characters, and of the bytes, from the one to the other.  Such texts join without a gap, and the
    text from the beginning to a place and the rest at the place are the whole. -/
theorem advanceBy_start_faithful (text : String) (hlength : text.length < 2 ^ 32) :
    (∀ i, Tells text i (advanceBy i (start text))) ∧
      ∀ i j, i ≤ text.length → j ≤ text.length →
        let p := advanceBy i (start text)
        let q := advanceBy j (start text)
        Cursor.isBefore p q = decide (i < j) ∧
          Cursor.sameOffset p q = decide (i = j) ∧
          Cursor.between p q = (text.toList.drop i).take (j - i) ∧
          text.toByteArray.extract p.index q.index =
            (String.ofList (Cursor.between p q)).toByteArray ∧
          (∀ k, i ≤ j → j ≤ k → Cursor.between p q ++ Cursor.between q (advanceBy k (start text)) =
            Cursor.between p (advanceBy k (start text))) ∧
          String.ofList (Cursor.between (start text) p) ++ p.rest = text := by
  refine ⟨tells_advanceBy hlength, fun i j hi hj => ?_⟩
  rw [← String.length_toList] at hi hj
  refine ⟨isBefore_advanceBy_advanceBy hj, sameOffset_advanceBy_advanceBy hi hj,
    between_advanceBy i j _, extract_index_index text i j,
    fun k hij hjk => between_append_between hij hjk _, ?_⟩
  rw [rest, ← String.ofList_append, between_append_ahead ⟨i, rfl⟩]
  exact String.ofList_toList

/-- Two lines with characters of one, two and three bytes: behind `é` and the line feed, and behind
    `€` on the second line. -/
theorem advanceBy_start_faithful_twoLines :
    "aé\n€b".length < 2 ^ 32 ∧
      Tells "aé\n€b" 4 (advanceBy 4 (start "aé\n€b")) ∧
      3 ≤ "aé\n€b".length ∧ 4 ≤ "aé\n€b".length ∧
      Cursor.isBefore (advanceBy 3 (start "aé\n€b")) (advanceBy 4 (start "aé\n€b")) = true ∧
      Cursor.between (advanceBy 3 (start "aé\n€b")) (advanceBy 4 (start "aé\n€b")) = ['€'] := by
  have hlength : "aé\n€b".length < 2 ^ 32 := by decide
  have hthree : 3 ≤ "aé\n€b".length := by decide
  have hfour : 4 ≤ "aé\n€b".length := by decide
  obtain ⟨htells, hpairs⟩ := advanceBy_start_faithful "aé\n€b" hlength
  obtain ⟨hbefore, -, hbetween, -⟩ := hpairs 3 4 hthree hfour
  exact ⟨hlength, htells 4, hthree, hfour, hbefore, hbetween⟩

end TextMatch.Place
