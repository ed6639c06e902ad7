import TextMatch.Proofs.Calculator.Parsing

namespace TextMatch.Calculator

/-!
# Layout

Blanks between tokens may be put in and taken out without a change to what a text parses to.  Both
are changes of the same kind: wherever a text is cut in two, they happen on one side of the cut, and
a token only gets more blanks behind it.

* `Spacing` — changes of texts of this kind;
* `Derives.of_spacing`, `Sentence.of_spacing` — they keep derivations, nesting and tree included;
* `Widens`, `Narrows` — one blank more, one blank less;
* `sentence_append_blanks` — any number of blanks, at any point of a text;
* `parseWithin_insert_blanks` — the parser does not mind them.

The one place where a blank matters is inside a number.
-/

/-! ### Changes of the blanks -/

/-- A change of texts that does nothing but change the blanks between tokens. -/
structure Spacing (T : List Char → List Char → Prop) : Prop where
  /-- In a text of two parts one of them is changed. -/
  of_append {a b t} (h : T (a ++ b) t) :
    (∃ a', T a a' ∧ t = a' ++ b) ∨ ∃ b', T b b' ∧ t = a ++ b'
  not_nil {t} : ¬T [] t
  blanks {w w'} (hw : Blanks w) (h : T w w') : Blanks w'
  sign {c t} (hc : c ∉ blankChars) (h : T [c] t) : ∃ w, Blanks w ∧ t = c :: w
  digits {ds t} (hds : ∀ c ∈ ds, '0' ≤ c ∧ c ≤ '9') (h : T ds t) : ∃ w, Blanks w ∧ t = ds ++ w

variable {T : List Char → List Char → Prop} {u v w s t : List Char} {c : Char} {d : Nat} {e : Expr}

/-- Blanks behind blanks are blanks. -/
theorem Blanks.append {w' : List Char} (hw : Blanks w) (hw' : Blanks w') : Blanks (w ++ w') :=
  List.forall_mem_append.2 ⟨hw, hw'⟩

/-- Behind a sign there are blanks, however they are changed. -/
theorem Spacing.of_sign (hT : Spacing T) (hc : c ∉ blankChars) (hw : Blanks w)
    (h : T (c :: w) t) : ∃ w', Blanks w' ∧ t = c :: w' := by
  rcases hT.of_append (a := [c]) h with ⟨_, hsign, rfl⟩ | ⟨w', hblanks, rfl⟩
  · obtain ⟨w', hw', rfl⟩ := hT.sign hc hsign
    exact ⟨w' ++ w, hw'.append hw, rfl⟩
  · exact ⟨w', hT.blanks hw hblanks, rfl⟩

/-- Either the blanks behind a sign are changed or what follows them is. -/
theorem Spacing.of_token (hT : Spacing T) (hc : c ∉ blankChars) (hw : Blanks w)
    (h : T (c :: (w ++ s)) t) :
    (∃ w', Blanks w' ∧ t = c :: (w' ++ s)) ∨ ∃ s', T s s' ∧ t = c :: (w ++ s') := by
  rcases hT.of_append (a := c :: w) h with ⟨_, hsign, rfl⟩ | ⟨s', hs, rfl⟩
  · obtain ⟨w', hw', rfl⟩ := hT.of_sign hc hw hsign
    exact .inl ⟨w', hw', rfl⟩
  · exact .inr ⟨s', hs, rfl⟩

/-- No operator is a blank. -/
theorem Operator.symbol_not_blank (op : Operator) : op.symbol ∉ blankChars := by
  cases op <;> decide

/-- **Layout does not matter to derivations.** -/
theorem Derives.of_spacing (hT : Spacing T) {x : Phrase} (h : Derives x d s e) (hs : T s t) :
    Derives x d t e := by
  -- Induction on the derivation: the change is behind a token, or inside a smaller phrase.
  induction h generalizing t with
  | @number ds w v hds hw =>
    rcases hT.of_append hs with ⟨_, hdigits, rfl⟩ | ⟨w', hblanks, rfl⟩
    · obtain ⟨w', hw', rfl⟩ := hT.digits hds.forall_digit hdigits
      rw [List.append_assoc]
      exact .number hds (hw'.append hw)
    · exact .number hds (hT.blanks hw hblanks)
  | parens hw h hw' ih =>
    rcases hT.of_token (by decide) hw hs with ⟨w₁, hw₁, rfl⟩ | ⟨_, hinner, rfl⟩
    · exact .parens hw₁ h hw'
    rcases hT.of_append hinner with ⟨s', hs', rfl⟩ | ⟨_, hclose, rfl⟩
    · exact .parens hw (ih hs') hw'
    obtain ⟨w₂, hw₂, rfl⟩ := hT.of_sign (by decide) hw' hclose
    exact .parens hw h hw₂
  | minus hw h ih =>
    rcases hT.of_token (by decide) hw hs with ⟨w₁, hw₁, rfl⟩ | ⟨s', hs', rfl⟩
    · exact .minus hw₁ h
    · exact .minus hw (ih hs')
  | chain h h' ih ih' =>
    rcases hT.of_append hs with ⟨s₁, hs₁, rfl⟩ | ⟨s₂, hs₂, rfl⟩
    · exact .chain (ih hs₁) h'
    · exact .chain h (ih' hs₂)
  | done => exact absurd hs hT.not_nil
  | @more t' op _ _ _ _ _ _ _ _ hop hw h h' ih ih' =>
    rcases hT.of_token op.symbol_not_blank hw hs with ⟨w₁, hw₁, rfl⟩ | ⟨_, hinner, rfl⟩
    · exact .more hop hw₁ h h'
    rcases hT.of_append hinner with ⟨s₁, hs₁, rfl⟩ | ⟨s₂, hs₂, rfl⟩
    · exact .more hop hw (ih hs₁) h'
    · exact .more hop hw h (ih' hs₂)

/-- Spacing keeps sentences, which may have blanks in front as well. -/
theorem Sentence.of_spacing (hT : Spacing T) (h : Sentence d s e) (hs : T s t) :
    Sentence d t e := by
  obtain ⟨w, s, hw, rfl, h⟩ := h
  rcases hT.of_append hs with ⟨w', hblanks, rfl⟩ | ⟨s', hs', rfl⟩
  · exact ⟨w', s, hT.blanks hw hblanks, rfl, h⟩
  · exact ⟨w, s', hw, rfl, h.of_spacing hT hs'⟩

/-! ### One blank more or less -/

/-- The first text does not end with a digit where the second begins with one. -/
def Parted (u v : List Char) : Prop :=
  ¬((∃ a ∈ u.getLast?, '0' ≤ a ∧ a ≤ '9') ∧ ∃ b ∈ v.head?, '0' ≤ b ∧ b ≤ '9')

/-- One blank is put in, behind a character and not inside a number. -/
inductive Widens : List Char → List Char → Prop where
  | intro {u v : List Char} {c : Char} (hu : u ≠ []) (hc : c ∈ blankChars)
      (hparted : Parted u v) : Widens (u ++ v) (u ++ c :: v)

/-- One blank is taken out. -/
inductive Narrows : List Char → List Char → Prop where
  | intro {u v : List Char} {c : Char} (hc : c ∈ blankChars) : Narrows (u ++ c :: v) (u ++ v)

namespace Parted

variable {a b : List Char}

/-- Behind the end there is nothing to be parted. -/
theorem nil : Parted u [] := by
  rintro ⟨-, _, ⟨⟩, -⟩

/-- It matters only how the first text ends. -/
theorem of_append_left (hne : u ≠ []) (h : Parted (a ++ u) v) : Parted u v := by
  rw [Parted, List.getLast?_append, List.getLast?_eq_some_getLast hne, Option.some_or] at h
  rwa [Parted, List.getLast?_eq_some_getLast hne]

/-- It matters only how the second text begins. -/
theorem of_append_right (h : Parted u (v ++ b)) : Parted u v := by
  rintro ⟨hu, c, hc, hd⟩
  obtain ⟨cs, rfl⟩ := List.head?_eq_some_iff.1 hc
  exact h ⟨hu, c, rfl, hd⟩

/-- No text ends with a digit of a number that a blank begins. -/
theorem cons_blank (hc : c ∈ blankChars) : Parted u (c :: v) := by
  rintro ⟨-, _, ⟨⟩, hd⟩
  exact Opens.not_blank (.inl hd) hc

end Parted

/-- Putting in a blank is a change of blanks. -/
theorem spacing_widens : Spacing Widens where
  of_append {a b t} h := by
    generalize htext : a ++ b = text at h
    cases h with
    | @intro u v c hu hc hparted =>
    rcases List.append_eq_append_iff.1 htext with ⟨x, rfl, rfl⟩ | ⟨x, rfl, rfl⟩
    · by_cases hx : x = []
      · -- Between the two parts, the blank belongs to the first.
        subst hx
        rw [List.append_nil] at hu ⊢
        have hfirst := Widens.intro hu hc Parted.nil
        rw [List.append_nil] at hfirst
        exact .inl ⟨_, hfirst, by simp⟩
      · exact .inr ⟨_, .intro hx hc (hparted.of_append_left hx), by simp⟩
    · exact .inl ⟨_, .intro hu hc hparted.of_append_right, by simp⟩
  not_nil {t} h := by
    generalize htext : [] = text at h
    cases h with
    | intro hu => exact hu (List.append_eq_nil_iff.1 htext.symm).1
  blanks hw h := by
    obtain ⟨-, hc, -⟩ := h
    rw [Blanks, List.forall_mem_append] at hw
    exact List.forall_mem_append.2 ⟨hw.1, List.forall_mem_cons.2 ⟨hc, hw.2⟩⟩
  sign {a t} ha h := by
    generalize htext : [a] = text at h
    cases h with
    | @intro u v c hu hc _ =>
    obtain ⟨u', rfl⟩ : ∃ u', u = a :: u' := by
      cases u with
      | nil => exact absurd rfl hu
      | cons a' u' => exact ⟨u', by rw [(List.cons.inj htext).1]⟩
    obtain ⟨rfl, rfl⟩ := List.append_eq_nil_iff.1 (List.cons.inj htext).2.symm
    exact ⟨[c], List.forall_mem_singleton.2 hc, rfl⟩
  digits {ds t} hds h := by
    cases h with
    | @intro u v c hu hc hparted =>
    cases v with
    | nil => exact ⟨[c], List.forall_mem_singleton.2 hc, by simp⟩
    | cons b v =>
      -- Behind a digit comes another one, so the point is inside the number.
      have hlast := hds (u.getLast hu) (List.mem_append_left _ (List.getLast_mem hu))
      have hnext := hds b (List.mem_append_right _ (List.mem_cons_self ..))
      exact absurd ⟨⟨_, List.getLast?_eq_some_getLast hu, hlast⟩, b, rfl, hnext⟩ hparted

/-- Taking out a blank is a change of blanks. -/
theorem spacing_narrows : Spacing Narrows where
  of_append {a b t} h := by
    generalize htext : a ++ b = text at h
    cases h with
    | @intro u v c hc =>
    -- The blank that is taken out stands in the second text or in the first one, or it is the very
    -- first character of the second.
    rcases List.append_eq_append_iff.1 htext with ⟨x, rfl, rfl⟩ | ⟨x, rfl, hb⟩
    · exact .inr ⟨_, .intro hc, by simp⟩
    · cases x with
      | nil =>
        obtain rfl : c :: v = b := hb
        exact .inr ⟨v, .intro (u := []) hc, by simp⟩
      | cons c' x =>
        obtain ⟨rfl, rfl⟩ := List.cons.inj hb
        exact .inl ⟨_, .intro hc, by simp⟩
  not_nil {t} h := by
    generalize htext : [] = text at h
    cases h with
    | intro hc => exact List.append_ne_nil_of_right_ne_nil _ (List.cons_ne_nil _ _) htext.symm
  blanks hw h := by
    obtain ⟨-⟩ := h
    rw [Blanks, List.forall_mem_append, List.forall_mem_cons] at hw
    exact List.forall_mem_append.2 ⟨hw.1, hw.2.2⟩
  sign {a t} ha h := by
    generalize htext : [a] = text at h
    cases h with
    | @intro u v c hc =>
    have hmem : c ∈ [a] := htext ▸ List.mem_append_right u (List.mem_cons_self ..)
    rw [List.mem_singleton] at hmem
    exact absurd (hmem ▸ hc) ha
  digits {ds t} hds h := by
    -- A blank cannot stand inside a numeral, which has digits only.
    obtain ⟨hc⟩ := h
    have hd := hds _ (List.mem_append_right _ (List.mem_cons_self ..))
    exact absurd hc (Opens.not_blank (.inl hd))

/-! ### Any number of blanks -/

/-- One blank more or less, also in front of everything. -/
theorem sentence_append_blank (hc : c ∈ blankChars) (h : Parted u v) :
    Sentence d (u ++ c :: v) e ↔ Sentence d (u ++ v) e := by
  constructor
  · exact fun hs => hs.of_spacing spacing_narrows (.intro hc)
  · intro hs
    by_cases hu : u = []
    · obtain ⟨w, s, hw, htext, hs⟩ := hs
      subst hu
      exact ⟨c :: w, s, List.forall_mem_cons.2 ⟨hc, hw⟩, congrArg (c :: ·) htext, hs⟩
    · exact hs.of_spacing spacing_widens (.intro hu hc h)

/-- **Layout does not matter to sentences.** -/
theorem sentence_append_blanks (hw : Blanks w) (h : Parted u v) :
    Sentence d (u ++ (w ++ v)) e ↔ Sentence d (u ++ v) e := by
  induction w with
  | nil => rfl
  | cons c w ih =>
    rw [Blanks, List.forall_mem_cons] at hw
    have hparted : Parted u (w ++ v) := by
      cases w with
      | nil => exact h
      | cons c' w => exact .cons_blank (hw.2 c' (List.mem_cons_self ..))
    exact (sentence_append_blank hw.1 hparted).trans (ih hw.2)

/-- **Layout does not matter.** Between two texts that do not cut a number in two there may be any
    blanks or none: with every limit on the nesting, the parser accepts the one exactly if it
    accepts the other, and both with the same tree. -/
theorem parseWithin_insert_blanks (limit : Option Nat) (u w v : String) (e : Expr)
    (hw : Blanks w.toList) (h : Parted u.toList v.toList) :
    parseWithin limit (u ++ w ++ v) = .ok e ↔ parseWithin limit (u ++ v) = .ok e := by
  rw [parseWithin_eq_ok_iff, parseWithin_eq_ok_iff]
  refine exists_congr fun d => and_congr_left' ?_
  rw [String.toList_append, String.toList_append, String.toList_append, List.append_assoc]
  exact sentence_append_blanks hw h

/-- Behind a number and in front of an operator a line may end. -/
theorem parseWithin_insert_blanks_line :
    Blanks "\r\n\t".toList ∧ Parted "2 * (3".toList "+-4)".toList ∧
      parseWithin (some 2) "2 * (3\r\n\t+-4)" =
        .ok (.binary .mul (.number 2) (.binary .add (.number 3) (.negate (.number 4)))) := by
  have hblanks : Blanks "\r\n\t".toList := by simp [Blanks, blankChars]
  have hparted : Parted "2 * (3".toList "+-4)".toList := by simp [Parted]
  have htogether : parseWithin (some 2) ("2 * (3" ++ "+-4)") =
      .ok (.binary .mul (.number 2) (.binary .add (.number 3) (.negate (.number 4)))) := rfl
  exact ⟨hblanks, hparted,
    (parseWithin_insert_blanks (some 2) _ "\r\n\t" _ _ hblanks hparted).2 htogether⟩

end TextMatch.Calculator
