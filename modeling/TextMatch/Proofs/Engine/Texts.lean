import TextMatch.Proofs.Cursor.Place
import TextMatch.Proofs.Engine.Inversion

namespace TextMatch

/-!
# Runs on texts

Most matchers do not look behind, and for them only the characters ahead count.  What they do is
said here without places.

* `Takes` — a matcher yields a value from a text and leaves a rest;
* `Rejects` — a matcher fails on a text;
* `Takes.seq`, `Takes.choiceElse`, `Takes.manyMore`, … — one rule for each combination;
* `takes_many_satisfy`, `many_satisfy_success` — a repetition of single characters takes all there
  are, and no others.

Both judgements are about matchers that leave the state as they find it.
-/

variable {S : Signature} {ω α β : Type}

/-- Wherever the text is ahead, the matcher yields the value and what is ahead then is the rest. -/
def Takes (host : Host S Place ω) (m : Matcher S α) (st : State S Place ω) (text : List Char)
    (v : α) (rest : List Char) : Prop :=
  ∀ p : Place, p.ahead = text → ∃ q, Evaluates host m st p (.success v q) st ∧ q.ahead = rest

/-- Wherever the text is ahead, the matcher fails. -/
def Rejects (host : Host S Place ω) (m : Matcher S α) (st : State S Place ω)
    (text : List Char) : Prop :=
  ∀ p : Place, p.ahead = text → ∃ q, Evaluates host m st p (.failure q) st

variable {host : Host S Place ω} {st st' : State S Place ω} {p q : Place}
  {text text' rest : List Char}

/-! ### Determinism -/

/-- What a matcher takes is all that a run of it can end with. -/
theorem Takes.unique {m : Matcher S α} {v v' : α} (h : Takes host m st p.ahead v rest)
    (h' : Evaluates host m st p (.success v' q) st') : v' = v ∧ q.ahead = rest ∧ st' = st := by
  obtain ⟨q', hq', rfl⟩ := h p rfl
  obtain ⟨ho, rfl⟩ := h'.unique hq'
  cases ho
  exact ⟨rfl, rfl, rfl⟩

/-- What a matcher rejects no run of it succeeds on. -/
theorem Rejects.not_success {m : Matcher S α} {v : α} (h : Rejects host m st p.ahead) :
    ¬Evaluates host m st p (.success v q) st' := by
  intro h'
  obtain ⟨q', hq'⟩ := h p rfl
  cases (h'.unique hq').1

/-! ### Rules for what is taken -/

namespace Takes

/-- An accepted character is taken, whatever follows it. -/
theorem satisfy {accepts : Char → Bool} {c : Char} (hc : accepts c = true) :
    Takes host (.satisfy accepts) st (c :: rest) c rest := by
  intro p hp
  have hrun : Run.satisfyAt accepts p = .success c p.advance := by
    rw [Run.satisfyAt, Place.cursor_current, hp]
    simp [hc]
  exact ⟨p.advance, hrun ▸ .satisfy, by rw [Place.ahead_advance, hp]; rfl⟩

/-- A value is yielded from any text, of which all is left. -/
theorem succeed {v : α} : Takes host (.succeed v) st text v text :=
  fun p hp => ⟨p, .succeed, hp⟩

/-- The end of the text is found where there is no text left. -/
theorem atEnd : Takes host .atEnd st [] () [] := by
  intro p hp
  have hrun : Run.holdsAt Cursor.atEnd p = .success () p := by
    rw [Run.holdsAt, Place.cursor_atEnd, hp]
    rfl
  exact ⟨p, hrun ▸ .atEnd, hp⟩

/-- A changed value is taken where the value was. -/
theorem map {m : Matcher S α} {v : α} (h : Takes host m st text v rest) (f : α → β) :
    Takes host (.map f m) st text (f v) rest := by
  intro p hp
  obtain ⟨q, hq, hrest⟩ := h p hp
  exact ⟨q, .map hq, hrest⟩

/-- What the value leads to is tried on the rest. -/
theorem flatMap {m : Matcher S α} {holds : List Slot} {next : α → Matcher S β} {v : α} {w : β}
    (h : Takes host m st text v text') (hn : Takes host (next v) st text' w rest) :
    Takes host (.flatMap m holds next) st text w rest := by
  intro p hp
  obtain ⟨r, hr, htext'⟩ := h p hp
  obtain ⟨q, hq, hrest⟩ := hn r htext'
  exact ⟨q, .flatMap hr hq, hrest⟩

/-- The second part takes what it does from the rest that the first one left. -/
theorem seq {a : Matcher S α} {b : Matcher S β} {v : α} {w : β}
    (ha : Takes host a st text v text') (hb : Takes host b st text' w rest) :
    Takes host (.seq a b) st text (v, w) rest := by
  intro p hp
  obtain ⟨r, hr, htext'⟩ := ha p hp
  obtain ⟨q, hq, hrest⟩ := hb r htext'
  exact ⟨q, .seq hr hq, hrest⟩

/-- The text of both parts is gone, and the value of the first is kept. -/
theorem keepLeft {a : Matcher S α} {b : Matcher S β} {v : α} {w : β}
    (ha : Takes host a st text v text') (hb : Takes host b st text' w rest) :
    Takes host (.keepLeft a b) st text v rest := (ha.seq hb).map Prod.fst

/-- The text of both parts is gone, and the value of the second is kept. -/
theorem keepRight {a : Matcher S α} {b : Matcher S β} {v : α} {w : β}
    (ha : Takes host a st text v text') (hb : Takes host b st text' w rest) :
    Takes host (.keepRight a b) st text w rest := (ha.seq hb).map Prod.snd

/-- What the first alternative takes is taken, even if the second would take more. -/
theorem choice {a : Matcher S α} {v : α} (h : Takes host a st text v rest) (b : Matcher S α) :
    Takes host (.choice a b) st text v rest := by
  intro p hp
  obtain ⟨q, hq, hrest⟩ := h p hp
  exact ⟨q, .choice hq, hrest⟩

/-- The second alternative takes from the whole text, since a failure uses up none of it. -/
theorem choiceElse {a b : Matcher S α} {v : α} (ha : Rejects host a st text)
    (hb : Takes host b st text v rest) : Takes host (.choice a b) st text v rest := by
  intro p hp
  obtain ⟨r, hr⟩ := ha p hp
  obtain ⟨q, hq, hrest⟩ := hb p hp
  exact ⟨q, .choiceElse hr hq, hrest⟩

/-- A round counts if it leaves less text than it found. -/
theorem manyMore [IsEmpty S.Hook] {m : Matcher S α} {v : α} {vs : List α}
    (h : Takes host m st text v text') (hlt : text'.length < text.length)
    (hm : Takes host (.many m) st text' vs rest) : Takes host (.many m) st text (v :: vs) rest := by
  intro p hp
  obtain ⟨r, hr, htext'⟩ := h p hp
  obtain ⟨q, hq, hrest⟩ := hm r htext'
  have hbefore : Cursor.isBefore p r = true :=
    Place.isBefore_of_length_ahead_lt hr.ahead (by rw [hp, htext']; exact hlt)
  exact ⟨q, .manyMore hr hbefore hq, hrest⟩

/-- Where there is no match a repetition is content with nothing, and leaves all. -/
theorem manyNone {m : Matcher S α} (h : Rejects host m st text) :
    Takes host (.many m) st text [] text := by
  intro p hp
  obtain ⟨q, hq⟩ := h p hp
  exact ⟨p, .manyFail hq, hp⟩

/-- At least one match is taken as one match and those behind it. -/
theorem many1 {m : Matcher S α} {v : α} {vs : List α} (h : Takes host m st text v text')
    (hm : Takes host (.many m) st text' vs rest) :
    Takes host (.many1 m) st text (v :: vs) rest := by
  intro p hp
  obtain ⟨r, hr, htext'⟩ := h p hp
  obtain ⟨q, hq, hrest⟩ := hm r htext'
  exact ⟨q, .many1 hr hq, hrest⟩

/-- A reference below the limit does what its definition does one level further in. -/
theorem defer {name : S.Name} {v : S.Yield name} (hfull : st.context.isFull = false)
    (h : Takes host (host.definition name) (st.enter (host.definition name).owned) text v rest) :
    Takes host (.defer name) st text v rest := by
  intro p hp
  obtain ⟨q, hq, hrest⟩ := h p hp
  refine ⟨q, ?_, hrest⟩
  have henter := Evaluates.enter .defer hfull hq
  rwa [State.leave_enter] at henter

end Takes

/-! ### Rules for what is rejected -/

/-- A character that is missing or not accepted is a failure on the spot. -/
theorem Run.satisfyAt_eq_failure {accepts : Char → Bool} {p : Place}
    (h : ∀ c ∈ p.ahead.head?, accepts c = false) : Run.satisfyAt accepts p = .failure p := by
  rw [Run.satisfyAt, Place.cursor_current]
  cases hc : p.ahead.head? with
  | none => rfl
  | some c => simp [h c hc]

/-- Text where the end should be is a failure on the spot. -/
theorem Run.holdsAt_atEnd_eq_failure {p : Place} (h : p.ahead ≠ []) :
    Run.holdsAt Cursor.atEnd p = .failure p := by
  rw [Run.holdsAt, Place.cursor_atEnd, if_neg (by simpa using h)]

namespace Rejects

/-- Nothing is good enough for the matcher that fails. -/
theorem fail : Rejects host (.fail : Matcher S α) st text := fun p _ => ⟨p, .fail⟩

/-- There is no next character, or not one that is accepted. -/
theorem satisfy {accepts : Char → Bool} (h : ∀ c ∈ text.head?, accepts c = false) :
    Rejects host (.satisfy accepts) st text :=
  fun p hp => ⟨p, Run.satisfyAt_eq_failure (hp ▸ h) ▸ .satisfy⟩

/-- There is still text. -/
theorem atEnd (h : text ≠ []) : Rejects host .atEnd st text :=
  fun p hp => ⟨p, Run.holdsAt_atEnd_eq_failure (hp ▸ h) ▸ .atEnd⟩

/-- No value is there to be changed. -/
theorem map {m : Matcher S α} (h : Rejects host m st text) (f : α → β) :
    Rejects host (.map f m) st text := by
  intro p hp
  obtain ⟨q, hq⟩ := h p hp
  exact ⟨q, .map hq⟩

/-- Without its first part a sequence is rejected, whatever the second one is. -/
theorem seq {a : Matcher S α} (h : Rejects host a st text) (b : Matcher S β) :
    Rejects host (.seq a b) st text := by
  intro p hp
  obtain ⟨q, hq⟩ := h p hp
  exact ⟨q, .seqFail hq⟩

/-- What a match leads to may reject the rest of the text. -/
theorem flatMapNext {m : Matcher S α} {holds : List Slot} {next : α → Matcher S β} {v : α}
    (h : Takes host m st text v text') (hn : Rejects host (next v) st text') :
    Rejects host (.flatMap m holds next) st text := by
  intro p hp
  obtain ⟨r, hr, htext'⟩ := h p hp
  obtain ⟨q, hq⟩ := hn r htext'
  exact ⟨q, .flatMap hr hq⟩

/-- The first part is rejected, whether or not its value would be kept. -/
theorem keepLeft {a : Matcher S α} (h : Rejects host a st text) (b : Matcher S β) :
    Rejects host (.keepLeft a b) st text := (h.seq b).map Prod.fst

/-- The first part is rejected, and so there is no second value to keep. -/
theorem keepRight {a : Matcher S α} (h : Rejects host a st text) (b : Matcher S β) :
    Rejects host (.keepRight a b) st text := (h.seq b).map Prod.snd

/-- A second part that rejects the rest undoes what the first one has taken. -/
theorem seqNext {a : Matcher S α} {b : Matcher S β} {v : α} (ha : Takes host a st text v text')
    (hb : Rejects host b st text') : Rejects host (.seq a b) st text := by
  intro p hp
  obtain ⟨r, hr, htext'⟩ := ha p hp
  obtain ⟨q, hq⟩ := hb r htext'
  exact ⟨_, .seq hr hq⟩

/-- A rejected second part counts even where its value would be dropped. -/
theorem keepLeftNext {a : Matcher S α} {b : Matcher S β} {v : α}
    (ha : Takes host a st text v text') (hb : Rejects host b st text') :
    Rejects host (.keepLeft a b) st text := (seqNext ha hb).map Prod.fst

/-- A rejected second part leaves no value to keep. -/
theorem keepRightNext {a : Matcher S α} {b : Matcher S β} {v : α}
    (ha : Takes host a st text v text') (hb : Rejects host b st text') :
    Rejects host (.keepRight a b) st text := (seqNext ha hb).map Prod.snd

/-- A choice is rejected by both of its alternatives, not only by the last one. -/
theorem choice {a b : Matcher S α} (ha : Rejects host a st text) (hb : Rejects host b st text) :
    Rejects host (.choice a b) st text := by
  intro p hp
  obtain ⟨r, hr⟩ := ha p hp
  obtain ⟨q, hq⟩ := hb p hp
  -- It fails where the one of the two fails that got further.
  have helse := Evaluates.choiceElse hr hq
  rw [Outcome.orElse_failure_failure] at helse
  split at helse
  · exact ⟨q, helse⟩
  · exact ⟨r, helse⟩

/-- A reference below the limit rejects what its definition does one level further in. -/
theorem defer {name : S.Name} (hfull : st.context.isFull = false)
    (h : Rejects host (host.definition name) (st.enter (host.definition name).owned) text) :
    Rejects host (.defer name) st text := by
  intro p hp
  obtain ⟨q, hq⟩ := h p hp
  refine ⟨q, ?_⟩
  have henter := Evaluates.enter .defer hfull hq
  rwa [State.leave_enter] at henter

end Rejects

/-! ### The end, single characters, and their repetitions -/

/-- The end is found only where nothing is ahead. -/
theorem atEnd_success {v : Unit} (h : Evaluates host .atEnd st p (.success v q) st') :
    p.ahead = [] ∧ q.ahead = [] := by
  cases hp : p.ahead with
  | nil =>
    have htakes : Takes host .atEnd st p.ahead () [] := by rw [hp]; exact .atEnd
    exact ⟨rfl, (htakes.unique h).2.1⟩
  | cons c cs =>
    have hne : p.ahead ≠ [] := by rw [hp]; exact List.cons_ne_nil _ _
    have hrejects : Rejects host .atEnd st p.ahead := .atEnd hne
    exact absurd h hrejects.not_success

/-- A text begins with as many accepted characters as there are in front of it. -/
theorem exists_longest_front (accepts : Char → Bool) (text : List Char) :
    ∃ w rest, text = w ++ rest ∧ (∀ c ∈ w, accepts c = true) ∧
      ∀ c ∈ rest.head?, accepts c = false := by
  refine ⟨text.takeWhile accepts, text.dropWhile accepts, List.takeWhile_append_dropWhile.symm,
    List.all_eq_true.1 List.all_takeWhile, fun c hc => ?_⟩
  have hnot := List.head?_dropWhile_not accepts text
  rw [hc] at hnot
  exact hnot

section Characters

variable {accepts : Char → Bool} {w : List Char}

/-- A single character that is found was accepted, and is all that has been passed. -/
theorem satisfy_success {c : Char}
    (h : Evaluates host (.satisfy accepts) st p (.success c q) st') :
    accepts c = true ∧ p.ahead = c :: q.ahead ∧ st' = st := by
  cases hp : p.ahead with
  | nil => exact absurd h (Rejects.not_success (.satisfy fun c hc => by rw [hp] at hc; cases hc))
  | cons c' cs =>
    cases hc' : accepts c' with
    | true =>
      have htakes : Takes host (.satisfy accepts) st p.ahead c' cs := hp ▸ .satisfy hc'
      obtain ⟨rfl, hq, rfl⟩ := htakes.unique h
      exact ⟨hc', by rw [hq], rfl⟩
    | false =>
      have hrejects : Rejects host (.satisfy accepts) st p.ahead :=
        .satisfy fun c hc => by rw [hp] at hc; cases hc; exact hc'
      exact absurd h hrejects.not_success

variable [IsEmpty S.Hook]

/-- Characters are taken up to the first one that is not accepted. -/
theorem takes_many_satisfy (hw : ∀ c ∈ w, accepts c = true)
    (hrest : ∀ c ∈ rest.head?, accepts c = false) :
    Takes host (.many (.satisfy accepts)) st (w ++ rest) w rest := by
  -- By induction on what is taken, one round for each character.
  induction w with
  | nil => exact .manyNone (.satisfy hrest)
  | cons c w ih =>
    rw [List.forall_mem_cons] at hw
    exact .manyMore (.satisfy hw.1) (Nat.lt_succ_self _) (ih hw.2)

/-- All accepted characters are taken, one of them at least, where at least one is asked for. -/
theorem takes_many1_satisfy (hne : w ≠ []) (hw : ∀ c ∈ w, accepts c = true)
    (hrest : ∀ c ∈ rest.head?, accepts c = false) :
    Takes host (.many1 (.satisfy accepts)) st (w ++ rest) w rest := by
  cases w with
  | nil => exact absurd rfl hne
  | cons c w =>
    rw [List.forall_mem_cons] at hw
    exact .many1 (.satisfy hw.1) (takes_many_satisfy hw.2 hrest)

/-- What a repetition of single characters takes is accepted, and is all it takes. -/
theorem many_satisfy_success
    (h : Evaluates host (.many (.satisfy accepts)) st p (.success w q) st') :
    (∀ c ∈ w, accepts c = true) ∧ p.ahead = w ++ q.ahead ∧ st' = st := by
  -- What is taken is known from the rules above, and a run has no other end.
  obtain ⟨front, rest, hp, hfront, hrest⟩ := exists_longest_front accepts p.ahead
  have htakes : Takes host (.many (.satisfy accepts)) st _ _ _ := takes_many_satisfy hfront hrest
  rw [← hp] at htakes
  obtain ⟨rfl, rfl, rfl⟩ := htakes.unique h
  exact ⟨hfront, hp, rfl⟩

/-- If one is asked for there is one, besides all that a repetition takes. -/
theorem many1_satisfy_success
    (h : Evaluates host (.many1 (.satisfy accepts)) st p (.success w q) st') :
    w ≠ [] ∧ (∀ c ∈ w, accepts c = true) ∧ p.ahead = w ++ q.ahead ∧ st' = st := by
  -- The first character and the others are looked at apart, as they were taken.
  obtain ⟨c, cs, r, st₁, rfl, hfirst, hrest⟩ := h.many1_success
  obtain ⟨hc, hp, rfl⟩ := satisfy_success hfirst
  obtain ⟨hcs, hr, rfl⟩ := many_satisfy_success hrest
  refine ⟨List.cons_ne_nil _ _, List.forall_mem_cons.2 ⟨hc, hcs⟩, ?_, rfl⟩
  rw [hp, hr, List.cons_append]

end Characters

end TextMatch
