import TextMatch.Proofs.Cursor.Place
import TextMatch.Proofs.Engine.Inversion

namespace TextMatch

/-!
# Repetition

A repetition runs its matcher from one end to the next, as long as each run moves on.  Nothing else
ends it, and every run that moves on uses up text.

* `Rounds` — successes in a row, each from where and how the one before it ended, each moving on;
* `LastRound` — a run that fails or does not move on;
* `evaluates_many_iff` — a repetition is made of rounds and a last one;
* `Rounds.isPrefix_of_lastRound` — there is no other way to go on, so the rounds are all there are;
* `Rounds.length_add_length_le` — no more rounds than characters;
* `halts_many_of_rounds` — a repetition halts if its rounds do;
* `run_repetition` — what both kinds of repetition do.
-/

variable {S : Signature} {P ω α β : Type}

/-! ### Rounds -/

section

variable [Cursor P]

/-- Successes in a row that yield the values.  Each begins in the state and at the cursor the one
    before it ended with, and ends further on. -/
inductive Rounds (host : Host S P ω) (m : Matcher S α) :
    State S P ω → P → List α → State S P ω → P → Prop where
  | nil {st p} : Rounds host m st p [] st p
  | cons {st p v r st₁ vs st' q} (h : Evaluates host m st p (.success v r) st₁)
      (hp : Cursor.isBefore p r = true) (hs : Rounds host m st₁ r vs st' q) :
      Rounds host m st p (v :: vs) st' q

/-- A run that ends a repetition: it fails, or it succeeds without moving on. -/
def LastRound (host : Host S P ω) (m : Matcher S α) (st : State S P ω) (p : P)
    (st' : State S P ω) : Prop :=
  ∃ o, Evaluates host m st p o st' ∧ ∀ v q, o = .success v q → Cursor.isBefore p q = false

/-- Where the successes of a matcher lead, whether or not they move on. -/
inductive SucceedsTo (host : Host S P ω) (m : Matcher S α) :
    State S P ω → P → State S P ω → P → Prop where
  | refl {st p} : SucceedsTo host m st p st p
  | head {st p v r st₁ st' q} (h : Evaluates host m st p (.success v r) st₁)
      (hs : SucceedsTo host m st₁ r st' q) : SucceedsTo host m st p st' q

variable {host : Host S P ω} {m : Matcher S α} {st st₁ st₂ st' : State S P ω} {p q r : P}
  {vs ws : List α}

/-- A repetition may consist of its last round alone. -/
theorem LastRound.evaluates_many (h : LastRound host m st p st') :
    Evaluates host (.many m) st p (.success [] p) st' := by
  obtain ⟨o, ho, hstuck⟩ := h
  cases o with
  | success v q => exact .manyStuck ho (hstuck v q rfl)
  | failure q => exact .manyFail ho

/-- **A repetition is made of rounds.**  Its values are theirs and it ends where they do; the state
    is the one a last round leaves, which is not counted. -/
theorem evaluates_many_iff {o : Outcome P (List α)} :
    Evaluates host (.many m) st p o st' ↔
      ∃ vs q st₁, o = .success vs q ∧ Rounds host m st p vs st₁ q ∧ LastRound host m st₁ q st' := by
  constructor
  · intro h
    obtain ⟨vs, q, rfl⟩ := h.many_isSuccess
    -- By induction on the values, of which every round but the last yields one.
    suffices hrounds : ∃ st₁, Rounds host m st p vs st₁ q ∧ LastRound host m st₁ q st' by
      obtain ⟨st₁, hrounds, hlast⟩ := hrounds
      exact ⟨vs, q, st₁, rfl, hrounds, hlast⟩
    induction vs generalizing st p with
    | nil =>
      obtain ⟨v, ws, r, st₁, heq, -⟩ | ⟨-, rfl, hlast⟩ := h.many_success
      · cases heq
      · exact ⟨st, .nil, hlast⟩
    | cons v vs ih =>
      obtain ⟨v', ws, r, st₁, heq, hm, hp, hrest⟩ | ⟨heq, -⟩ := h.many_success
      · cases heq
        obtain ⟨st₂, hrounds, hlast⟩ := ih hrest
        exact ⟨st₂, .cons hm hp hrounds, hlast⟩
      · cases heq
  · rintro ⟨vs, q, st₁, rfl, hrounds, hlast⟩
    induction hrounds with
    | nil => exact hlast.evaluates_many
    | cons hm hp _ ih => exact .manyMore hm hp (ih hlast)

/-- **The rounds are maximal.**  Where a last round follows, any other rounds from the same
    beginning are the first ones of these. -/
theorem Rounds.isPrefix_of_lastRound (h : Rounds host m st p vs st₁ q)
    (hlast : LastRound host m st₁ q st') (h' : Rounds host m st p ws st₂ r) : ws <+: vs := by
  induction h' generalizing vs with
  | nil => exact List.nil_prefix
  | cons hm' hp' _ ih =>
    cases h with
    | nil =>
      -- The last round would move on.
      obtain ⟨o, ho, hstuck⟩ := hlast
      obtain ⟨rfl, -⟩ := ho.unique hm'
      rw [hstuck _ _ rfl] at hp'
      cases hp'
    | cons hm hp hs =>
      obtain ⟨ho, rfl⟩ := hm.unique hm'
      cases ho
      exact List.cons_prefix_cons.2 ⟨rfl, ih hs⟩

/-- Rounds lead on by successes of what is repeated. -/
theorem Rounds.succeedsTo (h : Rounds host m st p vs st' q) : SucceedsTo host m st p st' q := by
  induction h with
  | nil => exact .refl
  | cons hm _ _ ih => exact .head hm ih

end

/-! ### Rounds on a text -/

/-- The run of a matcher has an outcome. -/
def Halts (host : Host S Place ω) (m : Matcher S α) (st : State S Place ω) (p : Place) : Prop :=
  ∃ o st', Evaluates host m st p o st'

section

variable [IsEmpty S.Hook] {host : Host S Place ω} {m : Matcher S α} {st st' : State S Place ω}
  {p q : Place} {vs : List α}

/-- Every round takes a character at least. -/
theorem Rounds.length_add_length_le (h : Rounds host m st p vs st' q) :
    vs.length + q.ahead.length ≤ p.ahead.length := by
  induction h with
  | nil => exact Nat.le_of_eq (Nat.zero_add _)
  | cons hm hp _ ih =>
    have hlt := Place.length_ahead_lt_of_isBefore hm.ahead hp
    rw [Outcome.next] at hlt
    rw [List.length_cons]
    omega

/-- **Repetitions halt** if each round does, since a round that is followed by
    another one has used up text. -/
theorem halts_many_of_rounds
    (h : ∀ vs st₁ q, Rounds host m st p vs st₁ q → Halts host m st₁ q) :
    Halts host (.many m) st p := by
  -- Induction on the length of the text that is left.
  induction hn : p.ahead.length using Nat.strongRecOn generalizing st p with
  | ind n ih =>
    subst hn
    obtain ⟨o, st₁, ho⟩ := h [] st p .nil
    cases o with
    | failure r => exact ⟨_, _, .manyFail ho⟩
    | success v r =>
      cases hb : Cursor.isBefore p r with
      | false => exact ⟨_, _, .manyStuck ho hb⟩
      | true =>
        have hlt := Place.length_ahead_lt_of_isBefore ho.ahead hb
        have hmore : ∀ vs st₂ q, Rounds host m st₁ r vs st₂ q → Halts host m st₂ q :=
          fun vs st₂ q hs => h (v :: vs) st₂ q (.cons ho hb hs)
        obtain ⟨o', st₂, ho'⟩ := ih _ hlt hmore rfl
        obtain ⟨vs, q, rfl⟩ := ho'.many_isSuccess
        exact ⟨_, _, .manyMore ho hb ho'⟩

/-- The rounds of a repetition, if all of them halt, and the last one. -/
theorem exists_rounds (h : ∀ vs st₁ q, Rounds host m st p vs st₁ q → Halts host m st₁ q) :
    ∃ vs q st₁ st', Evaluates host (.many m) st p (.success vs q) st' ∧
      Rounds host m st p vs st₁ q ∧ LastRound host m st₁ q st' := by
  obtain ⟨o, st', ho⟩ := halts_many_of_rounds h
  obtain ⟨vs, q, st₁, rfl, hrounds, hlast⟩ := evaluates_many_iff.1 ho
  exact ⟨vs, q, st₁, st', ho, hrounds, hlast⟩

end

/-! ### Both kinds of repetition -/

open Matcher (evaluates_iff_exists_run)

/-- **Repetition.**  Let a matcher return wherever its successes lead, as one does that returns from
    every state and place.  Then its repetition succeeds: with the values of all the rounds there
    are, no more than characters, where the last of them has ended, and in the state that a run
    leaves from there which fails or does not move on.  With one mandatory match the repetition
    fails just where that match does and as it does; else its first value is that of the match,
    moving on or not, and all the rounds from there give the others. -/
theorem run_repetition [IsEmpty S.Hook] (host : Host S Place ω) (m : Matcher S α)
    (st : State S Place ω) (p : Place)
    (hreturns : ∀ st₁ q, SucceedsTo host m st p st₁ q → Halts host m st₁ q) :
    (∃ vs q st₁ st', (∃ bound, m.many.run host bound st p = some (.success vs q, st')) ∧
      Rounds host m st p vs st₁ q ∧ LastRound host m st₁ q st' ∧ vs.length ≤ p.ahead.length ∧
      ∀ ws st₂ r, Rounds host m st p ws st₂ r → ws <+: vs) ∧
      (∀ q st', (∃ bound, m.many1.run host bound st p = some (.failure q, st')) ↔
        ∃ bound, m.run host bound st p = some (.failure q, st')) ∧
      ∀ v r st₁, (∃ bound, m.run host bound st p = some (.success v r, st₁)) →
        ∃ vs q st₂ st', (∃ bound, m.many1.run host bound st p = some (.success (v :: vs) q, st')) ∧
          Rounds host m st₁ r vs st₂ q ∧ LastRound host m st₂ q st' ∧
          vs.length ≤ r.ahead.length := by
  simp only [← evaluates_iff_exists_run]
  refine ⟨?_, fun q st' => ?_, fun v r st₁ hfirst => ?_⟩
  · obtain ⟨vs, q, st₁, st', hmany, hrounds, hlast⟩ :=
      -- Each round starts where successes lead to, and there the matcher returns.
      exists_rounds fun _ _ _ hs => hreturns _ _ hs.succeedsTo
    have hlength := hrounds.length_add_length_le
    exact ⟨vs, q, st₁, st', hmany, hrounds, hlast, by omega,
      fun ws st₂ r h' => hrounds.isPrefix_of_lastRound hlast h'⟩
  · rw [evaluates_many1_iff]
    constructor
    · -- Behind a first match nothing can fail, so a failure is that of the first match.
      rintro (⟨_, _, _, _, _, _, _, ho⟩ | ⟨_, hm, ho⟩)
      · cases ho
      · cases ho
        exact hm
    · intro hm
      exact .inr ⟨q, hm, rfl⟩
  · obtain ⟨vs, q, st₂, st', hmany, hrounds, hlast⟩ :=
      exists_rounds fun _ _ _ hs => hreturns _ _ (.head hfirst hs.succeedsTo)
    have hlength := hrounds.length_add_length_le
    exact ⟨vs, q, st₂, st', .many1 hfirst hmany, hrounds, hlast, by omega⟩

/-- Matchers that refer to nothing. -/
abbrev nameless : Signature := ⟨Empty, nofun, Empty, Empty⟩

/-- Nothing has to be provided for them. -/
def nothingNamed : Host nameless Place Unit := ⟨nofun, nofun⟩

/-- An `a` or nothing, captured either way. -/
def maybeA : Matcher nameless (Option Char) := .capture "c" (.optional (.char 'a'))

/-- A matcher without references halts whatever it finds. -/
theorem halts_maybeA (st : State nameless Place Unit) (p : Place) :
    Halts nothingNamed maybeA st p := by
  cases ho : Run.satisfyAt (· == 'a') p with
  | success c q =>
    have hchar : Evaluates nothingNamed (.char 'a') st p (.success c q) st := ho ▸ .satisfy
    exact ⟨_, _, .capture (.optional hchar)⟩
  | failure q =>
    have hchar : Evaluates nothingNamed (.char 'a') st p (.failure q) st := ho ▸ .satisfy
    exact ⟨_, _, .capture (.optionalNone hchar)⟩

/-- Two rounds take two characters.  The third run succeeds with nothing, and its capture is the one
    that stays; where a match is mandatory such a run is kept. -/
theorem run_repetition_maybeA :
    let st : State nameless Place Unit := ⟨.new none, .empty, ()⟩
    (∀ st₁ q, SucceedsTo nothingNamed maybeA st (.start "aab") st₁ q →
      Halts nothingNamed maybeA st₁ q) ∧
      (∃ st₁ st' q, Rounds nothingNamed maybeA st (.start "aab") [some 'a', some 'a'] st₁ q ∧
        LastRound nothingNamed maybeA st₁ q st' ∧ st'.context.captures.text? "c" = some "") ∧
      ∃ bound q st', maybeA.many1.run nothingNamed bound st (.start "b") =
        some (.success [none] q, st') := by
  intro st
  refine ⟨fun st₁ q _ => halts_maybeA st₁ q, ?_, ?_⟩
  · obtain ⟨⟨vs, q, st₁, st', ⟨bound, hrun⟩, hrounds, hlast, -⟩, -⟩ :=
      run_repetition nothingNamed maybeA st (.start "aab") fun st₁ q _ => halts_maybeA st₁ q
    have hthree : maybeA.many.run nothingNamed 3 st (.start "aab") = some _ := rfl
    cases Matcher.run_unique nothingNamed hrun hthree
    exact ⟨st₁, _, _, hrounds, hlast, rfl⟩
  · obtain ⟨-, -, hfirst⟩ :=
      run_repetition nothingNamed maybeA st (.start "b") fun st₁ q _ => halts_maybeA st₁ q
    obtain ⟨vs, q, st₂, st', ⟨bound, hrun⟩, -, -, -⟩ := hfirst none (.start "b") _ ⟨1, rfl⟩
    have hone : maybeA.many1.run nothingNamed 1 st (.start "b") = some _ := rfl
    cases Matcher.run_unique nothingNamed hrun hone
    exact ⟨bound, _, _, hrun⟩

end TextMatch
