import Mathlib.Logic.IsEmpty.Basic
import TextMatch.Proofs.Engine.Evaluation

namespace TextMatch

/-!
# Invariants of evaluation

What every run keeps, whatever it matches.

* `Evaluates.nesting_eq` — the nesting of references is as it was, and so is its limit;
* `Context.Allows` — the limit leaves room for a number of levels, as much after a run as before;
* `Cursor.Ahead` — one cursor is the other advanced some number of times;
* `Evaluates.ahead` — a run ends ahead of where it began, with success and with failure alike;
* `Matcher.Quiet` — matchers that have nothing to change in the state.
-/

variable {S : Signature} {P ω α : Type}

/-! ### Nesting -/

/-- **Balance.** Every reference that is entered is left again, and no run changes the limit. -/
theorem Evaluates.nesting_eq [Cursor P] {host : Host S P ω} {m : Matcher S α}
    {st st' : State S P ω} {p : P} {o : Outcome P α} (h : Evaluates host m st p o st') :
    st'.context.depth = st.context.depth ∧ st'.context.limit = st.context.limit := by
  induction h with
  -- The one level that is entered is subtracted again on leaving.
  | enter _ _ _ ih =>
    obtain ⟨hdepth, hlimit⟩ := ih
    refine ⟨?_, hlimit⟩
    show _ - 1 = _
    rw [hdepth]
    rfl
  | flatMap _ _ ih ih' | seq _ _ ih ih' | choiceElse _ _ ih ih' | many1 _ _ ih ih'
  | manyMore _ _ _ ih ih' =>
    exact ⟨ih'.1.trans ih.1, ih'.2.trans ih.2⟩
  | map _ ih | flatMapFail _ ih | seqFail _ ih | choice _ ih | manyStuck _ _ ih | manyFail _ ih
  | many1Fail _ ih | optional _ ih | optionalNone _ ih | notFail _ ih | not _ ih | guard _ ih
  | guardFail _ ih | capture _ ih | captureFail _ ih | shared _ ih => exact ih
  | _ => exact ⟨rfl, rfl⟩

/-! ### Room for more levels -/

/-- The limit leaves room for `d` more levels. -/
def Context.Allows (c : Context P) (d : Nat) : Prop :=
  ∀ n, c.limit = some n → c.depth + d ≤ n

namespace Context.Allows

variable {c : Context P} {d d' : Nat}

/-- There is room for fewer levels too. -/
theorem mono (h : c.Allows d) (hle : d' ≤ d) : c.Allows d' := by
  intro n hn
  have := h n hn
  omega

/-- What there is room for one by one, there is room for at once: levels inside alternatives are not
    entered together. -/
theorem max (h : c.Allows d) (h' : c.Allows d') : c.Allows (max d d') := by
  intro n hn
  have := h n hn
  have := h' n hn
  omega

/-- Where there is room for one more level a reference is entered. -/
theorem isFull_eq_false (h : c.Allows (d + 1)) : c.isFull = false := by
  cases hl : c.limit with
  | none => exact isFull_of_limit_none hl
  | some n =>
    have := h n hl
    rw [isFull_of_limit_some hl, decide_eq_false_iff_not]
    omega

/-- Inside a reference there is room for one level less. -/
theorem deeper (h : c.Allows (d + 1)) : c.deeper.Allows d := by
  intro n hn
  have hle := h n hn
  show c.depth + 1 + d ≤ n
  omega

/-- Room inside a reference means room for one level more in front of it. -/
theorem of_deeper (h : c.deeper.Allows d) : c.Allows (d + 1) := by
  intro n hn
  have hle : c.depth + 1 + d ≤ n := h n hn
  omega

/-- Inside a reference that was entered the limit is not passed. -/
theorem zero_deeper (h : c.isFull = false) : c.deeper.Allows 0 := by
  intro n hn
  have hl : c.limit = some n := hn
  rw [isFull_of_limit_some hl, decide_eq_false_iff_not] at h
  show c.depth + 1 + 0 ≤ n
  omega

/-- The room is the same behind a run, which leaves the nesting as it found it. -/
theorem of_evaluates [Cursor P] {host : Host S P ω} {m : Matcher S α} {st st' : State S P ω}
    {p : P} {o : Outcome P α} (he : Evaluates host m st p o st') :
    st'.context.Allows d ↔ st.context.Allows d := by
  obtain ⟨hdepth, hlimit⟩ := he.nesting_eq
  unfold Allows
  rw [hdepth, hlimit]

end Context.Allows

/-! ### Progress -/

namespace Cursor

variable [Cursor P]

/-- The second cursor is the first one advanced some number of times. -/
def Ahead (p q : P) : Prop := ∃ k, q = advanceBy k p

/-- Every place is ahead of itself. -/
theorem Ahead.refl (p : P) : Ahead p p := ⟨0, rfl⟩

/-- One step is a step ahead. -/
theorem Ahead.advance (p : P) : Ahead p (advance p) := ⟨1, rfl⟩

/-- Steps behind steps are steps. -/
theorem Ahead.trans {p q r : P} : Ahead p q → Ahead q r → Ahead p r := by
  rintro ⟨j, rfl⟩ ⟨k, rfl⟩
  exact ⟨j + k, (advanceBy_add j k p).symm⟩

end Cursor

open Cursor (Ahead)

namespace Run

variable [Cursor P]

/-- A single character is passed or it is not. -/
theorem ahead_satisfyAt (accepts : Char → Bool) (p : P) : Ahead p (satisfyAt accepts p).next := by
  unfold satisfyAt
  split
  · split
    · exact .advance p
    · exact .refl p
  · exact .refl p

/-- A condition on the place passes nothing. -/
theorem ahead_holdsAt (condition : P → Bool) (p : P) : Ahead p (holdsAt condition p).next := by
  unfold holdsAt
  split <;> exact .refl p

/-- Spelling goes on step by step and stops at the first difference, which is ahead too. -/
theorem ahead_spell (cs : List Char) (p : P) : Ahead p (spell cs p).next := by
  induction cs generalizing p with
  | nil => exact .refl p
  | cons c cs ih =>
    rw [spell]
    split
    · exact (Ahead.advance p).trans (ih _)
    · exact .refl p

/-- A whole text is spelled from the place on, found or not. -/
theorem ahead_literalAt (text : String) (p : P) : Ahead p (literalAt text p).next := by
  rw [literalAt, Outcome.next_map]
  exact ahead_spell _ p

end Run

/-- An outcome and its alternative as one end where one of them ends. -/
theorem Outcome.ahead_orElse [Cursor P] {p : P} {o o' : Outcome P α} (h : Ahead p o.next)
    (h' : Ahead p o'.next) : Ahead p (o.orElse o').next := by
  unfold orElse
  split
  · exact h
  · exact h'
  · split
    · exact h'
    · exact h

/-- **Progress.** A run ends where it began or further on in the same text. -/
theorem Evaluates.ahead [IsEmpty S.Hook] [Cursor P] {host : Host S P ω} {m : Matcher S α}
    {st st' : State S P ω} {p : P} {o : Outcome P α} (h : Evaluates host m st p o st') :
    Ahead p o.next := by
  induction h with
  | satisfy => exact Run.ahead_satisfyAt _ _
  | literal | backref => exact Run.ahead_literalAt _ _
  | atStart | atEnd | behind => exact Run.ahead_holdsAt _ _
  | map _ ih => exact (Outcome.next_map _ _).symm ▸ ih
  | flatMap _ _ ih ih' | many1 _ _ ih ih' | manyMore _ _ _ ih ih' => exact ih.trans ih'
  | seq _ _ ih ih' => exact (Outcome.next_map _ _).symm ▸ ih.trans ih'
  -- Both failures are ahead, so the one that is kept is.
  | choiceElse _ _ ih ih' => exact Outcome.ahead_orElse ih ih'
  | flatMapFail _ ih | seqFail _ ih | choice _ ih | many1Fail _ ih | optional _ ih
  | guardFail _ ih | capture _ ih | captureFail _ ih | enter _ _ _ ih | shared _ ih => exact ih
  -- An action could lead anywhere; there is none.
  | @hook action => exact isEmptyElim action
  | _ => exact .refl _

/-! ### Matchers that leave the state alone -/

namespace Matcher

/-- Nothing is captured, no rule is used or changed, and no action is performed. -/
def Quiet : {α : Type} → Matcher S α → Prop
  | _, .map _ m => m.Quiet
  | _, .flatMap m _ next => m.Quiet ∧ ∀ v, (next v).Quiet
  | _, .seq a b => a.Quiet ∧ b.Quiet
  | _, .choice a b => a.Quiet ∧ b.Quiet
  | _, .many m => m.Quiet
  | _, .many1 m => m.Quiet
  | _, .optional m => m.Quiet
  | _, .not m => m.Quiet
  | _, .guard m => m.Quiet
  | _, .shared _ m => m.Quiet
  | _, .capture _ _ | _, .rule _ | _, .weak _ | _, .define _ _ | _, .undefine _ | _, .hook _ =>
    False
  | _, .satisfy _ | _, .literal _ | _, .atStart | _, .atEnd | _, .behind _ | _, .succeed _
  | _, .fail | _, .backref _ | _, .defer _ => True

end Matcher

/-- Entering a reference and leaving it again changes nothing. -/
theorem State.leave_enter (st : State S P ω) (frame : List Slot) :
    (st.enter frame).leave st = st := by
  simp [enter, leave, Rules.enter, Rules.hold, Rules.leave_of_edits_eq]

end TextMatch
