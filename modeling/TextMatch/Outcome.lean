import TextMatch.Cursor

namespace TextMatch

/-!
# Outcomes

What a run of a matcher ends with.

* `Outcome` — a value and the cursor behind what was matched, or the cursor a failure is
  reported at;
* `Outcome.orElse` — an outcome and its alternative become one: of two failures the one further
  on is kept, and the first of two that are equally far;
* `Outcome.agrees` — equality of values and of offsets.
-/

/-- The end of a run. -/
inductive Outcome (P α : Type) where
  | success (value : α) (next : P)
  | failure (next : P)
deriving Repr, DecidableEq

namespace Outcome

variable {P α β : Type}

/-- Whether the run matched. -/
def isSuccess : Outcome P α → Bool
  | success _ _ => true
  | failure _ => false

/-- Whether the run did not match. -/
def isFailure (o : Outcome P α) : Bool := !o.isSuccess

/-- The cursor behind the match, or the one of the failure. -/
def next : Outcome P α → P
  | success _ q => q
  | failure q => q

/-- The value, if the run matched. -/
def value? : Outcome P α → Option α
  | success a _ => some a
  | failure _ => none

/-- The outcome with its value changed. -/
def map (f : α → β) : Outcome P α → Outcome P β
  | success a q => success (f a) q
  | failure q => failure q

/-- An outcome and its alternative as one.  A success stands, and the alternative of a failure is
    taken if it succeeds or failed further on. -/
def orElse [Cursor P] : Outcome P α → Outcome P α → Outcome P α
  | success a p, _ => success a p
  | failure _, success a q => success a q
  | failure p, failure q => if Cursor.isBefore p q then failure q else failure p

/-- Both match with equal values or both fail, at the same offset. -/
def agrees [Cursor P] [BEq α] : Outcome P α → Outcome P α → Bool
  | success a p, success b q => a == b && Cursor.sameOffset p q
  | failure p, failure q => Cursor.sameOffset p q
  | _, _ => false

/-- A match keeps its cursor when its value is changed. -/
@[simp] theorem map_success (f : α → β) (a : α) (q : P) :
    (success a q).map f = success (f a) q := rfl

/-- A failure has no value to change. -/
@[simp] theorem map_failure (f : α → β) (q : P) :
    (failure q : Outcome P α).map f = failure q := rfl

/-- A success stands, whatever the alternative is. -/
@[simp] theorem orElse_success [Cursor P] (a : α) (p : P) (o : Outcome P α) :
    (success a p).orElse o = success a p := rfl

/-- The success of an alternative is taken wherever the failure was. -/
@[simp] theorem orElse_failure_success [Cursor P] (p q : P) (a : α) :
    (failure p : Outcome P α).orElse (success a q) = success a q := rfl

/-- Of two failures the second is taken only if it is further on. -/
@[simp] theorem orElse_failure_failure [Cursor P] (p q : P) :
    (failure p : Outcome P α).orElse (failure q) =
      if Cursor.isBefore p q then failure q else failure p := rfl

/-- Of two failures at one cursor it does not matter which is kept. -/
theorem orElse_self [Cursor P] (q : P) :
    (failure q : Outcome P α).orElse (failure q) = failure q := by
  rw [orElse_failure_failure, ite_self]

/-- Failures are compared whatever the value may be. -/
theorem map_orElse [Cursor P] (f : α → β) (q : P) (o : Outcome P α) :
    (orElse (failure q) o).map f = orElse (failure q) (o.map f) := by
  cases o with
  | success v r => rfl
  | failure r =>
    rw [orElse_failure_failure, map_failure, orElse_failure_failure]
    split <;> rfl

/-- Changing a value moves no cursor. -/
@[simp] theorem next_map (f : α → β) (o : Outcome P α) : (o.map f).next = o.next := by
  cases o <;> rfl

/-- Changing a value does not decide a match. -/
@[simp] theorem isSuccess_map (f : α → β) (o : Outcome P α) :
    (o.map f).isSuccess = o.isSuccess := by
  cases o <;> rfl

end Outcome

end TextMatch
