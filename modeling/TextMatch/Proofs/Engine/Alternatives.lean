import Mathlib.Order.RelClasses
import TextMatch.Cursor.Indexed
import TextMatch.Cursor.Place
import TextMatch.Cursor.Tagged
import TextMatch.Proofs.Engine.Inversion

namespace TextMatch

/-!
# Any number of alternatives

A choice combines two alternatives.  More of them are combined two by two, and there are many ways
to do that; all of them come to the same.

* `Grouping` — alternatives combined two by two, as matchers and as runs;
* `FailInTurn` — alternatives fail one after another, each in the state the one before it left;
* `LeftmostFurthest` — the first of the cursors that no other is behind;
* `EndsInTurn` — the end of alternatives in a row: that of the first to succeed, or the leftmost of
  the furthest failures;
* `endsInTurn_append_iff` — two rows one after the other end like a choice between them;
* `evaluates_grouping_iff` — however the alternatives are grouped, they end like the row.

Failures are compared by offset alone, so the order has to be a strict weak one: equally far cursors
need not be equal, and which of them is kept can be seen.
-/

universe u v

/-- Alternatives combined two by two. -/
inductive Grouping (ι : Type u) where
  | one (alternative : ι)
  | either (first second : Grouping ι)

namespace Grouping

variable {S : Signature} {P ω α : Type} {ι : Type u}

/-- The alternatives in a row. -/
def leaves : Grouping ι → List ι
  | one a => [a]
  | either g h => g.leaves ++ h.leaves

/-- The choice between matchers. -/
def matcher : Grouping (Matcher S α) → Matcher S α
  | one m => m
  | either g h => .choice g.matcher h.matcher

/-- The choice between runs, whatever they are the runs of. -/
def run [Cursor P] : Grouping (Run S P ω α) → Run S P ω α
  | one r => r
  | either g h => Run.choice g.run h.run

/-- The same grouping of other alternatives. -/
def map {κ : Type v} (f : ι → κ) : Grouping ι → Grouping κ
  | one a => one (f a)
  | either g h => either (g.map f) (h.map f)

/-- A tree of alternatives has at least one, since choosing between none is not among them. -/
theorem leaves_ne_nil (g : Grouping ι) : g.leaves ≠ [] := by
  induction g with
  | one a => exact List.cons_ne_nil a []
  | either g h ihg _ => exact List.append_ne_nil_of_left_ne_nil ihg h.leaves

/-- Changing the alternatives changes nothing about their order. -/
@[simp] theorem leaves_map {κ : Type v} (f : ι → κ) (g : Grouping ι) :
    (g.map f).leaves = g.leaves.map f := by
  induction g with
  | one a => rfl
  | either g h ihg ihh => rw [map, leaves, ihg, ihh, leaves, List.map_append]

/-- The run of a choice between matchers is the choice between their runs. -/
theorem run_matcher [Cursor P] (host : Host S P ω) (n : Nat) (g : Grouping (Matcher S α)) :
    g.matcher.run host n = (g.map fun m => m.run host n).run := by
  induction g with
  | one m => rfl
  | either g h ihg ihh => rw [matcher, Matcher.run_choice, ihg, ihh, map, run]

end Grouping

variable {S : Signature} {P ω α : Type} {ι : Type u}

/-! ### Alternatives in a row -/

/-- How runs may end: with an outcome and a state, from a state and a cursor. -/
abbrev Ending (S : Signature) (P ω α : Type) :=
  State S P ω → P → Outcome P α → State S P ω → Prop

/-- How a run that is a function ends. -/
def Run.Ends (r : Run S P ω α) : Ending S P ω α := fun st p o st' => r st p = some (o, st')

/-- All the alternatives fail from the cursor, each in the state the one before it left.  The
    cursors are those of the failures. -/
inductive FailInTurn (ends : ι → Ending S P ω α) (p : P) :
    List ι → State S P ω → List P → State S P ω → Prop
  | nil {st} : FailInTurn ends p [] st [] st
  | cons {a as st q st₁ qs st'} (h : ends a st p (.failure q) st₁)
      (hs : FailInTurn ends p as st₁ qs st') : FailInTurn ends p (a :: as) st (q :: qs) st'

/-- No cursor is further on, and all on its left are less far. -/
def LeftmostFurthest [Cursor P] (qs : List P) (q : P) : Prop :=
  ∃ before after, qs = before ++ q :: after ∧
    (∀ r ∈ before, Cursor.isBefore r q = true) ∧ ∀ r ∈ after, ¬Cursor.isBefore q r = true

/-- The end of alternatives in a row.  Nothing is asked of those behind the first success. -/
inductive EndsInTurn [Cursor P] (ends : ι → Ending S P ω α) (p : P) (as : List ι)
    (st : State S P ω) : Outcome P α → State S P ω → Prop
  | success {before a after qs st₁ v q st'} (hsplit : as = before ++ a :: after)
      (hbefore : FailInTurn ends p before st qs st₁) (ha : ends a st₁ p (.success v q) st') :
      EndsInTurn ends p as st (.success v q) st'
  | failure {qs q st'} (hall : FailInTurn ends p as st qs st') (hq : LeftmostFurthest qs q) :
      EndsInTurn ends p as st (.failure q) st'

namespace FailInTurn

variable {ends : ι → Ending S P ω α} {p : P} {as bs : List ι} {st st₁ st' : State S P ω}
  {qs qs' : List P}

/-- Two rows that fail, one behind the other, are one row that fails. -/
theorem append (h : FailInTurn ends p as st qs st₁) (h' : FailInTurn ends p bs st₁ qs' st') :
    FailInTurn ends p (as ++ bs) st (qs ++ qs') st' := by
  induction h with
  | nil => exact h'
  | cons ha _ ih => exact .cons ha (ih h')

/-- What fails in a row fails in its two parts, one after the other. -/
theorem of_append (h : FailInTurn ends p (as ++ bs) st qs st') :
    ∃ qs₁ st₁ qs₂, FailInTurn ends p as st qs₁ st₁ ∧ FailInTurn ends p bs st₁ qs₂ st' ∧
      qs = qs₁ ++ qs₂ := by
  induction as generalizing st qs with
  | nil => exact ⟨[], st, qs, .nil, h, rfl⟩
  | cons a as ih =>
    cases h with
    | cons ha hs =>
      obtain ⟨qs₁, st₁, qs₂, has, hbs, rfl⟩ := ih hs
      exact ⟨_, st₁, qs₂, .cons ha has, hbs, rfl⟩

/-- There is a failure for every alternative. -/
theorem ne_nil (h : FailInTurn ends p as st qs st') (has : as ≠ []) : qs ≠ [] := by
  cases h with
  | nil => exact absurd rfl has
  | cons => exact List.cons_ne_nil _ _

end FailInTurn

/-! ### The leftmost of the furthest -/

/-- A single failure has no other to be compared with. -/
theorem LeftmostFurthest.singleton [Cursor P] (q : P) : LeftmostFurthest [q] q :=
  ⟨[], [], rfl, nofun, nofun⟩

section

variable [Cursor P] [horder : IsStrictWeakOrder P fun p q => Cursor.isBefore p q = true]
  {p q r : P} {qs qs' : List P}

/-- Of two cursors in order a third is behind the first or in front of the second. -/
theorem isBefore_or_isBefore (h : Cursor.isBefore p q = true) (r : P) :
    Cursor.isBefore p r = true ∨ Cursor.isBefore r q = true := by
  by_contra hnot
  obtain ⟨hpr, hrq⟩ := not_or.1 hnot
  -- The third would be as far as the first and as far as the second.
  have hrp : ¬Cursor.isBefore r p = true := fun hrp => hrq (horder.trans r p q hrp h)
  have hqr : ¬Cursor.isBefore q r = true := fun hqr => hpr (horder.trans p q r h hqr)
  exact (horder.incomp_trans p r q ⟨hpr, hrp⟩ ⟨hrq, hqr⟩).1 h

namespace LeftmostFurthest

/-- No other place is further than the leftmost of the furthest ones. -/
theorem not_isBefore (h : LeftmostFurthest qs q) (hr : r ∈ qs) :
    ¬Cursor.isBefore q r = true := by
  obtain ⟨before, after, rfl, hbefore, hafter⟩ := h
  rw [List.mem_append, List.mem_cons] at hr
  obtain hr | rfl | hr := hr
  · exact fun hqr => horder.irrefl q (horder.trans q r q hqr (hbefore r hr))
  · exact horder.irrefl r
  · exact hafter r hr

/-- There is only one leftmost place among the furthest ones. -/
theorem unique (h : LeftmostFurthest qs q) (h' : LeftmostFurthest qs r) : q = r := by
  have hfurthest : ∀ r ∈ qs, ¬Cursor.isBefore q r = true := fun _ => h.not_isBefore
  obtain ⟨before, after, rfl, hbefore, -⟩ := h
  have hfurthest' : ¬Cursor.isBefore r q = true := h'.not_isBefore (by simp)
  obtain ⟨before', after', heq, hbefore', -⟩ := h'
  -- Were they at different places, the left one would be in front of the right one.
  obtain ⟨tail, rfl, htail⟩ | ⟨tail, rfl, htail⟩ := List.append_eq_append_iff.1 heq
  · cases tail with
    | nil => exact (List.cons.inj htail).1
    | cons x tail =>
      obtain ⟨rfl, -⟩ := List.cons.inj htail
      have hqr : Cursor.isBefore q r = true := hbefore' q (by simp)
      exact absurd hqr (hfurthest r (by simp [heq]))
  · cases tail with
    | nil => exact (List.cons.inj htail).1.symm
    | cons x tail =>
      obtain ⟨rfl, -⟩ := List.cons.inj htail
      have hrq : Cursor.isBefore r q = true := hbefore r (by simp)
      exact absurd hrq hfurthest'

/-- Of two rows the left one's is kept unless the right one's is further on. -/
theorem append (h : LeftmostFurthest qs q) (h' : LeftmostFurthest qs' r) :
    LeftmostFurthest (qs ++ qs') (if Cursor.isBefore q r then r else q) := by
  have hfurthest : ∀ x ∈ qs, ¬Cursor.isBefore q x = true := fun _ => h.not_isBefore
  have hfurthest' : ∀ x ∈ qs', ¬Cursor.isBefore r x = true := fun _ => h'.not_isBefore
  by_cases hqr : Cursor.isBefore q r = true
  · rw [if_pos hqr]
    obtain ⟨before, after, rfl, hbefore, hafter⟩ := h'
    refine ⟨qs ++ before, after, by simp, fun x hx => ?_, hafter⟩
    -- In front of the one kept stand the failures of the first row and those of its own row.
    obtain hx | hx := List.mem_append.1 hx
    · exact (isBefore_or_isBefore hqr x).resolve_left (hfurthest x hx)
    · exact hbefore x hx
  · rw [if_neg hqr]
    obtain ⟨before, after, rfl, hbefore, hafter⟩ := h
    refine ⟨before, after ++ qs', by simp, hbefore, fun x hx => ?_⟩
    obtain hx | hx := List.mem_append.1 hx
    · exact hafter x hx
    · -- Failures of the second row are not further on than the furthest of them,
      -- which was not far enough.
      exact fun hqx => (isBefore_or_isBefore hqx r).elim hqr (hfurthest' x hx)

/-- Every row of cursors has one. -/
theorem exists_of_ne_nil (h : qs ≠ []) : ∃ q, LeftmostFurthest qs q := by
  induction qs with
  | nil => exact absurd rfl h
  | cons q qs ih =>
    cases qs with
    | nil => exact ⟨q, singleton q⟩
    | cons r rs =>
      obtain ⟨x, hx⟩ := ih (List.cons_ne_nil r rs)
      exact ⟨_, (singleton q).append hx⟩

end LeftmostFurthest

/-! ### Rows one after the other -/

variable {ends : ι → Ending S P ω α} {as bs : List ι} {st st' : State S P ω} {o : Outcome P α}

/-- One alternative tried in turn is that alternative. -/
theorem endsInTurn_singleton_iff {a : ι} : EndsInTurn ends p [a] st o st' ↔ ends a st p o st' := by
  constructor
  · rintro (⟨hsplit, hbefore, ha⟩ | ⟨hall, hq⟩)
    · obtain ⟨rfl, heq⟩ | ⟨-, heq⟩ := List.singleton_eq_append_iff.1 hsplit
      · cases heq
        cases hbefore
        exact ha
      · cases heq
    · cases hall with
      | cons h hs =>
        cases hs
        rwa [hq.unique (.singleton _)]
  · intro h
    cases o with
    | success v q => exact .success (by rfl) .nil h
    | failure q => exact .failure (.cons h .nil) (.singleton q)

/-- **Two rows end like a choice.**  The second row begins at the cursor again, in the state the
    failures of the first one left, and two failures are combined like those of two alternatives. -/
theorem endsInTurn_append_iff (has : as ≠ []) (hbs : bs ≠ []) :
    EndsInTurn ends p (as ++ bs) st o st' ↔
      (∃ v q, EndsInTurn ends p as st (.success v q) st' ∧ o = .success v q) ∨
        ∃ q st₁ o', EndsInTurn ends p as st (.failure q) st₁ ∧ EndsInTurn ends p bs st₁ o' st' ∧
          o = Outcome.orElse (.failure q) o' := by
  constructor
  · rintro (⟨hsplit, hbefore, ha⟩ | ⟨hall, hq⟩)
    · -- The first success is in one row or in the other.
      obtain ⟨front, rfl, hbs'⟩ | ⟨back, rfl, hback⟩ := List.append_eq_append_iff.1 hsplit
      · obtain ⟨qs₁, st₁, qs₂, h₁, h₂, rfl⟩ := hbefore.of_append
        obtain ⟨q, hq⟩ := LeftmostFurthest.exists_of_ne_nil (h₁.ne_nil has)
        exact .inr ⟨q, st₁, _, .failure h₁ hq, .success hbs' h₂ ha, rfl⟩
      · cases back with
        | nil =>
          rw [List.append_nil] at has ⊢
          obtain ⟨q, hq⟩ := LeftmostFurthest.exists_of_ne_nil (hbefore.ne_nil has)
          have hbs' : bs = [] ++ _ := hback.symm
          exact .inr ⟨q, _, _, .failure hbefore hq, .success hbs' .nil ha, rfl⟩
        | cons x back =>
          obtain ⟨rfl, -⟩ := List.cons.inj hback
          exact .inl ⟨_, _, .success rfl hbefore ha, rfl⟩
    · -- All fail, and each row has a failure of its own that is kept; of
      -- the two the further one is.
      obtain ⟨qs₁, st₁, qs₂, h₁, h₂, rfl⟩ := hall.of_append
      obtain ⟨q₁, hq₁⟩ := LeftmostFurthest.exists_of_ne_nil (h₁.ne_nil has)
      obtain ⟨q₂, hq₂⟩ := LeftmostFurthest.exists_of_ne_nil (h₂.ne_nil hbs)
      refine .inr ⟨q₁, st₁, .failure q₂, .failure h₁ hq₁, .failure h₂ hq₂, ?_⟩
      rw [hq.unique (hq₁.append hq₂), Outcome.orElse_failure_failure]
      split <;> rfl
  · -- A success of the first row leaves the second untried; behind its
    -- failure the second row goes on.
    rintro (⟨v, q, ha, rfl⟩ | ⟨q, st₁, o', ha, hb, rfl⟩)
    · cases ha with
      | success hsplit hbefore ha =>
        exact .success (by rw [hsplit, List.append_assoc, List.cons_append]) hbefore ha
    · cases ha with
      | failure hall hq =>
        cases hb with
        | success hsplit hbefore hb =>
          exact .success (by rw [hsplit, ← List.append_assoc]) (hall.append hbefore) hb
        | failure hall' hq' =>
          rw [Outcome.orElse_failure_failure]
          have hboth := EndsInTurn.failure (hall.append hall') (hq.append hq')
          split at hboth
          case isTrue hqr => rwa [if_pos hqr]
          case isFalse hqr => rwa [if_neg hqr]

end

/-! ### Choices -/

section

variable [Cursor P] {host : Host S P ω} {st st' : State S P ω} {p : P} {o : Outcome P α}

variable [IsStrictWeakOrder P fun p q => Cursor.isBefore p q = true]

/-- Runs grouped in any way end like the row of them. -/
theorem Grouping.run_eq_some_iff (g : Grouping (Run S P ω α)) :
    g.run st p = some (o, st') ↔ EndsInTurn Run.Ends p g.leaves st o st' := by
  induction g generalizing st o st' with
  | one r => rw [leaves, endsInTurn_singleton_iff, run, Run.Ends]
  | either g h ihg ihh =>
    rw [run, Run.choice_eq_some_iff, leaves,
      endsInTurn_append_iff g.leaves_ne_nil h.leaves_ne_nil]
    simp only [ihg, ihh]

/-- Matchers grouped in any way end like the row of them. -/
theorem Grouping.evaluates_iff (g : Grouping (Matcher S α)) :
    Evaluates host g.matcher st p o st' ↔
      EndsInTurn (fun m => Evaluates host m) p g.leaves st o st' := by
  induction g generalizing st o st' with
  | one m => rw [leaves, endsInTurn_singleton_iff, matcher]
  | either g h ihg ihh =>
    rw [matcher, evaluates_choice_iff, leaves,
      endsInTurn_append_iff g.leaves_ne_nil h.leaves_ne_nil]
    simp only [ihg, ihh]

/-- Runs depend on the row alone. -/
theorem Grouping.run_congr {g h : Grouping (Run S P ω α)} (hleaves : g.leaves = h.leaves) :
    g.run st p = h.run st p := by
  refine Option.ext fun r => ?_
  obtain ⟨o, st'⟩ := r
  rw [g.run_eq_some_iff, h.run_eq_some_iff, hleaves]

/-- **However alternatives are grouped, they are tried in a row.**  The end is that of the first
    that succeeds, or the leftmost of the furthest failures where all fail; each begins at the
    cursor, in the state the one before it left.  This holds of matchers, and of all other runs that
    are combined by choices.  Only the row matters, within every bound. -/
theorem evaluates_grouping_iff (host : Host S P ω) (st : State S P ω) (p : P) :
    (∀ (g : Grouping (Matcher S α)) o st', Evaluates host g.matcher st p o st' ↔
      EndsInTurn (fun m => Evaluates host m) p g.leaves st o st') ∧
      (∀ (g : Grouping (Run S P ω α)) o st', g.run st p = some (o, st') ↔
        EndsInTurn Run.Ends p g.leaves st o st') ∧
      (∀ g h : Grouping (Matcher S α), g.leaves = h.leaves →
        ∀ n, g.matcher.run host n st p = h.matcher.run host n st p) ∧
      ∀ g h : Grouping (Run S P ω α), g.leaves = h.leaves → g.run st p = h.run st p := by
  refine ⟨fun g o st' => g.evaluates_iff, fun g o st' => g.run_eq_some_iff, fun g h hleaves n => ?_,
    fun g h => Grouping.run_congr⟩
  rw [g.run_matcher, h.run_matcher]
  exact Grouping.run_congr (by rw [Grouping.leaves_map, Grouping.leaves_map, hleaves])

end

/-! ### Cursors that are compared by an index -/

/-- A comparison of indices is a strict weak order. -/
theorem isStrictWeakOrder_of_index [Cursor P] (index : P → Nat)
    (h : ∀ p q : P, Cursor.isBefore p q = true ↔ index p < index q) :
    IsStrictWeakOrder P fun p q => Cursor.isBefore p q = true where
  irrefl p := by
    rw [h]
    exact Nat.lt_irrefl _
  trans p q r := by
    simp only [h]
    exact Nat.lt_trans
  incomp_trans p q r := by
    simp only [h]
    omega

instance : IsStrictWeakOrder Place fun p q => Cursor.isBefore p q = true :=
  isStrictWeakOrder_of_index Place.index fun _ _ => decide_eq_true_iff

instance : IsStrictWeakOrder (Tagged Indexed) fun p q => Cursor.isBefore p q = true :=
  isStrictWeakOrder_of_index (fun p => p.cursor.index) fun _ _ => decide_eq_true_iff

/-- Matchers whose actions are numbers. -/
abbrev numbered : Signature := ⟨Empty, nofun, Empty, Nat⟩

/-- An action puts its number on the cursor and at the end of a list. -/
def numbering : Host numbered (Tagged Indexed) (List Nat) where
  definition := nofun
  act n _ done p := (done ++ [n], { p with tag := n })

/-- A matcher that fails and can be told from others that do. -/
def numberedFailure (n : Nat) : Matcher numbered Unit := .keepRight (.hook n) .fail

/-- A numbered failure stays where it is, and leaves its number in the place and in the world. -/
theorem evaluates_numberedFailure (n : Nat) (st : State numbered (Tagged Indexed) (List Nat))
    (p : Tagged Indexed) :
    Evaluates numbering (numberedFailure n) st p (.failure { p with tag := n })
      { st with world := st.world ++ [n] } :=
  .map (f := Prod.snd) (.seq .hook .fail)

/-- Three alternatives that fail equally far are all tried, and the failure of the first one is
    kept, whichever two of them are combined first. -/
theorem evaluates_grouping_numbered :
    let st : State numbered (Tagged Indexed) (List Nat) := ⟨.new none, .empty, []⟩
    let p : Tagged Indexed := ⟨.start "1", 0⟩
    let a : Grouping (Matcher numbered Unit) := .one (numberedFailure 1)
    let b : Grouping (Matcher numbered Unit) := .one (numberedFailure 2)
    let c : Grouping (Matcher numbered Unit) := .one (numberedFailure 3)
    Evaluates numbering (Grouping.either (.either a b) c).matcher st p
        (.failure { p with tag := 1 }) { st with world := [1, 2, 3] } ∧
      Evaluates numbering (Grouping.either a (.either b c)).matcher st p
        (.failure { p with tag := 1 }) { st with world := [1, 2, 3] } := by
  intro st p a b c
  -- The row is the same for both.
  have hrow : EndsInTurn (fun m => Evaluates numbering m) p
      [numberedFailure 1, numberedFailure 2, numberedFailure 3] st (.failure { p with tag := 1 })
      { st with world := [1, 2, 3] } :=
    .failure (.cons (evaluates_numberedFailure 1 _ _) (.cons (evaluates_numberedFailure 2 _ _)
      (.cons (evaluates_numberedFailure 3 _ _) .nil))) ⟨[], _, rfl, nofun, by decide⟩
  obtain ⟨hiff, -⟩ := evaluates_grouping_iff numbering st p
  exact ⟨(hiff _ _ _).2 hrow, (hiff _ _ _).2 hrow⟩

end TextMatch
