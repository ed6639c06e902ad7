import TextMatch.Proofs.Engine.Reach

namespace TextMatch

/-!
# What a run may come to

`Matcher.Reaches` follows the references to the definitions there are.  A run may give a rule
another definition, and then follow its references to that one.  What it may come to in this way can
still be read off the trees it starts with, since a definition that is given stands in the tree
that gives it.

* `Matcher.MayReach` — a node is reached, through definitions that are given on the way too;
* `not_mayReach` — where no definition is changed this is what `Reaches` says;
* `Rules.Confined` — the rules have the definitions of a grammar, or others that may not reach a
  node;
* `Evaluates.confined` — a run that may not reach a node leaves them so.
-/

variable {S : Signature} {P ω α β : Type}

namespace Matcher

/-- A step that gives a rule the definition. -/
def IsDefining (definition : Matcher S S.Value) : Kind S
  | _, .define _ definition' => definition' = definition
  | _, _ => False

/-- A node of the kind is reached, or somewhere a rule is given a
    definition from which one may be. -/
inductive MayReach (g : Grammar S) (kind : Kind S) : {α : Type} → Matcher S α → Prop where
  | reaches {α : Type} {m : Matcher S α} (h : m.Reaches g kind) : MayReach g kind m
  | defines {α : Type} {m : Matcher S α} {d : Matcher S S.Value} (hd : m.Reaches g (IsDefining d))
      (h : MayReach g kind d) : MayReach g kind m

variable {g : Grammar S} {kind kind' : Kind S} {a : Matcher S α} {b : Matcher S β}

/-- What a part may reach the whole may. -/
theorem MayReach.imp (h : a.MayReach g kind)
    (hpart : ∀ {kind}, a.Reaches g kind → b.Reaches g kind) : b.MayReach g kind := by
  cases h with
  | reaches h => exact .reaches (hpart h)
  | defines hd h => exact .defines (hpart hd) h

/-- What the whole may not reach a part may not. -/
theorem not_mayReach_part (h : ¬b.MayReach g kind)
    (hpart : ∀ {kind}, a.Reaches g kind → b.Reaches g kind) : ¬a.MayReach g kind :=
  fun ha => h (ha.imp hpart)

/-- Something is of the kind that may be reached. -/
theorem MayReach.exists_kind (h : a.MayReach g kind) : ∃ α m, kind α m := by
  induction h with
  | reaches h => exact h.exists_kind
  | defines _ _ ih => exact ih

/-- What may be reached of a kind may be reached of every wider kind. -/
theorem MayReach.mono (hkind : ∀ α m, kind α m → kind' α m) (h : a.MayReach g kind) :
    a.MayReach g kind' := by
  induction h with
  | reaches h => exact .reaches (h.mono hkind)
  | defines hd _ ih => exact .defines hd ih

/-- Where no definition is changed, what is not reached may not be. -/
theorem not_mayReach (hreach : ¬a.Reaches g kind) (hedit : ¬a.Edits g) : ¬a.MayReach g kind := by
  rintro (h | ⟨hd, -⟩)
  · exact hreach h
  · refine hedit (hd.mono fun _ m hm => ?_)
    cases m with
    | define => trivial
    | _ => exact hm.elim

end Matcher

/-! ### The rules of a run -/

open Matcher

/-- Every definition is that of the grammar, or may not reach a node of the kind. -/
def Rules.Confined (r : Rules S) (g : Grammar S) (kind : Kind S) : Prop :=
  ∀ s d, r.definition? s = some d → g.ruled s = some d ∨ ¬d.MayReach g kind

/-- The definitions there are confine themselves. -/
theorem Rules.confined_self {host : Host S P ω} (st : State S P ω) (kind : Kind S) :
    st.rules.Confined (st.grammar host) kind := fun _ _ hd => .inl hd

namespace Rules.Confined

variable {g : Grammar S} {kind : Kind S} {r before : Rules S}

/-- A definition that reaches nothing of the kind may be given to any rule. -/
theorem define (h : r.Confined g kind) (s : Slot) {d : Matcher S S.Value}
    (hd : ¬d.MayReach g kind) : (r.define s d).Confined g kind := by
  intro other d' hd'
  rcases definition?_of_update hd' with heq | hd'
  · obtain rfl := Option.some.inj heq
    exact .inr hd
  · exact h other d' hd'

/-- A rule without a definition reaches nothing at all. -/
theorem undefine (h : r.Confined g kind) (s : Slot) : (r.undefine s).Confined g kind := by
  intro other d hd
  rcases definition?_of_update hd with heq | hd
  · cases heq
  · exact h other d hd

/-- Owning more rules changes none of their definitions. -/
theorem enter (h : r.Confined g kind) (frame : List Slot) : (r.enter frame).Confined g kind := h

/-- Giving rules up may end definitions, but makes none. -/
theorem leave (h : r.Confined g kind) (hbefore : before.Confined g kind) :
    (r.leave before).Confined g kind := by
  intro s d hd
  rcases definition?_of_leave hd with hd | hd
  · exact hbefore s d hd
  · exact h s d hd

end Rules.Confined

section

variable [Cursor P] {host : Host S P ω} {g : Grammar S} {kind : Kind S}

omit [Cursor P] in
/-- A definition that is referred to may not reach what the reference may not. -/
theorem Refers.not_mayReach (hg : g.named = host.definition) {rules : Rules S}
    (hr : rules.Confined g kind) {m definition : Matcher S α} {frame : List Slot}
    (href : Refers host rules m frame definition) (hm : ¬m.MayReach g kind) :
    ¬definition.MayReach g kind := by
  cases href with
  | defer =>
    rw [← hg]
    exact not_mayReach_part hm .defer
  | rule hd =>
    -- The definition is one that was there from the beginning, or one that is confined by itself.
    rcases hr _ _ hd with hd | hn
    · exact not_mayReach_part hm (.rule hd)
    · exact hn
  | weak hd =>
    rcases hr _ _ hd with hd | hn
    · exact not_mayReach_part hm (.weak hd)
    · exact hn

/-- **Runs stay confined.** A run that may not reach a node of the kind gives no rule a definition
    that may, whatever it defines and whatever that defines in turn. -/
theorem Evaluates.confined (hg : g.named = host.definition) {m : Matcher S α}
    {st st' : State S P ω} {p : P} {o : Outcome P α} (h : Evaluates host m st p o st')
    (hm : ¬m.MayReach g kind) (hr : st.rules.Confined g kind) : st'.rules.Confined g kind := by
  -- Induction on the run; only definitions and the ends of calls touch the rules.
  induction h with
  | map _ ih => exact ih (not_mayReach_part hm .map) hr
  | flatMap _ _ ih ihn =>
    exact ihn (not_mayReach_part hm (.flatMapNext _)) (ih (not_mayReach_part hm .flatMap) hr)
  | flatMapFail _ ih => exact ih (not_mayReach_part hm .flatMap) hr
  | seq _ _ iha ihb =>
    exact ihb (not_mayReach_part hm .seqNext) (iha (not_mayReach_part hm .seq) hr)
  | seqFail _ ih => exact ih (not_mayReach_part hm .seq) hr
  | choice _ ih => exact ih (not_mayReach_part hm .choice) hr
  | choiceElse _ _ iha ihb =>
    exact ihb (not_mayReach_part hm .choiceElse) (iha (not_mayReach_part hm .choice) hr)
  | manyMore _ _ _ ih ihm => exact ihm hm (ih (not_mayReach_part hm .many) hr)
  | manyStuck _ _ ih | manyFail _ ih => exact ih (not_mayReach_part hm .many) hr
  | many1 _ _ ih ihm =>
    exact ihm (not_mayReach_part hm .many1) (ih (not_mayReach_part hm fun h => .many1 (.many h)) hr)
  | many1Fail _ ih => exact ih (not_mayReach_part hm fun h => .many1 (.many h)) hr
  | optional _ ih | optionalNone _ ih => exact ih (not_mayReach_part hm .optional) hr
  | notFail _ ih | not _ ih => exact ih (not_mayReach_part hm .not) hr
  | guard _ ih | guardFail _ ih => exact ih (not_mayReach_part hm .guard) hr
  | capture _ ih | captureFail _ ih => exact ih (not_mayReach_part hm .capture) hr
  | enter href _ _ ih => exact (ih (href.not_mayReach hg hr hm) (hr.enter _)).leave hr
  | define => exact hr.define _ fun h => hm (.defines (.here rfl) h)
  | undefine => exact hr.undefine _
  | shared _ ih => exact ih (not_mayReach_part hm .shared) hr
  | _ => exact hr

end

end TextMatch
