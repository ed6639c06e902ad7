import TextMatch.Proofs.Engine.CaptureLog
import TextMatch.Proofs.Engine.Nesting

namespace TextMatch

/-!
# References that can be exchanged

A name can be referred to by itself, by a rule that is defined as what the name stands for, and
weakly by such a rule.  Over one system of definitions or over two that agree, it makes no
difference which of these is used where, in a matcher or in the definitions themselves.

* `Definitions` — what names stand for, and the rules that go by them;
* `Definitions.RefersTo` — the three kinds of references to a name;
* `Definitions.Alike` — matchers that differ in the kinds of their references only;
* `Definitions.Agree` — two systems in which what goes by one name is alike;
* `Call.Still` — a call inside which no definition is changed;
* `Call.Exchangeable` — two calls that differ in their references, one of which is still;
* `Evaluates.exchange` — alike matchers end alike;
* `run_references_exchange` — and both end, or both go on for ever.

The rules of the two systems have nothing to do with each other, so a reference owns other rules
while it runs in one system than in the other.  As long as no definition is changed, what is owned
does not matter.
-/

variable {S : Signature} {P ω α β : Type}

/-! ### Systems of definitions -/

/-- A system of definitions.  Some rules go by names; these live, and have definitions. -/
structure Definitions (S : Signature) (P ω : Type) where
  host : Host S P ω
  rules : Rules S
  /-- The rule is another way to refer to the name. -/
  names : Slot → S.Name → Prop
  defined : ∀ {s n}, names s n → ∃ m, rules.definition? s = some m

namespace Definitions

variable {A B : Definitions S P ω}

/-- The matcher is a reference to the name: the name itself, a rule that goes by it, or such a rule
    referred to weakly. -/
def RefersTo (A : Definitions S P ω) : {α : Type} → Matcher S α → S.Name → Prop
  | _, .defer n', n => n' = n
  | _, .rule s, n => A.names s n
  | _, .weak s, n => A.names s n
  | _, _, _ => False

/-- What goes by a name: what it stands for, and the definitions of its rules. -/
inductive Defines (A : Definitions S P ω) (n : S.Name) : {α : Type} → Matcher S α → Prop where
  | name : Defines A n (A.host.definition n)
  | rule {s m} (hs : A.names s n) (hd : A.rules.definition? s = some m) : Defines A n m

/-- The matchers are the same but for their references, which are to the same names.  What a part
    of a matcher owns depends on its references, so it is not compared. -/
def Alike (A B : Definitions S P ω) : {α : Type} → Matcher S α → Matcher S α → Prop
  | _, .map f m, x => ∃ m', x = .map f m' ∧ Alike A B m m'
  | _, .flatMap m _ next, x => ∃ m' holds next',
    x = .flatMap m' holds next' ∧ Alike A B m m' ∧ ∀ v, Alike A B (next v) (next' v)
  | _, .seq a b, x => ∃ a' b', x = .seq a' b' ∧ Alike A B a a' ∧ Alike A B b b'
  | _, .choice a b, x => ∃ a' b', x = .choice a' b' ∧ Alike A B a a' ∧ Alike A B b b'
  | _, .many m, x => ∃ m', x = .many m' ∧ Alike A B m m'
  | _, .many1 m, x => ∃ m', x = .many1 m' ∧ Alike A B m m'
  | _, .optional m, x => ∃ m', x = .optional m' ∧ Alike A B m m'
  | _, .not m, x => ∃ m', x = .not m' ∧ Alike A B m m'
  | _, .guard m, x => ∃ m', x = .guard m' ∧ Alike A B m m'
  | _, .capture name m, x => ∃ m', x = .capture name m' ∧ Alike A B m m'
  | _, .shared _ m, x => ∃ holds m', x = .shared holds m' ∧ Alike A B m m'
  | _, .define s m, x => ∃ m', x = .define s m' ∧ Alike A B m m'
  | _, .defer n, x => B.RefersTo x n
  | _, .rule s, x => ∃ n, A.names s n ∧ B.RefersTo x n
  | _, .weak s, x => ∃ n, A.names s n ∧ B.RefersTo x n
  | _, m, x => x = m

/-- What goes by one name in both systems is alike, and actions have the same effect. -/
structure Agree (A B : Definitions S P ω) : Prop where
  act_eq : B.host.act = A.host.act
  alike : ∀ {n : S.Name} {α : Type} {m m' : Matcher S α},
    A.Defines n m → B.Defines n m' → Alike A B m m'

/-! ### References -/

/-- References to one name are alike. -/
theorem alike_of_refersTo {m m' : Matcher S α} {n : S.Name} (h : A.RefersTo m n)
    (h' : B.RefersTo m' n) : Alike A B m m' := by
  cases m with
  | defer =>
    obtain rfl : _ = n := h
    exact h'
  | rule => exact ⟨n, h, h'⟩
  | weak => exact ⟨n, h, h'⟩
  | _ => exact h.elim

/-- Likeness does not prefer one of the two systems. -/
theorem Alike.symm {m m' : Matcher S α} (h : Alike A B m m') : Alike B A m' m := by
  induction m with
  | map f m ih =>
    obtain ⟨m', rfl, hm⟩ := h
    exact ⟨m, rfl, ih hm⟩
  | flatMap m holds next ih ihn =>
    obtain ⟨m', holds', next', rfl, hm, hnext⟩ := h
    exact ⟨m, holds, next, rfl, ih hm, fun v => ihn v (hnext v)⟩
  | seq a b iha ihb =>
    obtain ⟨a', b', rfl, ha, hb⟩ := h
    exact ⟨a, b, rfl, iha ha, ihb hb⟩
  | choice a b iha ihb =>
    obtain ⟨a', b', rfl, ha, hb⟩ := h
    exact ⟨a, b, rfl, iha ha, ihb hb⟩
  | many m ih | many1 m ih | optional m ih | not m ih | guard m ih | capture _ m ih
  | define _ m ih =>
    obtain ⟨m', rfl, hm⟩ := h
    exact ⟨m, rfl, ih hm⟩
  | shared holds m ih =>
    obtain ⟨holds', m', rfl, hm⟩ := h
    exact ⟨holds, m, rfl, ih hm⟩
  -- A reference is like any other that stands for the same definition, of whatever kind.
  | defer n => exact alike_of_refersTo (B := A) (n := n) h rfl
  | rule s | weak s =>
    obtain ⟨n, hs, hx⟩ := h
    exact alike_of_refersTo hx hs
  | _ =>
    obtain rfl := h
    rfl

/-- Agreement of two systems does not prefer one of them either. -/
theorem Agree.symm (h : A.Agree B) : B.Agree A where
  act_eq := h.act_eq.symm
  alike hm hm' := (h.alike hm' hm).symm

/-- A reference is to a name, and so is what is alike. -/
theorem Alike.exists_refersTo {rules : Rules S} {m m' definition : Matcher S α}
    {frame : List Slot} (h : Alike A B m m') (href : Refers A.host rules m frame definition) :
    ∃ n, A.RefersTo m n ∧ B.RefersTo m' n := by
  cases href with
  | defer => exact ⟨_, rfl, h⟩
  | rule => exact h
  | weak => exact h

/-- Every reference to a name stands for something. -/
theorem RefersTo.exists_refers {rules : Rules S} {m : Matcher S α} {n : S.Name}
    (h : A.RefersTo m n) (hrules : rules.definition? = A.rules.definition?) :
    ∃ frame definition, Refers A.host rules m frame definition := by
  cases m with
  | defer => exact ⟨_, _, .defer⟩
  | rule =>
    obtain ⟨d, hd⟩ := A.defined h
    exact ⟨_, d, .rule (hrules ▸ hd)⟩
  | weak =>
    obtain ⟨d, hd⟩ := A.defined h
    exact ⟨_, d, .weak (hrules ▸ hd)⟩
  | _ => exact h.elim

/-- What a reference to a name stands for goes by that name. -/
theorem RefersTo.defines {rules : Rules S} {m definition : Matcher S α} {frame : List Slot}
    {n : S.Name} (h : A.RefersTo m n) (href : Refers A.host rules m frame definition)
    (hrules : rules.definition? = A.rules.definition?) : A.Defines n definition := by
  cases href with
  | defer =>
    obtain rfl : _ = n := h
    exact .name
  | rule hd => exact .rule h (hrules ▸ hd)
  | weak hd => exact .rule h (hrules ▸ hd)

/-- Where two systems agree, references that are alike stand for definitions that are alike. -/
theorem Agree.exists_refers (hAB : A.Agree B) {rules rules' : Rules S}
    {m m' definition : Matcher S α} {frame : List Slot} (hm : Alike A B m m')
    (href : Refers A.host rules m frame definition)
    (hrules : rules.definition? = A.rules.definition?)
    (hrules' : rules'.definition? = B.rules.definition?) :
    ∃ frame' definition', Refers B.host rules' m' frame' definition' ∧
      Alike A B definition definition' := by
  obtain ⟨n, hn, hn'⟩ := hm.exists_refersTo href
  obtain ⟨frame', definition', href'⟩ := hn'.exists_refers hrules'
  exact ⟨frame', definition', href',
    hAB.alike (hn.defines href hrules) (hn'.defines href' hrules')⟩

end Definitions

/-! ### Calls that change no definition -/

/-- No definition is given or taken away inside the call. -/
def Call.Still [Cursor P] (host : Host S P ω) (c : Call S P ω) : Prop :=
  ∀ c', c.Inside host c' → ¬Matcher.IsEdit _ c'.matcher

/-- Where no change of a definition is inside, none is inside any part. -/
theorem Call.Still.of_makes [Cursor P] {host : Host S P ω} {c c' : Call S P ω}
    (h : c.Still host) (hc : c.Makes host c') : c'.Still host :=
  fun d hd => h d (hd.head hc)

section

variable [Cursor P] [IsEmpty S.Hook] {host : Host S P ω} {c c' : Call S P ω}

/-- A call reaches a change of a definition if a call that it makes does. -/
theorem Call.Makes.edits (h : c.Makes host c')
    (he : c'.matcher.Edits (c'.state.grammar host)) :
    c.matcher.Edits (c.state.grammar host) := by
  -- What is behind a part that changes no definition finds the definitions that the part found.
  by_contra hc
  cases h with
  | map => exact hc (.map he)
  | flatMap => exact hc (.flatMap he)
  | @flatMapNext _ _ _ _ _ _ _ v _ _ h =>
    rw [h.grammar_eq fun hm => hc (.flatMap hm)] at he
    exact hc (.flatMapNext v he)
  | seq => exact hc (.seq he)
  | seqNext h =>
    rw [h.grammar_eq fun hm => hc (.seq hm)] at he
    exact hc (.seqNext he)
  | choice => exact hc (.choice he)
  | choiceElse h =>
    rw [h.grammar_eq fun hm => hc (.choice hm)] at he
    exact hc (.choiceElse he)
  | many => exact hc (.many he)
  | manyMore h =>
    rw [h.grammar_eq fun hm => hc (.many hm)] at he
    exact hc he
  | many1 => exact hc (.many1 (.many he))
  | many1More h =>
    rw [h.grammar_eq fun hm => hc (.many1 (.many hm))] at he
    exact hc (.many1 he)
  | optional => exact hc (.optional he)
  | not => exact hc (.not he)
  | guard => exact hc (.guard he)
  | capture => exact hc (.capture he)
  | shared => exact hc (.shared he)
  | enter href => exact hc (Matcher.reaches_of_refers href he)

/-- A change that is reached from inside is reached from outside. -/
theorem Call.Inside.edits (h : c.Inside host c')
    (he : c'.matcher.Edits (c'.state.grammar host)) :
    c.matcher.Edits (c.state.grammar host) := by
  induction h with
  | refl => exact he
  | tail _ h ih => exact ih (h.edits he)

/-- **What is not reached does not happen.** A call whose matcher reaches no
    change of a definition is still. -/
theorem Call.still_of_not_edits (hc : ¬c.matcher.Edits (c.state.grammar host)) :
    c.Still host :=
  fun _ hinside he => hc (Call.Inside.edits hinside (.here he))

end

/-! ### Exchanging references -/

/-- The state with other rules. -/
def State.withRules (st : State S P ω) (rules : Rules S) : State S P ω :=
  { st with rules := rules }

/-- A reference that has left the rules alone while it ran leaves them as they were before it. -/
theorem State.leave_withRules_enter (st before : State S P ω) (rules : Rules S)
    (frame : List Slot) :
    (st.withRules (rules.enter frame)).leave (before.withRules rules) =
      (st.leave before).withRules rules := by
  have hrules : (rules.enter frame).leave rules = rules := Rules.leave_of_edits_eq rfl
  simp [State.leave, State.withRules, hrules]

section

open Call (Makes Still)
open Definitions (Alike)

variable [Cursor P] {A B : Definitions S P ω}

/-- Two calls at one place, of matchers that are alike, in states that differ in their rules only.
    Each finds the definitions of its own system, and in one of the two none of them changes. -/
structure Call.Exchangeable (A B : Definitions S P ω) (m m' : Matcher S α) (st : State S P ω)
    (rules : Rules S) (p : P) : Prop where
  alike : Alike A B m m'
  finds : st.rules.definition? = A.rules.definition?
  finds' : rules.definition? = B.rules.definition?
  still : Still A.host ⟨m, st, p⟩ ∨ Still B.host ⟨m', st.withRules rules, p⟩

namespace Call.Exchangeable

variable {m : Matcher S α} {m' : Matcher S α} {a a' : Matcher S β} {st st' : State S P ω}
  {rules : Rules S} {p q : P}

/-- What can be exchanged can be exchanged back. -/
theorem symm (h : Exchangeable A B m m' st rules p) :
    Exchangeable B A m' m (st.withRules rules) st.rules p :=
  ⟨h.alike.symm, h.finds', h.finds, h.still.symm⟩

/-- The calls of parts that are alike can be exchanged as well. -/
theorem of_makes (h : Exchangeable A B m m' st rules p) (ha : Alike A B a a')
    (hrules : st'.rules = st.rules) (hc : Makes A.host ⟨m, st, p⟩ ⟨a, st', q⟩)
    (hc' : Makes B.host ⟨m', st.withRules rules, p⟩ ⟨a', st'.withRules rules, q⟩) :
    Exchangeable A B a a' st' rules q where
  alike := ha
  finds := hrules ▸ h.finds
  finds' := h.finds'
  still := h.still.imp (fun h => h.of_makes hc) fun h => h.of_makes hc'

/-- The calls of definitions that are alike can be exchanged too, whatever the references own. -/
theorem of_enter {frame frame' : List Slot} {a a' : Matcher S α}
    (h : Exchangeable A B m m' st rules p) (ha : Alike A B a a')
    (hc : Makes A.host ⟨m, st, p⟩ ⟨a, st.enter frame, p⟩)
    (hc' : Makes B.host ⟨m', st.withRules rules, p⟩
      ⟨a', (st.withRules rules).enter frame', p⟩) :
    Exchangeable A B a a' (st.enter frame) (rules.enter frame') p where
  alike := ha
  finds := h.finds
  finds' := h.finds'
  still := h.still.imp (fun h => h.of_makes hc) fun h => h.of_makes hc'

/-- No call that can be exchanged is of a change of a definition. -/
theorem not_isEdit (h : Exchangeable A B m m' st rules p) : ¬m.IsEdit := by
  intro he
  rcases h.still with hs | hs
  · exact hs _ .refl he
  · -- If the other side is the one that is still, there is no change there, and so none here.
    refine hs _ .refl ?_
    have halike := h.alike
    cases m with
    | define =>
      obtain ⟨_, rfl, -⟩ := halike
      trivial
    | undefine =>
      obtain rfl := halike
      trivial
    | _ => exact he.elim

end Call.Exchangeable

/-- **Matchers that are alike end alike**, and leave the rules alone. -/
theorem Evaluates.exchange (hAB : A.Agree B) {m m' : Matcher S α} {st st' : State S P ω}
    {rules : Rules S} {p : P} {o : Outcome P α} (h : Evaluates A.host m st p o st')
    (hx : Call.Exchangeable A B m m' st rules p) :
    st'.rules = st.rules ∧
      Evaluates B.host m' (st.withRules rules) p o (st'.withRules rules) := by
  -- Induction on the run.  What a part leaves of the rules is what the next part finds.
  induction h generalizing rules with
  | satisfy | literal | atStart | atEnd | behind | succeed | fail =>
    obtain rfl := hx.alike
    exact ⟨rfl, by constructor⟩
  | backref htext =>
    obtain rfl := hx.alike
    exact ⟨rfl, .backref htext⟩
  | backrefAbsent htext =>
    obtain rfl := hx.alike
    exact ⟨rfl, .backrefAbsent htext⟩
  | @hook action st p =>
    obtain rfl := hx.alike
    have hhook : Evaluates B.host (.hook action) (st.withRules rules) p _ _ := .hook
    rw [hAB.act_eq] at hhook
    exact ⟨rfl, hhook⟩
  | map _ ih =>
    obtain ⟨m', rfl, hm⟩ := hx.alike
    obtain ⟨hst, h'⟩ := ih (hx.of_makes hm rfl .map .map)
    exact ⟨hst, .map h'⟩
  | flatMap h _ ih ihn =>
    obtain ⟨m', holds', next', rfl, hm, hnext⟩ := hx.alike
    obtain ⟨hst, h'⟩ := ih (hx.of_makes hm rfl .flatMap .flatMap)
    obtain ⟨hst', hn'⟩ := ihn (hx.of_makes (hnext _) hst (.flatMapNext h) (.flatMapNext h'))
    exact ⟨hst'.trans hst, .flatMap h' hn'⟩
  | flatMapFail _ ih =>
    obtain ⟨m', holds', next', rfl, hm, -⟩ := hx.alike
    obtain ⟨hst, h'⟩ := ih (hx.of_makes hm rfl .flatMap .flatMap)
    exact ⟨hst, .flatMapFail h'⟩
  | seq ha _ iha ihb =>
    obtain ⟨a', b', rfl, hma, hmb⟩ := hx.alike
    obtain ⟨hst, ha'⟩ := iha (hx.of_makes hma rfl .seq .seq)
    obtain ⟨hst', hb'⟩ := ihb (hx.of_makes hmb hst (.seqNext ha) (.seqNext ha'))
    exact ⟨hst'.trans hst, .seq ha' hb'⟩
  | seqFail _ ih =>
    obtain ⟨a', b', rfl, hma, -⟩ := hx.alike
    obtain ⟨hst, h'⟩ := ih (hx.of_makes hma rfl .seq .seq)
    exact ⟨hst, .seqFail h'⟩
  | choice _ ih =>
    obtain ⟨a', b', rfl, hma, -⟩ := hx.alike
    obtain ⟨hst, h'⟩ := ih (hx.of_makes hma rfl .choice .choice)
    exact ⟨hst, .choice h'⟩
  | choiceElse ha _ iha ihb =>
    obtain ⟨a', b', rfl, hma, hmb⟩ := hx.alike
    obtain ⟨hst, ha'⟩ := iha (hx.of_makes hma rfl .choice .choice)
    obtain ⟨hst', hb'⟩ := ihb (hx.of_makes hmb hst (.choiceElse ha) (.choiceElse ha'))
    exact ⟨hst'.trans hst, .choiceElse ha' hb'⟩
  | manyMore h hp _ ih ihm =>
    obtain ⟨m', rfl, hm⟩ := hx.alike
    obtain ⟨hst, h'⟩ := ih (hx.of_makes hm rfl .many .many)
    obtain ⟨hst', hm'⟩ := ihm (hx.of_makes ⟨m', rfl, hm⟩ hst (.manyMore h hp) (.manyMore h' hp))
    exact ⟨hst'.trans hst, .manyMore h' hp hm'⟩
  | manyStuck _ hp ih =>
    obtain ⟨m', rfl, hm⟩ := hx.alike
    obtain ⟨hst, h'⟩ := ih (hx.of_makes hm rfl .many .many)
    exact ⟨hst, .manyStuck h' hp⟩
  | manyFail _ ih =>
    obtain ⟨m', rfl, hm⟩ := hx.alike
    obtain ⟨hst, h'⟩ := ih (hx.of_makes hm rfl .many .many)
    exact ⟨hst, .manyFail h'⟩
  | many1 h _ ih ihm =>
    obtain ⟨m', rfl, hm⟩ := hx.alike
    obtain ⟨hst, h'⟩ := ih (hx.of_makes hm rfl .many1 .many1)
    obtain ⟨hst', hm'⟩ := ihm (hx.of_makes ⟨m', rfl, hm⟩ hst (.many1More h) (.many1More h'))
    exact ⟨hst'.trans hst, .many1 h' hm'⟩
  | many1Fail _ ih =>
    obtain ⟨m', rfl, hm⟩ := hx.alike
    obtain ⟨hst, h'⟩ := ih (hx.of_makes hm rfl .many1 .many1)
    exact ⟨hst, .many1Fail h'⟩
  | optional _ ih =>
    obtain ⟨m', rfl, hm⟩ := hx.alike
    obtain ⟨hst, h'⟩ := ih (hx.of_makes hm rfl .optional .optional)
    exact ⟨hst, .optional h'⟩
  | optionalNone _ ih =>
    obtain ⟨m', rfl, hm⟩ := hx.alike
    obtain ⟨hst, h'⟩ := ih (hx.of_makes hm rfl .optional .optional)
    exact ⟨hst, .optionalNone h'⟩
  | notFail _ ih =>
    obtain ⟨m', rfl, hm⟩ := hx.alike
    obtain ⟨hst, h'⟩ := ih (hx.of_makes hm rfl .not .not)
    exact ⟨hst, .notFail h'⟩
  | not _ ih =>
    obtain ⟨m', rfl, hm⟩ := hx.alike
    obtain ⟨hst, h'⟩ := ih (hx.of_makes hm rfl .not .not)
    exact ⟨hst, .not h'⟩
  | guard _ ih =>
    obtain ⟨m', rfl, hm⟩ := hx.alike
    obtain ⟨hst, h'⟩ := ih (hx.of_makes hm rfl .guard .guard)
    exact ⟨hst, .guard h'⟩
  | guardFail _ ih =>
    obtain ⟨m', rfl, hm⟩ := hx.alike
    obtain ⟨hst, h'⟩ := ih (hx.of_makes hm rfl .guard .guard)
    exact ⟨hst, .guardFail h'⟩
  | capture _ ih =>
    obtain ⟨m', rfl, hm⟩ := hx.alike
    obtain ⟨hst, h'⟩ := ih (hx.of_makes hm rfl .capture .capture)
    exact ⟨hst, .capture h'⟩
  | captureFail _ ih =>
    obtain ⟨m', rfl, hm⟩ := hx.alike
    obtain ⟨hst, h'⟩ := ih (hx.of_makes hm rfl .capture .capture)
    exact ⟨hst, .captureFail h'⟩
  | shared _ ih =>
    obtain ⟨holds', m', rfl, hm⟩ := hx.alike
    obtain ⟨hst, h'⟩ := ih (hx.of_makes hm rfl .shared .shared)
    exact ⟨hst, .shared h'⟩
  | refuse href hf =>
    obtain ⟨frame', definition', href', -⟩ :=
      hAB.exists_refers hx.alike href hx.finds hx.finds'
    exact ⟨rfl, .refuse href' hf⟩
  | @enter _ m st p frame definition o st₁ href hf _ ih =>
    obtain ⟨frame', definition', href', hd⟩ := hAB.exists_refers hx.alike href hx.finds hx.finds'
    obtain ⟨hst, h'⟩ := ih (hx.of_enter hd (.enter href hf) (.enter href' hf))
    have henter : Evaluates B.host m' (st.withRules rules) p o _ := .enter href' hf h'
    rw [State.leave_withRules_enter] at henter
    exact ⟨Rules.leave_of_edits_eq (by rw [hst]; rfl), henter⟩
  | ruleUndefined hd =>
    -- The rule goes by a name, so that it has a definition.
    obtain ⟨n, hs, -⟩ := hx.alike
    obtain ⟨d, hdefined⟩ := A.defined hs
    rw [hx.finds, hdefined] at hd
    cases hd
  | weakUndefined hd =>
    obtain ⟨n, hs, -⟩ := hx.alike
    obtain ⟨d, hdefined⟩ := A.defined hs
    rw [hx.finds, hdefined] at hd
    cases hd
  | define => exact absurd trivial hx.not_isEdit
  | undefine => exact absurd trivial hx.not_isEdit

/-- **References can be exchanged.** In two systems of definitions that agree, matchers that
    differ in the kinds of their references only give the same result in every context, with
    the same context behind it, or both go on for ever, provided that no definition is
    changed inside one of the runs. -/
theorem run_references_exchange (A B : Definitions S P ω) (hAB : A.Agree B)
    (m m' : Matcher S α) (hm : Alike A B m m') (c : Context P) (w : ω) (p : P)
    (hstill : Still A.host ⟨m, ⟨c, A.rules, w⟩, p⟩) :
    (m.Diverges A.host ⟨c, A.rules, w⟩ p ∧ m'.Diverges B.host ⟨c, B.rules, w⟩ p) ∨
      ∃ bound o c' w', m.run A.host bound ⟨c, A.rules, w⟩ p = some (o, ⟨c', A.rules, w'⟩) ∧
        m'.run B.host bound ⟨c, B.rules, w⟩ p = some (o, ⟨c', B.rules, w'⟩) := by
  have hx : Call.Exchangeable A B m m' ⟨c, A.rules, w⟩ B.rules p := ⟨hm, rfl, rfl, .inl hstill⟩
  rcases m.diverges_or_evaluates A.host ⟨c, A.rules, w⟩ p with hd | ⟨o, ⟨c', rules', w'⟩, h⟩
  · -- An end on the other side could be exchanged for one on this side.
    refine .inl ⟨hd, Matcher.diverges_iff.2 fun o st' h' => ?_⟩
    obtain ⟨-, h⟩ := h'.exchange hAB.symm hx.symm
    exact Matcher.diverges_iff.1 hd o _ h
  · obtain ⟨hrules, h'⟩ := h.exchange hAB hx
    obtain rfl : rules' = A.rules := hrules
    obtain ⟨bound, hrun, hrun'⟩ := Matcher.exists_common_bound (Matcher.exists_run_of_evaluates h)
      (Matcher.exists_run_of_evaluates h')
    exact .inr ⟨bound, o, c', w', hrun, hrun'⟩

end

/-- A pair of parentheses, if there is one, around what the reference stands for. -/
def parenthesised (r : Matcher oneName Unit) : Matcher oneName Unit :=
  .map (fun _ => ()) (.optional (.keepRight (.char '(') (.keepLeft r (.char ')'))))

/-- Parentheses inside each other, by a name. -/
def parentheses : Definitions oneName Place Unit where
  host := ⟨fun _ => parenthesised (.defer (S := oneName) ()), fun action => nomatch action⟩
  rules := .empty
  names _ _ := False
  defined := False.elim

/-- Parentheses inside each other, by a rule that refers to itself weakly. -/
def weakParentheses : Definitions oneName Place Unit where
  host := parentheses.host
  rules := ⟨[(0, some (parenthesised (.weak 0)))], [0], 1, 1⟩
  names s _ := s = 0
  defined hs := by
    subst hs
    exact ⟨_, rfl⟩

/-- Like matchers stay alike between parentheses. -/
theorem alike_parenthesised {A B : Definitions oneName Place Unit} {r r' : Matcher oneName Unit}
    (h : Definitions.Alike A B r r') :
    Definitions.Alike A B (parenthesised r) (parenthesised r') :=
  ⟨_, rfl, _, rfl, _, rfl, _, _, rfl, rfl, _, rfl, _, _, rfl, h, rfl⟩

/-- A name and a rule with the same parentheses agree, whichever of them is used inside. -/
theorem agree_parentheses : parentheses.Agree weakParentheses where
  act_eq := rfl
  alike h h' := by
    cases h with
    | rule hs => exact hs.elim
    | name =>
      cases h' with
      | name => exact alike_parenthesised rfl
      | rule hs hd =>
        subst hs
        cases hd
        exact alike_parenthesised rfl

/-- With two levels allowed only the first of two groups of parentheses is
    found, whatever refers to them. -/
theorem run_references_exchange_parentheses :
    ∃ bound o c', (Matcher.seq (.defer (S := oneName) ()) (.defer ())).run parentheses.host bound
        ⟨.new (some 2), .empty, ()⟩ (.start "()(())") = some (o, ⟨c', .empty, ()⟩) ∧
      (Matcher.seq (.rule 0) (.weak 0)).run parentheses.host bound
        ⟨.new (some 2), weakParentheses.rules, ()⟩ (.start "()(())") =
          some (o, ⟨c', weakParentheses.rules, ()⟩) ∧ o.next.index = 2 := by
  have hstill : Call.Still parentheses.host
      ⟨.seq (.defer (S := oneName) ()) (.defer ()), ⟨.new (some 2), .empty, ()⟩,
        .start "()(())"⟩ := by
    refine Call.still_of_not_edits (Matcher.not_reaches ?_ (fun _ => ?_) ?_)
    · simp [Matcher.Lacks, Matcher.IsEdit]
    · simp [State.grammar, parentheses, parenthesised, Matcher.keepRight, Matcher.keepLeft,
        Matcher.char, Matcher.Lacks, Matcher.IsEdit]
    · rintro _ _ ⟨⟩
  have halike : Definitions.Alike parentheses weakParentheses
      (.seq (.defer (S := oneName) ()) (.defer ())) (.seq (.rule 0) (.weak 0)) :=
    ⟨_, _, rfl, rfl, rfl⟩
  have hfour : (Matcher.seq (.defer (S := oneName) ()) (.defer ())).run parentheses.host 4
      ⟨.new (some 2), .empty, ()⟩ (.start "()(())") = some _ := rfl
  rcases run_references_exchange parentheses weakParentheses agree_parentheses _ _ halike
      (.new (some 2)) () (.start "()(())") hstill with ⟨hd, -⟩ | ⟨bound, o, c', w', hrun, hrun'⟩
  · exact absurd (hfour.symm.trans (hd 4)) (by rintro ⟨⟩)
  · have hindex := congrArg (fun r => r.1.next.index)
      (Matcher.run_unique parentheses.host hrun hfour)
    exact ⟨bound, o, c', hrun, hrun', hindex⟩

end TextMatch
