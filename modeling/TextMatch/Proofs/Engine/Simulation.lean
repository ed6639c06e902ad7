import Mathlib.Logic.IsEmpty.Basic
import TextMatch.Proofs.Engine.Confined

namespace TextMatch

/-!
# Runs on two kinds of cursors

A matcher sees a text through the operations of a cursor only.  So it does the same on two kinds of
cursors if these can be related in such a way that related cursors answer alike.

* `Cursor.Bisimulation` — related cursors answer alike about what is ahead of them;
* `Cursor.SameBehind` — and about what is behind, which only two of the primitives ask;
* `Outcome.Relates`, `State.Relates` — outcomes and states that are equal but for related cursors;
* `Matcher.TellsApart` — a look behind that would find different things at related cursors;
* `Evaluates.simulate` — what a matcher does on one kind of cursors it does on the other;
* `run_simulation` — two related runs both go on for ever, or both end, and do so related.
-/

variable {S : Signature} {P Q ω α β : Type}

/-! ### Related cursors -/

namespace Cursor

/-- Related cursors answer alike about what is ahead of them, and so do those behind the next
    character.  The text between two cursors is ahead of the first. -/
structure Bisimulation [Cursor P] [Cursor Q] (R : P → Q → Prop) : Prop where
  atEnd_eq {p q} (h : R p q) : atEnd p = atEnd q
  current_eq {p q} (h : R p q) : current p = current q
  advance {p q} (h : R p q) : R (advance p) (advance q)
  isBefore_eq {p q p' q'} (h : R p q) (h' : R p' q') : isBefore p p' = isBefore q q'
  between_eq {p q p' q'} (h : R p q) (h' : R p' q') : between p p' = between q q'

/-- Related cursors answer alike about what is behind them. -/
structure SameBehind [Cursor P] [Cursor Q] (R : P → Q → Prop) : Prop where
  atStart_eq {p q} (h : R p q) : atStart p = atStart q
  previous_eq {p q} (h : R p q) : previous p = previous q

variable [Cursor P] [Cursor Q] {R : P → Q → Prop}

/-- Neither kind of cursors is preferred: all that is asked is that answers are equal. -/
theorem Bisimulation.flip (h : Bisimulation R) : Bisimulation (flip R) where
  atEnd_eq hr := (h.atEnd_eq hr).symm
  current_eq hr := (h.current_eq hr).symm
  advance hr := h.advance hr
  isBefore_eq hr hr' := (h.isBefore_eq hr hr').symm
  between_eq hr hr' := (h.between_eq hr hr').symm

end Cursor

/-! ### Related outcomes -/

/-- Both succeed with one value or both fail, at related cursors. -/
inductive Outcome.Relates (R : P → Q → Prop) : Outcome P α → Outcome Q α → Prop where
  | success {v p q} (h : R p q) : Relates R (.success v p) (.success v q)
  | failure {p q} (h : R p q) : Relates R (.failure p) (.failure q)

namespace Outcome.Relates

variable {R : P → Q → Prop} {o : Outcome P α} {o' : Outcome Q α}

/-- Values take no part in the relation, so they may be changed. -/
theorem map (h : o.Relates R o') (f : α → β) : (o.map f).Relates R (o'.map f) := by
  cases h with
  | success h => exact .success h
  | failure h => exact .failure h

/-- The further one of two failures is the further one of the related two. -/
theorem orElse [Cursor P] [Cursor Q] (hR : Cursor.Bisimulation R) {p : P} {q : Q} (hp : R p q)
    (h : o.Relates R o') :
    (Outcome.orElse (.failure p) o).Relates R (Outcome.orElse (.failure q) o') := by
  cases h with
  | success h => exact .success h
  | failure h =>
    rw [orElse_failure_failure, orElse_failure_failure, hR.isBefore_eq hp h]
    split
    · exact .failure h
    · exact .failure hp

end Outcome.Relates

namespace Run

variable {R : P → Q → Prop} {p : P} {q : Q}

/-- A condition that holds of both cursors or of neither leads to related outcomes. -/
theorem relates_holdsAt {condition : P → Bool} {condition' : Q → Bool} (h : R p q)
    (hc : condition p = condition' q) : (holdsAt condition p).Relates R (holdsAt condition' q) := by
  unfold holdsAt
  rw [hc]
  split
  · exact .success h
  · exact .failure h

variable [Cursor P] [Cursor Q]

/-- A single character is read ahead, where related cursors have the same one. -/
theorem relates_satisfyAt (hR : Cursor.Bisimulation R) (h : R p q) (accepts : Char → Bool) :
    (satisfyAt accepts p).Relates R (satisfyAt accepts q) := by
  unfold satisfyAt
  rw [hR.current_eq h]
  split
  · split
    · exact .success (hR.advance h)
    · exact .failure h
  · exact .failure h

/-- A text is spelled alike from related cursors, since they are related
    again behind every character. -/
theorem relates_spell (hR : Cursor.Bisimulation R) (h : R p q) (cs : List Char) :
    (spell cs p).Relates R (spell cs q) := by
  induction cs generalizing p q with
  | nil => exact .success h
  | cons c cs ih =>
    rw [spell, spell, hR.current_eq h]
    split
    · exact ih (hR.advance h)
    · exact .failure h

/-- Only the value is other than in spelling, and it is the same text on both sides. -/
theorem relates_literalAt (hR : Cursor.Bisimulation R) (h : R p q) (text : String) :
    (literalAt text p).Relates R (literalAt text q) := (relates_spell hR h _).map _

/-- Looking behind asks for the previous character and for nothing else. -/
theorem isBehind_eq (h : Cursor.previous p = Cursor.previous q) (accepts : Char → Bool) :
    isBehind accepts p = isBehind accepts q := by
  rw [isBehind, isBehind, h]

end Run

/-! ### Related states -/

/-- Both ends of the spans are related. -/
def Span.Relates (R : P → Q → Prop) (s : Span P) (s' : Span Q) : Prop :=
  R s.start s'.start ∧ R s.stop s'.stop

/-- Under every name there are related spans, or none in either table. -/
def Captures.Relates (R : P → Q → Prop) (t : Captures P) (t' : Captures Q) : Prop :=
  ∀ name, Option.Rel (Span.Relates R) (t.get? name) (t'.get? name)

namespace Captures.Relates

variable {R : P → Q → Prop} {t : Captures P} {t' : Captures Q}

/-- Tables without spans have nothing that would have to be related. -/
theorem empty : (empty : Captures P).Relates R (empty : Captures Q) := by
  intro name
  rw [get?_empty, get?_empty]
  exact .none

/-- Tables are related name by name, in either direction. -/
theorem flip (h : t.Relates R t') : t'.Relates (flip R) t := by
  intro name
  have hname := h name
  -- Neither side can be inverted as long as it is a lookup; the two results are given names.
  generalize t.get? name = s at hname
  generalize t'.get? name = s' at hname
  cases hname with
  | some hs => exact .some hs
  | none => exact .none

/-- Related spans may be put under a name in both tables. -/
theorem insert (h : t.Relates R t') (name : String) {s : Span P} {s' : Span Q}
    (hs : s.Relates R s') : (t.insert name s).Relates R (t'.insert name s') := by
  intro other
  rw [get?_insert, get?_insert]
  split
  · exact .some hs
  · exact h other

/-- Related spans have one text. -/
theorem text?_eq [Cursor P] [Cursor Q] (hR : Cursor.Bisimulation R) (h : t.Relates R t')
    (name : String) : t.text? name = t'.text? name := by
  have hname := h name
  rw [text?, text?]
  generalize t.get? name = s at hname
  generalize t'.get? name = s' at hname
  cases hname with
  | none => rfl
  | some hs =>
    rw [Option.map_some, Option.map_some, Span.text, Span.text, Span.chars, Span.chars,
      hR.between_eq hs.1 hs.2]

end Captures.Relates

/-- The states are equal, but for related cursors in the captured spans. -/
structure State.Relates (R : P → Q → Prop) (st : State S P ω) (st' : State S Q ω) : Prop where
  captures : st.context.captures.Relates R st'.context.captures
  depth_eq : st.context.depth = st'.context.depth
  limit_eq : st.context.limit = st'.context.limit
  rules_eq : st.rules = st'.rules
  world_eq : st.world = st'.world

namespace State.Relates

variable {R : P → Q → Prop} {st before : State S P ω} {st' before' : State S Q ω}

/-- Related states are so in either direction too. -/
theorem flip (h : st.Relates R st') : st'.Relates (flip R) st where
  captures := h.captures.flip
  depth_eq := h.depth_eq.symm
  limit_eq := h.limit_eq.symm
  rules_eq := h.rules_eq.symm
  world_eq := h.world_eq.symm

/-- A capture puts related spans into related tables, and changes nothing else. -/
theorem capture (h : st.Relates R st') (name : String) {s : Span P} {s' : Span Q}
    (hs : s.Relates R s') : (st.capture name s).Relates R (st'.capture name s') :=
  { h with captures := h.captures.insert name hs }

/-- Both states are one level deeper and own the same rules besides. -/
theorem enter (h : st.Relates R st') (frame : List Slot) :
    (st.enter frame).Relates R (st'.enter frame) :=
  { h with
    depth_eq := congrArg (· + 1) h.depth_eq
    rules_eq := congrArg (Rules.enter · frame) h.rules_eq }

/-- Both states come back from where they have been, and free the same rules. -/
theorem leave (h : st.Relates R st') (hbefore : before.Relates R before') :
    (st.leave before).Relates R (st'.leave before') :=
  { h with
    depth_eq := congrArg (· - 1) h.depth_eq
    rules_eq := congrArg₂ Rules.leave h.rules_eq hbefore.rules_eq }

/-- The limit is reached in both states at once: it is no matter of cursors. -/
theorem isFull_eq (h : st.Relates R st') : st.context.isFull = st'.context.isFull := by
  rw [Context.isFull, Context.isFull, h.limit_eq, h.depth_eq]

/-- Related states find the same definitions, if the names have the same. -/
theorem grammar_eq {host : Host S P ω} {host' : Host S Q ω}
    (hsame : host'.definition = host.definition) (h : st.Relates R st') :
    st'.grammar host' = st.grammar host := by
  rw [grammar, grammar, hsame, h.rules_eq]

/-- A reference stands for the same definition in related states. -/
theorem refers {host : Host S P ω} {host' : Host S Q ω}
    (hsame : host'.definition = host.definition) (h : st.Relates R st') {m definition : Matcher S α}
    {frame : List Slot} (href : Refers host st.rules m frame definition) :
    Refers host' st'.rules m frame definition := by
  rw [h.rules_eq] at href
  cases href with
  | defer => rw [← hsame]; exact .defer
  | rule hd => exact .rule hd
  | weak hd => exact .weak hd

end State.Relates

/-! ### Looking behind -/

namespace Matcher

/-- A look at what is behind. -/
def IsLookBehind : Kind S
  | _, .atStart | _, .behind _ => True
  | _, _ => False

/-- A look at what is behind that finds different things at related cursors. -/
def TellsApart [Cursor P] [Cursor Q] (R : P → Q → Prop) : Kind S
  | _, .atStart => ∃ p q, R p q ∧ Cursor.atStart p ≠ Cursor.atStart q
  | _, .behind _ => ∃ p q, R p q ∧ Cursor.previous p ≠ Cursor.previous q
  | _, _ => False

section

variable [Cursor P] [Cursor Q] {R : P → Q → Prop} {g : Grammar S} {m : Matcher S α}

/-- Only a look behind can tell related cursors apart. -/
theorem TellsApart.isLookBehind (h : TellsApart R α m) : IsLookBehind α m := by
  cases m with
  | atStart | behind => trivial
  | _ => exact h.elim

/-- What tells cursors apart does so in whichever order they come. -/
theorem TellsApart.flip (h : TellsApart (flip R) α m) : TellsApart R α m := by
  cases m with
  | atStart | behind =>
    obtain ⟨q, p, hr, hne⟩ := h
    exact ⟨p, q, hr, hne.symm⟩
  | _ => exact h.elim

/-- What may not look behind tells no cursors apart. -/
theorem not_mayReach_tellsApart_of_isLookBehind (h : ¬m.MayReach g IsLookBehind) :
    ¬m.MayReach g (TellsApart R) :=
  fun hm => h (hm.mono fun _ _ => TellsApart.isLookBehind)

/-- Nothing tells cursors apart that have the same behind them. -/
theorem not_mayReach_tellsApart_of_sameBehind (hR : Cursor.SameBehind R) :
    ¬m.MayReach g (TellsApart R) := by
  intro h
  obtain ⟨_, m', hm'⟩ := h.exists_kind
  cases m' with
  | atStart =>
    obtain ⟨p, q, hr, hne⟩ := hm'
    exact hne (hR.atStart_eq hr)
  | behind =>
    obtain ⟨p, q, hr, hne⟩ := hm'
    exact hne (hR.previous_eq hr)
  | _ => exact hm'.elim

/-- If the start of the text may not tell cursors apart, related cursors agree about it. -/
theorem atStart_eq_of_not_mayReach (h : ¬(atStart : Matcher S Unit).MayReach g (TellsApart R))
    {p : P} {q : Q} (hr : R p q) : Cursor.atStart p = Cursor.atStart q :=
  not_not.1 fun hne => h (.reaches (.here ⟨p, q, hr, hne⟩))

/-- If a look behind may not tell cursors apart, related cursors have
    the same character behind them. -/
theorem previous_eq_of_not_mayReach {accepts : Char → Bool}
    (h : ¬(behind accepts : Matcher S Unit).MayReach g (TellsApart R)) {p : P} {q : Q}
    (hr : R p q) : Cursor.previous p = Cursor.previous q :=
  not_not.1 fun hne => h (.reaches (.here ⟨p, q, hr, hne⟩))

end

end Matcher

/-! ### Simulation -/

open Matcher

section

variable [Cursor P] [Cursor Q] [IsEmpty S.Hook] {R : P → Q → Prop} {host : Host S P ω}
  {host' : Host S Q ω}

/-- **Simulation.** What a run does on one kind of cursors a run does on the other, from a related
    state and cursor, unless something may be reached that tells related cursors apart. -/
theorem Evaluates.simulate (hR : Cursor.Bisimulation R)
    (hsame : host'.definition = host.definition) {g : Grammar S} (hg : g.named = host.definition)
    {m : Matcher S α} {st₁ st₂ : State S P ω} {p : P} {o : Outcome P α}
    (h : Evaluates host m st₁ p o st₂) {st₁' : State S Q ω} {p' : Q}
    (hm : ¬m.MayReach g (TellsApart R))
    (hr : st₁.rules.Confined g (TellsApart R)) (hst : st₁.Relates R st₁') (hp : R p p') :
    ∃ o' st₂', Evaluates host' m st₁' p' o' st₂' ∧ o.Relates R o' ∧ st₂.Relates R st₂' := by
  -- Induction on the run; the other run is built along with it, part by part.
  induction h generalizing st₁' p' with
  | satisfy => exact ⟨_, _, .satisfy, Run.relates_satisfyAt hR hp _, hst⟩
  | literal => exact ⟨_, _, .literal, Run.relates_literalAt hR hp _, hst⟩
  | atStart =>
    exact ⟨_, _, .atStart, Run.relates_holdsAt hp (atStart_eq_of_not_mayReach hm hp), hst⟩
  | atEnd => exact ⟨_, _, .atEnd, Run.relates_holdsAt hp (hR.atEnd_eq hp), hst⟩
  | behind =>
    have hprevious := previous_eq_of_not_mayReach hm hp
    exact ⟨_, _, .behind, Run.relates_holdsAt hp (Run.isBehind_eq hprevious _), hst⟩
  | succeed => exact ⟨_, _, .succeed, .success hp, hst⟩
  | fail => exact ⟨_, _, .fail, .failure hp, hst⟩
  | backref htext =>
    rw [hst.captures.text?_eq hR] at htext
    exact ⟨_, _, .backref htext, Run.relates_literalAt hR hp _, hst⟩
  | backrefAbsent htext =>
    rw [hst.captures.text?_eq hR] at htext
    exact ⟨_, _, .backrefAbsent htext, .failure hp, hst⟩
  | map _ ih =>
    obtain ⟨_, _, h', ho, hst'⟩ := ih (not_mayReach_part hm .map) hr hst hp
    exact ⟨_, _, .map h', ho.map _, hst'⟩
  -- The first run may have given rules other definitions, which are confined too: that is what the
  -- second part may reach.
  | flatMap h _ ih ihn =>
    have hm₁ := not_mayReach_part hm .flatMap
    obtain ⟨_, _, h', ⟨hq⟩, hst'⟩ := ih hm₁ hr hst hp
    obtain ⟨_, _, hn', ho, hst''⟩ :=
      ihn (not_mayReach_part hm (.flatMapNext _)) (h.confined hg hm₁ hr) hst' hq
    exact ⟨_, _, .flatMap h' hn', ho, hst''⟩
  | flatMapFail _ ih =>
    -- A failure is simulated by a failure, as its outcome is related to no success.
    obtain ⟨_, _, h', (_ | hq), hst'⟩ := ih (not_mayReach_part hm .flatMap) hr hst hp
    exact ⟨_, _, .flatMapFail h', .failure hq, hst'⟩
  | seq ha _ iha ihb =>
    have hm₁ := not_mayReach_part hm .seq
    obtain ⟨_, _, ha', ⟨hq⟩, hst'⟩ := iha hm₁ hr hst hp
    obtain ⟨_, _, hb', ho, hst''⟩ :=
      ihb (not_mayReach_part hm .seqNext) (ha.confined hg hm₁ hr) hst' hq
    exact ⟨_, _, .seq ha' hb', ho.map _, hst''⟩
  | seqFail _ ih =>
    obtain ⟨_, _, h', (_ | hq), hst'⟩ := ih (not_mayReach_part hm .seq) hr hst hp
    exact ⟨_, _, .seqFail h', .failure hq, hst'⟩
  | choice _ ih =>
    obtain ⟨_, _, h', ⟨hq⟩, hst'⟩ := ih (not_mayReach_part hm .choice) hr hst hp
    exact ⟨_, _, .choice h', .success hq, hst'⟩
  | choiceElse ha _ iha ihb =>
    have hm₁ := not_mayReach_part hm .choice
    obtain ⟨_, _, ha', (_ | hq), hst'⟩ := iha hm₁ hr hst hp
    obtain ⟨_, _, hb', ho, hst''⟩ :=
      ihb (not_mayReach_part hm .choiceElse) (ha.confined hg hm₁ hr) hst' hp
    exact ⟨_, _, .choiceElse ha' hb', .orElse hR hq ho, hst''⟩
  -- Whether a round has moved on is asked of two cursors that are related to two others.
  | manyMore h hbefore _ ih ihm =>
    have hm₁ := not_mayReach_part hm .many
    obtain ⟨_, _, h', ⟨hq⟩, hst'⟩ := ih hm₁ hr hst hp
    obtain ⟨_, _, hm', ⟨hq'⟩, hst''⟩ := ihm hm (h.confined hg hm₁ hr) hst' hq
    rw [hR.isBefore_eq hp hq] at hbefore
    exact ⟨_, _, .manyMore h' hbefore hm', .success hq', hst''⟩
  | manyStuck _ hbefore ih =>
    obtain ⟨_, _, h', ⟨hq⟩, hst'⟩ := ih (not_mayReach_part hm .many) hr hst hp
    rw [hR.isBefore_eq hp hq] at hbefore
    exact ⟨_, _, .manyStuck h' hbefore, .success hp, hst'⟩
  | manyFail _ ih =>
    obtain ⟨_, _, h', ⟨_⟩, hst'⟩ := ih (not_mayReach_part hm .many) hr hst hp
    exact ⟨_, _, .manyFail h', .success hp, hst'⟩
  | many1 h _ ih ihm =>
    have hmany := not_mayReach_part hm .many1
    have hm₁ := not_mayReach_part hmany .many
    obtain ⟨_, _, h', ⟨hq⟩, hst'⟩ := ih hm₁ hr hst hp
    obtain ⟨_, _, hm', ⟨hq'⟩, hst''⟩ := ihm hmany (h.confined hg hm₁ hr) hst' hq
    exact ⟨_, _, .many1 h' hm', .success hq', hst''⟩
  | many1Fail _ ih =>
    obtain ⟨_, _, h', (_ | hq), hst'⟩ :=
      ih (not_mayReach_part hm fun h => .many1 (.many h)) hr hst hp
    exact ⟨_, _, .many1Fail h', .failure hq, hst'⟩
  | optional _ ih =>
    obtain ⟨_, _, h', ⟨hq⟩, hst'⟩ := ih (not_mayReach_part hm .optional) hr hst hp
    exact ⟨_, _, .optional h', .success hq, hst'⟩
  | optionalNone _ ih =>
    obtain ⟨_, _, h', ⟨_⟩, hst'⟩ := ih (not_mayReach_part hm .optional) hr hst hp
    exact ⟨_, _, .optionalNone h', .success hp, hst'⟩
  | notFail _ ih =>
    obtain ⟨_, _, h', ⟨_⟩, hst'⟩ := ih (not_mayReach_part hm .not) hr hst hp
    exact ⟨_, _, .notFail h', .failure hp, hst'⟩
  | not _ ih =>
    obtain ⟨_, _, h', ⟨_⟩, hst'⟩ := ih (not_mayReach_part hm .not) hr hst hp
    exact ⟨_, _, .not h', .success hp, hst'⟩
  | guard _ ih =>
    obtain ⟨_, _, h', ⟨_⟩, hst'⟩ := ih (not_mayReach_part hm .guard) hr hst hp
    exact ⟨_, _, .guard h', .success hp, hst'⟩
  | guardFail _ ih =>
    obtain ⟨_, _, h', (_ | hq), hst'⟩ := ih (not_mayReach_part hm .guard) hr hst hp
    exact ⟨_, _, .guardFail h', .failure hq, hst'⟩
  | capture _ ih =>
    obtain ⟨_, _, h', ⟨hq⟩, hst'⟩ := ih (not_mayReach_part hm .capture) hr hst hp
    exact ⟨_, _, .capture h', .success hq, hst'.capture _ ⟨hp, hq⟩⟩
  | captureFail _ ih =>
    obtain ⟨_, _, h', (_ | hq), hst'⟩ := ih (not_mayReach_part hm .capture) hr hst hp
    exact ⟨_, _, .captureFail h', .failure hq, hst'⟩
  | refuse href hf =>
    rw [hst.isFull_eq] at hf
    exact ⟨_, _, .refuse (hst.refers hsame href) hf, .failure hp, hst⟩
  | enter href hf _ ih =>
    obtain ⟨_, _, h', ho, hst'⟩ :=
      ih (href.not_mayReach hg hr hm) (hr.enter _) (hst.enter _) hp
    rw [hst.isFull_eq] at hf
    exact ⟨_, _, .enter (hst.refers hsame href) hf h', ho, hst'.leave hst⟩
  | ruleUndefined hd =>
    rw [hst.rules_eq] at hd
    exact ⟨_, _, .ruleUndefined hd, .failure hp, hst⟩
  | weakUndefined hd =>
    rw [hst.rules_eq] at hd
    exact ⟨_, _, .weakUndefined hd, .failure hp, hst⟩
  | define =>
    exact ⟨_, _, .define, .success hp,
      { hst with rules_eq := congrArg (Rules.define · _ _) hst.rules_eq }⟩
  | undefine =>
    exact ⟨_, _, .undefine, .success hp,
      { hst with rules_eq := congrArg (Rules.undefine · _) hst.rules_eq }⟩
  -- An action sees the cursor itself, and nothing is known of what it does with it.
  | @hook action => exact isEmptyElim action
  | shared _ ih =>
    obtain ⟨_, _, h', ho, hst'⟩ := ih (not_mayReach_part hm .shared) hr hst hp
    exact ⟨_, _, .shared h', ho, hst'⟩

/-- **Two related runs** both go on for ever, or both end within some bound, with
    related outcomes and states. -/
theorem run_simulation (hR : Cursor.Bisimulation R) (hsame : host'.definition = host.definition)
    {m : Matcher S α} {st : State S P ω} {st' : State S Q ω} {p : P} {p' : Q}
    (hm : ¬m.MayReach (st.grammar host) (TellsApart R)) (hst : st.Relates R st') (hp : R p p') :
    m.Diverges host st p ∧ m.Diverges host' st' p' ∨
      ∃ bound o o' st₁ st₁', m.run host bound st p = some (o, st₁) ∧
        m.run host' bound st' p' = some (o', st₁') ∧ o.Relates R o' ∧ st₁.Relates R st₁' := by
  rcases m.diverges_or_evaluates host st p with hd | ⟨o, st₁, h⟩
  · -- A run on the other side would be simulated on this one.
    refine .inl ⟨hd, Matcher.diverges_iff.2 fun o' st₁' h' => ?_⟩
    have hm' : ¬m.MayReach (st'.grammar host') (TellsApart (flip R)) := by
      rw [hst.grammar_eq hsame]
      exact fun h => hm (h.mono fun _ _ => TellsApart.flip)
    obtain ⟨o, st₁, h, -⟩ :=
      h'.simulate hR.flip hsame.symm rfl hm' (Rules.confined_self _ _) hst.flip hp
    exact Matcher.diverges_iff.1 hd o st₁ h
  · obtain ⟨o', st₁', h', ho, hst'⟩ := h.simulate hR hsame rfl hm (Rules.confined_self _ _) hst hp
    obtain ⟨bound, hb⟩ := Matcher.exists_run_of_evaluates h
    obtain ⟨bound', hb'⟩ := Matcher.exists_run_of_evaluates h'
    exact .inr ⟨max bound bound', o, o', st₁, st₁', Matcher.run_mono (Nat.le_max_left ..) hb,
      Matcher.run_mono (Nat.le_max_right ..) hb', ho, hst'⟩

end

end TextMatch
