import TextMatch.Proofs.Engine.Calls
import TextMatch.Proofs.Engine.Reach

namespace TextMatch

/-!
# The log of captures

A run only ever puts spans into the table of captures, and sees of it what its backrefs look up.
So what it does to the table is a list of spans to put there, the same for all tables that look
alike to its backrefs.

* `Captures.insertAll` — spans put under their names one after another;
* `Replays` — a run has such a log, and runs alike from every table that looks alike;
* `Replays.part`, `Replays.parts` — a combination has the logs of the parts it runs;
* `Evaluates.replays` — every run that leaves the definitions alone has a log;
* `run_capture_log` — two runs that differ in the table they begin with.
-/

variable {S : Signature} {P ω α β γ : Type}

/-! ### Logs -/

namespace Captures

/-- Puts the spans of a log under their names, the first one first. -/
def insertAll (t : Captures P) (log : List (String × Span P)) : Captures P :=
  log.foldl (fun t e => t.insert e.1 e.2) t

variable {t t' : Captures P} {name : String} {log : List (String × Span P)}

/-- Logs are put in one behind the other. -/
theorem insertAll_append (t : Captures P) (log log' : List (String × Span P)) :
    t.insertAll (log ++ log') = (t.insertAll log).insertAll log' := List.foldl_append

/-- Tables that agree on a name still do so behind a log. -/
theorem get?_insertAll_congr (h : t.get? name = t'.get? name) :
    (t.insertAll log).get? name = (t'.insertAll log).get? name := by
  induction log generalizing t t' with
  | nil => exact h
  | cons e log ih =>
    refine ih ?_
    rw [get?_insert, get?_insert, h]

/-- What a log does not name stays as it is. -/
theorem get?_insertAll_of_not_mem (h : ∀ e ∈ log, e.1 ≠ name) :
    (t.insertAll log).get? name = t.get? name := by
  induction log generalizing t with
  | nil => rfl
  | cons e log ih =>
    rw [List.forall_mem_cons] at h
    exact (ih h.2).trans (by rw [get?_insert, if_neg h.1])

/-- No name is given up. -/
theorem contains_insertAll (h : t.contains name = true) :
    (t.insertAll log).contains name = true := by
  induction log generalizing t with
  | nil => exact h
  | cons e log ih =>
    refine ih ?_
    rw [contains_eq_isSome_get?, get?_insert]
    split
    · rfl
    · rwa [← contains_eq_isSome_get?]

end Captures

namespace State

/-- The state with another table of captures. -/
def withCaptures (st : State S P ω) (t : Captures P) : State S P ω :=
  { st with context := { st.context with captures := t } }

/-- The table of a state is the one that was put there. -/
@[simp] theorem captures_withCaptures (st : State S P ω) (t : Captures P) :
    (st.withCaptures t).context.captures = t := rfl

/-- A table of captures defines no names or rules. -/
@[simp] theorem grammar_withCaptures (host : Host S P ω) (st : State S P ω) (t : Captures P) :
    (st.withCaptures t).grammar host = st.grammar host := rfl

/-- Entering a reference and leaving it again changes nothing but the captures. -/
theorem leave_withCaptures_enter (st : State S P ω) (frame : List Slot) (t t' : Captures P) :
    ((st.enter frame).withCaptures t').leave (st.withCaptures t) = st.withCaptures t' := by
  rw [← leave_enter (st.withCaptures t') frame]
  rfl

end State

/-! ### Runs with a log -/

/-- A run, unless it changes definitions, has a log of spans under names that the matcher captures:
    it leaves the state with the log put into the table, and with every other table that has the
    same under the names of the backrefs it has the same outcome and the same log. -/
def Replays [Cursor P] (host : Host S P ω) (m : Matcher S α) (st : State S P ω) (p : P)
    (o : Outcome P α) (st' : State S P ω) : Prop :=
  ¬m.Edits (st.grammar host) →
    ∃ log : List (String × Span P), (∀ e ∈ log, m.Writes (st.grammar host) e.1) ∧
      st' = st.withCaptures (st.context.captures.insertAll log) ∧
      ∀ t : Captures P,
        (∀ name, m.Reads (st.grammar host) name → t.get? name = st.context.captures.get? name) →
        Evaluates host m (st.withCaptures t) p o (st.withCaptures (t.insertAll log))

namespace Replays

variable [Cursor P] {host : Host S P ω} {m : Matcher S α} {st st₁ st' : State S P ω} {p q : P}
  {o : Outcome P α}

/-- A run that puts nothing into the table. -/
theorem nothing
    (h : ∀ t : Captures P,
      (∀ name, m.Reads (st.grammar host) name → t.get? name = st.context.captures.get? name) →
      Evaluates host m (st.withCaptures t) p o (st.withCaptures t)) :
    Replays host m st p o st :=
  fun _ => ⟨[], List.forall_mem_nil _, rfl, h⟩

/-- A run of one part has the log of the part. -/
theorem part {a : Matcher S β} {o₁ : Outcome P β} (ha : Replays host a st p o₁ st')
    (hpart : ∀ {kind}, a.Reaches (st.grammar host) kind → m.Reaches (st.grammar host) kind)
    (hrule : ∀ {st st' : State S P ω}, Evaluates host a st p o₁ st' →
      Evaluates host m st p o st') :
    Replays host m st p o st' := by
  intro hedit
  obtain ⟨log, hlog, hst', hrun⟩ := ha fun he => hedit (hpart he)
  exact ⟨log, fun e he => hpart (hlog e he), hst',
    fun t ht => hrule (hrun t fun name hr => ht name (hpart hr))⟩

/-- A run of two parts has the log of the first and then the log of the second, which is run with
    the table that the first one leaves. -/
theorem parts {a : Matcher S β} {b : Matcher S γ} {o₁ : Outcome P β} {o₂ : Outcome P γ}
    (ha : Replays host a st p o₁ st₁) (hb : Replays host b st₁ q o₂ st')
    (hparta : ∀ {kind}, a.Reaches (st.grammar host) kind → m.Reaches (st.grammar host) kind)
    (hpartb : ∀ {kind}, b.Reaches (st.grammar host) kind → m.Reaches (st.grammar host) kind)
    (hrule : ∀ {st st₁ st' : State S P ω}, Evaluates host a st p o₁ st₁ →
      Evaluates host b st₁ q o₂ st' → Evaluates host m st p o st') :
    Replays host m st p o st' := by
  intro hedit
  obtain ⟨log, hlog, rfl, hrun⟩ := ha fun he => hedit (hparta he)
  obtain ⟨log', hlog', rfl, hrun'⟩ := hb fun he => hedit (hpartb he)
  rw [State.grammar_withCaptures] at hlog' hrun'
  refine ⟨log ++ log', fun e he => ?_, ?_, fun t ht => ?_⟩
  · rcases List.mem_append.1 he with he | he
    · exact hparta (hlog e he)
    · exact hpartb (hlog' e he)
  · -- The state behind both parts has both logs in its table.
    rw [Captures.insertAll_append]
    rfl
  · -- With another table the first part runs as before, and the second finds what the first has
    -- logged, besides spans on which both tables agree.
    have hfirst := hrun t fun name hr => ht name (hparta hr)
    have hsecond := hrun' (t.insertAll log) fun name hr =>
      Captures.get?_insertAll_congr (ht name (hpartb hr))
    rw [Captures.insertAll_append]
    exact hrule hfirst hsecond

/-- A capture that succeeds adds its own span to the log. -/
theorem capture {name : String} {v : α} (h : Replays host m st p (.success v q) st') :
    Replays host (.capture name m) st p (.success v q) (st'.capture name ⟨p, q⟩) := by
  intro hedit
  obtain ⟨log, hlog, rfl, hrun⟩ := h fun he => hedit (.capture he)
  -- The capture comes last, behind everything that was captured inside.
  refine ⟨log ++ [(name, ⟨p, q⟩)], fun e he => ?_, ?_, fun t ht => ?_⟩
  · rcases List.mem_append.1 he with he | he
    · exact .capture (hlog e he)
    · obtain rfl := List.mem_singleton.1 he
      exact .here rfl
  · rw [Captures.insertAll_append]
    rfl
  · rw [Captures.insertAll_append]
    exact .capture (hrun t fun name hr => ht name (.capture hr))

/-- A reference has the log of its definition, which is run with the same names and rules. -/
theorem enter {definition : Matcher S α} {frame : List Slot}
    (href : Refers host st.rules m frame definition) (hf : st.context.isFull = false)
    (h : Replays host definition (st.enter frame) p o st') :
    Replays host m st p o (st'.leave st) := by
  intro hedit
  obtain ⟨log, hlog, rfl, hrun⟩ := h fun he => hedit (Matcher.reaches_of_refers href he)
  refine ⟨log, fun e he => Matcher.reaches_of_refers href (hlog e he),
    State.leave_withCaptures_enter st frame st.context.captures _, fun t ht => ?_⟩
  have hinside := hrun t fun name hr => ht name (Matcher.reaches_of_refers href hr)
  have henter : Evaluates host m (st.withCaptures t) p o _ := .enter href hf hinside
  rwa [State.leave_withCaptures_enter] at henter

end Replays

/-- **Every run has a log**, if the application adds no actions and no definition is changed. -/
theorem Evaluates.replays [Cursor P] [IsEmpty S.Hook] {host : Host S P ω} {m : Matcher S α}
    {st st' : State S P ω} {p : P} {o : Outcome P α} (h : Evaluates host m st p o st') :
    Replays host m st p o st' := by
  induction h with
  | satisfy => exact .nothing fun t _ => .satisfy
  | literal => exact .nothing fun t _ => .literal
  | atStart => exact .nothing fun t _ => .atStart
  | atEnd => exact .nothing fun t _ => .atEnd
  | behind => exact .nothing fun t _ => .behind
  | succeed => exact .nothing fun t _ => .succeed
  | fail => exact .nothing fun t _ => .fail
  -- A backref sees the same span in every table that has the same under its name.
  | @backref name _ _ _ htext =>
    refine .nothing fun t ht => .backref ?_
    have hname : t.get? name = _ := ht name (.here rfl)
    rw [State.captures_withCaptures, Captures.text?, hname]
    exact htext
  | @backrefAbsent name _ _ htext =>
    refine .nothing fun t ht => .backrefAbsent ?_
    have hname : t.get? name = _ := ht name (.here rfl)
    rw [State.captures_withCaptures, Captures.text?, hname]
    exact htext
  | map _ ih => exact ih.part .map .map
  | @flatMap _ _ _ _ _ _ _ v _ _ _ _ _ _ ih ih' =>
    exact ih.parts ih' .flatMap (.flatMapNext v) .flatMap
  | flatMapFail _ ih => exact ih.part .flatMap .flatMapFail
  | seq _ _ ih ih' => exact ih.parts ih' .seq .seqNext .seq
  | seqFail _ ih => exact ih.part .seq .seqFail
  | choice _ ih => exact ih.part .choice .choice
  | choiceElse _ _ ih ih' => exact ih.parts ih' .choice .choiceElse .choiceElse
  | manyMore _ hp _ ih ih' => exact ih.parts ih' .many id fun h h' => .manyMore h hp h'
  | manyStuck _ hp ih => exact ih.part .many fun h => .manyStuck h hp
  | manyFail _ ih => exact ih.part .many .manyFail
  | many1 _ _ ih ih' => exact ih.parts ih' (fun h => .many1 (.many h)) .many1 .many1
  | many1Fail _ ih => exact ih.part (fun h => .many1 (.many h)) .many1Fail
  | optional _ ih => exact ih.part .optional .optional
  | optionalNone _ ih => exact ih.part .optional .optionalNone
  | notFail _ ih => exact ih.part .not .notFail
  | not _ ih => exact ih.part .not .not
  | guard _ ih => exact ih.part .guard .guard
  | guardFail _ ih => exact ih.part .guard .guardFail
  | capture _ ih => exact ih.capture
  | captureFail _ ih => exact ih.part .capture .captureFail
  | refuse href hf => exact .nothing fun t _ => .refuse href hf
  | enter href hf _ ih => exact ih.enter href hf
  | ruleUndefined hd => exact .nothing fun t _ => .ruleUndefined hd
  | weakUndefined hd => exact .nothing fun t _ => .weakUndefined hd
  | define | undefine => exact fun hedit => absurd (.here trivial) hedit
  | @hook action => exact isEmptyElim action
  | shared _ ih => exact ih.part .shared .shared

/-- Behind a run that changes no definition names and rules stand for what they stood for. -/
theorem Evaluates.grammar_eq [Cursor P] [IsEmpty S.Hook] {host : Host S P ω} {m : Matcher S α}
    {st st' : State S P ω} {p : P} {o : Outcome P α} (h : Evaluates host m st p o st')
    (hedit : ¬m.Edits (st.grammar host)) : st'.grammar host = st.grammar host := by
  obtain ⟨log, -, rfl, -⟩ := h.replays hedit
  rw [State.grammar_withCaptures]

/-! ### Runs from different tables -/

section

variable [Cursor P] [IsEmpty S.Hook] {host : Host S P ω} {m : Matcher S α}
  {st st' : State S P ω} {p : P} {o : Outcome P α} {t t' : Captures P}

/-- A run from one table is a run from every table that looks alike. -/
theorem exists_log_of_evaluates (hedit : ¬m.Edits (st.grammar host))
    (h : Evaluates host m (st.withCaptures t) p o st') :
    ∃ log : List (String × Span P), (∀ e ∈ log, m.Writes (st.grammar host) e.1) ∧
      st' = st.withCaptures (t.insertAll log) ∧
      ∀ t' : Captures P,
        (∀ name, m.Reads (st.grammar host) name → t'.get? name = t.get? name) →
        Evaluates host m (st.withCaptures t') p o (st.withCaptures (t'.insertAll log)) :=
  h.replays hedit

/-- What a run from one table ends with, a run from a table that looks alike ends with too. -/
theorem exists_evaluates_of_agree (hedit : ¬m.Edits (st.grammar host))
    (hread : ∀ name, m.Reads (st.grammar host) name → t'.get? name = t.get? name)
    (h : ∃ st', Evaluates host m (st.withCaptures t) p o st') :
    ∃ st', Evaluates host m (st.withCaptures t') p o st' := by
  obtain ⟨st', h⟩ := h
  obtain ⟨log, -, -, hrun⟩ := exists_log_of_evaluates hedit h
  exact ⟨_, hrun t' hread⟩

end

/-- **The table of captures is a log that only backrefs read.** Unless the matcher or what it refers
    to changes a definition, two runs from tables that have the same spans under the names of all
    backrefs both go on for ever or both end with one outcome, and there is one list of spans, under
    names of captures, that either run has put into its table.  So no name is given up, a name of no
    capture keeps its span, and where there are no backrefs the table does not matter. -/
theorem run_capture_log [Cursor P] [IsEmpty S.Hook] (host : Host S P ω) (m : Matcher S α)
    (st : State S P ω) (p : P) (hedit : ¬m.Edits (st.grammar host)) :
    (∀ t t' : Captures P,
      (∀ name, m.Reads (st.grammar host) name → t.get? name = t'.get? name) →
      m.Diverges host (st.withCaptures t) p ∧ m.Diverges host (st.withCaptures t') p ∨
        ∃ bound o log, (∀ e ∈ log, m.Writes (st.grammar host) e.1) ∧
          m.run host bound (st.withCaptures t) p = some (o, st.withCaptures (t.insertAll log)) ∧
          m.run host bound (st.withCaptures t') p = some (o, st.withCaptures (t'.insertAll log))) ∧
      (∀ (t : Captures P) bound o st',
        m.run host bound (st.withCaptures t) p = some (o, st') → ∀ name,
          (t.contains name = true → st'.context.captures.contains name = true) ∧
          (¬m.Writes (st.grammar host) name →
            st'.context.captures.get? name = t.get? name)) ∧
      ((∀ name, ¬m.Reads (st.grammar host) name) → ∀ (t t' : Captures P) o,
        (∃ bound st', m.run host bound (st.withCaptures t) p = some (o, st')) ↔
          ∃ bound st', m.run host bound (st.withCaptures t') p = some (o, st')) := by
  refine ⟨fun t t' hread => ?_, fun t bound o st' hrun name => ?_, fun hno t t' o => ?_⟩
  · rcases m.diverges_or_evaluates host (st.withCaptures t) p with hd | ⟨o, st', h⟩
    · -- An end with the one table would be an end with the other.
      refine .inl ⟨hd, Matcher.diverges_iff.2 fun o st' h => ?_⟩
      obtain ⟨st₁, h₁⟩ := exists_evaluates_of_agree hedit hread ⟨st', h⟩
      exact Matcher.diverges_iff.1 hd o st₁ h₁
    · obtain ⟨log, hlog, rfl, hrun⟩ := exists_log_of_evaluates hedit h
      have h' := hrun t' fun name hr => (hread name hr).symm
      obtain ⟨bound, hb, hb'⟩ := Matcher.exists_common_bound (Matcher.exists_run_of_evaluates h)
        (Matcher.exists_run_of_evaluates h')
      exact .inr ⟨bound, o, log, hlog, hb, hb'⟩
  · obtain ⟨log, hlog, rfl, -⟩ := exists_log_of_evaluates hedit (Matcher.evaluates_of_run hrun)
    refine ⟨Captures.contains_insertAll, fun hno => Captures.get?_insertAll_of_not_mem ?_⟩
    -- What is found under a name that is not written was there before.
    rintro e he rfl
    exact hno (hlog e he)
  · have hcongr : (∃ st', Evaluates host m (st.withCaptures t) p o st') ↔
        ∃ st', Evaluates host m (st.withCaptures t') p o st' :=
      ⟨exists_evaluates_of_agree hedit fun name hr => absurd hr (hno name),
        exists_evaluates_of_agree hedit fun name hr => absurd hr (hno name)⟩
    simp only [Matcher.evaluates_iff_exists_run] at hcongr
    rw [exists_comm, hcongr, exists_comm]

/-- The name of pairs of characters reaches nothing that is not in its definition. -/
theorem doubling_not_reaches {kind : Matcher.Kind oneName}
    (hname : ¬kind _ (.defer (S := oneName) ()))
    (hdefinition : ((doubling P).definition ()).Lacks kind) :
    ¬(Matcher.defer (S := oneName) ()).Reaches
      (State.grammar (doubling P) ⟨.new none, .empty, ()⟩) kind :=
  Matcher.not_reaches hname (fun _ => hdefinition) fun _ _ hd => nomatch hd

/-- Pairs of characters are found whatever is captured under a name that no backref looks up, and
    the same spans are put into the table in front of it. -/
theorem run_capture_log_doubling :
    ∃ bound o log, (∀ e ∈ log, e.1 = "c") ∧
      (Matcher.defer (S := oneName) ()).run (doubling Place) bound ⟨.new none, .empty, ()⟩
        (.start "aabbc") = some (o, ⟨⟨Captures.empty.insertAll log, 0, none⟩, .empty, ()⟩) ∧
      (Matcher.defer (S := oneName) ()).run (doubling Place) bound
        ⟨⟨Captures.empty.insert "d" ⟨.start "x", .start "x"⟩, 0, none⟩, .empty, ()⟩
        (.start "aabbc") = some (o,
          ⟨⟨(Captures.empty.insert "d" ⟨.start "x", .start "x"⟩).insertAll log, 0, none⟩,
            .empty, ()⟩) := by
  have honly := run_capture_log (doubling Place) (.defer (S := oneName) ())
    ⟨.new none, .empty, ()⟩ (.start "aabbc")
    (doubling_not_reaches id (by simp [doubling, Matcher.anyChar, Matcher.Lacks, Matcher.IsEdit]))
  have hagree : ∀ name, (Matcher.defer (S := oneName) ()).Reads
      (State.grammar (doubling Place) ⟨.new none, .empty, ()⟩) name →
      (Captures.empty : Captures Place).get? name =
        (Captures.empty.insert "d" ⟨.start "x", .start "x"⟩).get? name := by
    intro name hr
    rw [Captures.get?_insert]
    split
    case isTrue h =>
      subst h
      refine absurd hr (doubling_not_reaches id ?_)
      simp [doubling, Matcher.anyChar, Matcher.Lacks, Matcher.IsBackref]
    case isFalse => rfl
  rcases honly.1 _ _ hagree with ⟨hd, -⟩ | ⟨bound, o, log, hlog, hrun, hrun'⟩
  · exact absurd (hd 4) (by rintro ⟨⟩)
  · refine ⟨bound, o, log, fun e he => ?_, hrun, hrun'⟩
    by_contra hne
    refine doubling_not_reaches id ?_ (hlog e he)
    simp [doubling, Matcher.anyChar, Matcher.Lacks, Matcher.IsCapture, Ne.symm hne]

end TextMatch
