import TextMatch.Proofs.Engine.Nesting

namespace TextMatch

/-!
# Limits that do not matter

A limit is looked at in one place only, where a reference is about to be entered.  So two runs that
differ in their limits go alike as long as both limits decide alike at the references they come to.

* `State.withLimit`, `Call.withLimit` — the same state, or call, under another limit;
* `Call.Indifferent` — both limits decide alike at every reference inside a call;
* `Evaluates.withLimit` — then the run ends alike under the other limit;
* `Call.makes_withLimit_iff` — and makes the same calls;
* `Call.Mirrors` — all this of everything inside a call;
* `run_limit_invisible` — a limit that is not reached, or refuses nothing, might as well not be
  there.

Whether the two limits decide alike has to be known for the calls of one of the two runs only, so
everything is proved for both at once (`Call.Comparable`) and holds with the runs exchanged.
-/

variable {S : Signature} {P ω α : Type}

/-! ### The same under another limit -/

/-- The state with another limit. -/
def State.withLimit (st : State S P ω) (limit : Option Nat) : State S P ω :=
  { st with context := { st.context with limit := limit } }

/-- The nesting is what it is under any limit. -/
@[simp] theorem State.depth_withLimit (st : State S P ω) (limit : Option Nat) :
    (st.withLimit limit).context.depth = st.context.depth := rfl

namespace Call

/-- The call under another limit. -/
def withLimit (c : Call S P ω) (limit : Option Nat) : Call S P ω :=
  ⟨c.matcher, c.state.withLimit limit, c.cursor⟩

/-- Of two limits the last one counts. -/
@[simp] theorem withLimit_withLimit (c : Call S P ω) (limit limit' : Option Nat) :
    (c.withLimit limit).withLimit limit' = c.withLimit limit' := rfl

/-- Setting the limit that is there already does nothing. -/
theorem withLimit_of_limit_eq {c : Call S P ω} {limit : Option Nat}
    (h : c.state.context.limit = limit) : c.withLimit limit = c := by
  subst h
  rfl

/-! ### References and limits -/

/-- The call is of a reference that stands for something. -/
def IsReference (host : Host S P ω) (c : Call S P ω) : Prop :=
  ∃ frame definition, Refers host c.state.rules c.matcher frame definition

/-- The call is of a reference that is not entered because of the limit. -/
def Refused (host : Host S P ω) (c : Call S P ω) : Prop :=
  c.IsReference host ∧ c.state.context.isFull = true

variable [Cursor P] {host : Host S P ω} {c c' d : Call S P ω} {limit : Option Nat}

/-- At every reference inside the call the other limit decides as the limit of the call does. -/
def Indifferent (host : Host S P ω) (limit : Option Nat) (c : Call S P ω) : Prop :=
  ∀ c', c.Inside host c' → c'.IsReference host →
    (c'.state.withLimit limit).context.isFull = c'.state.context.isFull

/-- Both limits decide alike inside the call, or inside the same call under the other limit. -/
def Comparable (host : Host S P ω) (limit : Option Nat) (c : Call S P ω) : Prop :=
  c.Indifferent host limit ∨ (c.withLimit limit).Indifferent host c.state.context.limit

/-- A limit that is not exceeded without it would not refuse anything. -/
theorem indifferent_of_depth_le {n : Nat} (hc : c.state.context.limit = none)
    (hdepth : ∀ st, c.Visits host st → st.context.depth ≤ n) :
    c.Indifferent host (some n) := by
  rintro c' hinside ⟨frame, definition, href⟩
  have hlimit : c'.state.context.limit = none := (Inside.limit_eq hinside).trans hc
  have hf : c'.state.context.isFull = false := Context.isFull_of_limit_none hlimit
  -- The reference is entered, and inside it the run is one level further in.
  have hdeeper : c'.state.context.depth + 1 ≤ n :=
    hdepth _ (.start (hinside.tail (.enter href hf)))
  rw [hf, Context.isFull_of_limit_some rfl, decide_eq_false_iff_not, State.depth_withLimit]
  omega

/-- Without a limit nothing is refused either. -/
theorem indifferent_of_not_refused (h : ∀ c', c.Inside host c' → ¬c'.Refused host) :
    c.Indifferent host none := by
  intro c' hinside href
  rw [Context.isFull_of_limit_none rfl]
  exact (Bool.eq_false_iff.2 fun hf => h c' hinside ⟨href, hf⟩).symm

namespace Comparable

/-- The two calls can be exchanged. -/
theorem symm (h : c.Comparable host limit) :
    (c.withLimit limit).Comparable host c.state.context.limit := Or.symm h

/-- What holds inside a call holds inside the calls it makes. -/
theorem of_makes (h : c.Comparable host limit) (hc : c.Makes host c')
    (hc' : (c.withLimit limit).Makes host (c'.withLimit limit)) : c'.Comparable host limit := by
  have hlimit := hc.nesting.1
  rcases h with h | h
  · exact .inl fun d hd => h d (hd.head hc)
  · refine .inr fun d hd => ?_
    rw [hlimit]
    exact h d (hd.head hc')

/-- At the call itself, if it is of a reference, both limits decide alike. -/
theorem isFull_eq (h : c.Comparable host limit) (href : c.IsReference host) :
    (c.state.withLimit limit).context.isFull = c.state.context.isFull := by
  rcases h with h | h
  · exact h c .refl href
  · exact (h (c.withLimit limit) .refl href).symm

end Comparable

end Call

section

open Call (Makes)

variable [Cursor P] [IsEmpty S.Hook] {host : Host S P ω} {limit : Option Nat}

/-! ### Runs that end -/

/-- **A run ends alike under another limit** that decides alike. -/
theorem Evaluates.withLimit {m : Matcher S α} {st st' : State S P ω} {p : P} {o : Outcome P α}
    (h : Evaluates host m st p o st') (hl : Call.Comparable host limit ⟨m, st, p⟩) :
    Evaluates host m (st.withLimit limit) p o (st'.withLimit limit) := by
  -- Induction on the run.  The calls that it makes are made under the other limit too, by what is
  -- known of the parts before them.
  induction h with
  | satisfy => exact .satisfy
  | literal => exact .literal
  | atStart => exact .atStart
  | atEnd => exact .atEnd
  | behind => exact .behind
  | succeed => exact .succeed
  | fail => exact .fail
  | backref htext => exact .backref htext
  | backrefAbsent htext => exact .backrefAbsent htext
  | map _ ih => exact .map (ih (hl.of_makes .map .map))
  | flatMap h _ ih ihn =>
    have h' := ih (hl.of_makes .flatMap .flatMap)
    exact .flatMap h' (ihn (hl.of_makes (.flatMapNext h) (.flatMapNext h')))
  | flatMapFail _ ih => exact .flatMapFail (ih (hl.of_makes .flatMap .flatMap))
  | seq ha _ iha ihb =>
    have ha' := iha (hl.of_makes .seq .seq)
    exact .seq ha' (ihb (hl.of_makes (.seqNext ha) (.seqNext ha')))
  | seqFail _ ih => exact .seqFail (ih (hl.of_makes .seq .seq))
  | choice _ ih => exact .choice (ih (hl.of_makes .choice .choice))
  | choiceElse ha _ iha ihb =>
    have ha' := iha (hl.of_makes .choice .choice)
    exact .choiceElse ha' (ihb (hl.of_makes (.choiceElse ha) (.choiceElse ha')))
  | manyMore h hp _ ih ihm =>
    have h' := ih (hl.of_makes .many .many)
    exact .manyMore h' hp (ihm (hl.of_makes (.manyMore h hp) (.manyMore h' hp)))
  | manyStuck _ hp ih => exact .manyStuck (ih (hl.of_makes .many .many)) hp
  | manyFail _ ih => exact .manyFail (ih (hl.of_makes .many .many))
  | many1 h _ ih ihm =>
    have h' := ih (hl.of_makes .many1 .many1)
    exact .many1 h' (ihm (hl.of_makes (.many1More h) (.many1More h')))
  | many1Fail _ ih => exact .many1Fail (ih (hl.of_makes .many1 .many1))
  | optional _ ih => exact .optional (ih (hl.of_makes .optional .optional))
  | optionalNone _ ih => exact .optionalNone (ih (hl.of_makes .optional .optional))
  | notFail _ ih => exact .notFail (ih (hl.of_makes .not .not))
  | not _ ih => exact .not (ih (hl.of_makes .not .not))
  | guard _ ih => exact .guard (ih (hl.of_makes .guard .guard))
  | guardFail _ ih => exact .guardFail (ih (hl.of_makes .guard .guard))
  | capture _ ih => exact .capture (ih (hl.of_makes .capture .capture))
  | captureFail _ ih => exact .captureFail (ih (hl.of_makes .capture .capture))
  | refuse href hf =>
    have hf' := (hl.isFull_eq ⟨_, _, href⟩).trans hf
    exact .refuse href hf'
  | @enter _ m st p frame definition o _ href hf _ ih =>
    have hf' : (st.withLimit limit).context.isFull = false :=
      (hl.isFull_eq ⟨_, _, href⟩).trans hf
    have hmakes : Makes host ⟨m, st.withLimit limit, p⟩
        ⟨definition, (st.withLimit limit).enter frame, p⟩ := .enter href hf'
    have henter : Evaluates host m (st.withLimit limit) p o _ :=
      .enter href hf' (ih (hl.of_makes (.enter href hf) hmakes))
    exact henter
  | ruleUndefined hd => exact .ruleUndefined hd
  | weakUndefined hd => exact .weakUndefined hd
  | define => exact .define
  | undefine => exact .undefine
  | @hook action => exact isEmptyElim action
  | shared _ ih => exact .shared (ih (hl.of_makes .shared .shared))

/-! ### Calls inside -/

namespace Call

variable {c c' d : Call S P ω}

/-- A call that is made is made under the other limit too. -/
theorem Makes.withLimit (h : c.Makes host c') (hl : c.Comparable host limit) :
    (c.withLimit limit).Makes host (c'.withLimit limit) := by
  cases h with
  | map => exact .map
  | flatMap => exact .flatMap
  -- A call that is made behind a part is made behind the end of that part under the other limit.
  | flatMapNext h => exact .flatMapNext (h.withLimit (hl.of_makes .flatMap .flatMap))
  | seq => exact .seq
  | seqNext h => exact .seqNext (h.withLimit (hl.of_makes .seq .seq))
  | choice => exact .choice
  | choiceElse h => exact .choiceElse (h.withLimit (hl.of_makes .choice .choice))
  | many => exact .many
  | manyMore h hp => exact .manyMore (h.withLimit (hl.of_makes .many .many)) hp
  | many1 => exact .many1
  | many1More h => exact .many1More (h.withLimit (hl.of_makes .many1 .many1))
  | optional => exact .optional
  | not => exact .not
  | guard => exact .guard
  | capture => exact .capture
  | shared => exact .shared
  -- The one place where the limit is looked at.
  | enter href hf => exact .enter href ((hl.isFull_eq ⟨_, _, href⟩).trans hf)

/-- **The same calls are made** under another limit that decides alike. -/
theorem makes_withLimit_iff (hl : c.Comparable host limit) :
    (c.withLimit limit).Makes host d ↔ ∃ c', c.Makes host c' ∧ d = c'.withLimit limit := by
  constructor
  · intro h
    -- Under its own limit again the call is what it was.
    have hlimit : d.state.context.limit = limit := h.nesting.1
    have hback := h.withLimit hl.symm
    rw [withLimit_withLimit, withLimit_of_limit_eq rfl] at hback
    exact ⟨_, hback, (withLimit_of_limit_eq hlimit).symm⟩
  · rintro ⟨c', h, rfl⟩
    exact h.withLimit hl

/-- What can be compared from the outside can be so at every call inside. -/
theorem Inside.comparable (h : c.Inside host c') (hl : c.Comparable host limit) :
    c'.Comparable host limit := by
  induction h with
  | refl => exact hl
  | tail _ h ih => exact ih.of_makes h (h.withLimit ih)

/-- The calls inside are the same under both limits, one by one. -/
theorem inside_withLimit_iff (hl : c.Comparable host limit) :
    (c.withLimit limit).Inside host d ↔ ∃ c', c.Inside host c' ∧ d = c'.withLimit limit := by
  constructor
  · intro h
    induction h with
    | refl => exact ⟨c, .refl, rfl⟩
    | tail _ h ih =>
      obtain ⟨c', hinside, rfl⟩ := ih
      -- One more call is mirrored by one more call, since the calls so far are comparable.
      obtain ⟨c'', hmakes, rfl⟩ := (makes_withLimit_iff (Inside.comparable hinside hl)).1 h
      exact ⟨c'', hinside.tail hmakes, rfl⟩
  · rintro ⟨c', h, rfl⟩
    induction h with
    | refl => exact .refl
    | tail hinside h ih => exact ih.tail (h.withLimit (Inside.comparable hinside hl))

/-- The call goes alike under the other limit: the same calls are made inside it, by the same
    calls, and they end alike. -/
structure Mirrors (host : Host S P ω) (limit : Option Nat) (c : Call S P ω) : Prop where
  inside_iff : ∀ d, (c.withLimit limit).Inside host d ↔
    ∃ c', c.Inside host c' ∧ d = c'.withLimit limit
  makes_iff : ∀ c', c.Inside host c' → ∀ d, (c'.withLimit limit).Makes host d ↔
    ∃ c'', c'.Makes host c'' ∧ d = c''.withLimit limit
  ends : ∀ c', c.Inside host c' → ∀ o st', Evaluates host c'.matcher c'.state c'.cursor o st' →
    Evaluates host c'.matcher (c'.state.withLimit limit) c'.cursor o (st'.withLimit limit)

/-- What can be compared is mirrored: calls and ends alike, and in both directions. -/
theorem Comparable.mirrors (hl : c.Comparable host limit) : c.Mirrors host limit where
  inside_iff _ := inside_withLimit_iff hl
  makes_iff _ hinside _ := makes_withLimit_iff (Inside.comparable hinside hl)
  ends _ hinside _ _ he := he.withLimit (Inside.comparable hinside hl)

end Call

/-- **A limit that is not reached is invisible.** A run without a limit that ends, and is nested no
    more than `d` levels deep on the way, ends alike under every limit from `d` on.  A run with a
    limit that ends without being refused a reference ends alike without the limit.  Either way the
    table of captures is the same, and the two runs are made of the same runs, which end alike. -/
theorem run_limit_invisible (host : Host S P ω) (m : Matcher S α) (st : State S P ω) (p : P)
    (n : Nat) :
    (∀ bound o st' d, m.run host bound (st.withLimit none) p = some (o, st') →
      (∀ x, Call.Visits host ⟨m, st.withLimit none, p⟩ x → x.context.depth ≤ d) → d ≤ n →
        (∃ bound', m.run host bound' (st.withLimit (some n)) p =
          some (o, st'.withLimit (some n))) ∧
          Call.Mirrors host (some n) ⟨m, st.withLimit none, p⟩) ∧
      ∀ bound o st', m.run host bound (st.withLimit (some n)) p = some (o, st') →
        (∀ c, Call.Inside host ⟨m, st.withLimit (some n), p⟩ c → ¬c.Refused host) →
          (∃ bound', m.run host bound' (st.withLimit none) p = some (o, st'.withLimit none)) ∧
            Call.Mirrors host none ⟨m, st.withLimit (some n), p⟩ := by
  constructor
  · intro bound o st' d hrun hdepth hd
    -- A limit that is nowhere reached makes no difference.
    have hl : Call.Comparable host (some n) ⟨m, st.withLimit none, p⟩ :=
      .inl (Call.indifferent_of_depth_le rfl fun x hx => Nat.le_trans (hdepth x hx) hd)
    have he := (Matcher.evaluates_of_run hrun).withLimit hl
    exact ⟨Matcher.exists_run_of_evaluates he, hl.mirrors⟩
  · intro bound o st' hrun hrefused
    -- A run that has refused nothing has met no reference that a greater limit would let in.
    have hl : Call.Comparable host none ⟨m, st.withLimit (some n), p⟩ :=
      .inl (Call.indifferent_of_not_refused hrefused)
    have he := (Matcher.evaluates_of_run hrun).withLimit hl
    exact ⟨Matcher.exists_run_of_evaluates he, hl.mirrors⟩

end

/-- The name of pairs of characters is entered once, one level in, and its
    definition refers to nothing. -/
theorem inside_doubling {limit : Option Nat} {p : Place} {c : Call oneName Place Unit}
    (h : Call.Inside (doubling Place)
      ⟨.defer (S := oneName) (), ⟨.new limit, .empty, ()⟩, p⟩ c) :
    c = ⟨.defer (S := oneName) (), ⟨.new limit, .empty, ()⟩, p⟩ ∨
      c.matcher.Lacks Matcher.IsReference ∧ c.state.context.depth = 1 := by
  -- The first call is the reference itself, and all others are inside its definition.
  rcases Relation.ReflTransGen.cases_head h with rfl | ⟨c₁, h₁, hinside⟩
  · exact .inl rfl
  · obtain ⟨frame, definition, href, rfl⟩ := h₁.of_isReference trivial
    cases href with
    | defer =>
      refine .inr (Call.Inside.lacks_reference hinside ?_)
      simp [doubling, Matcher.anyChar, Matcher.Lacks, Matcher.IsReference]

/-- Pairs of characters are found with a single level allowed as they are without a limit, and
    without a limit as with a single level, and the last pair is left in the table. -/
theorem run_limit_invisible_doubling :
    (∃ o st', (Matcher.defer (S := oneName) ()).run (doubling Place) 4 ⟨.new none, .empty, ()⟩
        (.start "aabbc") = some (o, st') ∧
      (st'.context.captures.text? "c") = some "c" ∧
      ∃ bound, (Matcher.defer (S := oneName) ()).run (doubling Place) bound
        ⟨.new (some 1), .empty, ()⟩ (.start "aabbc") = some (o, st'.withLimit (some 1))) ∧
      ∃ o st', (Matcher.defer (S := oneName) ()).run (doubling Place) 4
          ⟨.new (some 1), .empty, ()⟩ (.start "aabbc") = some (o, st') ∧
        ∃ bound, (Matcher.defer (S := oneName) ()).run (doubling Place) bound
          ⟨.new none, .empty, ()⟩ (.start "aabbc") = some (o, st'.withLimit none) := by
  obtain ⟨hwithout, hwith⟩ := run_limit_invisible (doubling Place) (.defer (S := oneName) ())
    ⟨.new none, .empty, ()⟩ (.start "aabbc") 1
  constructor
  · refine ⟨_, _, rfl, by rfl, (hwithout 4 _ _ 1 rfl (fun x hx => ?_) (Nat.le_refl 1)).1⟩
    obtain ⟨c, hc, hdepth⟩ := hx.exists_inside
    rw [hdepth]
    rcases inside_doubling hc with rfl | ⟨-, hone⟩
    · exact Nat.zero_le 1
    · exact Nat.le_of_eq hone
  · refine ⟨_, _, rfl, (hwith 4 _ _ rfl ?_).1⟩
    rintro c hc ⟨⟨frame, definition, href⟩, hfull⟩
    rcases inside_doubling hc with rfl | ⟨hlacks, -⟩
    · cases hfull
    · exact hlacks.not_kind href.isReference

end TextMatch
