import TextMatch.Proofs.Engine.Repetition

namespace TextMatch

/-!
# Termination under a limit

A rule that begins with itself runs for ever, and so no bound is enough for it.  A limit on the
nesting of references is what rules this out, for every matcher and every system of definitions.

* `State.HasRoom` — how many levels of nesting are left;
* `halts_many` — a repetition halts because every round finds as much room as the first;
* `halts_of_refers` — a reference halts because there is less room inside it;
* `exists_bound_run_of_limit` — with a limit, every run halts.

The induction is on the room that is left, and inside it on the matcher: a part of a matcher is
smaller, a definition may be anything but is run with less room.
-/

variable {S : Signature} {ω α β : Type}

/-! ### Room -/

/-- There is a limit, and no more than `room` levels of nesting are left below it. -/
structure State.HasRoom (limit room : Nat) (st : State S Place ω) : Prop where
  limit_eq : st.context.limit = some limit
  le_depth_add : limit ≤ st.context.depth + room

namespace State.HasRoom

variable {limit room : Nat} {st st' : State S Place ω}

/-- Without room every reference is refused. -/
theorem isFull (h : st.HasRoom limit 0) : st.context.isFull = true := by
  rw [Context.isFull_of_limit_some h.limit_eq, decide_eq_true_eq]
  exact h.le_depth_add

/-- A reference uses up one level. -/
theorem enter (h : st.HasRoom limit (room + 1)) (frame : List Slot) :
    (st.enter frame).HasRoom limit room where
  limit_eq := h.limit_eq
  le_depth_add := by
    have hle := h.le_depth_add
    show limit ≤ st.context.depth + 1 + room
    omega

/-- A run leaves as much room as it found. -/
theorem of_evaluates {host : Host S Place ω} {m : Matcher S α} {p : Place} {o : Outcome Place α}
    (h : st.HasRoom limit room) (he : Evaluates host m st p o st') : st'.HasRoom limit room := by
  obtain ⟨hdepth, hlimit⟩ := he.nesting_eq
  exact ⟨hlimit.trans h.limit_eq, hdepth.symm ▸ h.le_depth_add⟩

/-- The rounds of a repetition leave as much room as they found. -/
theorem of_rounds {host : Host S Place ω} {m : Matcher S α} {p q : Place} {vs : List α}
    (h : st.HasRoom limit room) (hs : Rounds host m st p vs st' q) : st'.HasRoom limit room := by
  induction hs with
  | nil => exact h
  | cons hm _ _ ih => exact ih (h.of_evaluates hm)

end State.HasRoom

/-! ### Halting -/

section

variable {host : Host S Place ω} {limit room : Nat} {st : State S Place ω} {p : Place}

/-- A repetition halts if its matcher does with the same room. -/
theorem halts_many [IsEmpty S.Hook] {m : Matcher S α}
    (hm : ∀ {st : State S Place ω} {p}, st.HasRoom limit room → Halts host m st p)
    (hst : st.HasRoom limit room) : Halts host (.many m) st p :=
  halts_many_of_rounds fun _ _ _ hs => hm (hst.of_rounds hs)

/-- **References halt.** At the limit they are refused, and below it there is less room inside. -/
theorem halts_of_refers
    (hd : ∀ {room' : Nat}, room' < room → ∀ {β : Type} (m : Matcher S β)
      {st : State S Place ω} {p}, st.HasRoom limit room' → Halts host m st p)
    {m definition : Matcher S α} {frame : List Slot}
    (href : Refers host st.rules m frame definition)
    (hst : st.HasRoom limit room) : Halts host m st p := by
  cases hf : st.context.isFull with
  | true => exact ⟨_, _, .refuse href hf⟩
  | false =>
    cases room with
    | zero =>
      have hfull := hst.isFull
      rw [hf] at hfull
      cases hfull
    | succ room =>
      have hinside : (st.enter frame).HasRoom limit room := hst.enter frame
      obtain ⟨o, st', ho⟩ := hd (Nat.lt_succ_self room) definition hinside (p := p)
      exact ⟨_, _, .enter href hf ho⟩

/-- Every run halts that has only a limited number of levels left. -/
theorem halts_of_hasRoom [IsEmpty S.Hook] (m : Matcher S α) (hst : st.HasRoom limit room) :
    Halts host m st p := by
  -- Outside on the room, so that a reference may be to any definition at all.
  induction room using Nat.strongRecOn generalizing α m st p with
  | ind room hd =>
  have hd' : ∀ {room' : Nat}, room' < room → ∀ {β : Type} (m : Matcher S β)
      {st : State S Place ω} {p}, st.HasRoom limit room' → Halts host m st p :=
    fun h _ m _ _ hst => hd _ h m hst
  -- Inside on the matcher, whose parts are run with the same room.
  induction m generalizing st p with
  | satisfy accepts => exact ⟨_, _, .satisfy⟩
  | literal text => exact ⟨_, _, .literal⟩
  | atStart => exact ⟨_, _, .atStart⟩
  | atEnd => exact ⟨_, _, .atEnd⟩
  | behind accepts => exact ⟨_, _, .behind⟩
  | succeed value => exact ⟨_, _, .succeed⟩
  | fail => exact ⟨_, _, .fail⟩
  | define s definition => exact ⟨_, _, .define⟩
  | undefine s => exact ⟨_, _, .undefine⟩
  | hook action => exact ⟨_, _, .hook⟩
  | backref name =>
    cases ht : st.context.captures.text? name with
    | none => exact ⟨_, _, .backrefAbsent ht⟩
    | some text => exact ⟨_, _, .backref ht⟩
  | map f m ih =>
    obtain ⟨o, st', ho⟩ := ih hst
    exact ⟨_, _, .map ho⟩
  | flatMap m holds next ih ihn =>
    obtain ⟨o, st₁, ho⟩ := ih hst
    cases o with
    | failure q => exact ⟨_, _, .flatMapFail ho⟩
    | success v q =>
      obtain ⟨o', st₂, ho'⟩ := ihn v (hst.of_evaluates ho)
      exact ⟨_, _, .flatMap ho ho'⟩
  | seq a b iha ihb =>
    obtain ⟨o, st₁, ho⟩ := iha hst
    cases o with
    | failure q => exact ⟨_, _, .seqFail ho⟩
    | success v q =>
      obtain ⟨o', st₂, ho'⟩ := ihb (hst.of_evaluates ho)
      exact ⟨_, _, .seq ho ho'⟩
  | choice a b iha ihb =>
    obtain ⟨o, st₁, ho⟩ := iha hst
    cases o with
    | success v q => exact ⟨_, _, .choice ho⟩
    | failure q =>
      obtain ⟨o', st₂, ho'⟩ := ihb (hst.of_evaluates ho)
      exact ⟨_, _, .choiceElse ho ho'⟩
  | many m ih => exact halts_many ih hst
  | many1 m ih =>
    obtain ⟨o, st₁, ho⟩ := ih hst
    cases o with
    | failure q => exact ⟨_, _, .many1Fail ho⟩
    | success v r =>
      -- The first round need not move on, and the others are a repetition.
      obtain ⟨o', st₂, ho'⟩ := halts_many ih (hst.of_evaluates ho)
      obtain ⟨vs, q, rfl⟩ := ho'.many_isSuccess
      exact ⟨_, _, .many1 ho ho'⟩
  | optional m ih =>
    obtain ⟨o, st', ho⟩ := ih hst
    cases o with
    | success v q => exact ⟨_, _, .optional ho⟩
    | failure q => exact ⟨_, _, .optionalNone ho⟩
  | not m ih =>
    obtain ⟨o, st', ho⟩ := ih hst
    cases o with
    | success v q => exact ⟨_, _, .notFail ho⟩
    | failure q => exact ⟨_, _, .not ho⟩
  | guard m ih =>
    obtain ⟨o, st', ho⟩ := ih hst
    cases o with
    | success v q => exact ⟨_, _, .guard ho⟩
    | failure q => exact ⟨_, _, .guardFail ho⟩
  | capture name m ih =>
    obtain ⟨o, st', ho⟩ := ih hst
    cases o with
    | success v q => exact ⟨_, _, .capture ho⟩
    | failure q => exact ⟨_, _, .captureFail ho⟩
  | shared holds m ih =>
    obtain ⟨o, st', ho⟩ := ih hst
    exact ⟨_, _, .shared ho⟩
  | defer name => exact halts_of_refers hd' .defer hst
  | rule s =>
    cases hs : st.rules.definition? s with
    | none => exact ⟨_, _, .ruleUndefined hs⟩
    | some definition => exact halts_of_refers hd' (.rule hs) hst
  | weak s =>
    cases hs : st.rules.definition? s with
    | none => exact ⟨_, _, .weakUndefined hs⟩
    | some definition => exact halts_of_refers hd' (.weak hs) hst

end

/-! ### Totality -/

/-- **Totality under a limit.** With a limit on the nesting, every matcher has an outcome over every
    system of definitions, from every state and every place, and each large enough bound gives it.
    Two things are left out.  Actions of an application may move back in the text.  And a tree is
    finite along every branch, so that the matcher a value leads to is never one that builds itself
    again for ever: what recurs does so through references, which are counted. -/
theorem exists_bound_run_of_limit [IsEmpty S.Hook] (host : Host S Place ω) (m : Matcher S α)
    (st : State S Place ω) (p : Place) {limit : Nat} (hlimit : st.context.limit = some limit) :
    ∃ bound o st', ∀ larger, bound ≤ larger → m.run host larger st p = some (o, st') := by
  have hroom : st.HasRoom limit limit := ⟨hlimit, Nat.le_add_left _ _⟩
  have hhalts : Halts host m st p := halts_of_hasRoom m hroom
  obtain ⟨o, st', he⟩ := hhalts
  obtain ⟨bound, hb⟩ := Matcher.exists_run_of_evaluates he
  exact ⟨bound, o, st', fun larger hle => Matcher.run_mono hle hb⟩

/-- A signature with one name and no actions. -/
abbrev oneName : Signature := ⟨Unit, fun _ => Unit, Unit, Empty⟩

/-- One name, which stands for any number of its own matches and then another one. -/
def leftRecursive : Host oneName Place Unit where
  definition _ := .keepRight (.many (.defer (S := oneName) ())) (.defer (S := oneName) ())
  act action := nomatch action

/-- The name that begins with itself halts under a limit of three levels. -/
theorem exists_bound_run_leftRecursive :
    (⟨.new (some 3), .empty, ()⟩ : State oneName Place Unit).context.limit = some 3 ∧
      ∃ bound o st', ∀ larger, bound ≤ larger →
        (Matcher.defer (S := oneName) ()).run leftRecursive larger
          ⟨.new (some 3), .empty, ()⟩ (.start "a") = some (o, st') :=
  ⟨rfl, exists_bound_run_of_limit leftRecursive (.defer (S := oneName) ())
    ⟨.new (some 3), .empty, ()⟩ (.start "a") rfl⟩

end TextMatch
