import TextMatch.Proofs.Engine.Inversion
import TextMatch.Proofs.Engine.Ownership

namespace TextMatch

/-!
# Changes of rules in a run

A run may give rules definitions and take them away, and rules may go while it lasts, its own and
others.  It leaves the rules in order, and what it has lost does not come back.

* `Evaluates.settled` — a run leaves the rules settled, with the owners outside that there were;
* `Call.Changes` — the rules that are given a definition, or lose it, inside a call;
* `Evaluates.preserves`, `Call.Inside.preserves`, `Call.Visits.preserves` — what these changes keep,
  a run keeps to its end and on the way;
* `Evaluates.edits_eq` — a run without changes leaves the rules as they were;
* `Call.Visits.gone_end` — what is gone at any time in a run is gone at its end.
-/

variable {S : Signature} {P ω α : Type}

/-! ### Runs -/

section

variable [Cursor P] {host : Host S P ω} {m : Matcher S α} {st st' : State S P ω} {p : P}
  {o : Outcome P α}

omit [Cursor P] in
/-- What a reference owns while it runs lives, and the definition lists it. -/
theorem Refers.frame_living (hhost : host.ListsOwned) {definition : Matcher S α}
    {frame kept : List Slot} (href : Refers host st.rules m frame definition)
    (hm : m.OwnsWithin host kept) (hkept : kept ⊆ st.rules.held)
    (hr : st.rules.Settled host) :
    frame ⊆ st.rules.living ∧ definition.ListsOwned host ∧ definition.owned ⊆ frame := by
  -- For rules, what the definition owns lives as long as the definition stands where it is found.
  have howned : ∀ {s d}, st.rules.definition? s = some d →
      d.owned ⊆ st.rules.living ∧ d.ListsOwned host := fun hd =>
    ⟨fun u hu => hr.owned_living (Rules.mem_ownedSlots_of_owns ⟨_, hd, hu⟩),
      hr.lists _ _ (Rules.mem_slots_of_definition? hd)⟩
  cases href with
  | defer =>
    exact ⟨fun s hs => hr.held_living (hkept (hm hs)), hhost _, List.Subset.refl _⟩
  | rule hd => exact ⟨(howned hd).1, (howned hd).2, List.Subset.refl _⟩
  | weak hd =>
    exact ⟨List.cons_subset.2 ⟨Rules.mem_living_of_definition? hd, (howned hd).1⟩,
      (howned hd).2, List.subset_cons_self _ _⟩

/-- **A run leaves the rules settled.**  The owners outside are the same before and behind it; in
    between there are those that the references own while they run. -/
theorem Evaluates.settled (hhost : host.ListsOwned) (h : Evaluates host m st p o st')
    {kept : List Slot} (hm : m.OwnsWithin host kept) (hkept : kept ⊆ st.rules.held)
    (hr : st.rules.Settled host) :
    st'.rules.Settled host ∧ st'.rules.held = st.rules.held := by
  -- Induction on the run.  What a tree owns is held while it runs, and so
  -- what it gives to a rule lives.
  induction h generalizing kept with
  | map _ ih | manyStuck _ _ ih | manyFail _ ih | many1Fail _ ih | optional _ ih | optionalNone _ ih
  | notFail _ ih | not _ ih | guard _ ih | guardFail _ ih | capture _ ih | captureFail _ ih
  | shared _ ih => exact ih hm hkept hr
  | flatMapFail _ ih | seqFail _ ih | choice _ ih => exact ih hm.1 hkept hr
  | flatMap _ _ ih ihn =>
    obtain ⟨hr₁, hheld⟩ := ih hm.1 hkept hr
    obtain ⟨hr₂, hheld₂⟩ := ihn (hm.2 _) (hheld ▸ hkept) hr₁
    exact ⟨hr₂, hheld₂.trans hheld⟩
  | seq _ _ iha ihb | choiceElse _ _ iha ihb =>
    obtain ⟨hr₁, hheld⟩ := iha hm.1 hkept hr
    obtain ⟨hr₂, hheld₂⟩ := ihb hm.2 (hheld ▸ hkept) hr₁
    exact ⟨hr₂, hheld₂.trans hheld⟩
  | manyMore _ _ _ ih ihm | many1 _ _ ih ihm =>
    obtain ⟨hr₁, hheld⟩ := ih hm hkept hr
    obtain ⟨hr₂, hheld₂⟩ := ihm hm (hheld ▸ hkept) hr₁
    exact ⟨hr₂, hheld₂.trans hheld⟩
  | enter href _ _ ih =>
    obtain ⟨hframe, hlists, howned⟩ := href.frame_living hhost hm hkept hr
    obtain ⟨hr₁, hheld⟩ :=
      ih hlists (List.subset_append_of_subset_left _ howned) (hr.hold hframe)
    exact hr₁.leave hr hheld
  | define =>
    obtain ⟨-, howned, hlists⟩ := hm
    refine ⟨hr.update _ _ (fun u hu => hr.held_living (hkept (howned hu))) ?_, Rules.held_update ..⟩
    rintro d ⟨⟩
    exact hlists
  | undefine =>
    exact ⟨hr.update _ none (List.nil_subset _) nofun, Rules.held_update ..⟩
  | _ => exact ⟨hr, rfl⟩

/-! ### Changes of definitions in a run -/

/-- Gives the rule a definition, or takes it away. -/
def Matcher.IsEditOf (s : Slot) : Matcher.Kind S
  | _, .define s' _ | _, .undefine s' => s' = s
  | _, _ => False

/-- Inside the call the rule is given a definition, or loses it. -/
def Call.Changes (host : Host S P ω) (c : Call S P ω) (s : Slot) : Prop :=
  ∃ c', c.Inside host c' ∧ Matcher.IsEditOf s _ c'.matcher

/-- What a part changes, the whole changes. -/
theorem Call.Changes.of_makes {c c' : Call S P ω} {s : Slot} (h : c'.Changes host s)
    (hc : c.Makes host c') : c.Changes host s := by
  obtain ⟨d, hd, hs⟩ := h
  exact ⟨d, hd.head hc, hs⟩

/-- **Runs keep what their changes keep.** -/
theorem Evaluates.preserves {I : Rules S → Prop} {changed : Slot → Prop}
    (hI : Rules.Keeps I changed) (h : Evaluates host m st p o st')
    (hchanged : ∀ s, Call.Changes host ⟨m, st, p⟩ s → changed s) (hr : I st.rules) :
    I st'.rules := by
  induction h with
  | map _ ih => exact ih (fun s hs => hchanged s (hs.of_makes .map)) hr
  | flatMap h _ ih ihn =>
    exact ihn (fun s hs => hchanged s (hs.of_makes (.flatMapNext h)))
      (ih (fun s hs => hchanged s (hs.of_makes .flatMap)) hr)
  | flatMapFail _ ih => exact ih (fun s hs => hchanged s (hs.of_makes .flatMap)) hr
  | seq h _ iha ihb =>
    exact ihb (fun s hs => hchanged s (hs.of_makes (.seqNext h)))
      (iha (fun s hs => hchanged s (hs.of_makes .seq)) hr)
  | seqFail _ ih => exact ih (fun s hs => hchanged s (hs.of_makes .seq)) hr
  | choice _ ih => exact ih (fun s hs => hchanged s (hs.of_makes .choice)) hr
  | choiceElse h _ iha ihb =>
    exact ihb (fun s hs => hchanged s (hs.of_makes (.choiceElse h)))
      (iha (fun s hs => hchanged s (hs.of_makes .choice)) hr)
  | manyMore h hp _ ih ihm =>
    exact ihm (fun s hs => hchanged s (hs.of_makes (.manyMore h hp)))
      (ih (fun s hs => hchanged s (hs.of_makes .many)) hr)
  | manyStuck _ _ ih | manyFail _ ih =>
    exact ih (fun s hs => hchanged s (hs.of_makes .many)) hr
  | many1 h _ ih ihm =>
    exact ihm (fun s hs => hchanged s (hs.of_makes (.many1More h)))
      (ih (fun s hs => hchanged s (hs.of_makes .many1)) hr)
  | many1Fail _ ih => exact ih (fun s hs => hchanged s (hs.of_makes .many1)) hr
  | optional _ ih | optionalNone _ ih =>
    exact ih (fun s hs => hchanged s (hs.of_makes .optional)) hr
  | notFail _ ih | not _ ih => exact ih (fun s hs => hchanged s (hs.of_makes .not)) hr
  | guard _ ih | guardFail _ ih => exact ih (fun s hs => hchanged s (hs.of_makes .guard)) hr
  | capture _ ih | captureFail _ ih =>
    exact ih (fun s hs => hchanged s (hs.of_makes .capture)) hr
  | shared _ ih => exact ih (fun s hs => hchanged s (hs.of_makes .shared)) hr
  -- Owning the frame is a change of owners only, and it is taken back on leaving.
  | enter href hf _ ih =>
    exact hI.leave hr (ih (fun s hs => hchanged s (hs.of_makes (.enter href hf))) (hI.hold hr _))
  | define => exact hI.update hr (hchanged _ ⟨_, .refl, rfl⟩) _
  | undefine => exact hI.update hr (hchanged _ ⟨_, .refl, rfl⟩) _
  | _ => exact hr

/-- What all changes keep holds when a call inside is made, whether or not that call ends. -/
theorem Call.Inside.preserves {I : Rules S → Prop} {changed : Slot → Prop}
    (hI : Rules.Keeps I changed) {c c' : Call S P ω} (h : c.Inside host c')
    (hchanged : ∀ s, c.Changes host s → changed s) (hr : I c.state.rules) : I c'.state.rules := by
  -- By induction from the outside, so that the state is followed in the
  -- order in which calls are made.
  induction h using Relation.ReflTransGen.head_induction_on with
  | refl => exact hr
  | head h _ ih =>
    refine ih (fun s hs => hchanged s (hs.of_makes h)) ?_
    cases h with
    | flatMapNext h => exact h.preserves hI (fun s hs => hchanged s (hs.of_makes .flatMap)) hr
    | seqNext h => exact h.preserves hI (fun s hs => hchanged s (hs.of_makes .seq)) hr
    | choiceElse h => exact h.preserves hI (fun s hs => hchanged s (hs.of_makes .choice)) hr
    | manyMore h _ => exact h.preserves hI (fun s hs => hchanged s (hs.of_makes .many)) hr
    | many1More h => exact h.preserves hI (fun s hs => hchanged s (hs.of_makes .many1)) hr
    | enter => exact hI.hold hr _
    | _ => exact hr

/-- What all changes keep holds in every state that a run goes through. -/
theorem Call.Visits.preserves {I : Rules S → Prop} (hI : Rules.Keeps I fun _ => True)
    {c : Call S P ω} {x : State S P ω} (h : c.Visits host x) (hr : I c.state.rules) :
    I x.rules := by
  cases h with
  | start h => exact h.preserves hI (fun _ _ => trivial) hr
  | stop h he => exact he.preserves hI (fun _ _ => trivial) (h.preserves hI (fun _ _ => trivial) hr)

end

/-! ### What is gone in a run -/

section

variable [Cursor P] {host : Host S P ω} {m : Matcher S α} {st st' st₁ : State S P ω} {p : P}
  {o : Outcome P α} {c c' : Call S P ω} {s : Slot}

/-- **Changes of definitions are counted**, and without one a run leaves the rules as they were. -/
theorem Evaluates.edits_eq (h : Evaluates host m st p o st') :
    st.rules.edits ≤ st'.rules.edits ∧
      (st'.rules.edits = st.rules.edits → st'.rules = st.rules) := by
  induction h with
  | map _ ih | flatMapFail _ ih | seqFail _ ih | choice _ ih | manyStuck _ _ ih | manyFail _ ih
  | many1Fail _ ih | optional _ ih | optionalNone _ ih | notFail _ ih | not _ ih | guard _ ih
  | guardFail _ ih | capture _ ih | captureFail _ ih | shared _ ih => exact ih
  | flatMap _ _ iha ihb | seq _ _ iha ihb | choiceElse _ _ iha ihb | manyMore _ _ _ iha ihb
  | many1 _ _ iha ihb =>
    -- The count only grows, so if it is the same at the end it was the same in between.
    refine ⟨iha.1.trans ihb.1, fun heq => ?_⟩
    have hle := iha.1
    have hle' := ihb.1
    rw [ihb.2 (by omega), iha.2 (by omega)]
  | enter _ _ _ ih =>
    refine ⟨ih.1.trans_eq (Rules.edits_leave ..).symm, fun heq => Rules.leave_of_edits_eq ?_⟩
    exact (Rules.edits_leave ..).symm.trans heq
  | define | undefine =>
    refine ⟨(Nat.le_succ _).trans_eq (Rules.edits_update ..).symm, fun heq => ?_⟩
    exact absurd ((Rules.edits_update ..).symm.trans heq) (Nat.succ_ne_self _)
  | _ => exact ⟨Nat.le_refl _, fun _ => rfl⟩

/-- What is gone at the end of a definition is gone behind the reference. -/
theorem Evaluates.gone_leave {frame : List Slot} (h : Evaluates host m (st.enter frame) p o st₁)
    (hs : st₁.rules.Gone s) : (st₁.leave st).rules.Gone s := by
  show (st₁.rules.leave st.rules).Gone s
  by_cases heq : st₁.rules.edits = st.rules.edits
  · rw [Rules.leave_of_edits_eq heq]
    rwa [h.edits_eq.2 heq] at hs
  · rw [Rules.leave, if_neg heq]
    exact (Rules.keeps_gone s).collect hs

/-- What is gone at the beginning of a run is gone at its end. -/
theorem Evaluates.gone (h : Evaluates host m st p o st') (hs : st.rules.Gone s) :
    st'.rules.Gone s :=
  h.preserves (Rules.keeps_gone s) (fun _ _ => trivial) hs

open Matcher (exists_run_of_evaluates evaluates_of_run) in
/-- A call that a call makes has ended by the time the other one does, and
    what was gone by then stays so. -/
theorem Call.Makes.exists_end (h : c.Makes host c') {o : Outcome P c.α}
    (he : Evaluates host c.matcher c.state c.cursor o st') :
    ∃ o' st₁, Evaluates host c'.matcher c'.state c'.cursor o' st₁ ∧
      ∀ s, st₁.rules.Gone s → st'.rules.Gone s := by
  -- The run says what has become of each part; a part that is still to be run behind
  -- the call takes nothing back.
  obtain ⟨n, hn⟩ := exists_run_of_evaluates he
  cases h with
  | map =>
    rw [Matcher.run_map, Run.map_eq_some_iff] at hn
    obtain ⟨o', hm, -⟩ := hn
    exact ⟨_, _, evaluates_of_run hm, fun _ hs => hs⟩
  | flatMap =>
    rw [Matcher.run_flatMap, Run.flatMap_eq_some_iff] at hn
    obtain ⟨v, q, st₁, hm, hnext⟩ | ⟨q, hm, -⟩ := hn
    · exact ⟨_, _, evaluates_of_run hm, fun _ hs => (evaluates_of_run hnext).gone hs⟩
    · exact ⟨_, _, evaluates_of_run hm, fun _ hs => hs⟩
  -- A call made behind a first part has that part behind it: the run had no other.
  | flatMapNext h =>
    rw [Matcher.run_flatMap, Run.flatMap_eq_some_iff] at hn
    obtain ⟨v, q, st₁, hm, hnext⟩ | ⟨q, hm, -⟩ := hn
    · obtain ⟨⟨⟩, rfl⟩ := (evaluates_of_run hm).unique h
      exact ⟨_, _, evaluates_of_run hnext, fun _ hs => hs⟩
    · cases ((evaluates_of_run hm).unique h).1
  | seq =>
    rw [Matcher.run_seq, Run.seq_eq_some_iff] at hn
    obtain ⟨v, q, st₁, o', ha, hb, -⟩ | ⟨q, ha, -⟩ := hn
    · exact ⟨_, _, evaluates_of_run ha, fun _ hs => (evaluates_of_run hb).gone hs⟩
    · exact ⟨_, _, evaluates_of_run ha, fun _ hs => hs⟩
  | seqNext h =>
    rw [Matcher.run_seq, Run.seq_eq_some_iff] at hn
    obtain ⟨v, q, st₁, o', ha, hb, -⟩ | ⟨q, ha, -⟩ := hn
    · obtain ⟨⟨⟩, rfl⟩ := (evaluates_of_run ha).unique h
      exact ⟨_, _, evaluates_of_run hb, fun _ hs => hs⟩
    · cases ((evaluates_of_run ha).unique h).1
  | choice =>
    rw [Matcher.run_choice, Run.choice_eq_some_iff] at hn
    obtain ⟨v, q, ha, -⟩ | ⟨q, st₁, o', ha, hb, -⟩ := hn
    · exact ⟨_, _, evaluates_of_run ha, fun _ hs => hs⟩
    · exact ⟨_, _, evaluates_of_run ha, fun _ hs => (evaluates_of_run hb).gone hs⟩
  | choiceElse h =>
    rw [Matcher.run_choice, Run.choice_eq_some_iff] at hn
    obtain ⟨v, q, ha, -⟩ | ⟨q, st₁, o', ha, hb, -⟩ := hn
    · cases ((evaluates_of_run ha).unique h).1
    · obtain ⟨-, rfl⟩ := (evaluates_of_run ha).unique h
      exact ⟨_, _, evaluates_of_run hb, fun _ hs => hs⟩
  | many =>
    obtain ⟨vs, q, rfl⟩ := he.many_isSuccess
    obtain ⟨v, ws, r, st₁, -, hm, -, hrest⟩ | ⟨-, -, o', hm, -⟩ := he.many_success
    · exact ⟨_, _, hm, fun _ hs => hrest.gone hs⟩
    · exact ⟨_, _, hm, fun _ hs => hs⟩
  | manyMore h hp =>
    obtain ⟨vs, q, rfl⟩ := he.many_isSuccess
    obtain ⟨v, ws, r, st₁, -, hm, -, hrest⟩ | ⟨-, -, o', hm, hstuck⟩ := he.many_success
    · obtain ⟨⟨⟩, rfl⟩ := hm.unique h
      exact ⟨_, _, hrest, fun _ hs => hs⟩
    · have hnot := hstuck _ _ (hm.unique h).1
      exact absurd hp (by simp [hnot])
  | many1 =>
    rw [Matcher.run_many1, Run.many1_eq_some_iff] at hn
    obtain ⟨v, r, st₁, vs, q, hm, hc, -⟩ | ⟨q, hm, -⟩ := hn
    · have hrest := Matcher.evaluates_of_chain (fun h => evaluates_of_run h) hc
      exact ⟨_, _, evaluates_of_run hm, fun _ hs => hrest.gone hs⟩
    · exact ⟨_, _, evaluates_of_run hm, fun _ hs => hs⟩
  | many1More h =>
    rw [Matcher.run_many1, Run.many1_eq_some_iff] at hn
    obtain ⟨v, r, st₁, vs, q, hm, hc, -⟩ | ⟨q, hm, -⟩ := hn
    · obtain ⟨⟨⟩, rfl⟩ := (evaluates_of_run hm).unique h
      exact ⟨_, _, Matcher.evaluates_of_chain (fun h => evaluates_of_run h) hc, fun _ hs => hs⟩
    · cases ((evaluates_of_run hm).unique h).1
  | optional =>
    rw [Matcher.run_optional, Run.optional_eq_some_iff] at hn
    obtain ⟨v, q, hm, -⟩ | ⟨q, hm, -⟩ := hn
    all_goals exact ⟨_, _, evaluates_of_run hm, fun _ hs => hs⟩
  | not =>
    rw [Matcher.run_not, Run.not_eq_some_iff] at hn
    obtain ⟨v, q, hm, -⟩ | ⟨q, hm, -⟩ := hn
    all_goals exact ⟨_, _, evaluates_of_run hm, fun _ hs => hs⟩
  | guard =>
    rw [Matcher.run_guard, Run.guard_eq_some_iff] at hn
    obtain ⟨v, q, hm, -⟩ | ⟨q, hm, -⟩ := hn
    all_goals exact ⟨_, _, evaluates_of_run hm, fun _ hs => hs⟩
  | capture =>
    rw [Matcher.run_capture, Run.capture_eq_some_iff] at hn
    obtain ⟨v, q, st₁, hm, -, rfl⟩ | ⟨q, hm, -⟩ := hn
    all_goals exact ⟨_, _, evaluates_of_run hm, fun _ hs => hs⟩
  | shared =>
    rw [Matcher.run_shared] at hn
    exact ⟨_, _, evaluates_of_run hn, fun _ hs => hs⟩
  -- Leaving the definition frees rules and brings none back.
  | enter href hf =>
    have hn := Matcher.run_mono (Nat.le_succ n) hn
    rw [Matcher.run_of_refers n href, Run.nested_eq_some_iff] at hn
    obtain ⟨hfull, -⟩ | ⟨-, st₁, hm, rfl⟩ := hn
    · exact absurd hfull (by simp [hf])
    · exact ⟨_, _, evaluates_of_run hm, fun _ hs => (evaluates_of_run hm).gone_leave hs⟩

/-- If a call ends, every call inside it has ended, and nothing that was gone then has come back. -/
theorem Call.Inside.exists_end (h : c.Inside host c') {o : Outcome P c.α}
    (he : Evaluates host c.matcher c.state c.cursor o st') :
    ∃ o' st₁, Evaluates host c'.matcher c'.state c'.cursor o' st₁ ∧
      ∀ s, st₁.rules.Gone s → st'.rules.Gone s := by
  induction h using Relation.ReflTransGen.head_induction_on generalizing st' with
  | refl => exact ⟨_, _, he, fun _ hs => hs⟩
  | head h _ ih =>
    obtain ⟨o₁, st₁, he₁, hgone₁⟩ := h.exists_end he
    obtain ⟨o₂, st₂, he₂, hgone₂⟩ := ih he₁
    exact ⟨o₂, st₂, he₂, fun s hs => hgone₁ s (hgone₂ s hs)⟩

/-- **What is gone at any time in a run is gone at its end.** -/
theorem Call.Visits.gone_end {x : State S P ω} (h : c.Visits host x) (hs : x.rules.Gone s)
    {o : Outcome P c.α} (he : Evaluates host c.matcher c.state c.cursor o st') :
    st'.rules.Gone s := by
  cases h with
  | start h =>
    obtain ⟨o', st₁, he₁, hgone⟩ := h.exists_end he
    exact hgone s (he₁.gone hs)
  -- The state is one in which the call ended, and there is no other such state.
  | stop h hx =>
    obtain ⟨o', st₁, he₁, hgone⟩ := h.exists_end he
    obtain ⟨-, rfl⟩ := he₁.unique hx
    exact hgone s hs

end

end TextMatch
