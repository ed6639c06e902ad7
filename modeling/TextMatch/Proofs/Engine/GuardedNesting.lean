import TextMatch.Proofs.Engine.Guarded
import TextMatch.Proofs.Engine.Nesting

namespace TextMatch

/-!
# How deep guarded references go

Where every reference comes behind a character of a kind, each level of nesting has used up such a
character, and no two levels the same one.  So the levels and the characters of the kind that are
still ahead never come to more than at the beginning, at any call inside a run.

* `Call.load` — the levels and the characters of the kind ahead, taken together;
* `Call.Makes.affords` — a bound on them is kept from one call to the next;
* `Call.Visits.depth_le_of_guarded` — so the text bounds the nesting, with or without a limit.
-/

variable {S : Signature} {ω α : Type} {kind : Char → Bool}

namespace Call

/-- The depth of a call and the number of characters of the kind ahead of it. -/
def load (kind : Char → Bool) (c : Call S Place ω) : Nat :=
  c.state.context.depth + c.cursor.ahead.countP kind

section

variable [IsEmpty S.Hook] {host : Host S Place ω} {c c' : Call S Place ω} {n : Nat}

/-- Behind a part that has ended there are no more levels and no more characters than before. -/
theorem load_le_of_evaluates {m : Matcher S α} {st st' : State S Place ω} {p : Place}
    {o : Outcome Place α} (h : Evaluates host m st p o st') :
    st'.context.depth + o.next.ahead.countP kind ≤ st.context.depth + p.ahead.countP kind := by
  rw [h.nesting_eq.1]
  exact Nat.add_le_add_left (Place.countP_ahead_le h.ahead) _

/-- Behind a part that takes a character of the kind there are fewer. -/
theorem load_lt_of_consumes {m : Matcher S α} {st st' : State S Place ω} {p q : Place} {v : α}
    (hm : m.Consumes kind) (h : Evaluates host m st p (.success v q) st') :
    st'.context.depth + q.ahead.countP kind < st.context.depth + p.ahead.countP kind := by
  rw [h.nesting_eq.1]
  exact Nat.add_lt_add_left (h.countP_ahead_lt hm rfl) _

/-- **One call.** What a bound affords before a call is made it affords after it. -/
theorem Makes.affords (hquiet : ∀ name, (host.definition name).Quiet)
    (hguarded : ∀ name, (host.definition name).Guarded kind) (h : c.Makes host c')
    (hc : c.matcher.Quiet ∧ c.matcher.Affords kind n (c.load kind)) :
    c'.matcher.Quiet ∧ c'.matcher.Affords kind n (c'.load kind) := by
  obtain ⟨hq, ha⟩ := hc
  cases h with
  | map | many | many1 | optional | not | guard | shared => exact ⟨hq, ha.part id⟩
  | flatMap | seq | choice => exact ⟨hq.1, ha.part And.left⟩
  | flatMapNext h =>
    -- What follows is guarded, or it begins behind a character of the kind.
    exact ⟨hq.2 _, ha.later (load_le_of_evaluates h) fun hg =>
      hg.2.imp (load_lt_of_consumes · h) fun hn => hn _⟩
  | seqNext h =>
    exact ⟨hq.2, ha.later (load_le_of_evaluates h) fun hg =>
      hg.2.imp_left (load_lt_of_consumes · h)⟩
  | choiceElse h =>
    -- The second alternative begins where the first one did.
    exact ⟨hq.2, (ha.part And.right).mono (Nat.add_le_add_right (Nat.le_of_eq h.nesting_eq.1) _)⟩
  | manyMore h _ => exact ⟨hq, ha.mono (load_le_of_evaluates h)⟩
  | many1More h => exact ⟨hq, (ha.mono (load_le_of_evaluates h)).part id⟩
  | capture => exact hq.elim
  | @enter _ _ _ _ st p href _ =>
    cases href with
    | defer =>
      -- One level more, which is what a matcher that is not guarded affords.
      rcases ha with ⟨hg, -⟩ | hlt
      · exact hg.elim
      · refine ⟨hquiet _, .inl ⟨hguarded _, ?_⟩⟩
        show st.context.depth + 1 + p.ahead.countP kind < n
        rwa [Nat.add_right_comm]
    | rule | weak => exact hq.elim

/-- What a call can afford, all calls inside it can. -/
theorem Inside.affords (hquiet : ∀ name, (host.definition name).Quiet)
    (hguarded : ∀ name, (host.definition name).Guarded kind) (h : c.Inside host c')
    (hc : c.matcher.Quiet ∧ c.matcher.Affords kind n (c.load kind)) :
    c'.matcher.Quiet ∧ c'.matcher.Affords kind n (c'.load kind) := by
  induction h with
  | refl => exact hc
  | tail _ h ih => exact h.affords hquiet hguarded ih

/-- **The text bounds the nesting.** Over quiet and guarded definitions a guarded matcher goes
    through states that are nested no deeper than there are characters of the kind ahead. -/
theorem Visits.depth_le_of_guarded (hquiet : ∀ name, (host.definition name).Quiet)
    (hguarded : ∀ name, (host.definition name).Guarded kind) (hq : c.matcher.Quiet)
    (hg : c.matcher.Guarded kind) {x : State S Place ω} (h : c.Visits host x) :
    x.context.depth ≤ c.load kind := by
  obtain ⟨c', hinside, hdepth⟩ := h.exists_inside
  have hload := (hinside.affords hquiet hguarded ⟨hq, .inl ⟨hg, Nat.lt_succ_self _⟩⟩).2
  have hle : c'.state.context.depth ≤ c'.load kind := Nat.le_add_right ..
  rw [hdepth]
  rcases hload with ⟨-, hlt⟩ | hlt <;> omega

end

end Call

end TextMatch
