import TextMatch.Proofs.Cursor.Place

namespace TextMatch

/-!
# Guarded references

A grammar in which every reference comes behind a character of its own uses up text on its way
down, so the length of the text bounds its steps, limit or no limit.  The characters may be of any
kind, and then those of the kind bound how deep the references go.

* `Matcher.Consumes` — a success has taken a character of a kind;
* `Matcher.Guarded` — no reference is entered before such a character is taken;
* `Matcher.Affords` — a bound is enough for a matcher and a number of characters;
* `exists_run_of_affords` — over guarded definitions such a bound gives a result.

Both properties of matchers are read off the tree, and a matcher may have them without that.
-/

variable {S : Signature} {ω α β : Type} {kind : Char → Bool}

/-! ### Matchers that take characters -/

namespace Matcher

/-- Every success takes a character of the kind. -/
def Consumes (kind : Char → Bool) : {α : Type} → Matcher S α → Prop
  | _, .satisfy accepts => ∀ c, accepts c = true → kind c = true
  | _, .map _ m => m.Consumes kind
  | _, .flatMap m _ next => m.Consumes kind ∨ ∀ v, (next v).Consumes kind
  | _, .seq a b => a.Consumes kind ∨ b.Consumes kind
  | _, .choice a b => a.Consumes kind ∧ b.Consumes kind
  | _, .many1 m => m.Consumes kind
  | _, .capture _ m => m.Consumes kind
  | _, .shared _ m => m.Consumes kind
  | _, .fail => True
  | _, .literal _ | _, .atStart | _, .atEnd | _, .behind _ | _, .succeed _ | _, .backref _
  | _, .many _ | _, .optional _ | _, .not _ | _, .guard _ | _, .defer _ | _, .rule _ | _, .weak _
  | _, .define _ _ | _, .undefine _ | _, .hook _ => False

end Matcher

/-- A character that is taken is no longer ahead. -/
theorem Run.countP_ahead_satisfyAt {accepts : Char → Bool} {p : Place}
    (hkind : ∀ c, accepts c = true → kind c = true) (h : (satisfyAt accepts p).isSuccess = true) :
    (satisfyAt accepts p).next.ahead.countP kind < p.ahead.countP kind := by
  unfold satisfyAt at h ⊢
  rw [Place.cursor_current] at h ⊢
  cases hp : p.ahead with
  | nil => rw [hp] at h; cases h
  | cons c cs =>
    rw [hp] at h
    cases hc : accepts c with
    | false => simp [hc, Outcome.isSuccess] at h
    | true =>
      simp only [List.head?_cons, hc, if_true, Outcome.next, Place.cursor_advance,
        Place.ahead_advance, hp, List.tail_cons, List.countP_cons_of_pos (hkind c hc)]
      omega

/-- **Consumption.** A matcher that takes characters of a kind leaves
    fewer of them than it finds. -/
theorem Evaluates.countP_ahead_lt [IsEmpty S.Hook] {host : Host S Place ω} {m : Matcher S α}
    {st st' : State S Place ω} {p : Place} {o : Outcome Place α} (hm : m.Consumes kind)
    (h : Evaluates host m st p o st') (ho : o.isSuccess = true) :
    o.next.ahead.countP kind < p.ahead.countP kind := by
  induction h with
  | satisfy => exact Run.countP_ahead_satisfyAt hm ho
  | map _ ih =>
    rw [Outcome.isSuccess_map] at ho
    rw [Outcome.next_map]
    exact ih hm ho
  | flatMap h hn ih ih' =>
    rcases hm with hm | hnext
    · exact Nat.lt_of_le_of_lt (Place.countP_ahead_le hn.ahead) (ih hm rfl)
    · exact Nat.lt_of_lt_of_le (ih' (hnext _) ho) (Place.countP_ahead_le h.ahead)
  | seq ha hb iha ihb =>
    rw [Outcome.isSuccess_map] at ho
    rw [Outcome.next_map]
    rcases hm with hm | hm
    · exact Nat.lt_of_le_of_lt (Place.countP_ahead_le hb.ahead) (iha hm rfl)
    · exact Nat.lt_of_lt_of_le (ihb hm ho) (Place.countP_ahead_le ha.ahead)
  | choice _ ih => exact ih hm.1 ho
  | @choiceElse _ a b st p q st₁ o st' _ _ _ ih' =>
    cases o with
    | success v r => exact ih' hm.2 rfl
    | failure r =>
      rw [Outcome.orElse_failure_failure] at ho
      split at ho <;> cases ho
  | many1 h hrest ih =>
    exact Nat.lt_of_le_of_lt (Place.countP_ahead_le hrest.ahead) (ih hm rfl)
  | capture _ ih | shared _ ih => exact ih hm ho
  | enter href => cases href <;> exact hm.elim
  | flatMapFail | seqFail | many1Fail | captureFail | fail | refuse => cases ho
  | _ => exact hm.elim

/-- A matcher that takes a character first leaves less text than it finds. -/
theorem Evaluates.length_ahead_lt [IsEmpty S.Hook] {host : Host S Place ω} {m : Matcher S α}
    {st st' : State S Place ω} {p : Place} {o : Outcome Place α} (hm : m.Consumes kind)
    (h : Evaluates host m st p o st') (ho : o.isSuccess = true) :
    o.next.ahead.length < p.ahead.length :=
  Place.length_ahead_lt_of_countP_lt h.ahead (h.countP_ahead_lt hm ho)

/-! ### Matchers that take characters first -/

namespace Matcher

/-- A character of the kind is taken before a reference is entered. -/
def Guarded (kind : Char → Bool) : {α : Type} → Matcher S α → Prop
  | _, .map _ m => m.Guarded kind
  | _, .flatMap m _ next => m.Guarded kind ∧ (m.Consumes kind ∨ ∀ v, (next v).Guarded kind)
  | _, .seq a b => a.Guarded kind ∧ (a.Consumes kind ∨ b.Guarded kind)
  | _, .choice a b => a.Guarded kind ∧ b.Guarded kind
  | _, .many m => m.Guarded kind
  | _, .many1 m => m.Guarded kind
  | _, .optional m => m.Guarded kind
  | _, .not m => m.Guarded kind
  | _, .guard m => m.Guarded kind
  | _, .capture _ m => m.Guarded kind
  | _, .shared _ m => m.Guarded kind
  | _, .defer _ | _, .rule _ | _, .weak _ => False
  | _, .satisfy _ | _, .literal _ | _, .atStart | _, .atEnd | _, .behind _ | _, .succeed _
  | _, .fail | _, .backref _ | _, .define _ _ | _, .undefine _ | _, .hook _ => True

/-- A bound of `n` is enough for a text of `length` characters: a matcher that is not guarded may
    enter a definition right away, and that takes a step. -/
def Affords (kind : Char → Bool) (m : Matcher S α) (n length : Nat) : Prop :=
  m.Guarded kind ∧ length < n ∨ length + 1 < n

end Matcher

namespace Matcher.Affords

variable {n length length' : Nat}

/-- A shorter text needs no more. -/
theorem mono {m : Matcher S α} (h : m.Affords kind n length) (hle : length' ≤ length) :
    m.Affords kind n length' := by
  rcases h with ⟨hg, hlt⟩ | hlt
  · exact .inl ⟨hg, by omega⟩
  · exact .inr (by omega)

/-- The bound that is enough for a matcher is enough for a part of it that runs first. -/
theorem part {m : Matcher S α} {part : Matcher S β} (h : m.Affords kind n length)
    (hpart : m.Guarded kind → part.Guarded kind) : part.Affords kind n length := by
  rcases h with ⟨hg, hlt⟩ | hlt
  · exact .inl ⟨hpart hg, hlt⟩
  · exact .inr hlt

/-- The bound is enough for a part that runs later, if that is guarded or finds less text. -/
theorem later {m : Matcher S α} {part : Matcher S β} (h : m.Affords kind n length)
    (hle : length' ≤ length) (hpart : m.Guarded kind → length' < length ∨ part.Guarded kind) :
    part.Affords kind n length' := by
  rcases h with ⟨hg, hlt⟩ | hlt
  · rcases hpart hg with hless | hguarded
    · exact .inr (by omega)
    · exact .inl ⟨hguarded, by omega⟩
  · exact .inr (by omega)

end Matcher.Affords

/-! ### Enough steps -/

section

variable [IsEmpty S.Hook] {host : Host S Place ω}

open Matcher (evaluates_of_run)

/-- A repetition has enough steps if its matcher has and the bound passes the number of characters
    left: every round but the last takes one. -/
theorem exists_chain_of_length_lt {m : Matcher S α} {n length : Nat}
    (hm : ∀ (st : State S Place ω) {p : Place}, p.ahead.length ≤ length →
      ∃ o st', m.run host n st p = some (o, st'))
    {k : Nat} (st : State S Place ω) {p : Place} (hp : p.ahead.length ≤ length)
    (hk : p.ahead.length < k) :
    ∃ vs q st', Run.chain (m.run host n) k st p = some (vs, q, st') := by
  induction k generalizing st p with
  | zero => exact absurd hk (Nat.not_lt_zero _)
  | succ k ih =>
    obtain ⟨o, st₁, ho⟩ := hm st hp
    cases o with
    | failure r => exact ⟨_, _, _, Run.chain_succ_eq_some_iff.2 (.inr (.inr ⟨r, ho, rfl, rfl⟩))⟩
    | success v r =>
      cases hb : Cursor.isBefore p r with
      | false =>
        exact ⟨_, _, _, Run.chain_succ_eq_some_iff.2 (.inr (.inl ⟨v, r, ho, hb, rfl, rfl⟩))⟩
      | true =>
        have hlt : r.ahead.length < p.ahead.length :=
          Place.length_ahead_lt_of_isBefore (evaluates_of_run ho).ahead hb
        obtain ⟨vs, q, st₂, hrest⟩ := ih st₁ (Nat.le_trans (Nat.le_of_lt hlt) hp)
          (by omega)
        exact ⟨_, _, _, Run.chain_succ_eq_some_iff.2 (.inl ⟨v, r, st₁, vs, ho, hb, hrest, rfl⟩)⟩

/-- **Guarded references need no more steps than there are characters.** Over quiet and guarded
    definitions a run has a result within every bound that the matcher can afford. -/
theorem exists_run_of_affords (hquiet : ∀ name, (host.definition name).Quiet)
    (hguarded : ∀ name, (host.definition name).Guarded kind) {m : Matcher S α} (hm : m.Quiet)
    {n : Nat} (st : State S Place ω) {p : Place} (h : m.Affords kind n p.ahead.length) :
    ∃ o st', m.run host n st p = some (o, st') := by
  -- Outside on the bound, which a reference lowers by one; inside on the matcher.
  induction n generalizing α st p with
  | zero => rcases h with ⟨_, hlt⟩ | hlt <;> exact absurd hlt (Nat.not_lt_zero _)
  | succ n ihn =>
  induction m generalizing st p with
  | satisfy accepts => exact ⟨_, _, rfl⟩
  | literal text => exact ⟨_, _, rfl⟩
  | atStart => exact ⟨_, _, rfl⟩
  | atEnd => exact ⟨_, _, rfl⟩
  | behind accepts => exact ⟨_, _, rfl⟩
  | succeed value => exact ⟨_, _, rfl⟩
  | fail => exact ⟨_, _, rfl⟩
  | backref name =>
    cases ht : st.context.captures.text? name with
    | none =>
      have hrun : Run.backref name st p = some (.failure p, st) := by rw [Run.backref, ht]
      exact ⟨_, _, hrun⟩
    | some text =>
      have hrun : Run.backref name st p = some (Run.literalAt text p, st) := by
        rw [Run.backref, ht]
      exact ⟨_, _, hrun⟩
  | map f m ih =>
    obtain ⟨o, st', ho⟩ := ih hm st (h.part id)
    exact ⟨_, _, by rw [Matcher.run_map]; exact Run.map_eq_some_iff.2 ⟨o, ho, rfl⟩⟩
  | flatMap m holds next ih ihnext =>
    rw [Matcher.run_flatMap]
    obtain ⟨o, st₁, ho⟩ := ih hm.1 st (h.part And.left)
    cases o with
    | failure q => exact ⟨_, _, Run.flatMap_eq_some_iff.2 (.inr ⟨q, ho, rfl⟩)⟩
    | success v q =>
      -- What follows is guarded, or it begins behind a character that was taken.
      have he := evaluates_of_run ho
      have hnext : (next v).Affords kind (n + 1) q.ahead.length :=
        h.later (Place.length_ahead_le he.ahead) fun hg =>
          hg.2.imp (fun hc => he.length_ahead_lt hc rfl) fun hn => hn v
      obtain ⟨o', st', ho'⟩ := ihnext v (hm.2 v) st₁ hnext
      exact ⟨_, _, Run.flatMap_eq_some_iff.2 (.inl ⟨v, q, st₁, ho, ho'⟩)⟩
  | seq a b iha ihb =>
    rw [Matcher.run_seq]
    obtain ⟨o, st₁, ho⟩ := iha hm.1 st (h.part And.left)
    cases o with
    | failure q => exact ⟨_, _, Run.seq_eq_some_iff.2 (.inr ⟨q, ho, rfl⟩)⟩
    | success v q =>
      have he := evaluates_of_run ho
      have hb : b.Affords kind (n + 1) q.ahead.length :=
        h.later (Place.length_ahead_le he.ahead) fun hg =>
          hg.2.imp_left fun hc => he.length_ahead_lt hc rfl
      obtain ⟨o', st', ho'⟩ := ihb hm.2 st₁ hb
      exact ⟨_, _, Run.seq_eq_some_iff.2 (.inl ⟨v, q, st₁, o', ho, ho', rfl⟩)⟩
  | choice a b iha ihb =>
    rw [Matcher.run_choice]
    obtain ⟨o, st₁, ho⟩ := iha hm.1 st (h.part And.left)
    cases o with
    | success v q => exact ⟨_, _, Run.choice_eq_some_iff.2 (.inl ⟨v, q, ho, rfl⟩)⟩
    | failure q =>
      obtain ⟨o', st', ho'⟩ := ihb hm.2 st₁ (h.part And.right)
      exact ⟨_, _, Run.choice_eq_some_iff.2 (.inr ⟨q, st₁, o', ho, ho', rfl⟩)⟩
  | many m ih =>
    rw [Matcher.run_many]
    have hpart : m.Affords kind (n + 1) p.ahead.length := h.part id
    have hlt : p.ahead.length < n + 1 := by rcases h with ⟨_, hlt⟩ | hlt <;> omega
    obtain ⟨vs, q, st', hc⟩ := exists_chain_of_length_lt
      (fun st _ hle => ih hm st (hpart.mono hle)) st (Nat.le_refl _) hlt
    exact ⟨_, _, Run.many_eq_some_iff.2 ⟨vs, q, hc, rfl⟩⟩
  | many1 m ih =>
    rw [Matcher.run_many1]
    have hpart : m.Affords kind (n + 1) p.ahead.length := h.part id
    have hlt : p.ahead.length < n + 1 := by rcases h with ⟨_, hlt⟩ | hlt <;> omega
    obtain ⟨o, st₁, ho⟩ := ih hm st hpart
    cases o with
    | failure q => exact ⟨_, _, Run.many1_eq_some_iff.2 (.inr ⟨q, ho, rfl⟩)⟩
    | success v r =>
      have hle : r.ahead.length ≤ p.ahead.length :=
        Place.length_ahead_le (evaluates_of_run ho).ahead
      obtain ⟨vs, q, st', hc⟩ := exists_chain_of_length_lt
        (fun st _ hle => ih hm st (hpart.mono hle)) st₁ hle (Nat.lt_of_le_of_lt hle hlt)
      exact ⟨_, _, Run.many1_eq_some_iff.2 (.inl ⟨v, r, st₁, vs, q, ho, hc, rfl⟩)⟩
  | optional m ih =>
    rw [Matcher.run_optional]
    obtain ⟨o, st', ho⟩ := ih hm st (h.part id)
    cases o with
    | success v q => exact ⟨_, _, Run.optional_eq_some_iff.2 (.inl ⟨v, q, ho, rfl⟩)⟩
    | failure q => exact ⟨_, _, Run.optional_eq_some_iff.2 (.inr ⟨q, ho, rfl⟩)⟩
  | not m ih =>
    rw [Matcher.run_not]
    obtain ⟨o, st', ho⟩ := ih hm st (h.part id)
    cases o with
    | success v q => exact ⟨_, _, Run.not_eq_some_iff.2 (.inl ⟨v, q, ho, rfl⟩)⟩
    | failure q => exact ⟨_, _, Run.not_eq_some_iff.2 (.inr ⟨q, ho, rfl⟩)⟩
  | guard m ih =>
    rw [Matcher.run_guard]
    obtain ⟨o, st', ho⟩ := ih hm st (h.part id)
    cases o with
    | success v q => exact ⟨_, _, Run.guard_eq_some_iff.2 (.inl ⟨v, q, ho, rfl⟩)⟩
    | failure q => exact ⟨_, _, Run.guard_eq_some_iff.2 (.inr ⟨q, ho, rfl⟩)⟩
  | shared holds m ih =>
    obtain ⟨o, st', ho⟩ := ih hm st (h.part id)
    exact ⟨o, st', by rw [Matcher.run_shared]; exact ho⟩
  | defer name =>
    rw [Matcher.run_of_refers n .defer]
    have hlt : p.ahead.length < n := by
      rcases h with ⟨hg, _⟩ | hlt
      · exact hg.elim
      · omega
    cases hf : st.context.isFull with
    | true => exact ⟨_, _, Run.nested_eq_some_iff.2 (.inl ⟨hf, rfl, rfl⟩)⟩
    | false =>
      -- The definition is guarded, so the step it costs is made up for.
      obtain ⟨o, st', ho⟩ := ihn (hquiet name)
        (st.enter (host.definition name).owned) (.inl ⟨hguarded name, hlt⟩)
      exact ⟨_, _, Run.nested_eq_some_iff.2 (.inr ⟨hf, st', ho, rfl⟩)⟩
  | capture | rule | weak | define | undefine | hook => exact hm.elim

end

end TextMatch
