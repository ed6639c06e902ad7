import TextMatch.Proofs.Engine.RuleHistory
import TextMatch.Proofs.Session.Building

namespace TextMatch.Session

/-!
# Lifetimes in sessions

A session has references to rules under names, and matchers that it has stored.  Each of its steps
comes to some steps of an application that has the same, so what is known of all histories holds in
every session.

* `named_perm`, `named_insert_perm`, `named_erase_perm` — what a table has under a name, and the
  rest;
* `Mirrors` — the session has what the application has;
* `Mirrors.declare`, `dropRule`, `store`, `runMatcher`, … — one lemma for each change of a session;
* `Mirrors.perform` — every step;
* `Open.exists_mirrors`, `Open.isAlive_iff` — whole sessions, and which rules live in them.
-/

/-! ### Tables of names -/

section

universe v

variable {β : Type v} (t : Std.TreeMap String β) (name : String)

/-- What a table has, once for every name. -/
def named : List β := t.toList.map Prod.snd

/-- What a table has under other names than one. -/
def namedElse : List β := (t.toList.filter fun e => !name == e.1).map Prod.snd

/-- A table has one entry for a name. -/
theorem nodup_toList : t.toList.Nodup := by
  refine Std.TreeMap.distinct_keys_toList.imp fun h heq => ?_
  exact h (by simp [heq])

/-- What a table has, it has under some name. -/
theorem mem_named_iff {v : β} : v ∈ named t ↔ ∃ name : String, t[name]? = some v := by
  simp [named, Std.TreeMap.mem_toList_iff_getElem?_eq_some]

/-- What there is under one name may be put in front of all others, as far as counting goes. -/
theorem named_perm : (named t).Perm (t[name]?.toList ++ namedElse t name) := by
  have hkeys : ∀ e ∈ t.toList.filter fun e => !name == e.1, name ≠ e.1 := by
    intro e he
    simpa using (List.mem_filter.1 he).2
  have hnodup := (nodup_toList t).filter fun e => !name == e.1
  -- Both lists are without duplicates, so it is enough that they have the same entries.
  have hsplit : t.toList.Perm (t[name]?.toList.map (name, ·) ++
      t.toList.filter fun e => !name == e.1) := by
    refine (List.perm_ext_iff_of_nodup (nodup_toList t) ?_).2 fun e => ?_
    · cases t[name]? with
      | none => exact hnodup
      | some v => exact List.nodup_cons.2 ⟨fun h => hkeys _ h rfl, hnodup⟩
    · obtain ⟨k, v⟩ := e
      by_cases hk : name = k
      · subst hk
        simp [Std.TreeMap.mem_toList_iff_getElem?_eq_some]
      · simp [hk]
  simpa [named, namedElse, Function.comp_def] using hsplit.map Prod.snd

/-- Without one name, what is left is what stands under the others. -/
theorem named_erase_perm : (named (t.erase name)).Perm (namedElse t name) := by
  refine List.Perm.map Prod.snd ?_
  have hnodup := (nodup_toList t).filter fun e => !name == e.1
  refine (List.perm_ext_iff_of_nodup (nodup_toList _) hnodup).2 fun e => ?_
  obtain ⟨k, v⟩ := e
  rw [Std.TreeMap.mem_toList_iff_getElem?_eq_some, Std.TreeMap.getElem?_erase]
  by_cases hk : name = k <;> simp [hk, Std.TreeMap.mem_toList_iff_getElem?_eq_some]

/-- A new entry takes the place of the one under the same name. -/
theorem named_insert_perm (v : β) : (named (t.insert name v)).Perm (v :: namedElse t name) := by
  -- The library spells the condition on the other names differently.
  have hfilter : (t.toList.filter fun e => decide (¬(name == e.1) = true)) =
      t.toList.filter fun e => !name == e.1 :=
    List.filter_congr fun e _ => by by_cases he : name = e.1 <;> simp [he]
  rw [namedElse, ← hfilter]
  exact Std.TreeMap.toList_insert_perm.map Prod.snd

end

open Application (History)

variable {P : Type} [Stream P] {s s' : Session P} {a : Application (signature P)}
  {definitions : Std.TreeMap String (ValueMatcher P)} {name : String} {slot : Slot}

/-! ### What a session has -/

/-- A matcher as an application stores it. -/
def kept (m : ValueMatcher P) : Σ α : Type, Matcher (signature P) α := ⟨Value, m⟩

/-- The session has some definitions, and what the application has. -/
structure Mirrors (definitions : Std.TreeMap String (ValueMatcher P)) (s : Session P)
    (a : Application (signature P)) : Prop where
  definitions_eq : s.definitions = definitions
  rules_eq : s.state.rules = a.rules
  handles : a.handles.Perm (named s.rules)
  weaks : ∀ (name : String) slot, s.handles[name]? = some slot → slot ∈ a.weaks
  stored : a.stored.Perm ((named s.stored).map kept)
  lists : s.scope.ListsOwned (host definitions)

namespace Mirrors

/-- A name for a rule is a reference of the application. -/
theorem mem_handles (h : s.Mirrors definitions a) (hslot : s.rules[name]? = some slot) :
    slot ∈ a.handles :=
  h.handles.mem_iff.2 ((named_perm s.rules name).mem_iff.2 (by simp [hslot]))

/-- One stored matcher may be put in front of the others. -/
theorem stored_perm (h : s.Mirrors definitions a) (name : String) :
    a.stored.Perm ((s.stored[name]?.map kept).toList ++ (namedElse s.stored name).map kept) := by
  refine h.stored.trans (((named_perm s.stored name).map kept).trans (.of_eq ?_))
  cases s.stored[name]? <;> simp

/-- What names may lead to in the session is owned by the application. -/
theorem owned_subset (h : s.Mirrors definitions a) : s.scope.owned ⊆ a.outside := by
  intro slot hslot
  obtain hslot | hslot := List.mem_append.1 hslot
  · exact List.mem_append_left _ (h.handles.mem_iff.2 hslot)
  · obtain ⟨e, he, hslot⟩ := List.mem_flatMap.1 hslot
    refine List.mem_append_right _ (List.mem_flatMap.2 ⟨kept e.2, ?_, hslot⟩)
    exact h.stored.mem_iff.2 (List.mem_map_of_mem (List.mem_map_of_mem he))

/-- What is built in the session is built from references of the application. -/
theorem builtFrom (h : s.Mirrors definitions a) (hhost : OwnNothing (host definitions))
    {form : Form} {m : ValueMatcher P} (hm : form.build s.scope = .ok m) :
    m.BuiltFrom (host definitions) a.outside := by
  have hbuilt := form.builtFrom hhost h.lists hm
  exact ⟨List.Subset.trans hbuilt.owned h.owned_subset, hbuilt.lists⟩

end Mirrors

omit [Stream P] in
/-- What is let go with a name is what the matcher under it owns, or nothing. -/
theorem ownedByStored_eq (s : Session P) (name : String) :
    s.ownedByStored name = (s.stored[name]?.map kept).toList.flatMap fun m => m.2.owned := by
  unfold ownedByStored
  cases s.stored[name]? <;> simp [kept]

/-! ### Letting go -/

/-- The reference that a name stands for, if it does for one, is dropped. -/
theorem exists_drop (ha : a.Sound (host definitions)) {old : Option Slot} {rest : List Slot}
    (hperm : a.handles.Perm (old.toList ++ rest)) :
    ∃ handles, History (host definitions) a
        { a with rules := a.rules.release old.toList, handles := handles } ∧
      handles.Perm rest := by
  cases old with
  -- Nothing is dropped, and as all is settled nothing is collected.
  | none => exact ⟨a.handles, by rw [Option.toList_none, ha.settled.release_nil], hperm⟩
  | some slot =>
    have hmem : slot ∈ a.handles := hperm.mem_iff.2 (List.mem_cons_self ..)
    refine ⟨_, (Application.Step.drop hmem).history, ?_⟩
    simpa using hperm.erase slot

/-- The matcher that is stored under a name, if there is one, is discarded. -/
theorem exists_discard (ha : a.Sound (host definitions))
    {old : Option (Σ α : Type, Matcher (signature P) α)} {rest}
    (hperm : a.stored.Perm (old.toList ++ rest)) :
    ∃ stored, History (host definitions) a
        { a with rules := a.rules.release (old.toList.flatMap fun m => m.2.owned)
                 stored := stored } ∧
      stored.Perm rest := by
  cases old with
  | none =>
    refine ⟨a.stored, ?_, hperm⟩
    rw [Option.toList_none, List.flatMap_nil, ha.settled.release_nil]
  | some m =>
    obtain ⟨front, back, hstored⟩ := List.append_of_mem (hperm.mem_iff.2 (List.mem_cons_self ..))
    refine ⟨front ++ back, ?_, ?_⟩
    · rw [Option.toList_some, List.flatMap_singleton]
      exact (Application.Step.discard hstored).history
    · rw [hstored] at hperm
      exact (List.perm_middle.symm.trans hperm).cons_inv

/-! ### Rules by name -/

namespace Mirrors

/-- A rule that the session has just come to own is put under a name. -/
theorem exists_nameRule (hs : s.Mirrors definitions a) {rules : Rules (signature P)}
    (hb : Application.Sound (host definitions)
      { a with rules := rules, handles := slot :: a.handles }) (name : String) :
    ∃ b, History (host definitions) { a with rules := rules, handles := slot :: a.handles } b ∧
      ((s.editRules fun _ => rules).nameRule name slot).Mirrors definitions b := by
  -- The reference that had the name is brought to the front, from where it is dropped.
  have hbefore := ((hs.handles.trans (named_perm s.rules name)).cons slot).trans
    List.perm_middle.symm
  obtain ⟨handles, hdrop, hhandles⟩ := exists_drop hb hbefore
  refine ⟨_, hdrop, hs.definitions_eq, rfl, ?_, hs.weaks, hs.stored, hs.lists⟩
  exact hhandles.trans (named_insert_perm s.rules name slot).symm

/-- The new rule is declared first and then takes the name over, so that a rule that
    had the name is dropped last. -/
theorem declare (hhost : (host definitions).ListsOwned) (ha : a.Sound (host definitions))
    (hs : s.Mirrors definitions a) (name : String) :
    ∃ b, History (host definitions) a b ∧ (s.declare name).Mirrors definitions b := by
  have hstep : Application.Step (host definitions) a _ _ := .declare
  obtain ⟨b, hb, hmirrors⟩ := hs.exists_nameRule (hstep.sound hhost ha) name
  refine ⟨b, hstep.history.trans hb, ?_⟩
  rwa [Session.declare, hs.rules_eq]

/-- A second name is a copy of the reference, which drops what the name was for before. -/
theorem aliasRule (hhost : (host definitions).ListsOwned) (ha : a.Sound (host definitions))
    (hs : s.Mirrors definitions a) (hslot : s.rules[name]? = some slot) (second : String) :
    ∃ b, History (host definitions) a b ∧ (s.aliasRule slot second).Mirrors definitions b := by
  have hstep : Application.Step (host definitions) a _ _ := .clone (hs.mem_handles hslot)
  obtain ⟨b, hb, hmirrors⟩ := hs.exists_nameRule (hstep.sound hhost ha) second
  refine ⟨b, hstep.history.trans hb, ?_⟩
  rw [← hs.rules_eq] at hmirrors
  exact hmirrors

/-- Dropping a name is dropping a reference, if there is one. -/
theorem dropRule (ha : a.Sound (host definitions)) (hs : s.Mirrors definitions a)
    (name : String) :
    ∃ b, History (host definitions) a b ∧ (s.dropRule name).Mirrors definitions b := by
  obtain ⟨handles, hdrop, hhandles⟩ := exists_drop ha (hs.handles.trans (named_perm s.rules name))
  rw [← hs.rules_eq] at hdrop
  refine ⟨_, hdrop, hs.definitions_eq, rfl, ?_, hs.weaks, hs.stored, hs.lists⟩
  exact hhandles.trans (named_erase_perm s.rules name).symm

/-- A handle is a weak reference, made from a name. -/
theorem downgrade (hs : s.Mirrors definitions a) (hslot : s.rules[name]? = some slot)
    (handle : String) :
    ∃ b, History (host definitions) a b ∧
      Mirrors definitions { s with handles := s.handles.insert handle slot } b := by
  refine ⟨_, (Application.Step.downgrade (hs.mem_handles hslot)).history, hs.definitions_eq,
    hs.rules_eq, hs.handles, fun name' slot' h => ?_, hs.stored, hs.lists⟩
  -- The handle that has just been made, or one that was there before.
  rw [Std.TreeMap.getElem?_insert] at h
  split at h
  · cases h
    exact List.mem_cons_self ..
  · exact List.mem_cons_of_mem _ (hs.weaks name' slot' h)

/-- A definition is given through a name, and built from what names lead to. -/
theorem define (hhost : OwnNothing (host definitions)) (hs : s.Mirrors definitions a)
    (hslot : s.rules[name]? = some slot) {form : Form} {m : ValueMatcher P}
    (hm : form.build s.scope = .ok m) :
    ∃ b, History (host definitions) a b ∧
      (s.editRules (·.define slot m)).Mirrors definitions b := by
  refine ⟨_, (Application.Step.define (hs.mem_handles hslot) (hs.builtFrom hhost hm)).history,
    hs.definitions_eq, ?_, hs.handles, hs.weaks, hs.stored, hs.lists⟩
  exact congrArg (·.define slot m) hs.rules_eq

/-- A definition is taken away through a name too. -/
theorem undefine (hs : s.Mirrors definitions a) (hslot : s.rules[name]? = some slot) :
    ∃ b, History (host definitions) a b ∧
      (s.editRules (·.undefine slot)).Mirrors definitions b := by
  refine ⟨_, (Application.Step.clear (hs.mem_handles hslot)).history,
    hs.definitions_eq, ?_, hs.handles, hs.weaks, hs.stored, hs.lists⟩
  exact congrArg (·.undefine slot) hs.rules_eq

/-! ### Stored matchers and runs -/

/-- Giving a stored matcher up lets go of what it owns, if there is one under the name. -/
theorem dropStored (ha : a.Sound (host definitions)) (hs : s.Mirrors definitions a)
    (name : String) :
    ∃ b, History (host definitions) a b ∧ (s.dropStored name).Mirrors definitions b := by
  obtain ⟨stored, hdiscard, hstored⟩ := exists_discard ha (hs.stored_perm name)
  rw [← ownedByStored_eq, ← hs.rules_eq] at hdiscard
  refine ⟨_, hdiscard, hs.definitions_eq, rfl, hs.handles, hs.weaks, ?_, fun name' m hm => ?_⟩
  · exact hstored.trans ((named_erase_perm s.stored name).map kept).symm
  · have hm : (s.stored.erase name)[name']? = some m := hm
    rw [Std.TreeMap.getElem?_erase] at hm
    split at hm
    · cases hm
    · exact hs.lists name' m hm

/-- The new matcher is stored first and then the one that had the name is given up, so that rules
    that both own live on. -/
theorem store (hhost : OwnNothing (host definitions)) (hlists : (host definitions).ListsOwned)
    (ha : a.Sound (host definitions)) (hs : s.Mirrors definitions a) {form : Form}
    {m : ValueMatcher P} (hm : form.build s.scope = .ok m) (name : String) :
    ∃ b, History (host definitions) a b ∧ (s.store name m).Mirrors definitions b := by
  -- What is stored is the shared tree, which owns the same rules as the one that was built.
  have hshare := (hs.builtFrom hhost hm).share
  have hstep : Application.Step (host definitions) a _ _ := .store hshare
  obtain ⟨stored, hdiscard, hstored⟩ := exists_discard (hstep.sound hlists ha)
    (((hs.stored_perm name).cons (kept m.share)).trans List.perm_middle.symm)
  rw [← ownedByStored_eq] at hdiscard
  refine ⟨_, hstep.history.trans hdiscard, hs.definitions_eq, ?_, hs.handles, hs.weaks, ?_,
    fun name' m' hm' => ?_⟩
  · exact congrArg (fun r => (r.hold m.share.owned).release (s.ownedByStored name)) hs.rules_eq
  · exact hstored.trans ((named_insert_perm s.stored name m.share).map kept).symm
  · have hm' : (s.stored.insert name m.share)[name']? = some m' := hm'
    rw [Std.TreeMap.getElem?_insert] at hm'
    split at hm'
    · cases hm'
      exact hshare.lists
    · exact hs.lists name' m' hm'

/-- A run of a matcher whose references the session has. -/
theorem runMatcher (hs : s.Mirrors definitions a) {m : ValueMatcher P} {p : P}
    {o : Outcome P Value} (hm : m.BuiltFrom (host definitions) a.outside)
    (h : s.runMatcher m p = .ok (o, s')) :
    ∃ b, History (host definitions) a b ∧ s'.Mirrors definitions b := by
  simp only [Session.runMatcher, hs.definitions_eq] at h
  split at h
  case h_2 => cases h
  case h_1 o st hrun =>
    cases h
    have hstep := Application.Step.run hm (congrArg (·.hold m.owned) hs.rules_eq)
      (Matcher.evaluates_of_run hrun)
    exact ⟨_, hstep.history, rfl, rfl, hs.handles, hs.weaks, hs.stored, hs.lists⟩

/-- What does not concern rules leaves the application as it is. -/
theorem withCaptures (hs : s.Mirrors definitions a) (captures : Captures P) :
    (s.withCaptures captures).Mirrors definitions a :=
  ⟨hs.definitions_eq, hs.rules_eq, hs.handles, hs.weaks, hs.stored, hs.lists⟩

end Mirrors

/-! ### Steps -/

/-- An outcome is described by a place and perhaps a value. -/
theorem exists_of_withOutcome {β : Type 1} {form : OutcomeForm}
    {next : Outcome P Value → Except Fault β} {b : β} (h : s.withOutcome form next = .ok b) :
    ∃ o, next o = .ok b := by
  cases form with
  | success | failure =>
    rw [Session.withOutcome] at h
    obtain ⟨p, hp⟩ := Scope.exists_of_withPlace h
    exact ⟨_, hp⟩

namespace Mirrors

/-- Of all that can be done to an outcome only what its value leads to is run. -/
theorem change (hhost : OwnNothing (host definitions)) (hs : s.Mirrors definitions a)
    {o : Outcome P Value} {c : Change} {report : ChangeReport P}
    (h : s.change o c = .ok (report, s')) :
    ∃ b, History (host definitions) a b ∧ s'.Mirrors definitions b := by
  cases c with
  | map f =>
    cases h
    exact ⟨a, .refl, hs⟩
  | flatMap k =>
    simp only [Session.change, bind_eq_ok_iff] at h
    obtain ⟨k', hk, h⟩ := h
    cases o with
    | failure p =>
      cases h
      exact ⟨a, .refl, hs⟩
    | success value p =>
      obtain ⟨⟨o', s₁⟩, hrun, ⟨⟩⟩ := bind_eq_ok_iff.1 h
      obtain ⟨hholds, hnext⟩ := k.builtFrom hhost hs.lists hk
      -- The continuation is run behind a match that yields the value and takes nothing.
      have hvalue : (Matcher.succeed (S := signature P) value).BuiltFrom (host definitions)
          a.outside := .of_owned_eq_nil rfl trivial
      exact hs.runMatcher (hvalue.flatMap (List.Subset.trans hholds hs.owned_subset) hnext) hrun
  | orElse | compare =>
    rw [Session.change] at h
    obtain ⟨other, ⟨⟩⟩ := exists_of_withOutcome h
    exact ⟨a, .refl, hs⟩

/-- Changes follow each other, each on what the one before has left of the session. -/
theorem changeAll (hhost : OwnNothing (host definitions)) (hlists : (host definitions).ListsOwned)
    {changes : List Change} (ha : a.Sound (host definitions)) (hs : s.Mirrors definitions a)
    {o : Outcome P Value} {reports : List (ChangeReport P)}
    (h : s.changeAll o changes = .ok (reports, s')) :
    ∃ b, History (host definitions) a b ∧ s'.Mirrors definitions b := by
  -- By induction on the changes, for every session and application that have the same.
  induction changes generalizing s a o reports with
  | nil =>
    cases h
    exact ⟨a, .refl, hs⟩
  | cons c changes ih =>
    simp only [Session.changeAll, bind_eq_ok_iff] at h
    obtain ⟨⟨report, s₁⟩, hfirst, ⟨reports', s₂⟩, hrest, ⟨⟩⟩ := h
    obtain ⟨b, hb, hs₁⟩ := hs.change hhost hfirst
    obtain ⟨d, hd, hs₂⟩ := ih (hb.sound hlists ha) hs₁ hrest
    exact ⟨d, hb.trans hd, hs₂⟩

/-- **Every step of a session** is some steps of an application that has what the session has. -/
theorem perform (hhost : OwnNothing (host definitions)) (hlists : (host definitions).ListsOwned)
    (ha : a.Sound (host definitions)) (hs : s.Mirrors definitions a) {step : Step}
    {report : Report P} (h : s.perform step = .ok (report, s')) :
    ∃ b, History (host definitions) a b ∧ s'.Mirrors definitions b := by
  -- One case for each step.  Those that only look, or concern captures, take
  -- no step of the application.
  cases step with
  | run m place =>
    simp only [Session.perform, bind_eq_ok_iff] at h
    obtain ⟨m', hm, h⟩ := h
    obtain ⟨p, h⟩ := Scope.exists_of_withPlace h
    obtain ⟨⟨o, s₁⟩, hrun, ⟨⟩⟩ := bind_eq_ok_iff.1 h
    exact hs.runMatcher (hs.builtFrom hhost hm) hrun
  | inspect place other =>
    rw [Session.perform] at h
    obtain ⟨p, h⟩ := Scope.exists_of_withPlace h
    cases other with
    | none =>
      cases h
      exact ⟨a, .refl, hs⟩
    | some other =>
      obtain ⟨q, ⟨⟩⟩ := Scope.exists_of_withPlace h
      exact ⟨a, .refl, hs⟩
  | outcome start changes =>
    rw [Session.perform] at h
    obtain ⟨o, h⟩ := exists_of_withOutcome h
    obtain ⟨⟨reports, s₁⟩, hchanges, ⟨⟩⟩ := bind_eq_ok_iff.1 h
    exact hs.changeAll hhost hlists ha hchanges
  | insert name start stop =>
    rw [Session.perform] at h
    obtain ⟨p, h⟩ := Scope.exists_of_withPlace h
    obtain ⟨q, ⟨⟩⟩ := Scope.exists_of_withPlace h
    exact ⟨a, .refl, hs.withCaptures _⟩
  | remove | clear =>
    cases h
    exact ⟨a, .refl, hs.withCaptures _⟩
  | get | save | swap | info =>
    cases h
    exact ⟨a, .refl, hs.definitions_eq, hs.rules_eq, hs.handles, hs.weaks, hs.stored, hs.lists⟩
  | declare rule =>
    cases h
    exact hs.declare hlists ha rule
  | define rule m =>
    simp only [Session.perform, bind_eq_ok_iff] at h
    obtain ⟨m', hm, h⟩ := h
    obtain ⟨slot, hslot, ⟨⟩⟩ := Scope.exists_of_withRule h
    exact hs.define hhost hslot hm
  | isDefined rule =>
    obtain ⟨slot, hslot, ⟨⟩⟩ := Scope.exists_of_withRule h
    exact ⟨a, .refl, hs⟩
  | undefine rule =>
    obtain ⟨slot, hslot, ⟨⟩⟩ := Scope.exists_of_withRule h
    exact hs.undefine hslot
  | dropRule rule =>
    cases h
    exact hs.dropRule ha rule
  | aliasRule rule second =>
    obtain ⟨slot, hslot, ⟨⟩⟩ := Scope.exists_of_withRule h
    exact hs.aliasRule hlists ha hslot second
  | downgrade rule handle =>
    obtain ⟨slot, hslot, ⟨⟩⟩ := Scope.exists_of_withRule h
    exact hs.downgrade hslot handle
  | store name m =>
    simp only [Session.perform, bind_eq_ok_iff] at h
    obtain ⟨m', hm, ⟨⟩⟩ := h
    exact hs.store hhost hlists ha hm name
  | dropStored name =>
    cases h
    exact hs.dropStored ha name

end Mirrors

/-! ### Whole sessions -/

/-- The session comes about from another by a step. -/
def Performs (s s' : Session P) : Prop :=
  ∃ step report, s.clearLog.perform step = .ok (report, s')

/-- The session has been opened, and steps have been carried out on it. -/
def Open (s : Session P) : Prop :=
  ∃ texts limit definitions s₀, Session.new texts limit definitions = .ok s₀ ∧
    Relation.ReflTransGen Performs s₀ s

/-- **Sessions are histories.** A session that is open has what some application has. -/
theorem Open.exists_mirrors (h : s.Open) :
    (host s.definitions).ListsOwned ∧
      ∃ a, a.Reachable (host s.definitions) ∧ s.Mirrors s.definitions a := by
  obtain ⟨texts, limit, forms, s₀, hnew, hsteps⟩ := h
  obtain ⟨built, hbuilt, ⟨⟩⟩ := bind_eq_ok_iff.1 hnew
  have hhost := ownNothing_host hbuilt
  have hlists := listsOwned_host hbuilt
  suffices hmirrors : ∃ a, a.Reachable (host built) ∧ s.Mirrors built a by
    obtain ⟨a, ha, hs⟩ := hmirrors
    exact hs.definitions_eq ▸ ⟨hlists, a, ha, hs⟩
  -- By induction on the steps; the log is emptied before each of them, which concerns no rule.
  induction hsteps with
  | refl =>
    refine ⟨.empty, .refl, rfl, rfl, .refl _, by simp, .refl _, fun name m hm => ?_⟩
    have hm : (∅ : Std.TreeMap String (ValueMatcher P))[name]? = some m := hm
    simp at hm
  | @tail s₁ _ _ hstep ih =>
    obtain ⟨a, ha, hs⟩ := ih
    obtain ⟨step, report, hstep⟩ := hstep
    have hclear : s₁.clearLog.Mirrors built a :=
      ⟨hs.definitions_eq, hs.rules_eq, hs.handles, hs.weaks, hs.stored, hs.lists⟩
    obtain ⟨b, hb, hs'⟩ := hclear.perform hhost hlists (ha.sound hlists) hstep
    exact ⟨b, ha.trans hb, hs'⟩

/-- **What lives in a session**: the rules that it has names for, those that its stored matchers
    own, and those that the definitions of living rules own. -/
theorem Open.isAlive_iff (h : s.Open) (slot : Slot) :
    s.state.rules.isAlive slot = true ↔
      (∃ name : String, s.rules[name]? = some slot) ∨
      (∃ (name : String) (m : ValueMatcher P), s.stored[name]? = some m ∧ slot ∈ m.owned) ∨
      ∃ u, s.state.rules.Owns u slot := by
  obtain ⟨hlists, a, ha, hs⟩ := h.exists_mirrors
  rw [hs.rules_eq, (ha.sound hlists).isAlive_iff, Application.mem_outside, or_assoc,
    hs.handles.mem_iff]
  refine or_congr (mem_named_iff ..) (or_congr_left ?_)
  simp only [hs.stored.mem_iff, List.mem_map, mem_named_iff]
  constructor
  · rintro ⟨_, ⟨m, ⟨name, hm⟩, rfl⟩, hslot⟩
    exact ⟨name, m, hm, hslot⟩
  · rintro ⟨name, m, hm, hslot⟩
    exact ⟨kept m, ⟨m, ⟨name, hm⟩, rfl⟩, hslot⟩

end TextMatch.Session
