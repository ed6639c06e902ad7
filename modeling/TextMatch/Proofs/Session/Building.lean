import TextMatch.Proofs.Engine.Ownership
import TextMatch.Session

namespace TextMatch

/-!
# What sessions build

A matcher that a session builds lists all rules that it owns, also those that its continuations
own, and they are among the rules that the session has names for or that its stored matchers own.

* `Matcher.OwnsWithin.mono`, `Matcher.BuiltFrom.map`, … — what is owned, constructor by constructor;
* `Session.Scope.owned` — the rules that the names of a form may lead to;
* `Session.Form.builtFrom` — the matcher of a form;
* `Session.ownNothing_host`, `Session.listsOwned_host` — the definitions of a session own nothing,
  and list that.
-/

variable {S : Signature} {P ω α β : Type} {host : Host S P ω} {kept kept' : List Slot}

/-! ### Trees built from others -/

namespace Matcher

/-- What owns rules within some bounds does so within wider ones. -/
theorem OwnsWithin.mono {m : Matcher S α} (h : m.OwnsWithin host kept) (hsub : kept ⊆ kept') :
    m.OwnsWithin host kept' := by
  induction m with
  | map _ m ih | many m ih | many1 m ih | optional m ih | not m ih | guard m ih | capture _ m ih
  | shared _ m ih => exact ih h
  | flatMap m holds next ih ihn => exact ⟨ih h.1, fun v => ihn v (h.2 v)⟩
  | seq a b iha ihb | choice a b iha ihb => exact ⟨iha h.1, ihb h.2⟩
  | defer => exact List.Subset.trans h hsub
  | rule | undefine => exact hsub h
  | define s d _ => exact ⟨hsub h.1, List.Subset.trans h.2.1 hsub, h.2.2⟩
  | _ => trivial

namespace BuiltFrom

/-- A tree that owns nothing, by itself or through a name. -/
theorem of_owned_eq_nil {m : Matcher S α} (h : m.owned = []) (hlists : m.OwnsWithin host []) :
    m.BuiltFrom host kept :=
  ⟨h ▸ List.nil_subset _, by rwa [ListsOwned, h]⟩

/-- Changing a value owns nothing. -/
theorem map {f : α → β} {m : Matcher S α} (h : m.BuiltFrom host kept) :
    (Matcher.map f m).BuiltFrom host kept := ⟨h.owned, h.lists⟩

/-- A repetition owns what its rounds own. -/
theorem many {m : Matcher S α} (h : m.BuiltFrom host kept) : m.many.BuiltFrom host kept :=
  ⟨h.owned, h.lists⟩

/-- A sequence is built from what its parts are built from, and lists both of their lists. -/
theorem seq {a : Matcher S α} {b : Matcher S β} (ha : a.BuiltFrom host kept)
    (hb : b.BuiltFrom host kept) : (a.seq b).BuiltFrom host kept where
  owned := List.append_subset.2 ⟨ha.owned, hb.owned⟩
  lists := ⟨ha.lists.mono (List.subset_append_left _ _),
    hb.lists.mono (List.subset_append_right _ _)⟩

/-- Alternatives own rules whether or not they are tried. -/
theorem choice {a b : Matcher S α} (ha : a.BuiltFrom host kept) (hb : b.BuiltFrom host kept) :
    (a.choice b).BuiltFrom host kept where
  owned := List.append_subset.2 ⟨ha.owned, hb.owned⟩
  lists := ⟨ha.lists.mono (List.subset_append_left _ _),
    hb.lists.mono (List.subset_append_right _ _)⟩

/-- The second part is built and owned although its value is dropped. -/
theorem keepLeft {a : Matcher S α} {b : Matcher S β} (ha : a.BuiltFrom host kept)
    (hb : b.BuiltFrom host kept) : (a.keepLeft b).BuiltFrom host kept := (ha.seq hb).map

/-- The first part is built and owned although its value is dropped. -/
theorem keepRight {a : Matcher S α} {b : Matcher S β} (ha : a.BuiltFrom host kept)
    (hb : b.BuiltFrom host kept) : (a.keepRight b).BuiltFrom host kept := (ha.seq hb).map

/-- What a value leads to is not a part of the tree, so the list that stands beside it has to do. -/
theorem flatMap {m : Matcher S α} {holds : List Slot} {next : α → Matcher S β}
    (hm : m.BuiltFrom host kept) (hholds : holds ⊆ kept)
    (hnext : ∀ v, (next v).OwnsWithin host holds) :
    (m.flatMap holds next).BuiltFrom host kept where
  -- The list is wide enough for the tree and for whatever the value leads to.
  owned := List.append_subset.2 ⟨hm.owned, hholds⟩
  lists := ⟨hm.lists.mono (List.subset_append_left _ _),
    fun v => (hnext v).mono (List.subset_append_right _ _)⟩

/-- A reference to a rule is a copy of one that there is. -/
theorem rule {s : Slot} (hs : s ∈ kept) : (Matcher.rule (S := S) s).BuiltFrom host kept where
  owned := by simpa [Matcher.owned] using hs
  lists := List.mem_singleton_self s

/-- Taking a definition away takes a reference to its rule. -/
theorem undefine {s : Slot} (hs : s ∈ kept) :
    (Matcher.undefine (S := S) s).BuiltFrom host kept where
  owned := by simpa [Matcher.owned] using hs
  lists := List.mem_singleton_self s

/-- Giving a definition takes a reference to the rule, besides all that the definition owns. -/
theorem define {s : Slot} {definition : Matcher S S.Value} (hs : s ∈ kept)
    (hd : definition.BuiltFrom host kept) : (Matcher.define s definition).BuiltFrom host kept where
  owned := List.cons_subset.2 ⟨hs, hd.owned⟩
  lists := ⟨List.mem_cons_self .., List.subset_cons_self _ _, hd.lists⟩

/-- A shared tree lists each rule once, and it is the same rules. -/
theorem share {m : Matcher S α} (h : m.BuiltFrom host kept) : m.share.BuiltFrom host kept where
  owned s hs := h.owned ((mem_owned_share m s).1 hs)
  lists := h.lists.mono fun s hs => (mem_owned_share m s).2 hs

end BuiltFrom

end Matcher

namespace Session

variable {P : Type} {scope : Scope P} {host : Host (signature P) P Log} {name : String}

/-! ### Names -/

/-- Two parts of a construction succeed together or not at all. -/
theorem bind_eq_ok_iff {ε : Type} {α β : Type 1} {x : Except ε α} {f : α → Except ε β} {b : β} :
    (x >>= f) = .ok b ↔ ∃ a, x = .ok a ∧ f a = .ok b := by
  cases x <;> simp [bind, Except.bind]

namespace Scope

/-- The rules that the names of a form may lead to, other than weakly. -/
def owned (scope : Scope P) : List Slot :=
  scope.rules.toList.map Prod.snd ++ scope.stored.toList.flatMap fun e => e.2.owned

/-- The stored matchers list what they own. -/
def ListsOwned (host : Host (signature P) P Log) (scope : Scope P) : Prop :=
  ∀ (name : String) (m : ValueMatcher P), scope.stored[name]? = some m → m.ListsOwned host

/-- A rule that has a name is among those that the names lead to. -/
theorem mem_owned_of_rule {s : Slot} (h : scope.rules[name]? = some s) : s ∈ scope.owned := by
  refine List.mem_append_left _ (List.mem_map.2 ⟨(name, s), ?_, rfl⟩)
  exact Std.TreeMap.mem_toList_iff_getElem?_eq_some.2 h

/-- A stored matcher is used as it was stored, references included. -/
theorem builtFrom_stored (hscope : scope.ListsOwned host) {m : ValueMatcher P}
    (h : scope.stored[name]? = some m) : m.BuiltFrom host scope.owned where
  owned s hs := by
    refine List.mem_append_right _ (List.mem_flatMap.2 ⟨(name, m), ?_, hs⟩)
    exact Std.TreeMap.mem_toList_iff_getElem?_eq_some.2 h
  lists := hscope name m h

/-- A form that uses a rule is built only if there is one of that name. -/
theorem exists_of_withRule {β : Type 1} {next : Slot → Except Fault β} {b : β}
    (h : scope.withRule name next = .ok b) : ∃ s, scope.rules[name]? = some s ∧ next s = .ok b := by
  unfold withRule at h
  split at h
  case h_1 s hs => exact ⟨s, hs, h⟩
  case h_2 => cases h

/-- A form that names a place is built only if the text is there. -/
theorem exists_of_withPlace [Stream P] {β : Type 1} {l : Locator} {next : P → Except Fault β}
    {b : β} (h : scope.withPlace l next = .ok b) : ∃ p, next p = .ok b := by
  unfold withPlace at h
  split at h
  · exact ⟨_, h⟩
  · cases h

end Scope

/-! ### Forms -/

/-- The definitions of names own nothing. -/
def OwnNothing (host : Host (signature P) P Log) : Prop :=
  ∀ name, (host.definition name).owned = []

/-- Numbers are read without any reference. -/
theorem builtFrom_number {S : Signature} {ω : Type} {host : Host S P ω} {kept : List Slot} :
    (Calculator.number (S := S)).BuiltFrom host kept := by
  refine .of_owned_eq_nil rfl ⟨⟨trivial, fun v => ?_⟩, trivial⟩
  unfold Calculator.numberOf
  split <;> trivial

/-- A name stands for a definition, and in a session no definition owns anything. -/
theorem builtFrom_defer (hhost : OwnNothing host) {kept : List Slot} (name : Name) :
    (Matcher.defer (S := signature P) name).BuiltFrom host kept :=
  .of_owned_eq_nil rfl (hhost name ▸ List.Subset.refl _)

/-- The grammar of factors refers to itself by names, and to no rule. -/
theorem builtFrom_factor (hhost : OwnNothing host) (kept : List Slot) :
    (Calculator.factor (recursion (P := P))).BuiltFrom host kept := by
  have htoken (c : Char) : (Calculator.token (S := signature P) c).BuiltFrom host kept :=
    .of_owned_eq_nil rfl ⟨trivial, trivial⟩
  have hparens := ((htoken '(').keepRight
    (builtFrom_defer hhost (.calculator .expression))).keepLeft (htoken ')')
  have hminus := (htoken '-').keepRight (builtFrom_defer hhost (.calculator .factor))
  exact (builtFrom_number.choice hparens).choice hminus.map

/-- Terms are made of factors and operators, which refer to nothing more. -/
theorem builtFrom_term (hhost : OwnNothing host) (kept : List Slot) :
    (Calculator.term (recursion (P := P))).BuiltFrom host kept := by
  have hoperator : (Calculator.multiplicative (S := signature P)).BuiltFrom host kept :=
    .of_owned_eq_nil rfl ⟨⟨trivial, trivial⟩, trivial, trivial⟩
  have hfactor := builtFrom_factor hhost kept
  exact (hfactor.seq (hoperator.seq hfactor).many).map

/-- Expressions are made of terms in the same way. -/
theorem builtFrom_expression (hhost : OwnNothing host) (kept : List Slot) :
    (Calculator.expression (recursion (P := P))).BuiltFrom host kept := by
  have hoperator : (Calculator.additive (S := signature P)).BuiltFrom host kept :=
    .of_owned_eq_nil rfl ⟨⟨trivial, trivial⟩, trivial, trivial⟩
  have hterm := builtFrom_term hhost kept
  exact (hterm.seq (hoperator.seq hterm).many).map

/-- Around an expression there are blanks and the end, which own nothing. -/
theorem builtFrom_program (hhost : OwnNothing host) (kept : List Slot) :
    (Calculator.program (recursion (P := P))).BuiltFrom host kept := by
  have hblanks : (Calculator.blanks (S := signature P)).BuiltFrom host kept :=
    .of_owned_eq_nil rfl trivial
  have hend : (Matcher.atEnd (S := signature P)).BuiltFrom host kept :=
    .of_owned_eq_nil rfl trivial
  exact (hblanks.keepRight (builtFrom_expression hhost kept)).keepLeft hend

/-- Whatever part of the calculator a form asks for, no rule is owned by it. -/
theorem builtFrom_part (hhost : OwnNothing host) (kept : List Slot) :
    (part : Part) → (part.matcher (P := P)).BuiltFrom host kept
  | .blanks => .of_owned_eq_nil rfl trivial
  | .number => builtFrom_number.map
  | .factor => (builtFrom_factor hhost kept).map
  | .term => (builtFrom_term hhost kept).map
  | .expression => (builtFrom_expression hhost kept).map
  | .program => (builtFrom_program hhost kept).map

/-- However often a matcher is repeated, it owns the rules it owns. -/
theorem ownsWithin_times {m : ValueMatcher P} {kept : List Slot} (h : m.OwnsWithin host kept)
    (n : Nat) : (m.times n).OwnsWithin host kept := by
  induction n with
  | zero => trivial
  | succ n ih => exact ⟨h, ih⟩

/-- Actions of the session refer to no rules. -/
theorem builtFrom_after {action : Action P} {m : ValueMatcher P} {kept : List Slot}
    (h : m.BuiltFrom host kept) : (after action m).BuiltFrom host kept :=
  .keepRight (.of_owned_eq_nil rfl trivial) h

mutual

/-- **The matcher of a form** owns rules that its names lead to, and lists them. -/
theorem Form.builtFrom [Stream P] (hhost : OwnNothing host) (hscope : scope.ListsOwned host)
    {m : ValueMatcher P} : (form : Form) → form.build scope = .ok m →
      m.BuiltFrom host scope.owned
  -- By recursion on the form, as building goes; these are built without anything else.
  | .anyChar, h | .satisfy _, h | .char _, h | .literal _, h | .atStart, h | .atEnd, h
  | .behind _, h | .succeed _, h | .fail, h | .backref _, h => by
    cases h
    exact .of_owned_eq_nil rfl trivial
  -- One part each, and neither more nor less owned than by the part.
  | .map _ form, h | .many form, h | .many1 form, h | .optional form, h | .not form, h
  | .guard form, h | .capture _ form, h => by
    rw [Form.build, bind_eq_ok_iff] at h
    obtain ⟨m', hm, ⟨⟩⟩ := h
    have hm := Form.builtFrom hhost hscope form hm
    exact ⟨hm.owned, hm.lists⟩
  | .trace _ form, h | .retag _ form, h => by
    rw [Form.build, bind_eq_ok_iff] at h
    obtain ⟨m', hm, ⟨⟩⟩ := h
    exact builtFrom_after (Form.builtFrom hhost hscope form hm)
  | .matchAll form, h => by
    rw [Form.build, bind_eq_ok_iff] at h
    obtain ⟨m', hm, ⟨⟩⟩ := h
    exact (Form.builtFrom hhost hscope form hm).keepLeft (.of_owned_eq_nil rfl trivial)
  | .seq a b, h => by
    simp only [Form.build, bind_eq_ok_iff] at h
    obtain ⟨a', ha, b', hb, ⟨⟩⟩ := h
    exact ((Form.builtFrom hhost hscope a ha).seq (Form.builtFrom hhost hscope b hb)).map
  | .keepLeft a b, h => by
    simp only [Form.build, bind_eq_ok_iff] at h
    obtain ⟨a', ha, b', hb, ⟨⟩⟩ := h
    exact (Form.builtFrom hhost hscope a ha).keepLeft (Form.builtFrom hhost hscope b hb)
  | .keepRight a b, h => by
    simp only [Form.build, bind_eq_ok_iff] at h
    obtain ⟨a', ha, b', hb, ⟨⟩⟩ := h
    exact (Form.builtFrom hhost hscope a ha).keepRight (Form.builtFrom hhost hscope b hb)
  | .choice a b, h => by
    simp only [Form.build, bind_eq_ok_iff] at h
    obtain ⟨a', ha, b', hb, ⟨⟩⟩ := h
    exact (Form.builtFrom hhost hscope a ha).choice (Form.builtFrom hhost hscope b hb)
  -- What the continuation lists is kept by the matcher in place of what it may lead to.
  | .flatMap k form, h => by
    simp only [Form.build, bind_eq_ok_iff] at h
    obtain ⟨m', hm, b, hb, ⟨⟩⟩ := h
    obtain ⟨hholds, hnext⟩ := Continuation.builtFrom hhost hscope k hb
    exact (Form.builtFrom hhost hscope form hm).flatMap hholds hnext
  | .defer name, h => by
    rw [Form.build] at h
    split at h
    · cases h
      exact builtFrom_defer hhost _
    · cases h
  | .rule name, h => by
    obtain ⟨s, hs, ⟨⟩⟩ := Scope.exists_of_withRule h
    exact .rule (Scope.mem_owned_of_rule hs)
  | .weak name, h => by
    obtain ⟨s, hs, ⟨⟩⟩ := Scope.exists_of_withRule h
    exact .of_owned_eq_nil rfl trivial
  | .handle name, h => by
    rw [Form.build, Scope.withHandle] at h
    split at h
    · cases h
      exact .of_owned_eq_nil rfl trivial
    · cases h
  | .stored name, h => by
    rw [Form.build] at h
    split at h
    case h_1 m hm =>
      cases h
      exact Scope.builtFrom_stored hscope hm
    case h_2 => cases h
  | .calculator part, h => by
    cases h
    exact builtFrom_part hhost _ part
  | .seek place, h => by
    rw [Form.build] at h
    obtain ⟨p, ⟨⟩⟩ := Scope.exists_of_withPlace h
    exact builtFrom_after (.of_owned_eq_nil rfl trivial)
  -- A change of a rule behind the form, which refers to the rule meanwhile.
  | .clearing rule form, h => by
    rw [Form.build, bind_eq_ok_iff] at h
    obtain ⟨m', hm, h⟩ := h
    obtain ⟨s, hs, ⟨⟩⟩ := Scope.exists_of_withRule h
    exact (Form.builtFrom hhost hscope form hm).keepLeft
      (.undefine (Scope.mem_owned_of_rule hs))
  | .defining rule definition form, h => by
    simp only [Form.build, bind_eq_ok_iff] at h
    obtain ⟨m', hm, d, hd, h⟩ := h
    obtain ⟨s, hs, ⟨⟩⟩ := Scope.exists_of_withRule h
    exact (Form.builtFrom hhost hscope form hm).keepLeft
      (.define (Scope.mem_owned_of_rule hs) (Form.builtFrom hhost hscope definition hd))

/-- The matchers that a continuation leads to own what it lists. -/
theorem Continuation.builtFrom [Stream P] (hhost : OwnNothing host)
    (hscope : scope.ListsOwned host) {b : Builder P} : (k : Continuation) → k.build scope = .ok b →
      b.holds ⊆ scope.owned ∧ ∀ v, (b.next v).OwnsWithin host b.holds
  | .again, h => by
    cases h
    exact ⟨List.nil_subset _, fun v => ⟨trivial, trivial⟩⟩
  | .times form, h => by
    rw [Continuation.build, bind_eq_ok_iff] at h
    obtain ⟨m, hm, ⟨⟩⟩ := h
    have hm := Form.builtFrom hhost hscope form hm
    refine ⟨hm.owned, fun v => ⟨trivial, ?_⟩⟩
    split
    · exact ownsWithin_times hm.lists _
    · trivial
  | .select cases, h => by
    rw [Continuation.build, bind_eq_ok_iff] at h
    obtain ⟨b', hb, ⟨⟩⟩ := h
    obtain ⟨hholds, hnext⟩ := Cases.builtFrom hhost hscope cases hb
    exact ⟨hholds, fun v => ⟨trivial, hnext v⟩⟩

/-- The matchers that cases lead to own what all of them list. -/
theorem Cases.builtFrom [Stream P] (hhost : OwnNothing host) (hscope : scope.ListsOwned host)
    {b : Builder P} : (cases : Cases) → cases.build scope = .ok b →
      b.holds ⊆ scope.owned ∧ ∀ v, (b.next v).OwnsWithin host b.holds
  | .nil, h => by
    cases h
    exact ⟨List.nil_subset _, fun v => trivial⟩
  | .cons text form rest, h => by
    simp only [Cases.build, bind_eq_ok_iff] at h
    obtain ⟨m, hm, b', hb, ⟨⟩⟩ := h
    have hm := Form.builtFrom hhost hscope form hm
    obtain ⟨hholds, hnext⟩ := Cases.builtFrom hhost hscope rest hb
    refine ⟨List.append_subset.2 ⟨hm.owned, hholds⟩, fun v => ?_⟩
    -- Which case a value selects is known only then, so the rules of all cases are listed.
    show Matcher.OwnsWithin host (if v.toText = text then m else b'.next v) (m.owned ++ b'.holds)
    split
    · exact hm.lists.mono (List.subset_append_left _ _)
    · exact (hnext v).mono (List.subset_append_right _ _)

end

/-! ### Definitions -/

/-- Every matcher among the definitions has been built from a form. -/
theorem exists_form_of_buildDefinitions [Stream P] {definitions : List (String × Form)}
    {built : Std.TreeMap String (ValueMatcher P)}
    (h : buildDefinitions scope definitions = .ok built) {m : ValueMatcher P}
    (hm : built[name]? = some m) : ∃ form : Form, form.build scope = .ok m := by
  -- By induction on the list: a later definition of the same name is overwritten by an earlier one.
  induction definitions generalizing built with
  | nil =>
    cases h
    simp at hm
  | cons d definitions ih =>
    simp only [buildDefinitions, bind_eq_ok_iff] at h
    obtain ⟨m', hm', others, hothers, ⟨⟩⟩ := h
    rw [Std.TreeMap.getElem?_insert] at hm
    split at hm
    · cases hm
      exact ⟨_, hm'⟩
    · exact ih hothers hm

/-- Definitions may not use rules, and own none. -/
theorem builtFrom_definition [Stream P] (hhost : OwnNothing host) {texts : List String}
    {definitions : List (String × Form)} {built : Std.TreeMap String (ValueMatcher P)}
    (h : buildDefinitions (definitionScope texts definitions) definitions = .ok built)
    {m : ValueMatcher P} (hm : built[name]? = some m) : m.BuiltFrom host [] := by
  obtain ⟨form, hform⟩ := exists_form_of_buildDefinitions h hm
  -- No stored matcher can be named in a definition.
  have hscope : (definitionScope texts definitions).ListsOwned host := by
    intro name m hm
    simp [definitionScope] at hm
  exact form.builtFrom hhost hscope hform

/-- Without definitions of its own a session has those of the calculator, which own nothing. -/
theorem ownNothing_host_empty [Stream P] : OwnNothing (Session.host (P := P) ∅) := by
  rintro ((_ | _) | name)
  · rfl
  · rfl
  · simp [Session.host, Matcher.owned]

/-- **The definitions of a session own nothing.** -/
theorem ownNothing_host [Stream P] {texts : List String} {definitions : List (String × Form)}
    {built : Std.TreeMap String (ValueMatcher P)}
    (h : buildDefinitions (definitionScope texts definitions) definitions = .ok built) :
    OwnNothing (Session.host built) := by
  rintro ((_ | _) | name)
  · rfl
  · rfl
  · cases hm : built[name]? with
    | none => simp [Session.host, hm, Matcher.owned]
    | some m =>
      -- The definition is built with names in it, which own nothing wherever they lead; so it does
      -- not matter that here they are taken to lead nowhere.
      have howned := (builtFrom_definition ownNothing_host_empty h hm).owned
      simpa [Session.host, hm, logged, after, Matcher.owned] using howned

/-- **They list all there is of it**, which is nothing. -/
theorem listsOwned_host [Stream P] {texts : List String} {definitions : List (String × Form)}
    {built : Std.TreeMap String (ValueMatcher P)}
    (h : buildDefinitions (definitionScope texts definitions) definitions = .ok built) :
    (Session.host built).ListsOwned := by
  have hhost := ownNothing_host h
  rintro ((_ | _) | name)
  · exact (builtFrom_expression hhost []).lists
  · exact (builtFrom_factor hhost []).lists
  · cases hm : built[name]? with
    | none =>
      show ((Session.host built).definition (.definition name)).ListsOwned _
      simp [Session.host, hm, Matcher.ListsOwned, Matcher.OwnsWithin]
    | some m =>
      have hbuilt : (logged name m).BuiltFrom (Session.host built) [] :=
        builtFrom_after (builtFrom_definition hhost h hm)
      simpa [Session.host, hm] using hbuilt.lists

end Session

end TextMatch
