import Mathlib.Data.List.Cycle
import TextMatch.Proofs.Engine.RuleChanges

namespace TextMatch

/-!
# Histories of rules

An application declares rules, clones and drops its references to them, stores matchers, gives
definitions and takes them away, and runs matchers which do so too.  This module says which rules
live after any sequence of such steps.

* `Application` — what an application has of rules between two runs;
* `Application.Step`, `Application.History` — one step, with the rules whose definitions it changes,
  and any number of them;
* `Application.Sound` — the owners outside are the references of the application;
* `Application.Step.preserves`, `Application.Step.sound` — what one step keeps, and from it what a
  history keeps;
* `makes_weak_iff`, `evaluates_weak_iff` — what a weak reference runs;
* `Application.HistoryWithin.cycle` — a cycle of definitions keeps itself alive;
* `RunsWeak`, `StaysGone`, `Application.Lifetimes` — what is said of weak references, of a rule that
  is gone, and of all rules of an application;
* `rule_lifetime` — the lifetime of rules over any history.
-/

variable {S : Signature} {P ω α : Type}

/-! ### Applications -/

/-- What an application has of rules between two runs. -/
structure Application (S : Signature) where
  rules : Rules S
  /-- The rules that it has references to, once for every one of them. -/
  handles : List Slot
  /-- The rules that it has weak references to. -/
  weaks : List Slot
  /-- The matchers that it has stored. -/
  stored : List (Σ α : Type, Matcher S α)

namespace Application

variable {host : Host S P ω} {a b : Application S} {s : Slot}

/-- Nothing declared and nothing stored. -/
def empty : Application S := ⟨.empty, [], [], []⟩

/-- The rules that the application owns, once for every reference that it has or that stands in a
    stored matcher. -/
def outside (a : Application S) : List Slot := a.handles ++ a.stored.flatMap fun m => m.2.owned

/-- The rules are settled, with the references of the application as their owners outside, and its
    weak references are to rules that have been declared. -/
structure Sound (host : Host S P ω) (a : Application S) : Prop where
  settled : a.rules.Settled host
  held : a.rules.held.Perm a.outside
  weaks : ∀ s ∈ a.weaks, s < a.rules.next

/-- Nothing is owned and nothing is referred to at the beginning. -/
theorem sound_empty : (empty : Application S).Sound host :=
  ⟨Rules.settled_empty, .refl _, nofun⟩

namespace Sound

/-- What the application owns lives. -/
theorem outside_living (ha : a.Sound host) : a.outside ⊆ a.rules.living :=
  fun _ hs => ha.settled.held_living (ha.held.mem_iff.2 hs)

/-- The application can rely on its references: their rules live. -/
theorem handle_living (ha : a.Sound host) (hs : s ∈ a.handles) : s ∈ a.rules.living :=
  ha.outside_living (List.mem_append_left _ hs)

end Sound

/-! ### Steps -/

variable [Cursor P] {changed : Slot → Prop}

/-- One step, and the rules that it gives another definition or none.  The references in a matcher
    are copies of those that the application has; while it runs the application owns what they are
    to.  The context of a run is whatever the application has. -/
inductive Step (host : Host S P ω) (a : Application S) : (Slot → Prop) → Application S → Prop where
  | declare : Step host a (fun _ => False)
      { a with rules := a.rules.declare.2, handles := a.rules.declare.1 :: a.handles }
  | clone {s : Slot} (hs : s ∈ a.handles) : Step host a (fun _ => False)
      { a with rules := a.rules.hold [s], handles := s :: a.handles }
  | drop {s : Slot} (hs : s ∈ a.handles) : Step host a (fun _ => False)
      { a with rules := a.rules.release [s], handles := a.handles.erase s }
  | downgrade {s : Slot} (hs : s ∈ a.handles) : Step host a (fun _ => False)
      { a with weaks := s :: a.weaks }
  | store {α : Type} {m : Matcher S α} (hm : m.BuiltFrom host a.outside) :
      Step host a (fun _ => False)
        { a with rules := a.rules.hold m.owned, stored := ⟨α, m⟩ :: a.stored }
  | discard {m : Σ α : Type, Matcher S α} {front back} (hm : a.stored = front ++ m :: back) :
      Step host a (fun _ => False)
        { a with rules := a.rules.release m.2.owned, stored := front ++ back }
  | define {s : Slot} {definition : Matcher S S.Value} (hs : s ∈ a.handles)
      (hd : definition.BuiltFrom host a.outside) :
      Step host a (· = s) { a with rules := a.rules.define s definition }
  | clear {s : Slot} (hs : s ∈ a.handles) :
      Step host a (· = s) { a with rules := a.rules.undefine s }
  | run {α : Type} {m : Matcher S α} {st st' : State S P ω} {p : P} {o : Outcome P α}
      (hm : m.BuiltFrom host a.outside) (hst : st.rules = a.rules.hold m.owned)
      (h : Evaluates host m st p o st') :
      Step host a (Call.Changes host ⟨m, st, p⟩) { a with rules := st'.rules.release m.owned }

/-- Steps that change only definitions of some rules. -/
abbrev HistoryWithin (host : Host S P ω) (changed : Slot → Prop) :
    Application S → Application S → Prop :=
  Relation.ReflTransGen fun a b => ∃ c, Step host a c b ∧ ∀ s, c s → changed s

/-- Any steps. -/
abbrev History (host : Host S P ω) : Application S → Application S → Prop :=
  HistoryWithin host fun _ => True

/-- One step is a history. -/
theorem Step.history {c : Slot → Prop} (h : Step host a c b) : History host a b :=
  .single ⟨c, h, fun _ _ => trivial⟩

/-- The application has come about by steps, with nothing at the beginning. -/
def Reachable (host : Host S P ω) (a : Application S) : Prop := History host empty a

/-! ### What histories keep -/

/-- **One step keeps what changes of its definitions keep.** -/
theorem Step.preserves {I : Rules S → Prop} (hI : Rules.Keeps I changed)
    {c : Slot → Prop} (h : Step host a c b) (hc : ∀ s, c s → changed s) (ha : I a.rules) :
    I b.rules := by
  cases h with
  | declare => exact hI.declare ha
  | clone => exact hI.hold ha _
  | drop => exact hI.release ha _
  | downgrade => exact ha
  | store => exact hI.hold ha _
  | discard => exact hI.release ha _
  | define | clear => exact hI.update ha (hc _ rfl) _
  -- While a matcher runs the application owns what it refers to, and lets go of it at the end.
  | run _ hst h => exact hI.release (h.preserves hI hc (hst ▸ hI.hold ha _)) _

/-- What every step keeps, any number of them keep. -/
theorem HistoryWithin.preserves {I : Rules S → Prop} (hI : Rules.Keeps I changed)
    (h : HistoryWithin host changed a b) (ha : I a.rules) : I b.rules := by
  induction h with
  | refl => exact ha
  | tail _ h ih =>
    obtain ⟨c, hstep, hc⟩ := h
    exact hstep.preserves hI hc ih

/-! ### Owners outside -/

/-- **One step leaves the application sound.** -/
theorem Step.sound (hhost : host.ListsOwned) {c : Slot → Prop} (h : Step host a c b)
    (ha : a.Sound host) : b.Sound host := by
  have hnext : a.rules.next ≤ b.rules.next :=
    h.preserves (Rules.keeps_le_next _) (fun _ _ => trivial) (Nat.le_refl _)
  have hweaks : ∀ s ∈ a.weaks, s < b.rules.next :=
    fun s hs => Nat.lt_of_lt_of_le (ha.weaks s hs) hnext
  cases h with
  | declare => exact ⟨ha.settled.declare, ha.held.cons _, hweaks⟩
  | clone hs =>
    have hliving := ha.handle_living hs
    exact ⟨ha.settled.hold (by simpa using hliving), ha.held.cons _, hweaks⟩
  | @drop s hs =>
    refine ⟨ha.settled.release _, ?_, hweaks⟩
    refine Rules.held_release_perm (ha.held.trans ?_)
    exact (List.perm_cons_erase hs).append_right _
  | downgrade hs =>
    refine ⟨ha.settled, ha.held, fun u hu => ?_⟩
    -- A weak reference is made from a reference, whose rule lives and so has been declared.
    obtain rfl | hu := List.mem_cons.1 hu
    · exact ha.settled.lt_next _ (ha.handle_living hs)
    · exact hweaks u hu
  | @store _ m hm =>
    refine ⟨ha.settled.hold fun s hs => ha.outside_living (hm.owned hs), ?_, hweaks⟩
    exact (ha.held.append_left m.owned).trans (List.perm_append_comm_assoc ..)
  | @discard m front back hm =>
    refine ⟨ha.settled.release _, ?_, hweaks⟩
    refine Rules.held_release_perm (ha.held.trans ?_)
    -- The matcher stands somewhere among those stored; what it owns is taken from there.
    simp only [outside, hm, List.flatMap_append, List.flatMap_cons]
    exact ((List.perm_append_comm_assoc ..).append_left _).trans (List.perm_append_comm_assoc ..)
  | define hs hd =>
    refine ⟨ha.settled.update _ _ (fun s hs => ha.outside_living (hd.owned hs)) ?_, ?_, hweaks⟩
    · rintro d ⟨⟩
      exact hd.lists
    · exact (Rules.held_update ..).symm ▸ ha.held
  | clear hs =>
    refine ⟨ha.settled.update _ none (List.nil_subset _) nofun, ?_, hweaks⟩
    exact (Rules.held_update ..).symm ▸ ha.held
  | @run _ m st st' _ _ hm hst h =>
    -- The run begins with settled rules, the owners outside included, and ends so.
    have hstart : st.rules.Settled host :=
      hst ▸ ha.settled.hold fun s hs => ha.outside_living (hm.owned hs)
    have howned : m.owned ⊆ st.rules.held := hst ▸ List.subset_append_left _ _
    obtain ⟨hend, hheld⟩ := h.settled hhost hm.lists howned hstart
    refine ⟨hend.release _, Rules.held_release_perm ?_, hweaks⟩
    rw [hheld, hst]
    exact ha.held.append_left _

/-- Soundness is kept through any history, by induction on its steps. -/
theorem HistoryWithin.sound (hhost : host.ListsOwned) (h : HistoryWithin host changed a b)
    (ha : a.Sound host) : b.Sound host := by
  induction h with
  | refl => exact ha
  | tail _ h ih =>
    obtain ⟨c, hstep, -⟩ := h
    exact hstep.sound hhost ih

end Application

/-! ### Weak references -/

section

variable {host : Host S P ω} {st st' : State S P ω} {p : P} {s : Slot}

/-- What a matcher stands for that is a reference, and what it owns while that is run. -/
def Matcher.target? (host : Host S P ω) (rules : Rules S) :
    {α : Type} → Matcher S α → Option (List Slot × Matcher S α)
  | _, .defer name => some ((host.definition name).owned, host.definition name)
  | _, .rule s => (rules.definition? s).map fun d => (d.owned, d)
  | _, .weak s => (rules.definition? s).map fun d => (s :: d.owned, d)
  | _, _ => none

/-- What a reference stands for can be computed. -/
theorem Refers.target?_eq {rules : Rules S} {m definition : Matcher S α} {frame : List Slot}
    (h : Refers host rules m frame definition) :
    m.target? host rules = some (frame, definition) := by
  cases h with
  | defer => rfl
  | rule hd | weak hd => simp [Matcher.target?, hd]

variable [Cursor P]

/-- A reference makes a call only below the limit. -/
theorem Call.Makes.isFull_eq_false {c c' : Call S P ω} (h : c.Makes host c')
    (hc : Matcher.IsReference _ c.matcher) : c.state.context.isFull = false := by
  cases h with
  | enter _ hf => exact hf
  | _ => exact hc.elim

/-- A weak reference runs the definition of its rule, if it has one and the nesting is below the
    limit.  The rule is owned meanwhile. -/
theorem makes_weak_iff {c : Call S P ω} :
    Call.Makes host ⟨.weak s, st, p⟩ c ↔ ∃ d, st.rules.definition? s = some d ∧
      st.context.isFull = false ∧ c = ⟨d, st.enter (s :: d.owned), p⟩ := by
  constructor
  · intro h
    obtain ⟨frame, definition, href, rfl⟩ := h.of_isReference trivial
    obtain ⟨d, hd, heq⟩ := Option.map_eq_some_iff.1 href.target?_eq
    obtain ⟨rfl, rfl⟩ := Prod.mk.inj heq
    exact ⟨d, hd, h.isFull_eq_false trivial, rfl⟩
  · rintro ⟨d, hd, hf, rfl⟩
    exact .enter (.weak hd) hf

/-- Its result is that of the definition. -/
theorem evaluates_weak_iff {d : Matcher S S.Value} {o : Outcome P S.Value}
    (hd : st.rules.definition? s = some d) (hf : st.context.isFull = false) :
    Evaluates host (.weak s) st p o st' ↔
      ∃ st₁, Evaluates host d (st.enter (s :: d.owned)) p o st₁ ∧ st' = st₁.leave st := by
  constructor
  · intro h
    obtain ⟨n, hn⟩ := Matcher.exists_run_of_evaluates h
    have hn := Matcher.run_mono (Nat.le_succ n) hn
    rw [Matcher.run_of_refers n (.weak hd) p, Run.nested_eq_some_iff] at hn
    obtain ⟨hfull, -⟩ | ⟨-, st₁, hrun, rfl⟩ := hn
    · exact absurd hfull (by simp [hf])
    · exact ⟨st₁, Matcher.evaluates_of_run hrun, rfl⟩
  · rintro ⟨st₁, h, rfl⟩
    exact .enter (.weak hd) hf h

/-- Where it runs nothing it fails in place. -/
theorem evaluates_weak_of_not_makes (h : ∀ c, ¬Call.Makes host ⟨.weak s, st, p⟩ c)
    {o : Outcome P S.Value} :
    Evaluates host (.weak s) st p o st' ↔ o = .failure p ∧ st' = st := by
  have hfails : Evaluates host (.weak s) st p (.failure p) st := by
    cases hd : st.rules.definition? s with
    | none => exact .weakUndefined hd
    | some d =>
      cases hf : st.context.isFull with
      | true => exact .refuse (.weak hd) hf
      | false => exact absurd (makes_weak_iff.2 ⟨d, hd, hf, rfl⟩) (h _)
  constructor
  · intro he
    exact he.unique hfails
  · rintro ⟨rfl, rfl⟩
    exact hfails

end

/-! ### Cycles -/

section

variable {α : Type} {R : α → α → Prop} {s x : α}

/-- In a chain every element but the first stands behind one that is related to it. -/
theorem exists_rel_of_isChain {l : List α} (h : List.IsChain R (x :: l)) (hs : s ∈ l) :
    ∃ u ∈ (x :: l).dropLast, R u s := by
  induction l generalizing x with
  | nil => cases hs
  | cons y l ih =>
    obtain ⟨hxy, hl⟩ := List.isChain_cons_cons.1 h
    rw [List.dropLast_cons_cons]
    obtain rfl | hs := List.mem_cons.1 hs
    · exact ⟨x, List.mem_cons_self .., hxy⟩
    · obtain ⟨u, hu, hus⟩ := ih hl hs
      exact ⟨u, List.mem_cons_of_mem _ hu, hus⟩

/-- In a cycle every element does. -/
theorem exists_rel_of_cycle {c : Cycle α} (h : c.Chain R) (hs : s ∈ c) : ∃ u ∈ c, R u s := by
  induction c using Quotient.inductionOn' with
  | h l =>
    cases l with
    | nil => cases hs
    | cons x l =>
      have hs : s ∈ l ++ [x] :=
        List.mem_append.2 ((List.mem_cons.1 hs).symm.imp_right List.mem_singleton.2)
      obtain ⟨u, hu, hus⟩ := exists_rel_of_isChain ((Cycle.chain_coe_cons R x l).1 h) hs
      rw [← List.cons_append, List.dropLast_concat] at hu
      exact ⟨u, hu, hus⟩

end

/-! ### Lifetimes -/

section

variable [Cursor P] {host : Host S P ω} {a b : Application S} {s : Slot}

namespace Application

/-- What the application owns, it has a reference to or has in a stored matcher. -/
theorem mem_outside : s ∈ a.outside ↔ s ∈ a.handles ∨ ∃ m ∈ a.stored, s ∈ m.2.owned := by
  simp [outside]

/-- What has come about by steps is sound, since nothing at all is. -/
theorem Reachable.sound (hhost : host.ListsOwned) (ha : a.Reachable host) : a.Sound host :=
  HistoryWithin.sound hhost ha sound_empty

section

omit [Cursor P]

/-- The owners of a rule are the application and the definitions of rules. -/
theorem Sound.isAlive_iff (ha : a.Sound host) :
    a.rules.isAlive s = true ↔ s ∈ a.outside ∨ ∃ u, a.rules.Owns u s := by
  rw [ha.settled.isAlive_iff, ha.held.mem_iff]

/-- Only definitions of rules that live are there to own anything. -/
theorem Sound.isAlive_iff_owned (ha : a.Sound host) :
    a.rules.isAlive s = true ↔ (s ∈ a.handles ∨ ∃ m ∈ a.stored, s ∈ m.2.owned) ∨
      ∃ u, a.rules.isAlive u = true ∧ a.rules.Owns u s := by
  rw [ha.isAlive_iff, mem_outside]
  refine or_congr_right (exists_congr fun u => (and_iff_right_of_imp ?_).symm)
  exact fun hu => hu.isAlive

/-- Going back from owner to owner one comes to the application or into a cycle. -/
theorem Sound.isAlive_iff_rooted (ha : a.Sound host) :
    a.rules.isAlive s = true ↔ ∃ u, (u ∈ a.outside ∨ Relation.TransGen a.rules.Owns u u) ∧
      Relation.ReflTransGen a.rules.Owns u s := by
  rw [ha.settled.isAlive_iff_rooted]
  simp only [Rules.Rooted, ha.held.mem_iff]

/-- Where no definition owns a rule, the application does. -/
theorem Sound.isAlive_iff_of_owned_eq_nil (ha : a.Sound host)
    (hweak : ∀ u d, a.rules.definition? u = some d → d.owned = []) :
    a.rules.isAlive s = true ↔ s ∈ a.handles ∨ ∃ m ∈ a.stored, s ∈ m.2.owned := by
  rw [ha.isAlive_iff, mem_outside]
  refine or_iff_left ?_
  rintro ⟨u, d, hd, hs⟩
  rw [hweak u d hd] at hs
  cases hs

end

/-- A cycle keeps itself alive while no definition on it is changed. -/
theorem HistoryWithin.cycle {cycle : Cycle Slot} (ha : a.Sound host) (hb : b.Sound host)
    (h : HistoryWithin host (· ∉ cycle) a b) (hcycle : cycle.Chain a.rules.Owns) (hs : s ∈ cycle) :
    b.rules.isAlive s = true ∧ b.rules.definition? s = a.rules.definition? s := by
  have howner : ∀ s, s ∈ cycle → ∃ u, u ∈ cycle ∧ a.rules.Owns u s :=
    fun s hs => exists_rel_of_cycle hcycle hs
  have hlt : ∀ s ∈ cycle, s < a.rules.next := by
    intro s hs
    obtain ⟨u, -, hu⟩ := howner s hs
    exact ha.settled.lt_next s (Rules.isAlive_iff.1 (ha.isAlive_iff.2 (.inr ⟨u, hu⟩)))
  -- Every rule on the cycle has its owner on the cycle, so no step on the way frees one of them.
  have hkept := h.preserves (Rules.keeps_definitions howner) fun s hs => ⟨hlt s hs, rfl⟩
  obtain ⟨u, hu, d, hd, hsd⟩ := howner s hs
  have howns : b.rules.Owns u s := ⟨d, (hkept u hu).2.trans hd, hsd⟩
  exact ⟨hb.isAlive_iff.2 (.inr ⟨u, howns⟩), (hkept s hs).2⟩

end Application

/-! ### What is said of the lifetime of rules -/

/-- What a weak reference to the rule `s` does in a state and at a place. -/
structure RunsWeak (host : Host S P ω) (s : Slot) (st : State S P ω) (p : P) : Prop where
  /-- It runs the definition if its rule lives and has one and the nesting is below the limit. -/
  makes_iff : ∀ c, Call.Makes host ⟨.weak s, st, p⟩ c ↔ st.rules.isAlive s = true ∧
    ∃ d, st.rules.definition? s = some d ∧ st.context.isFull = false ∧
      c = ⟨d, st.enter (s :: d.owned), p⟩
  /-- It then has the result of the definition. -/
  evaluates_iff : ∀ d, st.rules.definition? s = some d → st.context.isFull = false → ∀ o st',
    Evaluates host (.weak s) st p o st' ↔
      ∃ st₁, Evaluates host d (st.enter (s :: d.owned)) p o st₁ ∧ st' = st₁.leave st
  /-- If it runs nothing it fails in place, and changes nothing. -/
  fails : (∀ c, ¬Call.Makes host ⟨.weak s, st, p⟩ c) → ∀ o st',
    Evaluates host (.weak s) st p o st' ↔ o = .failure p ∧ st' = st

/-- What becomes of the rule `s` of an application `a` that has got to `b`, once it is gone.  From
    `b` on a matcher may be run, which the application owns meanwhile. -/
structure StaysGone (host : Host S P ω) (a b : Application S) (s : Slot) : Prop where
  /-- If it has been gone before, it is gone now. -/
  still : a.rules.isAlive s = false → b.rules.isAlive s = false
  /-- If it is gone where some call begins, it is gone all through that call. -/
  inside : ∀ {β : Type} (m : Matcher S β) st p, st.rules = b.rules.hold m.owned →
    ∀ c, Call.Inside host ⟨m, st, p⟩ c → c.state.rules.isAlive s = false →
      ∀ x, c.Visits host x → x.rules.isAlive s = false
  /-- If it goes at some state inside a call, it is gone at the end of that call. -/
  afterwards : ∀ {β : Type} (m : Matcher S β) st p, st.rules = b.rules.hold m.owned →
    ∀ c, Call.Inside host ⟨m, st, p⟩ c → ∀ x, c.Visits host x → x.rules.isAlive s = false →
      ∀ o st', Evaluates host c.matcher c.state c.cursor o st' → st'.rules.isAlive s = false
  /-- If it goes while the matcher runs, it is gone when the matcher has been given up again. -/
  released : ∀ {β : Type} (m : Matcher S β) st p, st.rules = b.rules.hold m.owned →
    ∀ x, Call.Visits host ⟨m, st, p⟩ x → x.rules.isAlive s = false →
      ∀ o st', Evaluates host m st p o st' → (st'.rules.release m.owned).isAlive s = false

/-- What is said of the lifetime of the rules of an application. -/
structure Application.Lifetimes (host : Host S P ω) (a : Application S) : Prop where
  /-- A rule lives exactly if the application has a reference to it, or a stored matcher owns it,
      or the definition of a rule that lives does. -/
  isAlive_iff : ∀ s, a.rules.isAlive s = true ↔
    (s ∈ a.handles ∨ ∃ m ∈ a.stored, s ∈ m.2.owned) ∨
      ∃ u, a.rules.isAlive u = true ∧ a.rules.Owns u s
  /-- So it lives exactly if owners outside keep it alive, or cycles of definitions, through any
      number of definitions. -/
  isAlive_iff_rooted : ∀ s, a.rules.isAlive s = true ↔
    ∃ u, (u ∈ a.outside ∨ Relation.TransGen a.rules.Owns u u) ∧
      Relation.ReflTransGen a.rules.Owns u s
  /-- A weak reference runs a definition exactly if its rule lives and has one and the nesting is
      below its limit, and otherwise fails in place. -/
  runsWeak : ∀ s (st : State S P ω) p, RunsWeak host s st p
  /-- A rule that is gone stays so, and so does one that goes while a matcher runs, in the rest of
      the run and behind it. -/
  staysGone : ∀ s ∈ a.weaks, ∀ b, History host a b → StaysGone host a b s
  /-- Where definitions own nothing, only what the application owns lives. -/
  isAlive_iff_of_owned_eq_nil : (∀ u d, a.rules.definition? u = some d → d.owned = []) →
    ∀ s, a.rules.isAlive s = true ↔ s ∈ a.handles ∨ ∃ m ∈ a.stored, s ∈ m.2.owned
  /-- The rules on a cycle of definitions live, whatever the application drops, until the definition
      of one of them is changed. -/
  cycle : ∀ cycle : Cycle Slot, cycle.Chain a.rules.Owns → ∀ b, HistoryWithin host (· ∉ cycle) a b →
    ∀ s ∈ cycle, b.rules.isAlive s = true ∧ b.rules.definition? s = a.rules.definition? s

/-- Every weak reference does what is said, whatever the state: what it runs is a definition that it
    finds, and only rules that live have one. -/
theorem runsWeak (host : Host S P ω) (s : Slot) (st : State S P ω) (p : P) :
    RunsWeak host s st p where
  makes_iff c := by
    rw [makes_weak_iff]
    refine (and_iff_right_of_imp ?_).symm
    rintro ⟨d, hd, -⟩
    exact Rules.isAlive_iff.2 (Rules.mem_living_of_definition? hd)
  evaluates_iff _ hd hf _ _ := evaluates_weak_iff hd hf
  fails hnone _ _ := evaluates_weak_of_not_makes hnone

/-- A slot that was given out before a call has been given out at every state inside it. -/
theorem lt_next_of_visits {c c' : Call S P ω} {x : State S P ω} (hs : s < c.state.rules.next)
    (hc : c.Inside host c') (hx : c'.Visits host x) : s < x.rules.next :=
  hx.preserves (Rules.keeps_le_next (s + 1))
    (hc.preserves (Rules.keeps_le_next (s + 1)) (fun _ _ => trivial) hs)

/-- What an application has weak references to has been declared, and slots are never given out
    again: what is gone does not come back. -/
theorem Application.Sound.staysGone (ha : a.Sound host) (hs : s ∈ a.weaks)
    (hb : Application.History host a b) : StaysGone host a b s := by
  have hlt : s < a.rules.next := ha.weaks s hs
  have hltb : s < b.rules.next := hb.preserves (Rules.keeps_le_next (s + 1)) hlt
  have hvisits : ∀ {β : Type} (m : Matcher S β) st p, st.rules = b.rules.hold m.owned →
      ∀ c, Call.Inside host ⟨m, st, p⟩ c → ∀ x, c.Visits host x → s < x.rules.next :=
    fun m st p hst c hc x hx =>
      lt_next_of_visits (c := ⟨m, st, p⟩) (hst ▸ hltb : s < st.rules.next) hc hx
  constructor
  case still =>
    intro hgone
    exact (hb.preserves (Rules.keeps_gone s) ⟨hlt, hgone⟩).2
  case inside =>
    intro β m st p hst c hc hgone x hx
    exact (hx.preserves (Rules.keeps_gone s) ⟨hvisits m st p hst c hc _ (.start .refl), hgone⟩).2
  case afterwards =>
    intro β m st p hst c hc x hx hgone o st' he
    exact (hx.gone_end ⟨hvisits m st p hst c hc x hx, hgone⟩ he).2
  case released =>
    intro β m st p hst x hx hgone o st' he
    have hend := hx.gone_end ⟨hvisits m st p hst _ .refl x hx, hgone⟩ he
    exact ((Rules.keeps_gone s).release hend _).2

/-- **The lifetime of rules.** Over any sequence of declarations, of copies of references that are
    made and dropped, of matchers that are stored and given up, of definitions given and taken away,
    and of runs, which may do so too, all that `Application.Lifetimes` says is true. -/
theorem rule_lifetime (host : Host S P ω) (hhost : host.ListsOwned) (a : Application S)
    (ha : a.Reachable host) : a.Lifetimes host := by
  have hsound : a.Sound host := ha.sound hhost
  exact {
    isAlive_iff := fun _ => hsound.isAlive_iff_owned
    isAlive_iff_rooted := fun _ => hsound.isAlive_iff_rooted
    runsWeak := runsWeak host
    staysGone := fun _ hs _ hb => hsound.staysGone hs hb
    isAlive_iff_of_owned_eq_nil := fun hweak _ => hsound.isAlive_iff_of_owned_eq_nil hweak
    cycle := fun _ hcycle _ hb _ hs => hb.cycle hsound (hb.sound hhost hsound) hcycle hs }

end

/-! ### A rule that refers to itself -/

/-- An application that has declared a rule, and refers to it strongly and weakly. -/
def oneRuleDeclared : Application oneName := ⟨oneRule, [0], [0], []⟩

/-- The application once it has given the rule a definition. -/
def oneRuleDefined (d : Matcher oneName Unit) : Application oneName :=
  { oneRuleDeclared with rules := oneRule.define 0 d }

/-- The application once only its weak reference is left. -/
def oneRuleDropped (d : Matcher oneName Unit) : Application oneName :=
  { oneRuleDeclared with rules := (oneRule.define 0 d).release [0], handles := [] }

/-- The definition of the one name owns nothing, and says so. -/
theorem listsOwned_leftRecursive : leftRecursive.ListsOwned := by
  intro name
  simp [Matcher.ListsOwned, Matcher.OwnsWithin, leftRecursive, Matcher.keepRight, Matcher.owned]

/-- The rule is declared, a weak reference to it is made, and it is given a definition. -/
theorem reachable_oneRuleDefined {d : Matcher oneName Unit}
    (hd : d.BuiltFrom leftRecursive oneRuleDeclared.outside) :
    (oneRuleDefined d).Reachable leftRecursive :=
  (Application.Step.declare.history.trans
    (Application.Step.downgrade (List.mem_singleton_self 0)).history).trans
    (Application.Step.define (List.mem_singleton_self 0) hd).history

/-- The last reference is dropped, and no definition is changed. -/
theorem historyWithin_oneRuleDropped {changed : Slot → Prop} (d : Matcher oneName Unit) :
    Application.HistoryWithin leftRecursive changed (oneRuleDefined d) (oneRuleDropped d) :=
  .single ⟨_, .drop (List.mem_singleton_self 0), nofun⟩

/-- A rule that refers to itself weakly is gone with the last reference, for ever.  One that refers
    to itself strongly stays, and is still run by the weak reference. -/
theorem rule_lifetime_oneRule :
    (∀ b, Application.History leftRecursive (oneRuleDropped (.weak 0)) b →
      b.rules.isAlive 0 = false) ∧
    (oneRuleDropped (.rule 0)).rules.isAlive 0 = true ∧
    ∃ c, Call.Makes leftRecursive
      ⟨.weak 0, ⟨.new none, (oneRuleDropped (.rule 0)).rules, ()⟩, .start "a"⟩ c := by
  have hweak : (Matcher.weak (S := oneName) 0).BuiltFrom leftRecursive oneRuleDeclared.outside :=
    ⟨List.nil_subset _, trivial⟩
  have hstrong : (Matcher.rule (S := oneName) 0).BuiltFrom leftRecursive oneRuleDeclared.outside :=
    ⟨List.Subset.refl _, List.mem_singleton_self 0⟩
  have hdropped := rule_lifetime leftRecursive listsOwned_leftRecursive (oneRuleDropped (.weak 0))
    ((reachable_oneRuleDefined hweak).trans (historyWithin_oneRuleDropped _))
  have hdefined := rule_lifetime leftRecursive listsOwned_leftRecursive (oneRuleDefined (.rule 0))
    (reachable_oneRuleDefined hstrong)
  have hdead : (oneRuleDropped (.weak 0)).rules.isAlive 0 = false := by
    rw [Bool.eq_false_iff, Ne, hdropped.isAlive_iff_of_owned_eq_nil (fun u d hd => nomatch hd)]
    simp [oneRuleDropped, oneRuleDeclared]
  have hchain : ([0] : Cycle Slot).Chain (oneRuleDefined (.rule 0)).rules.Owns :=
    (Cycle.chain_singleton _ 0).2 ⟨.rule 0, rfl, List.mem_singleton_self 0⟩
  obtain ⟨halive, hdefinition⟩ := hdefined.cycle _ hchain _ (historyWithin_oneRuleDropped _) 0
    (List.mem_singleton_self 0)
  exact ⟨fun b hb => (hdropped.staysGone 0 (List.mem_singleton_self 0) b hb).still hdead, halive,
    _, ((hdefined.runsWeak 0 _ _).makes_iff _).2 ⟨halive, _, hdefinition, rfl, rfl⟩⟩

/-- At the limit a weak reference runs nothing, although its rule lives and has a definition. -/
theorem weak_at_limit :
    (oneRuleDefined (.succeed ())).Reachable leftRecursive ∧
    ¬((∃ c, Call.Makes leftRecursive
          ⟨.weak 0, ⟨.new (some 0), (oneRuleDefined (.succeed ())).rules, ()⟩, .start "a"⟩ c) ↔
        (oneRuleDefined (.succeed ())).rules.isAlive 0 = true ∧
          ∃ d, (oneRuleDefined (.succeed ())).rules.definition? 0 = some d) := by
  refine ⟨reachable_oneRuleDefined ⟨List.nil_subset _, trivial⟩, fun h => ?_⟩
  obtain ⟨c, hc⟩ := h.2 ⟨rfl, _, rfl⟩
  obtain ⟨d, -, hf, -⟩ := makes_weak_iff.1 hc
  exact absurd hf (by decide)

end TextMatch
