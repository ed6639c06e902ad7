import TextMatch.Proofs.Engine.Evaluation

namespace TextMatch

/-!
# What a matcher reaches

The nodes of a tree, of the definitions it refers to, of those that these refer to, and so on.
This is a matter of syntax: nothing is run, and a continuation is taken to lead everywhere its
values could lead.

* `Grammar` — what the names and the rules stand for;
* `Matcher.Reaches` — a node of some kind is reached;
* `Matcher.Reads`, `Matcher.Writes`, `Matcher.Edits` — the names of captures that are looked up and
  those that are put into the table, and changes of definitions;
* `not_reaches` — what no tree contains is not reached, however the definitions refer to each
  other.
-/

variable {S : Signature} {P ω α : Type}

/-- What names and rules stand for. -/
structure Grammar (S : Signature) where
  named : (name : S.Name) → Matcher S (S.Yield name)
  ruled : Slot → Option (Matcher S S.Value)

/-- The definitions that a run finds in a state. -/
def State.grammar (host : Host S P ω) (st : State S P ω) : Grammar S :=
  ⟨host.definition, st.rules.definition?⟩

namespace Matcher

/-- A kind of nodes. -/
abbrev Kind (S : Signature) := (α : Type) → Matcher S α → Prop

/-- A node of the kind is in the tree, or in a definition that the tree leads to. -/
inductive Reaches (g : Grammar S) (kind : Kind S) : {α : Type} → Matcher S α → Prop where
  | here {α : Type} {m : Matcher S α} (h : kind α m) : Reaches g kind m
  | map {α β : Type} {f : α → β} {m} (h : Reaches g kind m) : Reaches g kind (.map f m)
  | flatMap {α β : Type} {m : Matcher S α} {holds} {next : α → Matcher S β}
      (h : Reaches g kind m) : Reaches g kind (.flatMap m holds next)
  | flatMapNext {α β : Type} {m : Matcher S α} {holds} {next : α → Matcher S β} (v : α)
      (h : Reaches g kind (next v)) : Reaches g kind (.flatMap m holds next)
  | seq {α β : Type} {a : Matcher S α} {b : Matcher S β} (h : Reaches g kind a) :
      Reaches g kind (.seq a b)
  | seqNext {α β : Type} {a : Matcher S α} {b : Matcher S β} (h : Reaches g kind b) :
      Reaches g kind (.seq a b)
  | choice {α : Type} {a b : Matcher S α} (h : Reaches g kind a) : Reaches g kind (.choice a b)
  | choiceElse {α : Type} {a b : Matcher S α} (h : Reaches g kind b) :
      Reaches g kind (.choice a b)
  | many {α : Type} {m : Matcher S α} (h : Reaches g kind m) : Reaches g kind (.many m)
  -- It runs the repetition too, behind its first match.
  | many1 {α : Type} {m : Matcher S α} (h : Reaches g kind (.many m)) : Reaches g kind (.many1 m)
  | optional {α : Type} {m : Matcher S α} (h : Reaches g kind m) : Reaches g kind (.optional m)
  | not {α : Type} {m : Matcher S α} (h : Reaches g kind m) : Reaches g kind (.not m)
  | guard {α : Type} {m : Matcher S α} (h : Reaches g kind m) : Reaches g kind (.guard m)
  | capture {α : Type} {name} {m : Matcher S α} (h : Reaches g kind m) :
      Reaches g kind (.capture name m)
  | shared {α : Type} {holds} {m : Matcher S α} (h : Reaches g kind m) :
      Reaches g kind (.shared holds m)
  | defer {name : S.Name} (h : Reaches g kind (g.named name)) : Reaches g kind (.defer name)
  | rule {s m} (hd : g.ruled s = some m) (h : Reaches g kind m) : Reaches g kind (.rule s)
  | weak {s m} (hd : g.ruled s = some m) (h : Reaches g kind m) : Reaches g kind (.weak s)

/-- What a definition reaches a reference to it does. -/
theorem reaches_of_refers {host : Host S P ω} {st : State S P ω} {kind : Kind S}
    {m definition : Matcher S α} {frame : List Slot}
    (href : Refers host st.rules m frame definition)
    (h : definition.Reaches (st.grammar host) kind) : m.Reaches (st.grammar host) kind := by
  cases href with
  | defer => exact .defer h
  | rule hd => exact .rule hd h
  | weak hd => exact .weak hd h

section

variable {g : Grammar S} {kind kind' : Kind S} {m : Matcher S α}

/-- Something is of the kind that is reached. -/
theorem Reaches.exists_kind (h : m.Reaches g kind) : ∃ α m, kind α m := by
  induction h with
  | here h => exact ⟨_, _, h⟩
  | map _ ih | flatMap _ ih | flatMapNext _ _ ih | seq _ ih | seqNext _ ih | choice _ ih
  | choiceElse _ ih | many _ ih | many1 _ ih | optional _ ih | not _ ih | guard _ ih
  | capture _ ih | shared _ ih | defer _ ih | rule _ _ ih | weak _ _ ih => exact ih

/-- What is reached is reached as a node of any wider kind. -/
theorem Reaches.mono (hkind : ∀ α m, kind α m → kind' α m) (h : m.Reaches g kind) :
    m.Reaches g kind' := by
  induction h with
  | here h => exact .here (hkind _ _ h)
  | map _ ih => exact .map ih
  | flatMap _ ih => exact .flatMap ih
  | flatMapNext v _ ih => exact .flatMapNext v ih
  | seq _ ih => exact .seq ih
  | seqNext _ ih => exact .seqNext ih
  | choice _ ih => exact .choice ih
  | choiceElse _ ih => exact .choiceElse ih
  | many _ ih => exact .many ih
  | many1 _ ih => exact .many1 ih
  | optional _ ih => exact .optional ih
  | not _ ih => exact .not ih
  | guard _ ih => exact .guard ih
  | capture _ ih => exact .capture ih
  | shared _ ih => exact .shared ih
  | defer _ ih => exact .defer ih
  | rule hd _ ih => exact .rule hd ih
  | weak hd _ ih => exact .weak hd ih

end

/-! ### Kinds of nodes -/

/-- The text under a name. -/
def IsBackref (name : String) : Kind S
  | _, .backref name' => name' = name
  | _, _ => False

/-- A capture under a name. -/
def IsCapture (name : String) : Kind S
  | _, .capture name' _ => name' = name
  | _, _ => False

/-- A change of a definition. -/
def IsEdit : Kind S
  | _, .define _ _ | _, .undefine _ => True
  | _, _ => False

/-- The text under the name is looked up somewhere. -/
def Reads (m : Matcher S α) (g : Grammar S) (name : String) : Prop := m.Reaches g (IsBackref name)

/-- A span is put under the name somewhere. -/
def Writes (m : Matcher S α) (g : Grammar S) (name : String) : Prop := m.Reaches g (IsCapture name)

/-- A definition is changed somewhere. -/
def Edits (m : Matcher S α) (g : Grammar S) : Prop := m.Reaches g IsEdit

/-! ### What is not reached -/

/-- No node of the tree itself is of the kind; references lead out of the tree. -/
def Lacks (kind : Kind S) : {α : Type} → Matcher S α → Prop
  | _, .map f m => ¬kind _ (.map f m) ∧ m.Lacks kind
  | _, .flatMap m holds next =>
    ¬kind _ (.flatMap m holds next) ∧ m.Lacks kind ∧ ∀ v, (next v).Lacks kind
  | _, .seq a b => ¬kind _ (.seq a b) ∧ a.Lacks kind ∧ b.Lacks kind
  | _, .choice a b => ¬kind _ (.choice a b) ∧ a.Lacks kind ∧ b.Lacks kind
  | _, .many m => ¬kind _ (.many m) ∧ m.Lacks kind
  | _, .many1 m => ¬kind _ (.many1 m) ∧ ¬kind _ (.many m) ∧ m.Lacks kind
  | _, .optional m => ¬kind _ (.optional m) ∧ m.Lacks kind
  | _, .not m => ¬kind _ (.not m) ∧ m.Lacks kind
  | _, .guard m => ¬kind _ (.guard m) ∧ m.Lacks kind
  | _, .capture name m => ¬kind _ (.capture name m) ∧ m.Lacks kind
  | _, .shared holds m => ¬kind _ (.shared holds m) ∧ m.Lacks kind
  | _, m => ¬kind _ m

/-- A tree without nodes of a kind is not of the kind itself. -/
theorem Lacks.not_kind {kind : Kind S} {m : Matcher S α} (h : m.Lacks kind) : ¬kind α m := by
  cases m with
  | map | flatMap | seq | choice | many | many1 | optional | not | guard | capture | shared =>
    exact h.1
  | _ => exact h

/-- **What is nowhere is not reached.** If neither a tree nor any definition contains a node of a
    kind, then none is reached from the tree. -/
theorem not_reaches {g : Grammar S} {kind : Kind S} {m : Matcher S α} (hm : m.Lacks kind)
    (hnamed : ∀ name, (g.named name).Lacks kind)
    (hruled : ∀ s d, g.ruled s = some d → d.Lacks kind) : ¬m.Reaches g kind := by
  intro h
  induction h with
  | here h => exact hm.not_kind h
  | map _ ih | many _ ih | many1 _ ih | optional _ ih | not _ ih | guard _ ih | capture _ ih
  | shared _ ih => exact ih hm.2
  | flatMap _ ih | seq _ ih | choice _ ih => exact ih hm.2.1
  | flatMapNext v _ ih => exact ih (hm.2.2 v)
  | seqNext _ ih | choiceElse _ ih => exact ih hm.2.2
  | defer _ ih => exact ih (hnamed _)
  | rule hd _ ih | weak hd _ ih => exact ih (hruled _ _ hd)

end Matcher

end TextMatch
