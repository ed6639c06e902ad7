import TextMatch.Matcher

namespace TextMatch

/-!
# Rules

The declared rules and their definitions.  A rule lives as long as something owns it: a holder
outside, or the definition of a rule that lives.  So a definition that owns its own rule keeps it
alive until the definition is taken away.

* `Rules` — the living rules, the holders, and the next free identity;
* `Rules.declare`, `Rules.define`, `Rules.undefine`, `Rules.hold`, `Rules.release` — the changes;
* `Rules.collect` — what follows a change: rules that nothing owns go, and with them their
  definitions, until every rule left is owned.
-/

/-- The declared rules. -/
structure Rules (S : Signature) where
  /-- The living rules, each with its definition if it has one. -/
  slots : List (Slot × Option (Matcher S S.Value))
  /-- The rules owned from outside, once for every owner. -/
  held : List Slot
  /-- The identity for the next rule; none is used twice. -/
  next : Slot
  /-- The number of definitions given or taken away so far. -/
  edits : Nat

namespace Rules

variable {S : Signature}

/-- No rules. -/
def empty : Rules S := ⟨[], [], 0, 0⟩

/-- What is known of a rule: nothing once it is gone, else its definition if it has one. -/
def lookup? (r : Rules S) (s : Slot) : Option (Option (Matcher S S.Value)) :=
  (r.slots.find? fun e => e.1 == s).map Prod.snd

/-- Whether a rule lives. -/
def isAlive (r : Rules S) (s : Slot) : Bool := (r.lookup? s).isSome

/-- The definition of a rule that lives and has one. -/
def definition? (r : Rules S) (s : Slot) : Option (Matcher S S.Value) := (r.lookup? s).join

/-! ### Ownership -/

/-- The rules owned by a definition. -/
def ownedBy (definition : Option (Matcher S S.Value)) : List Slot :=
  match definition with
  | some m => m.owned
  | none => []

/-- The rules that have an owner, once for every ownership. -/
def ownedSlots (r : Rules S) : List Slot := r.held ++ r.slots.flatMap fun e => ownedBy e.2

/-- The rules without those that have no owner. -/
def sweep (r : Rules S) : Rules S :=
  let owned := r.ownedSlots
  { r with slots := r.slots.filter fun e => owned.contains e.1 }

/-- Sweeps, at most a given number of them, until one removes nothing. -/
def sweepUntilStable : Nat → Rules S → Rules S
  | 0, r => r
  | n + 1, r =>
    let swept := r.sweep
    if swept.slots.length = r.slots.length then r else sweepUntilStable n swept

/-- The rules after every loss of an owner has had its consequences.  Every sweep but the last
    removes a rule, so there are no more of them than rules. -/
def collect (r : Rules S) : Rules S := sweepUntilStable r.slots.length r

/-- A rule has an owner exactly if it is held outside or a definition owns it. -/
theorem mem_ownedSlots {r : Rules S} {s : Slot} :
    s ∈ r.ownedSlots ↔ s ∈ r.held ∨ ∃ e ∈ r.slots, s ∈ ownedBy e.2 := by
  simp [ownedSlots]

/-- A sweep adds no rule. -/
theorem sweep_sublist (r : Rules S) : r.sweep.slots.Sublist r.slots := List.filter_sublist

/-- A sweep leaves the owners outside alone. -/
@[simp] theorem held_sweep (r : Rules S) : r.sweep.held = r.held := rfl

/-- Where every rule is owned a sweep removes none. -/
theorem sweep_eq_self {r : Rules S} (h : ∀ e ∈ r.slots, e.1 ∈ r.ownedSlots) : r.sweep = r := by
  have hall : r.slots.filter (fun e => r.ownedSlots.contains e.1) = r.slots := by
    rw [List.filter_eq_self]
    intro e he
    simpa using h e he
  show { r with slots := r.slots.filter fun e => r.ownedSlots.contains e.1 } = r
  rw [hall]

/-- Where every rule is owned nothing is collected. -/
theorem collect_eq_self {r : Rules S} (h : ∀ e ∈ r.slots, e.1 ∈ r.ownedSlots) :
    r.collect = r := by
  unfold collect
  cases r.slots.length with
  | zero => rfl
  | succ n => simp [sweepUntilStable, sweep_eq_self h]

/-! ### Changes -/

/-- A new rule without a definition, held by the one who asked for it. -/
def declare (r : Rules S) : Slot × Rules S :=
  (r.next,
    { r with slots := (r.next, none) :: r.slots, held := r.next :: r.held, next := r.next + 1 })

/-- More owners from outside. -/
def hold (r : Rules S) (slots : List Slot) : Rules S := { r with held := slots ++ r.held }

/-- Owners from outside let go, each of one ownership. -/
def release (r : Rules S) (slots : List Slot) : Rules S :=
  collect { r with held := slots.foldl List.erase r.held }

/-- The rules with the definition of one replaced. -/
def update (r : Rules S) (s : Slot) (definition : Option (Matcher S S.Value)) : Rules S :=
  collect { r with
    slots := r.slots.map fun e => if e.1 = s then (s, definition) else e
    edits := r.edits + 1 }

/-- Gives a rule a definition in place of the one it has. -/
def define (r : Rules S) (s : Slot) (definition : Matcher S S.Value) : Rules S :=
  r.update s (some definition)

/-- Takes the definition of a rule away. -/
def undefine (r : Rules S) (s : Slot) : Rules S := r.update s none

/-! ### Runs inside a definition -/

/-- The rules while a definition runs, which owns what it refers to even if it is taken away from
    its rule meanwhile. -/
def enter (r : Rules S) (frame : List Slot) : Rules S := r.hold frame

/-- The rules after such a run, which had begun with the rules `before`.  The run lets go of what
    it owned; that matters only if definitions have changed. -/
def leave (r before : Rules S) : Rules S :=
  if r.edits = before.edits then before else collect { r with held := before.held }

/-- A run that changed no definition leaves the rules as they were. -/
theorem leave_of_edits_eq {r before : Rules S} (h : r.edits = before.edits) :
    r.leave before = before := if_pos h

/-! ### What is found after a change -/

/-- After a sweep the rules with an owner are found as before, and no others. -/
theorem lookup?_sweep (r : Rules S) (s : Slot) :
    r.sweep.lookup? s = if s ∈ r.ownedSlots then r.lookup? s else none := by
  have hfind : (r.slots.filter fun e => r.ownedSlots.contains e.1).find? (·.1 == s) =
      if s ∈ r.ownedSlots then r.slots.find? (·.1 == s) else none := by
    induction r.slots with
    | nil => simp
    | cons e slots ih => grind
  show ((r.slots.filter fun e => r.ownedSlots.contains e.1).find? (·.1 == s)).map Prod.snd = _
  rw [hfind, apply_ite (Option.map Prod.snd)]
  rfl

/-- Collecting takes definitions away and brings none in. -/
theorem definition?_of_collect {r : Rules S} {s : Slot} {d : Matcher S S.Value}
    (h : r.collect.definition? s = some d) : r.definition? s = some d := by
  suffices hall : ∀ n (r : Rules S), (sweepUntilStable n r).definition? s = some d →
      r.definition? s = some d from hall _ r h
  intro n
  induction n with
  | zero => exact fun _ h => h
  | succ n ih =>
    intro r h
    simp only [sweepUntilStable] at h
    split at h
    case isTrue => exact h
    case isFalse =>
      have h := ih _ h
      rw [definition?, lookup?_sweep] at h
      split at h
      case isTrue => exact h
      case isFalse => cases h

/-- A definition found after an update is the new one or was found before. -/
theorem definition?_of_update {r : Rules S} {s other : Slot}
    {definition : Option (Matcher S S.Value)} {d : Matcher S S.Value}
    (h : (r.update s definition).definition? other = some d) :
    definition = some d ∨ r.definition? other = some d := by
  have hkeys : ((·.1 == other) ∘ fun e : Slot × Option (Matcher S S.Value) =>
      if e.1 = s then (s, definition) else e) = (·.1 == other) := by
    funext e
    grind
  have h := definition?_of_collect h
  rw [definition?, lookup?, List.find?_map, hkeys] at h
  rw [definition?, lookup?]
  cases he : r.slots.find? (·.1 == other) with
  | none => simp [he] at h
  | some e => grind

/-- A definition found after a run inside another one was found before it or at its end. -/
theorem definition?_of_leave {r before : Rules S} {s : Slot} {d : Matcher S S.Value}
    (h : (r.leave before).definition? s = some d) :
    before.definition? s = some d ∨ r.definition? s = some d := by
  unfold leave at h
  split at h
  case isTrue => exact .inl h
  case isFalse => exact .inr (definition?_of_collect (r := { r with held := before.held }) h)

end Rules

end TextMatch
