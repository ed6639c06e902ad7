import Mathlib.Data.Fintype.Card
import Mathlib.Data.Set.Finite.List
import Mathlib.Order.WellFounded
import TextMatch.Proofs.Engine.Nesting

namespace TextMatch

/-!
# Owners of rules

A rule lives as long as it has an owner, outside or in the definition of a rule that lives.  Every
change of the rules leaves them so.

* `Matcher.OwnsWithin`, `Matcher.ListsOwned` — all the references by which a tree owns rules are
  among given ones, or among those that it lists itself;
* `Rules.Consistent` — what is owned lives; `Rules.Settled` — and what lives is owned;
* `Rules.Settled.isAlive_iff_rooted` — what lives is kept alive from outside or by a cycle;
* `Rules.collect_induction` — what every sweep keeps, collecting keeps;
* `Rules.Settled.declare`, `hold`, `release`, `update`, `leave` — one lemma for each change;
* `Rules.Keeps` — what the parts of all changes keep; `Rules.keeps_gone`,
  `Rules.keeps_definitions` — rules that are gone, and rules that own each other.

A continuation is a function, and the rules it owns cannot be read off it.  So a tree lists them,
and only of trees whose lists are complete can it be said what they keep alive.
-/

variable {S : Signature} {P ω α : Type}

/-! ### What a tree owns -/

namespace Matcher

/-- Every reference by which a tree or one of its continuations owns a rule is to one of the rules
    `kept`.  A definition that the tree gives lists its own. -/
def OwnsWithin (host : Host S P ω) : {α : Type} → Matcher S α → List Slot → Prop
  | _, .map _ m, kept => m.OwnsWithin host kept
  | _, .flatMap m _ next, kept => m.OwnsWithin host kept ∧ ∀ v, (next v).OwnsWithin host kept
  | _, .seq a b, kept => a.OwnsWithin host kept ∧ b.OwnsWithin host kept
  | _, .choice a b, kept => a.OwnsWithin host kept ∧ b.OwnsWithin host kept
  | _, .many m, kept => m.OwnsWithin host kept
  | _, .many1 m, kept => m.OwnsWithin host kept
  | _, .optional m, kept => m.OwnsWithin host kept
  | _, .not m, kept => m.OwnsWithin host kept
  | _, .guard m, kept => m.OwnsWithin host kept
  | _, .capture _ m, kept => m.OwnsWithin host kept
  | _, .shared _ m, kept => m.OwnsWithin host kept
  | _, .defer name, kept => (host.definition name).owned ⊆ kept
  | _, .rule s, kept => s ∈ kept
  | _, .undefine s, kept => s ∈ kept
  | _, .define s m, kept => s ∈ kept ∧ m.owned ⊆ kept ∧ m.OwnsWithin host m.owned
  | _, .satisfy _, _ | _, .literal _, _ | _, .atStart, _ | _, .atEnd, _ | _, .behind _, _
  | _, .succeed _, _ | _, .fail, _ | _, .backref _, _ | _, .weak _, _ | _, .hook _, _ => True

/-- The list of a tree is complete. -/
def ListsOwned (host : Host S P ω) (m : Matcher S α) : Prop := m.OwnsWithin host m.owned

/-- All the references by which the tree owns rules are copies of given ones, and it lists them. -/
structure BuiltFrom (host : Host S P ω) (m : Matcher S α) (kept : List Slot) : Prop where
  owned : m.owned ⊆ kept
  lists : m.ListsOwned host

end Matcher

/-- The definitions of all names list what they own. -/
def Host.ListsOwned (host : Host S P ω) : Prop := ∀ name, (host.definition name).ListsOwned host

/-! ### Rules that are owned -/

namespace Rules

open Relation (ReflTransGen TransGen)

variable {r before : Rules S} {s u : Slot}

/-- The rules that live. -/
def living (r : Rules S) : List Slot := r.slots.map Prod.fst

/-- The definition of a rule that lives owns another rule. -/
def Owns (r : Rules S) (u s : Slot) : Prop := ∃ d, r.definition? u = some d ∧ s ∈ d.owned

/-- Every rule is there once, and what is owned lives. -/
structure Consistent (host : Host S P ω) (r : Rules S) : Prop where
  nodup : r.living.Nodup
  lt_next : ∀ s ∈ r.living, s < r.next
  owned_living : r.ownedSlots ⊆ r.living
  lists : ∀ s d, (s, some d) ∈ r.slots → d.ListsOwned host

/-- What lives is owned too. -/
structure Settled (host : Host S P ω) (r : Rules S) : Prop extends Consistent host r where
  living_owned : r.living ⊆ r.ownedSlots

/-- To be alive is to stand in the list, with a definition or without one. -/
theorem isAlive_iff : r.isAlive s = true ↔ s ∈ r.living := by
  simp [isAlive, lookup?, living]

/-- A rule that is found stands in the list. -/
theorem mem_slots_of_lookup? {d : Option (Matcher S S.Value)} (h : r.lookup? s = some d) :
    (s, d) ∈ r.slots := by
  obtain ⟨e, he, rfl⟩ := Option.map_eq_some_iff.1 h
  obtain rfl : e.1 = s := by simpa using List.find?_some he
  exact List.mem_of_find?_eq_some he

/-- A definition that is found stands in the list beside its rule. -/
theorem mem_slots_of_definition? {d : Matcher S S.Value} (h : r.definition? s = some d) :
    (s, some d) ∈ r.slots := mem_slots_of_lookup? (Option.join_eq_some_iff.1 h)

/-- Only rules that live have a definition. -/
theorem mem_living_of_definition? {d : Matcher S S.Value} (h : r.definition? s = some d) :
    s ∈ r.living := List.mem_map_of_mem (mem_slots_of_definition? h)

/-- A rule has to live for its definition to own anything. -/
theorem Owns.isAlive (h : r.Owns u s) : r.isAlive u = true := by
  obtain ⟨d, hd, -⟩ := h
  exact isAlive_iff.2 (mem_living_of_definition? hd)

/-- Being owned by a definition is one of the two ways to have an owner. -/
theorem mem_ownedSlots_of_owns (h : r.Owns u s) : s ∈ r.ownedSlots := by
  obtain ⟨d, hd, hs⟩ := h
  exact mem_ownedSlots.2 (.inr ⟨(u, some d), mem_slots_of_definition? hd, hs⟩)

/-- Where every rule is there once, the list has only what is found. -/
theorem definition?_of_mem_slots (hnodup : r.living.Nodup) {d : Matcher S S.Value}
    (h : (s, some d) ∈ r.slots) : r.definition? s = some d := by
  have hfind : r.slots.find? (fun e => e.1 == s) = some (s, some d) := by
    unfold living at hnodup
    generalize r.slots = slots at hnodup h
    -- By induction on the list: the first entry with the slot is the only one, because no slot
    -- stands in it twice.
    induction slots with
    | nil => cases h
    | cons e slots ih =>
      rw [List.map_cons, List.nodup_cons] at hnodup
      obtain rfl | h := List.mem_cons.1 h
      · simp
      · have hne : e.1 ≠ s := by
          rintro rfl
          exact hnodup.1 (List.mem_map.2 ⟨_, h, rfl⟩)
        simp [hne, ih hnodup.2 h]
  simp [definition?, lookup?, hfind]

/-- The owners of a rule are outside, or they are definitions that can be found. -/
theorem Consistent.mem_ownedSlots_iff {host : Host S P ω} (h : r.Consistent host) :
    s ∈ r.ownedSlots ↔ s ∈ r.held ∨ ∃ u, r.Owns u s := by
  constructor
  · intro hs
    obtain hs | ⟨⟨u, definition⟩, he, hs⟩ := mem_ownedSlots.1 hs
    · exact .inl hs
    · cases definition with
      | none => cases hs
      | some d => exact .inr ⟨u, d, definition?_of_mem_slots h.nodup he, hs⟩
  · -- Both kinds of owners stand in the list of all that is owned.
    rintro (hs | ⟨u, hu⟩)
    · exact mem_ownedSlots.2 (.inl hs)
    · exact mem_ownedSlots_of_owns hu

/-- **What lives is what is owned.** -/
theorem Settled.isAlive_iff {host : Host S P ω} (h : r.Settled host) :
    r.isAlive s = true ↔ s ∈ r.held ∨ ∃ u, r.Owns u s := by
  rw [Rules.isAlive_iff, ← h.mem_ownedSlots_iff]
  exact ⟨fun hs => h.living_owned hs, fun hs => h.owned_living hs⟩

/-! ### Rules kept alive by others -/

/-- Rules that each have an owner among them cannot all be owned by others: some own themselves,
    through the definitions of others if not at once. -/
theorem exists_transGen_self {slots : List Slot} (hs : s ∈ slots)
    (h : ∀ s ∈ slots, ∃ u ∈ slots, r.Owns u s) : ∃ u ∈ slots, TransGen r.Owns u u := by
  -- Without a cycle, going from rule to owner would come to an end among finitely many rules, at
  -- one that has no owner.
  by_contra! hno
  have hwf : WellFounded fun x y : {u // u ∈ slots} => TransGen r.Owns x.1 y.1 := by
    have : Finite {u // u ∈ slots} := (List.finite_toSet slots).to_subtype
    have : IsTrans {u // u ∈ slots} fun x y => TransGen r.Owns x.1 y.1 :=
      ⟨fun _ _ _ => TransGen.trans⟩
    have : Std.Irrefl fun x y : {u // u ∈ slots} => TransGen r.Owns x.1 y.1 :=
      ⟨fun u => hno u.1 u.2⟩
    exact Finite.wellFounded_of_trans_of_irrefl _
  obtain ⟨s, -, hmin⟩ := hwf.has_min Set.univ ⟨⟨s, hs⟩, trivial⟩
  obtain ⟨u, hu, howns⟩ := h s.1 s.2
  exact hmin ⟨u, hu⟩ trivial (.single howns)

/-- Kept alive by an owner outside or by a cycle of definitions, at once or
    through the definitions of others. -/
def Rooted (r : Rules S) (s : Slot) : Prop :=
  ∃ u, (u ∈ r.held ∨ TransGen r.Owns u u) ∧ ReflTransGen r.Owns u s

/-- What a rooted rule owns is rooted as well. -/
theorem Rooted.tail (h : r.Rooted u) (hs : r.Owns u s) : r.Rooted s := by
  obtain ⟨w, hw, hwu⟩ := h
  exact ⟨w, hw, hwu.tail hs⟩

/-- **What lives is what owners outside and cycles keep alive.** -/
theorem Settled.isAlive_iff_rooted {host : Host S P ω} (h : r.Settled host) :
    r.isAlive s = true ↔ r.Rooted s := by
  classical
  constructor
  · intro hs
    by_contra hno
    -- Otherwise the owner of such a rule is one itself, and so they come round in a cycle.
    have howner : ∀ s ∈ r.living.filter (¬ r.Rooted ·),
        ∃ u ∈ r.living.filter (¬ r.Rooted ·), r.Owns u s := by
      intro s hs
      obtain ⟨hliving, hno⟩ := by simpa using hs
      obtain hheld | ⟨u, hu⟩ := h.isAlive_iff.1 (Rules.isAlive_iff.2 hliving)
      · exact absurd ⟨s, .inl hheld, .refl⟩ hno
      · have huliving : u ∈ r.living := by
          obtain ⟨d, hd, -⟩ := hu
          exact mem_living_of_definition? hd
        exact ⟨u, by simpa using ⟨huliving, fun hr => hno (hr.tail hu)⟩, hu⟩
    obtain ⟨u, hu, hcycle⟩ :=
      exists_transGen_self (by simpa using ⟨Rules.isAlive_iff.1 hs, hno⟩) howner
    obtain ⟨-, huno⟩ := by simpa using hu
    exact huno ⟨u, .inr hcycle, .refl⟩
  · rintro ⟨u, hu, hus⟩
    have halive : r.isAlive u = true := by
      obtain hu | hu := hu
      · exact h.isAlive_iff.2 (.inl hu)
      · obtain ⟨w, -, hw⟩ := TransGen.tail'_iff.1 hu
        exact h.isAlive_iff.2 (.inr ⟨w, hw⟩)
    induction hus with
    | refl => exact halive
    | tail _ hw _ => exact h.isAlive_iff.2 (.inr ⟨_, hw⟩)

/-! ### Collecting -/

/-- What every sweep keeps, any number of them keeps. -/
theorem sweepUntilStable_induction {motive : Rules S → Prop}
    (hsweep : ∀ r, motive r → motive r.sweep) (n : Nat) (h : motive r) :
    motive (sweepUntilStable n r) := by
  induction n generalizing r with
  | zero => exact h
  | succ n ih =>
    simp only [sweepUntilStable]
    split
    · exact h
    · exact ih (hsweep r h)

/-- What every sweep keeps is kept by all of them together, however many there are. -/
theorem collect_induction {motive : Rules S → Prop} (hsweep : ∀ r, motive r → motive r.sweep)
    (h : motive r) : motive r.collect := sweepUntilStable_induction hsweep _ h

/-- Collecting takes rules away, and no owners outside. -/
@[simp] theorem held_collect (r : Rules S) : r.collect.held = r.held :=
  collect_induction (motive := fun r' => r'.held = r.held) (fun _ h => h) rfl

/-- A sweep brings no rule back to life. -/
theorem living_sweep_sublist (r : Rules S) : r.sweep.living.Sublist r.living :=
  (sweep_sublist r).map Prod.fst

/-- Enough sweeps lead to rules that all have an owner. -/
theorem living_sweepUntilStable {n : Nat} (h : r.slots.length ≤ n) :
    (sweepUntilStable n r).living ⊆ (sweepUntilStable n r).ownedSlots := by
  induction n generalizing r with
  | zero =>
    have hnil : r.slots = [] := List.length_eq_zero_iff.1 (Nat.le_zero.1 h)
    simp [sweepUntilStable, living, hnil]
  | succ n ih =>
    have hle : r.sweep.slots.length ≤ r.slots.length := (sweep_sublist r).length_le
    simp only [sweepUntilStable]
    split
    case isTrue heq =>
      -- This sweep has removed nothing, so every rule passed its test.
      have hsame : r.sweep.slots = r.slots := (sweep_sublist r).eq_of_length heq
      have hall := List.filter_eq_self.1 hsame
      intro s hs
      obtain ⟨e, he, rfl⟩ := List.mem_map.1 hs
      simpa using hall e he
    case isFalse hne => exact ih (by omega)

/-- What is left in the end has an owner: otherwise the last sweep would have removed it. -/
theorem living_collect (r : Rules S) : r.collect.living ⊆ r.collect.ownedSlots :=
  living_sweepUntilStable (Nat.le_refl _)

variable {host : Host S P ω}

/-- A sweep takes no rule away that is owned behind it. -/
theorem Consistent.sweep (h : r.Consistent host) : r.sweep.Consistent host where
  nodup := h.nodup.sublist (living_sweep_sublist r)
  lt_next s hs := h.lt_next s ((living_sweep_sublist r).subset hs)
  owned_living := by
    intro s hs
    -- What is owned after the sweep was so before, and so it was not removed.
    have hs : s ∈ r.ownedSlots := by
      obtain hs | ⟨e, he, hs⟩ := mem_ownedSlots.1 hs
      · exact mem_ownedSlots.2 (.inl hs)
      · exact mem_ownedSlots.2 (.inr ⟨e, (sweep_sublist r).subset he, hs⟩)
    obtain ⟨e, he, rfl⟩ := List.mem_map.1 (h.owned_living hs)
    exact List.mem_map_of_mem (List.mem_filter.2 ⟨he, by simpa using hs⟩)
  lists s d hd := h.lists s d ((sweep_sublist r).subset hd)

/-- **Collecting settles.** -/
theorem Consistent.collect (h : r.Consistent host) : r.collect.Settled host where
  toConsistent := collect_induction (motive := Consistent host) (fun _ h => h.sweep) h
  living_owned := living_collect r

/-! ### Changes -/

/-- The rules with another definition for one of them, before anything is collected. -/
def replace (r : Rules S) (s : Slot) (definition : Option (Matcher S S.Value)) : Rules S :=
  { r with
    slots := r.slots.map fun e => if e.1 = s then (s, definition) else e
    edits := r.edits + 1 }

/-- Collecting is a consequence of a change, and not a change of its own. -/
@[simp] theorem edits_collect (r : Rules S) : r.collect.edits = r.edits :=
  collect_induction (motive := fun r' => r'.edits = r.edits) (fun _ h => h) rfl

/-- Every update counts as one change, also one that gives the same definition again. -/
@[simp] theorem edits_update (r : Rules S) (s : Slot) (definition : Option (Matcher S S.Value)) :
    (r.update s definition).edits = r.edits + 1 := edits_collect (r.replace s definition)

/-- An update leaves the owners outside as they are. -/
@[simp] theorem held_update (r : Rules S) (s : Slot) (definition : Option (Matcher S S.Value)) :
    (r.update s definition).held = r.held := held_collect (r.replace s definition)

/-- No slot is given out by replacing a definition. -/
@[simp] theorem next_replace (r : Rules S) (s : Slot) (definition : Option (Matcher S S.Value)) :
    (r.replace s definition).next = r.next := rfl

/-- The rule that gets another definition lives on, like all others. -/
@[simp] theorem living_replace (r : Rules S) (s : Slot)
    (definition : Option (Matcher S S.Value)) : (r.replace s definition).living = r.living := by
  rw [living, replace, List.map_map]
  refine List.map_congr_left fun e _ => ?_
  by_cases he : e.1 = s <;> simp [he]

/-- Behind a reference as many definitions have been changed as at the end of what it stands for. -/
@[simp] theorem edits_leave (r before : Rules S) : (r.leave before).edits = r.edits := by
  unfold leave
  split
  case isTrue h => exact h.symm
  case isFalse => exact edits_collect { r with held := before.held }

/-- Owners that let go of what they have leave the others. -/
theorem held_release_perm {slots rest : List Slot} (h : r.held.Perm (slots ++ rest)) :
    (r.release slots).held.Perm rest := by
  rw [release, held_collect]
  show (slots.foldl List.erase r.held).Perm rest
  generalize r.held = held at h
  induction slots generalizing held with
  | nil => exact h
  | cons s slots ih => exact ih _ (by simpa using h.erase s)

/-- Other owners outside, of rules that live. -/
theorem Consistent.withHeld (h : r.Consistent host) {held : List Slot} (hheld : held ⊆ r.living) :
    Consistent host { r with held := held } where
  nodup := h.nodup
  lt_next := h.lt_next
  owned_living := by
    intro s hs
    obtain hs | ⟨e, he, hs⟩ := mem_ownedSlots.1 hs
    · exact hheld hs
    · exact h.owned_living (mem_ownedSlots.2 (.inr ⟨e, he, hs⟩))
  lists := h.lists

/-- What is owned from outside lives. -/
theorem Consistent.held_living (h : r.Consistent host) : r.held ⊆ r.living :=
  fun _ hs => h.owned_living (mem_ownedSlots.2 (.inl hs))

/-- Where nothing has been declared, nothing lives and nothing is owned. -/
theorem settled_empty : (empty : Rules S).Settled host where
  nodup := List.nodup_nil
  lt_next := nofun
  owned_living := List.Subset.refl _
  lists := nofun
  living_owned := List.Subset.refl _

namespace Settled

/-- More owners for rules that live keep everything in order. -/
theorem hold (h : r.Settled host) {slots : List Slot} (hslots : slots ⊆ r.living) :
    (r.hold slots).Settled host where
  toConsistent := h.withHeld (List.append_subset.2 ⟨hslots, h.held_living⟩)
  living_owned := by
    intro s hs
    obtain hs | hs := mem_ownedSlots.1 (h.living_owned hs)
    · exact mem_ownedSlots.2 (.inl (List.mem_append_right slots hs))
    · exact mem_ownedSlots.2 (.inr hs)

/-- Letting go may leave rules without an owner, and collecting removes these. -/
theorem release (h : r.Settled host) (slots : List Slot) : (r.release slots).Settled host := by
  have hsubset : slots.foldl List.erase r.held ⊆ r.held :=
    List.diff_eq_foldl r.held slots ▸ List.diff_subset r.held slots
  exact (h.withHeld (List.Subset.trans hsubset h.held_living)).collect

/-- Where nothing is let go nothing is collected. -/
theorem release_nil (h : r.Settled host) : r.release [] = r :=
  collect_eq_self fun _ he => h.living_owned (List.mem_map_of_mem he)

/-- A new rule has a slot of its own, and one owner, the one who asked for it. -/
theorem declare (h : r.Settled host) : r.declare.2.Settled host where
  nodup := by
    refine List.nodup_cons.2 ⟨fun hs => ?_, h.nodup⟩
    exact Nat.lt_irrefl _ (h.lt_next _ hs)
  lt_next s hs := by
    obtain rfl | hs := List.mem_cons.1 hs
    · exact Nat.lt_succ_self _
    · exact Nat.lt_succ_of_lt (h.lt_next s hs)
  owned_living := by
    intro s hs
    obtain hs | ⟨e, he, hs⟩ := mem_ownedSlots.1 hs
    · obtain rfl | hs := List.mem_cons.1 hs
      · exact List.mem_cons_self ..
      · exact List.mem_cons_of_mem _ (h.held_living hs)
    · obtain rfl | he := List.mem_cons.1 he
      · cases hs
      · exact List.mem_cons_of_mem _ (h.owned_living (mem_ownedSlots.2 (.inr ⟨e, he, hs⟩)))
  lists s d hd := by
    obtain heq | hd := List.mem_cons.1 hd
    · cases heq
    · exact h.lists s d hd
  living_owned := by
    intro s hs
    obtain rfl | hs := List.mem_cons.1 hs
    · exact mem_ownedSlots.2 (.inl (List.mem_cons_self ..))
    · obtain hs | ⟨e, he, hs⟩ := mem_ownedSlots.1 (h.living_owned hs)
      · exact mem_ownedSlots.2 (.inl (List.mem_cons_of_mem _ hs))
      · exact mem_ownedSlots.2 (.inr ⟨e, List.mem_cons_of_mem _ he, hs⟩)

/-- A definition that is given has to own rules that live, and to list them. -/
theorem update (h : r.Settled host) (s : Slot) (definition : Option (Matcher S S.Value))
    (howned : ownedBy definition ⊆ r.living) (hlists : ∀ d ∈ definition, d.ListsOwned host) :
    (r.update s definition).Settled host := by
  -- It is enough that all is consistent in front of collecting, where some rules
  -- may have no owner any more.
  refine Consistent.collect (r := r.replace s definition) ⟨?_, ?_, ?_, ?_⟩
  · exact living_replace r s definition ▸ h.nodup
  · exact living_replace r s definition ▸ h.lt_next
  · rw [living_replace]
    intro u hu
    obtain hu | ⟨e', he', hu⟩ := mem_ownedSlots.1 hu
    · exact h.held_living hu
    · obtain ⟨e, he, rfl⟩ := List.mem_map.1 he'
      split at hu
      · exact howned hu
      · exact h.owned_living (mem_ownedSlots.2 (.inr ⟨e, he, hu⟩))
  · intro u d hd
    obtain ⟨e, he, heq⟩ := List.mem_map.1 hd
    split at heq
    · exact hlists d (Prod.mk.inj heq).2
    · exact h.lists u d (heq ▸ he)

/-- Behind a reference the owners are those in front of it. -/
theorem leave (h : r.Settled host) (hbefore : before.Settled host) {frame : List Slot}
    (hheld : r.held = frame ++ before.held) :
    (r.leave before).Settled host ∧ (r.leave before).held = before.held := by
  unfold Rules.leave
  split
  · exact ⟨hbefore, rfl⟩
  · have hsubset : before.held ⊆ r.living := by
      intro s hs
      exact h.held_living (hheld ▸ List.mem_append_right frame hs)
    exact ⟨(h.withHeld hsubset).collect, by simp⟩

end Settled

/-! ### What changes keep -/

/-- What is kept when rules are declared and swept away, when their owners outside come and go, and
    when one of some rules gets another definition. -/
structure Keeps (I : Rules S → Prop) (changed : Slot → Prop) : Prop where
  declare : ∀ {r}, I r → I r.declare.2
  sweep : ∀ {r}, I r → I r.sweep
  withHeld : ∀ {r} held, I r → I { r with held := held }
  replace : ∀ {r s} definition, changed s → I r → I (r.replace s definition)

namespace Keeps

variable {I : Rules S → Prop} {changed : Slot → Prop}

/-- What sweeps keep is kept by collecting. -/
theorem collect (hI : Keeps I changed) (h : I r) : I r.collect :=
  collect_induction (fun _ h => hI.sweep h) h

/-- Who owns rules from outside does not matter to what is kept. -/
theorem hold (hI : Keeps I changed) (h : I r) (slots : List Slot) : I (r.hold slots) :=
  hI.withHeld _ h

/-- Letting go of rules is a change of owners and then a number of sweeps. -/
theorem release (hI : Keeps I changed) (h : I r) (slots : List Slot) : I (r.release slots) :=
  hI.collect (hI.withHeld _ h)

/-- A definition may be replaced where a change is allowed. -/
theorem update (hI : Keeps I changed) (h : I r) (hs : changed s)
    (definition : Option (Matcher S S.Value)) : I (r.update s definition) :=
  hI.collect (hI.replace definition hs h)

/-- Leaving a definition goes back to what was before or lets go of what was owned. -/
theorem leave (hI : Keeps I changed) (hbefore : I before) (h : I r) : I (r.leave before) := by
  unfold Rules.leave
  split
  · exact hbefore
  · exact hI.collect (hI.withHeld _ h)

end Keeps

/-- No identity is given back. -/
theorem keeps_le_next (n : Slot) : Keeps (S := S) (n ≤ ·.next) fun _ => True where
  declare h := Nat.le_succ_of_le h
  sweep h := h
  withHeld _ h := h
  replace _ _ h := h

/-- The rule has been declared, and lives no longer. -/
def Gone (r : Rules S) (s : Slot) : Prop := s < r.next ∧ r.isAlive s = false

/-- A rule is gone if its slot has been given out and is not in the list. -/
theorem gone_iff : r.Gone s ↔ s < r.next ∧ s ∉ r.living := by
  rw [Gone, Bool.eq_false_iff, Ne, isAlive_iff]

/-- **What is gone stays so**, whatever definitions are changed. -/
theorem keeps_gone (s : Slot) : Keeps (S := S) (Gone · s) fun _ => True where
  declare h := by
    -- The slot that is given out next is another one.
    obtain ⟨hlt, hs⟩ := gone_iff.1 h
    refine gone_iff.2 ⟨Nat.lt_succ_of_lt hlt, fun hmem => ?_⟩
    obtain rfl | hmem := List.mem_cons.1 hmem
    · exact Nat.lt_irrefl _ hlt
    · exact hs hmem
  sweep {r} h := by
    obtain ⟨hlt, hs⟩ := gone_iff.1 h
    exact gone_iff.2 ⟨hlt, fun hmem => hs ((living_sweep_sublist r).subset hmem)⟩
  withHeld _ h := h
  replace _ _ h := by simpa [gone_iff] using h

/-- A sweep leaves the definition of a rule that has an owner. -/
theorem definition?_sweep_of_owned (h : s ∈ r.ownedSlots) :
    r.sweep.definition? s = r.definition? s := by
  rw [definition?, definition?, lookup?_sweep, if_pos h]

/-- A new rule stands beside the old ones, in a slot that none of them has. -/
theorem definition?_declare (h : s < r.next) : r.declare.2.definition? s = r.definition? s := by
  have hne : r.next ≠ s := Nat.ne_of_gt h
  simp [definition?, lookup?, declare, hne]

/-- The definitions of other rules stay. -/
theorem definition?_replace (h : s ≠ u) (definition : Option (Matcher S S.Value)) :
    (r.replace u definition).definition? s = r.definition? s := by
  have hkeys : ((·.1 == s) ∘ fun e : Slot × Option (Matcher S S.Value) =>
      if e.1 = u then (u, definition) else e) = (·.1 == s) := by
    -- Replacing an entry does not change whether it is one of those looked for.
    funext e
    grind
  rw [definition?, lookup?, definition?, lookup?, replace, List.find?_map, hkeys]
  cases he : r.slots.find? (·.1 == s) with
  | none => rfl
  | some e =>
    have hes : e.1 = s := by simpa using List.find?_some he
    simp [hes, h]

/-- **Rules that own each other keep their definitions**, as long as no other ones are given to
    them: every one of them has an owner among them. -/
theorem keeps_definitions {member : Slot → Prop}
    {definitions : Slot → Option (Matcher S S.Value)}
    (howner : ∀ s, member s → ∃ u, member u ∧ ∃ d, definitions u = some d ∧ s ∈ d.owned) :
    Keeps (fun r => ∀ s, member s → s < r.next ∧ r.definition? s = definitions s)
      (¬member ·) where
  declare h s hs :=
    ⟨Nat.lt_succ_of_lt (h s hs).1, (definition?_declare (h s hs).1).trans (h s hs).2⟩
  sweep h s hs := by
    -- The owner of a member is a member, so its definition still stands and the sweep finds it.
    obtain ⟨u, hu, d, hd, hsd⟩ := howner s hs
    have howned := mem_ownedSlots_of_owns ⟨d, (h u hu).2.trans hd, hsd⟩
    exact ⟨(h s hs).1, (definition?_sweep_of_owned howned).trans (h s hs).2⟩
  withHeld _ h := h
  replace {_ u} definition hu h s hs := by
    have hne : s ≠ u := fun heq => hu (heq ▸ hs)
    exact ⟨(h s hs).1, (definition?_replace hne definition).trans (h s hs).2⟩

end Rules

end TextMatch
