namespace TextMatch

/-!
# Matchers

Matchers are trees.  A tree says what is looked for and which value a match yields; running it is
defined elsewhere.

* `Signature` — what the matchers of one application may refer to;
* `Slot` — the identity of a declared rule;
* `Matcher` — the trees, by the type of the value they yield;
* `Matcher.anyChar`, `Matcher.char`, `Matcher.keepLeft`, … — the trees built from others;
* `Matcher.owned` — the rules a tree keeps alive;
* `Matcher.share` — the same tree, made ready to occur in many places.
-/

/-- What the matchers of an application may refer to. -/
structure Signature where
  /-- The names of definitions that are built afresh at every use. -/
  Name : Type
  /-- What the definition of a name yields. -/
  Yield : Name → Type
  /-- What every declared rule yields.  An application whose rules yield several types takes their
      sum here: the definition of a rule tags its value with the type, and what refers to the rule
      takes the tag off.  No result of a run depends on what the values are. -/
  Value : Type
  /-- The actions that the application adds to the library's own matchers. -/
  Hook : Type

/-- The identity of a declared rule. -/
abbrev Slot := Nat

/-- A matcher that yields values of a type. -/
inductive Matcher (S : Signature) : Type → Type 1 where
  /-- One character that satisfies a predicate. -/
  | satisfy (accepts : Char → Bool) : Matcher S Char
  /-- The characters of a text one after another. -/
  | literal (text : String) : Matcher S String
  /-- The start of the text. -/
  | atStart : Matcher S Unit
  /-- The end of the text. -/
  | atEnd : Matcher S Unit
  /-- A place behind a character that satisfies a predicate. -/
  | behind (accepts : Char → Bool) : Matcher S Unit
  /-- Always, with a value and no characters. -/
  | succeed {α : Type} (value : α) : Matcher S α
  /-- Never. -/
  | fail {α : Type} : Matcher S α
  /-- The text last captured under a name. -/
  | backref (name : String) : Matcher S String
  /-- A match with its value changed. -/
  | map {α β : Type} (f : α → β) (m : Matcher S α) : Matcher S β
  /-- A match, and then the matcher that its value leads to.  `holds` lists the rules that `next`
      keeps alive while it is only a function. -/
  | flatMap {α β : Type} (m : Matcher S α) (holds : List Slot) (next : α → Matcher S β) :
      Matcher S β
  /-- Two matches one after the other. -/
  | seq {α β : Type} (first : Matcher S α) (second : Matcher S β) : Matcher S (α × β)
  /-- The second matcher where the first one fails. -/
  | choice {α : Type} (first second : Matcher S α) : Matcher S α
  /-- As many matches as there are, each further on than the one before. -/
  | many {α : Type} (m : Matcher S α) : Matcher S (List α)
  /-- A match and as many more as there are. -/
  | many1 {α : Type} (m : Matcher S α) : Matcher S (List α)
  /-- A match or nothing. -/
  | optional {α : Type} (m : Matcher S α) : Matcher S (Option α)
  /-- A place where there is no match. -/
  | not {α : Type} (m : Matcher S α) : Matcher S Unit
  /-- A match that consumes nothing. -/
  | guard {α : Type} (m : Matcher S α) : Matcher S α
  /-- A match whose span is put under a name. -/
  | capture {α : Type} (name : String) (m : Matcher S α) : Matcher S α
  /-- The definition of a name, built when it is needed. -/
  | defer (name : S.Name) : Matcher S (S.Yield name)
  /-- The definition of a rule that the tree keeps alive. -/
  | rule (slot : Slot) : Matcher S S.Value
  /-- The definition of a rule, as long as something else keeps it alive. -/
  | weak (slot : Slot) : Matcher S S.Value
  /-- Gives a rule a definition. -/
  | define (slot : Slot) (definition : Matcher S S.Value) : Matcher S Unit
  /-- Takes the definition of a rule away. -/
  | undefine (slot : Slot) : Matcher S Unit
  /-- An action of the application. -/
  | hook (action : S.Hook) : Matcher S Unit
  /-- A tree that occurs in many places, with the rules it keeps alive
      listed once for all of them. -/
  | shared {α : Type} (holds : List Slot) (m : Matcher S α) : Matcher S α

namespace Matcher

variable {S : Signature} {α β : Type}

/-! ### Trees built from others -/

/-- Any character. -/
def anyChar : Matcher S Char := satisfy fun _ => true

/-- One given character. -/
def char (c : Char) : Matcher S Char := satisfy (· == c)

/-- Two matches, of which the value of the first is kept. -/
def keepLeft (first : Matcher S α) (second : Matcher S β) : Matcher S α :=
  map Prod.fst (seq first second)

/-- Two matches, of which the value of the second is kept. -/
def keepRight (first : Matcher S α) (second : Matcher S β) : Matcher S β :=
  map Prod.snd (seq first second)

/-- A match that reaches the end of the text. -/
def matchAll (m : Matcher S α) : Matcher S α := keepLeft m atEnd

/-- A given number of matches one after another. -/
def times (m : Matcher S α) : Nat → Matcher S (List α)
  | 0 => succeed []
  | n + 1 => map (fun v => v.1 :: v.2) (seq m (times m n))

/-! ### Ownership -/

/-- The rules that a tree keeps alive: those it refers to other than weakly, and those that a
    definition it is about to give would keep alive. -/
def owned : {α : Type} → Matcher S α → List Slot
  | _, .map _ m => m.owned
  | _, .flatMap m holds _ => m.owned ++ holds
  | _, .seq a b => a.owned ++ b.owned
  | _, .choice a b => a.owned ++ b.owned
  | _, .many m => m.owned
  | _, .many1 m => m.owned
  | _, .optional m => m.owned
  | _, .not m => m.owned
  | _, .guard m => m.owned
  | _, .capture _ m => m.owned
  | _, .rule s => [s]
  | _, .define s m => s :: m.owned
  | _, .undefine s => [s]
  | _, .shared holds _ => holds
  | _, .satisfy _ | _, .literal _ | _, .atStart | _, .atEnd | _, .behind _ | _, .succeed _
  | _, .fail | _, .backref _ | _, .defer _ | _, .weak _ | _, .hook _ => []

/-- A tree made ready to occur in many places.  Trees that share their parts may be exponentially
    larger than they look, so the rules of a part are not looked for again at each occurrence. -/
def share (m : Matcher S α) : Matcher S α := shared m.owned.eraseDups m

/-- Sharing a tree changes nothing about the rules it keeps alive. -/
@[simp] theorem mem_owned_share (m : Matcher S α) (s : Slot) : s ∈ m.share.owned ↔ s ∈ m.owned := by
  simp [share, owned]

/-- The second match keeps its rules alive although its value is dropped. -/
@[simp] theorem owned_keepLeft (first : Matcher S α) (second : Matcher S β) :
    (keepLeft first second).owned = first.owned ++ second.owned := rfl

/-- The first match keeps its rules alive although its value is dropped. -/
@[simp] theorem owned_keepRight (first : Matcher S α) (second : Matcher S β) :
    (keepRight first second).owned = first.owned ++ second.owned := rfl

/-- The end of the text keeps nothing alive. -/
@[simp] theorem owned_matchAll (m : Matcher S α) : (matchAll m).owned = m.owned := by
  simp [matchAll, owned]

end Matcher

end TextMatch
