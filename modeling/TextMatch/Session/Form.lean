import TextMatch.CharClass
import TextMatch.Session.Value

namespace TextMatch.Session

/-!
# Forms

How the steps of a session write their matchers: trees in which rules, definitions and stored
matchers are still names and places still refer to texts by number.

* `Predicate` — conditions on characters;
* `Locator` — places;
* `Form` — matchers;
* `Continuation`, `Cases` — the matchers that depend on a value.
-/

/-- A condition on a character. -/
inductive Predicate where
  | member (k : CharClass)
  | negation (p : Predicate)
  | either (p q : Predicate)
deriving Repr, DecidableEq

/-- Whether a character satisfies a condition. -/
def Predicate.accepts : Predicate → Char → Bool
  | member k, c => k.contains c
  | negation p, c => !p.accepts c
  | either p q, c => p.accepts c || q.accepts c

/-- The classes that are known by a name. -/
def namedClass? : String → Option CharClass
  | "digit" => some .digit
  | "whitespace_char" => some .blank
  | "ident_char" => some ⟨[('a', 'z'), ('A', 'Z'), ('_', '_')]⟩
  | "sign" => some (.ofList ['+', '-'])
  | "greek" => some ⟨[('\u03b1', '\u03c9')]⟩
  | "edge" =>
    let first := Char.ofNat 0
    let last := Char.ofNat 0x10ffff
    some ⟨[(first, first), ('\u007f', '\u0080'), ('\ud7ff', '\ue000'), (last, last)]⟩
  | _ => none

/-- A place, as the number of a text and of the characters behind, and the tag of its cursor. -/
structure Locator where
  text : Nat
  steps : Nat
  tag : Nat
deriving Repr, DecidableEq

/-- The matchers of the calculator. -/
inductive Part where
  | blanks
  | number
  | factor
  | term
  | expression
  | program
deriving Repr, DecidableEq

mutual

/-- A matcher as a session writes it. -/
inductive Form where
  | anyChar
  | satisfy (p : Predicate)
  | char (c : Char)
  | literal (text : String)
  | atStart
  | atEnd
  | behind (p : Predicate)
  | succeed (value : Value)
  | fail
  | backref (name : String)
  | map (f : Transform) (m : Form)
  | flatMap (k : Continuation) (m : Form)
  | seq (first second : Form)
  | keepLeft (first second : Form)
  | keepRight (first second : Form)
  | choice (first second : Form)
  | many (m : Form)
  | many1 (m : Form)
  | optional (m : Form)
  | not (m : Form)
  | guard (m : Form)
  | matchAll (m : Form)
  | capture (name : String) (m : Form)
  /-- A definition of the session, built afresh. -/
  | defer (name : String)
  /-- A rule by the name it has in the session. -/
  | rule (name : String)
  /-- A weak reference to a rule. -/
  | weak (name : String)
  /-- A weak reference that was stored. -/
  | handle (name : String)
  /-- A matcher that was stored. -/
  | stored (name : String)
  /-- A matcher of the calculator. -/
  | calculator (part : Part)
  /-- Logs a label and the depth, and goes on. -/
  | trace (label : String) (m : Form)
  /-- Goes on with another tag on the cursor. -/
  | retag (tag : Nat) (m : Form)
  /-- Moves the cursor to a given place. -/
  | seek (place : Locator)
  /-- Takes the definition of a rule away behind a match. -/
  | clearing (rule : String) (m : Form)
  /-- Gives a rule a definition behind a match. -/
  | defining (rule : String) (definition m : Form)

/-- A matcher that depends on the value of the one before it. -/
inductive Continuation where
  /-- The text of the value once more. -/
  | again
  /-- A matcher as many times as the text of the value says. -/
  | times (m : Form)
  /-- The matcher of the first case whose text is that of the value. -/
  | select (cases : Cases)

/-- Matchers by the text that selects them. -/
inductive Cases where
  | nil
  | cons (text : String) (m : Form) (rest : Cases)

end

/-- The cases of a list. -/
def Cases.ofList : List (String × Form) → Cases
  | [] => .nil
  | (text, m) :: rest => .cons text m (ofList rest)

end TextMatch.Session
