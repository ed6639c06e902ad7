namespace TextMatch.Decimal

/-!
# Decimal numerals

Numbers as lists of digit characters, in both directions.

* `digits`, `signedDigits` — the numeral of a natural number and of an integer, without leading
  zeros;
* `value` — the number a list of digits stands for, leading zeros allowed;
* `foldBounded?` — the same number, or nothing once it passes a bound;
* `IntKind` — the integer types of a fixed width, whose greatest values are such bounds;
* `hexDigits` — the numeral to the base sixteen.
-/

/-! ### Single digits -/

/-- The number a decimal digit stands for; no other character is a digit. -/
def digit? (c : Char) : Option Nat :=
  if '0' ≤ c ∧ c ≤ '9' then some (c.toNat - '0'.toNat) else none

/-- The character of a digit below sixteen, in lower case. -/
def digitChar (d : Nat) : Char :=
  if d < 10 then Char.ofNat ('0'.toNat + d) else Char.ofNat ('a'.toNat + (d - 10))

/-- A character is a digit exactly if it lies between the least and the greatest. -/
theorem digit?_eq_some_iff {c : Char} {d : Nat} :
    digit? c = some d ↔ ('0' ≤ c ∧ c ≤ '9') ∧ c.toNat - '0'.toNat = d := by
  unfold digit?
  split
  case isTrue h => simp [h]
  case isFalse h => exact ⟨fun hd => (nomatch hd), fun hd => absurd hd.1 h⟩

/-! ### Writing -/

/-- The numeral of `n` to a base of at least two, the most significant digit first. -/
def numeral (base : Nat) (n : Nat) : List Char :=
  if _h : 2 ≤ base ∧ base ≤ n then numeral base (n / base) ++ [digitChar (n % base)]
  else [digitChar n]
termination_by n
decreasing_by exact Nat.div_lt_self (by omega) (by omega)

/-- The decimal numeral of a natural number. -/
def digits (n : Nat) : List Char := numeral 10 n

/-- The hexadecimal numeral of a natural number, in lower case. -/
def hexDigits (n : Nat) : List Char := numeral 16 n

/-- The decimal numeral of an integer, with a minus sign in front of a negative one. -/
def signedDigits : Int → List Char
  | .ofNat n => digits n
  | .negSucc n => '-' :: digits (n + 1)

/-- The decimal text of a natural number. -/
def ofNat (n : Nat) : String := String.ofList (digits n)

/-- The decimal text of an integer. -/
def ofInt (n : Int) : String := String.ofList (signedDigits n)

/-! ### Reading -/

/-- The number a list of digits stands for, read on from `acc`; nothing
    if a character is not a digit. -/
def valueFrom (acc : Nat) : List Char → Option Nat
  | [] => some acc
  | c :: cs => match digit? c with
    | some d => valueFrom (acc * 10 + d) cs
    | none => none

/-- The number a list of digits stands for; the empty list stands for zero. -/
def value (cs : List Char) : Option Nat := valueFrom 0 cs

/-- A number, provided it does not pass the bound. -/
def within (bound n : Nat) : Option Nat := if n ≤ bound then some n else none

/-- One step of reading: the next digit joins, and neither the shifted number
    nor the sum may pass the bound. -/
def pushDigit? (bound acc : Nat) (c : Char) : Option Nat := do
  let d ← digit? c
  let shifted ← within bound (acc * 10)
  within bound (shifted + d)

/-- The number a list of digits stands for, read by a machine that holds no number above the bound
    at any moment; nothing if a character is not a digit or the bound is passed. -/
def foldBounded? (bound : Nat) (cs : List Char) : Option Nat :=
  cs.foldlM (pushDigit? bound) 0

/-! ### Integer types of a fixed width -/

/-- An integer type of a fixed width. -/
structure IntKind where
  signed : Bool
  bits : Nat
deriving Repr, DecidableEq

/-- The greatest value of an integer type: one bit goes to the sign if there is one. -/
def IntKind.max (k : IntKind) : Nat :=
  Nat.pow 2 (if k.signed then k.bits - 1 else k.bits) - 1

end TextMatch.Decimal
