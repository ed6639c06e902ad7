import Mathlib.Algebra.Group.Nat.Defs
import TextMatch.Decimal

namespace TextMatch.Decimal

/-!
# Reading and writing decimals

Reading takes back what writing puts down, and reading with a bound is reading followed by a
comparison.

* `value_digits` — the numeral of a number stands for it;
* `exists_value_le_of_append`, `value_lt` — parts of numerals, and numerals by their length;
* `foldBounded?_eq_some_iff` — a machine that never holds a number above the bound reads exactly
  the numbers that do not exceed it.
-/

/-! ### Single digits -/

/-- Digits below ten are read back. -/
theorem digit?_digitChar {d : Nat} (h : d < 10) : digit? (digitChar d) = some d := by
  have hall : ∀ i : Fin 10, digit? (digitChar i) = some i.val := by decide
  exact hall ⟨d, h⟩

/-- The digits are the characters from `0` to `9`. -/
theorem digit?_isSome_iff {c : Char} : (digit? c).isSome ↔ '0' ≤ c ∧ c ≤ '9' := by
  rw [Option.isSome_iff_exists]
  constructor
  · rintro ⟨d, hd⟩
    exact (digit?_eq_some_iff.1 hd).1
  · intro hc
    exact ⟨_, digit?_eq_some_iff.2 ⟨hc, rfl⟩⟩

/-- A single digit stands for a number below ten. -/
theorem digit?_lt {c : Char} {d : Nat} (h : digit? c = some d) : d < 10 := by
  obtain ⟨⟨-, hhi⟩, rfl⟩ := digit?_eq_some_iff.1 h
  have hval : c.toNat ≤ '9'.toNat := hhi
  have : '9'.toNat = 57 := rfl
  have : '0'.toNat = 48 := rfl
  omega

/-! ### Values -/

theorem valueFrom_cons {acc d : Nat} {c : Char} (h : digit? c = some d) (cs : List Char) :
    valueFrom acc (c :: cs) = valueFrom (acc * 10 + d) cs := by
  rw [valueFrom, h]

/-- What comes later in a numeral is read on from what came before. -/
theorem valueFrom_append (acc : Nat) (cs ds : List Char) :
    valueFrom acc (cs ++ ds) = (valueFrom acc cs).bind fun n => valueFrom n ds := by
  induction cs generalizing acc with
  | nil => rfl
  | cons c cs ih =>
    rw [List.cons_append, valueFrom, valueFrom]
    cases digit? c with
    | none => rfl
    | some d => exact ih _

/-- Reading further never makes a number smaller. -/
theorem le_of_valueFrom {acc n : Nat} {cs : List Char} (h : valueFrom acc cs = some n) :
    acc ≤ n := by
  induction cs generalizing acc with
  | nil => cases h; exact Nat.le_refl _
  | cons c cs ih =>
    rw [valueFrom] at h
    cases hd : digit? c with
    | none => rw [hd] at h; cases h
    | some d =>
      rw [hd] at h
      have := ih h
      omega

/-- A list of characters has a value exactly if it has digits only. -/
theorem valueFrom_isSome_iff {acc : Nat} {cs : List Char} :
    (valueFrom acc cs).isSome ↔ ∀ c ∈ cs, '0' ≤ c ∧ c ≤ '9' := by
  induction cs generalizing acc with
  | nil => simp [valueFrom]
  | cons c cs ih =>
    rw [valueFrom, List.forall_mem_cons, ← digit?_isSome_iff]
    cases digit? c with
    | none => simp
    | some d => simpa using ih

/-- A numeral has a value exactly if it has digits only. -/
theorem value_isSome_iff {cs : List Char} :
    (value cs).isSome ↔ ∀ c ∈ cs, '0' ≤ c ∧ c ≤ '9' := valueFrom_isSome_iff

/-- A number read on from a greater one is greater. -/
theorem exists_le_valueFrom {acc acc' n : Nat} {cs : List Char} (hle : acc ≤ acc')
    (h : valueFrom acc cs = some n) : ∃ n', valueFrom acc' cs = some n' ∧ n ≤ n' := by
  induction cs generalizing acc acc' with
  | nil => cases h; exact ⟨acc', rfl, hle⟩
  | cons c cs ih =>
    cases hd : digit? c with
    | none => rw [valueFrom, hd] at h; cases h
    | some d =>
      rw [valueFrom_cons hd] at h ⊢
      exact ih (by omega) h

/-- A part of a numeral stands for no greater number than the whole. -/
theorem exists_value_le_of_append {a cs b : List Char} {n : Nat}
    (h : value (a ++ (cs ++ b)) = some n) : ∃ m, value cs = some m ∧ m ≤ n := by
  rw [value, valueFrom_append, Option.bind_eq_some_iff] at h
  obtain ⟨acc, -, h⟩ := h
  rw [valueFrom_append, Option.bind_eq_some_iff] at h
  obtain ⟨k, hk, hn⟩ := h
  have hdigits : (valueFrom acc cs).isSome := by rw [hk]; rfl
  rw [valueFrom_isSome_iff, ← value_isSome_iff] at hdigits
  obtain ⟨m, hm⟩ := Option.isSome_iff_exists.1 hdigits
  obtain ⟨k', hk', hle⟩ := exists_le_valueFrom (Nat.zero_le acc) hm
  obtain rfl : k = k' := Option.some.inj (hk.symm.trans hk')
  exact ⟨m, hm, Nat.le_trans hle (le_of_valueFrom hn)⟩

/-- Every digit multiplies by ten at most, and adds nine at most. -/
theorem valueFrom_lt {acc n : Nat} {cs : List Char} (h : valueFrom acc cs = some n) :
    n < (acc + 1) * 10 ^ cs.length := by
  induction cs generalizing acc with
  | nil => cases h; simp
  | cons c cs ih =>
    cases hd : digit? c with
    | none => rw [valueFrom, hd] at h; cases h
    | some d =>
      rw [valueFrom_cons hd] at h
      have hten := digit?_lt hd
      calc n < (acc * 10 + d + 1) * 10 ^ cs.length := ih h
        _ ≤ ((acc + 1) * 10) * 10 ^ cs.length := Nat.mul_le_mul_right _ (by omega)
        _ = (acc + 1) * 10 ^ (c :: cs).length := by rw [List.length_cons, Nat.pow_succ']; ac_rfl

/-- A number of `k` digits is below ten to the power of `k`. -/
theorem value_lt {n : Nat} {cs : List Char} (h : value cs = some n) : n < 10 ^ cs.length := by
  have hlt := valueFrom_lt h
  rwa [Nat.zero_add, Nat.one_mul] at hlt

/-! ### Reading within a bound -/

/-- A digit joins exactly if the sum does not pass the bound: the shifted number alone is never
    the greater of the two. -/
theorem pushDigit?_eq_some_iff {bound acc n : Nat} {c : Char} :
    pushDigit? bound acc c = some n ↔
      ∃ d, digit? c = some d ∧ acc * 10 + d = n ∧ n ≤ bound := by
  unfold pushDigit? within
  cases digit? c with
  | none => simp
  | some d =>
    by_cases hshift : acc * 10 ≤ bound
    · by_cases hsum : acc * 10 + d ≤ bound
      · simp only [Option.bind_eq_bind, Option.bind_some, if_pos hshift, if_pos hsum,
          Option.some.injEq, exists_eq_left']
        omega
      · simp only [Option.bind_eq_bind, Option.bind_some, if_pos hshift, if_neg hsum,
          Option.some.injEq, exists_eq_left']
        constructor
        · intro h; cases h
        · rintro ⟨rfl, hle⟩; exact absurd hle hsum
    · simp only [Option.bind_eq_bind, Option.bind_some, if_neg hshift, Option.bind_none,
        Option.some.injEq, exists_eq_left']
      constructor
      · intro h; cases h
      · rintro ⟨rfl, hle⟩; exact absurd (Nat.le_trans (Nat.le_add_right _ _) hle) hshift

/-- Reading within a bound from a number that does not exceed it. -/
theorem foldlM_pushDigit?_eq_some_iff {bound acc n : Nat} {cs : List Char} (hacc : acc ≤ bound) :
    cs.foldlM (pushDigit? bound) acc = some n ↔ valueFrom acc cs = some n ∧ n ≤ bound := by
  induction cs generalizing acc with
  | nil =>
    show some acc = some n ↔ some acc = some n ∧ n ≤ bound
    constructor
    · rintro ⟨⟩; exact ⟨rfl, hacc⟩
    · exact And.left
  | cons c cs ih =>
    rw [List.foldlM_cons, Option.bind_eq_bind, Option.bind_eq_some_iff]
    constructor
    · rintro ⟨acc', hpush, hrest⟩
      obtain ⟨d, hd, rfl, hle⟩ := pushDigit?_eq_some_iff.1 hpush
      rw [valueFrom_cons hd]
      exact (ih hle).1 hrest
    · rintro ⟨hvalue, hle⟩
      cases hd : digit? c with
      | none => rw [valueFrom, hd] at hvalue; cases hvalue
      | some d =>
        rw [valueFrom_cons hd] at hvalue
        -- A number that is within the bound in the end has been so all along.
        have hnext := Nat.le_trans (le_of_valueFrom hvalue) hle
        exact ⟨_, pushDigit?_eq_some_iff.2 ⟨d, hd, rfl, hnext⟩, (ih hnext).2 ⟨hvalue, hle⟩⟩

/-- **Reading within a bound.** A bounded machine reads a numeral exactly if its value does not pass
    the bound, and then it reads that value. -/
theorem foldBounded?_eq_some_iff {bound n : Nat} {cs : List Char} :
    foldBounded? bound cs = some n ↔ value cs = some n ∧ n ≤ bound :=
  foldlM_pushDigit?_eq_some_iff (Nat.zero_le bound)

/-! ### Numerals -/

/-- Every number has at least one digit, also zero. -/
theorem numeral_ne_nil (base n : Nat) : numeral base n ≠ [] := by
  unfold numeral
  split <;> simp

/-- **Numerals are read back.** -/
theorem value_digits (n : Nat) : value (digits n) = some n := by
  induction n using Nat.strongRecOn with
  | ind n ih =>
    rw [digits, numeral]
    split
    case isTrue h =>
      -- All but the last digit are the numeral of the quotient by ten, and
      -- the last is the remainder.
      have hfront : valueFrom 0 (numeral 10 (n / 10)) = some (n / 10) := ih (n / 10) (by omega)
      have hlast := digit?_digitChar (Nat.mod_lt n (show 10 > 0 by omega))
      rw [value, valueFrom_append, hfront, Option.bind_some, valueFrom_cons hlast, valueFrom]
      congr 1
      omega
    case isFalse h =>
      rw [value, valueFrom_cons (digit?_digitChar (by omega)), valueFrom]
      congr 1
      omega

theorem digits_ne_nil (n : Nat) : digits n ≠ [] := numeral_ne_nil 10 n

/-- A numeral is the digits of the absolute value, with a sign or without. -/
theorem signedDigits_eq (n : Int) :
    signedDigits n = (if n < 0 then ['-'] else []) ++ digits n.natAbs := by
  cases n with
  | ofNat n =>
    have hn : ¬Int.ofNat n < 0 := Int.not_lt.2 (Int.natCast_nonneg n)
    rw [if_neg hn]
    rfl
  | negSucc n =>
    rw [if_pos (Int.negSucc_lt_zero n)]
    rfl

end TextMatch.Decimal
