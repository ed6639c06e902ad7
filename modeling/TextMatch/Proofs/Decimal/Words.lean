import Mathlib.Data.Nat.Digits.Defs
import Mathlib.Order.Bounds.Defs
import TextMatch.Proofs.Decimal

namespace TextMatch.Decimal

/-!
# Reading decimals into words

An integer type holds its numbers in words of a fixed width, with a sign or without, and its
products and sums may overflow.  A numeral that is read in such words, each product and each sum
checked, comes out if its value is a number of the type, and only then.

* `decimal` — the value of a list of digits, by positions;
* `value_eq_some_iff` — it is what the digits stand for;
* `IntKind.valueOf`, `IntKind.mul?`, `IntKind.add?` — words, and their arithmetic;
* `IntKind.isGreatest_max` — the greatest number of a type;
* `IntKind.foldDigits?_eq_map` — reading in words is reading within the greatest number;
* `foldBounded_max_eq_exact` — reading is exact, whatever the width and with a sign or without.
-/

/-! ### Values by positions -/

/-- The value of a list of digits: the last one counts once, and each other ten times as much as
    the one behind it. -/
def decimal (cs : List Char) : Nat :=
  Nat.ofDigits 10 (cs.reverse.map fun c => c.toNat - '0'.toNat)

/-- The first digit counts as many times as its place says. -/
theorem decimal_cons (c : Char) (cs : List Char) :
    decimal (c :: cs) = (c.toNat - '0'.toNat) * 10 ^ cs.length + decimal cs := by
  rw [decimal, List.map_reverse, List.map_cons, Nat.ofDigits_reverse_cons, List.length_map,
    ← List.map_reverse, Nat.add_comm, Nat.mul_comm]
  rfl

/-- Reading on from a number shifts it by the places of what follows. -/
theorem valueFrom_eq_some_iff {acc n : Nat} {cs : List Char} :
    valueFrom acc cs = some n ↔
      (∀ c ∈ cs, '0' ≤ c ∧ c ≤ '9') ∧ acc * 10 ^ cs.length + decimal cs = n := by
  induction cs generalizing acc with
  | nil => simp [valueFrom, decimal]
  | cons c cs ih =>
    rw [List.forall_mem_cons, decimal_cons, List.length_cons, Nat.pow_succ']
    cases hd : digit? c with
    | none =>
      have hc : ¬('0' ≤ c ∧ c ≤ '9') := by
        rw [← digit?_isSome_iff, hd]
        exact Bool.false_ne_true
      rw [valueFrom, hd]
      constructor
      · intro h
        cases h
      · intro h
        exact absurd h.1.1 hc
    | some d =>
      obtain ⟨hc, rfl⟩ := digit?_eq_some_iff.1 hd
      rw [valueFrom_cons hd, ih, and_iff_right hc]
      have hshift : acc * (10 * 10 ^ cs.length) = acc * 10 * 10 ^ cs.length := by ac_rfl
      rw [hshift, Nat.add_mul, Nat.add_assoc]

/-- What digits stand for is their value by positions. -/
theorem value_eq_some_iff {n : Nat} {cs : List Char} :
    value cs = some n ↔ (∀ c ∈ cs, '0' ≤ c ∧ c ≤ '9') ∧ decimal cs = n := by
  rw [value, valueFrom_eq_some_iff, Nat.zero_mul, Nat.zero_add]

namespace IntKind

variable (k : IntKind)

/-! ### Words -/

/-- The number of a word, in two's complement if the type has a sign. -/
def valueOf (w : BitVec k.bits) : Int := if k.signed then w.toInt else w.toNat

/-- The word of a natural number, if the type has that number. -/
def word? (n : Nat) : Option (BitVec k.bits) := (within k.max n).map (BitVec.ofNat k.bits)

/-- The result of an operation on words, unless it overflows as the type says. -/
def checked (overflowsSigned overflowsUnsigned : Bool) (result : BitVec k.bits) :
    Option (BitVec k.bits) :=
  if (if k.signed then overflowsSigned else overflowsUnsigned) then none else some result

/-- The product of two words, unless it overflows. -/
def mul? (x y : BitVec k.bits) : Option (BitVec k.bits) :=
  k.checked (x.smulOverflow y) (x.umulOverflow y) (x * y)

/-- The sum of two words, unless it overflows. -/
def add? (x y : BitVec k.bits) : Option (BitVec k.bits) :=
  k.checked (x.saddOverflow y) (x.uaddOverflow y) (x + y)

/-- One step of reading in words. -/
def pushDigit? (radix acc : BitVec k.bits) (c : Char) : Option (BitVec k.bits) := do
  let d ← digit? c
  let digit ← k.word? d
  let shifted ← k.mul? acc radix
  k.add? shifted digit

/-- The word that a list of digits stands for; nothing if a character is not a digit, or a product
    or a sum on the way overflows. -/
def foldDigits? (cs : List Char) : Option (BitVec k.bits) := do
  let radix ← k.word? 10
  cs.foldlM (k.pushDigit? radix) (BitVec.ofNat k.bits 0)

variable {k}

/-- A type has a word for every number up to its greatest. -/
theorem word?_of_le {n : Nat} (h : n ≤ k.max) : k.word? n = some (BitVec.ofNat k.bits n) := by
  rw [word?, within, if_pos h]
  rfl

theorem word?_of_lt {n : Nat} (h : k.max < n) : k.word? n = none := by
  rw [word?, within, if_neg (Nat.not_le_of_lt h)]
  rfl

/-- The numbers of a type without a sign take all the bits. -/
theorem le_max_iff_of_unsigned (h : k.signed = false) {n : Nat} : n ≤ k.max ↔ n < 2 ^ k.bits := by
  have : 0 < 2 ^ k.bits := Nat.two_pow_pos _
  simp only [IntKind.max, h, Bool.false_eq_true, if_false, Nat.pow_eq]
  omega

/-- One bit is the sign's. -/
theorem le_max_iff_of_signed (h : k.signed = true) {n : Nat} :
    n ≤ k.max ↔ n < 2 ^ (k.bits - 1) := by
  have : 0 < 2 ^ (k.bits - 1) := Nat.two_pow_pos _
  simp only [IntKind.max, h, if_true, Nat.pow_eq]
  omega

/-- Without a sign, the word of a number stands for that number. -/
theorem toNat_ofNat_of_unsigned (h : k.signed = false) {n : Nat} (hn : n ≤ k.max) :
    (BitVec.ofNat k.bits n).toNat = n := by
  rw [BitVec.toNat_ofNat, Nat.mod_eq_of_lt ((le_max_iff_of_unsigned h).1 hn)]

/-- With a sign, the word of a number stands for that number, which leaves the sign bit clear. -/
theorem toInt_ofNat_of_signed (h : k.signed = true) (hbits : 0 < k.bits) {n : Nat}
    (hn : n ≤ k.max) : (BitVec.ofNat k.bits n).toInt = n := by
  have hlt := (le_max_iff_of_signed h).1 hn
  have htwo : 2 ^ k.bits = 2 * 2 ^ (k.bits - 1) := by
    rw [← Nat.pow_succ', Nat.succ_eq_add_one, Nat.sub_add_cancel hbits]
  have hnat : (BitVec.ofNat k.bits n).toNat = n := by
    rw [BitVec.toNat_ofNat, Nat.mod_eq_of_lt (by omega)]
  rw [BitVec.toInt_eq_toNat_of_lt (by omega), hnat]

/-- The word of a number stands for that number, with a sign or without. -/
theorem valueOf_ofNat (hbits : 0 < k.bits) {n : Nat} (hn : n ≤ k.max) :
    k.valueOf (BitVec.ofNat k.bits n) = n := by
  rw [valueOf]
  split
  case isTrue h => exact toInt_ofNat_of_signed h hbits hn
  case isFalse h => rw [toNat_ofNat_of_unsigned (Bool.eq_false_iff.2 h) hn]

/-- The greatest number of a type is the number of a word, and no word has a greater one. -/
theorem isGreatest_max (hbits : 0 < k.bits) : IsGreatest (Set.range k.valueOf) k.max := by
  refine ⟨⟨BitVec.ofNat k.bits k.max, valueOf_ofNat hbits (Nat.le_refl _)⟩, ?_⟩
  rintro _ ⟨w, rfl⟩
  rw [valueOf]
  split
  case isTrue h =>
    have hlt : w.toInt < ((2 ^ (k.bits - 1) : Nat) : Int) := by
      rw [Nat.cast_pow]
      exact BitVec.toInt_lt
    have hpos : 0 < 2 ^ (k.bits - 1) := Nat.two_pow_pos _
    have hmax := (le_max_iff_of_signed h (n := w.toInt.toNat)).2 (by omega)
    omega
  case isFalse h =>
    exact Int.ofNat_le.2 ((le_max_iff_of_unsigned (Bool.eq_false_iff.2 h)).2 w.isLt)

/-! ### Arithmetic of words -/

/-- An operation whose exact result is a natural number overflows exactly if the type does not have
    that number: the lower end of the type is never passed. -/
theorem checked_ofNat {s u : Bool} {n : Nat}
    (hs : k.signed = true → s = decide (2 ^ (k.bits - 1) ≤ n))
    (hu : k.signed = false → u = decide (2 ^ k.bits ≤ n)) :
    k.checked s u (BitVec.ofNat k.bits n) = k.word? n := by
  have hoverflows : (if k.signed then s else u) = decide (k.max < n) := by
    cases h : k.signed with
    | false =>
      rw [if_neg Bool.false_ne_true, hu h, decide_eq_decide, ← Nat.not_lt,
        ← le_max_iff_of_unsigned h, Nat.not_le]
    | true =>
      rw [if_pos rfl, hs h, decide_eq_decide, ← Nat.not_lt, ← le_max_iff_of_signed h, Nat.not_le]
  rw [checked, hoverflows]
  by_cases hlt : k.max < n
  · rw [word?_of_lt hlt, decide_eq_true hlt]
    rfl
  · rw [word?_of_le (Nat.le_of_not_lt hlt), decide_eq_false hlt]
    rfl

/-- Of the two tests for an overflow with a sign a natural number can only fail the upper one. -/
theorem overflowsSigned_natCast (bits n : Nat) :
    (decide ((n : Int) ≥ 2 ^ (bits - 1)) || decide ((n : Int) < -2 ^ (bits - 1))) =
      decide (2 ^ (bits - 1) ≤ n) := by
  have hpow : ((2 ^ (bits - 1) : Nat) : Int) = 2 ^ (bits - 1) := Nat.cast_pow 2 (bits - 1)
  rw [← hpow, ← Bool.decide_or, decide_eq_decide]
  omega

/-- The product of two words is that of their numbers, and overflows if
    the type has no word for it. -/
theorem mul?_ofNat (hbits : 0 < k.bits) {a b : Nat} (ha : a ≤ k.max) (hb : b ≤ k.max) :
    k.mul? (BitVec.ofNat k.bits a) (BitVec.ofNat k.bits b) = k.word? (a * b) := by
  rw [mul?, ← BitVec.ofNat_mul]
  refine checked_ofNat (fun h => ?_) (fun h => ?_)
  · rw [BitVec.smulOverflow, toInt_ofNat_of_signed h hbits ha, toInt_ofNat_of_signed h hbits hb,
      ← Int.natCast_mul, overflowsSigned_natCast]
  · rw [BitVec.umulOverflow, toNat_ofNat_of_unsigned h ha, toNat_ofNat_of_unsigned h hb]

/-- The sum of two words is that of their numbers, and overflows if the type has no word for it. -/
theorem add?_ofNat (hbits : 0 < k.bits) {a b : Nat} (ha : a ≤ k.max) (hb : b ≤ k.max) :
    k.add? (BitVec.ofNat k.bits a) (BitVec.ofNat k.bits b) = k.word? (a + b) := by
  rw [add?, ← BitVec.ofNat_add]
  refine checked_ofNat (fun h => ?_) (fun h => ?_)
  · rw [BitVec.saddOverflow, toInt_ofNat_of_signed h hbits ha, toInt_ofNat_of_signed h hbits hb,
      ← Int.natCast_add, overflowsSigned_natCast]
  · rw [BitVec.uaddOverflow, toNat_ofNat_of_unsigned h ha, toNat_ofNat_of_unsigned h hb]

/-! ### Reading in words -/

/-- Eight bits are enough for the base, with a sign or without. -/
theorem ten_le_max (hbits : 8 ≤ k.bits) : 10 ≤ k.max := by
  have hpow : 2 ^ 7 ≤ 2 ^ (k.bits - 1) := Nat.pow_le_pow_right (by omega) (by omega)
  have hle : 2 ^ (k.bits - 1) ≤ 2 ^ k.bits := Nat.pow_le_pow_right (by omega) (by omega)
  cases h : k.signed with
  | false => exact (le_max_iff_of_unsigned h).2 (by omega)
  | true => exact (le_max_iff_of_signed h).2 (by omega)

/-- A step in words is a step within the greatest number. -/
theorem pushDigit?_eq_map (hbits : 8 ≤ k.bits) {acc : Nat} (hacc : acc ≤ k.max) (c : Char) :
    k.pushDigit? (BitVec.ofNat k.bits 10) (BitVec.ofNat k.bits acc) c =
      (Decimal.pushDigit? k.max acc c).map (BitVec.ofNat k.bits) := by
  have hten := ten_le_max hbits
  unfold pushDigit? Decimal.pushDigit?
  cases hd : digit? c with
  | none => rfl
  | some d =>
    have hlt := digit?_lt hd
    have hle : d ≤ k.max := by omega
    simp only [Option.bind_eq_bind, Option.bind_some, word?_of_le hle,
      mul?_ofNat (Nat.zero_lt_of_lt hbits) hacc hten]
    by_cases hshift : acc * 10 ≤ k.max
    · rw [word?_of_le hshift, within, if_pos hshift, Option.bind_some, Option.bind_some,
        add?_ofNat (Nat.zero_lt_of_lt hbits) hshift hle]
      rfl
    · rw [word?_of_lt (Nat.lt_of_not_le hshift), within, if_neg hshift]
      rfl

/-- Reading on in words is reading on within the greatest number, from the number of a word. -/
theorem foldlM_pushDigit?_eq_map (hbits : 8 ≤ k.bits) {acc : Nat} (hacc : acc ≤ k.max)
    (cs : List Char) :
    cs.foldlM (k.pushDigit? (BitVec.ofNat k.bits 10)) (BitVec.ofNat k.bits acc) =
      (cs.foldlM (Decimal.pushDigit? k.max) acc).map (BitVec.ofNat k.bits) := by
  induction cs generalizing acc with
  | nil => rfl
  | cons c cs ih =>
    rw [List.foldlM_cons, List.foldlM_cons, pushDigit?_eq_map hbits hacc]
    cases hpush : Decimal.pushDigit? k.max acc c with
    | none => rfl
    | some acc' =>
      -- What has been read so far is a number of the type.
      obtain ⟨d, -, -, hle⟩ := pushDigit?_eq_some_iff.1 hpush
      exact ih hle

/-- **Reading in words is reading within the greatest number.** -/
theorem foldDigits?_eq_map (hbits : 8 ≤ k.bits) (cs : List Char) :
    k.foldDigits? cs = (foldBounded? k.max cs).map (BitVec.ofNat k.bits) := by
  rw [foldDigits?, word?_of_le (ten_le_max hbits), Option.bind_eq_bind, Option.bind_some]
  exact foldlM_pushDigit?_eq_map hbits (Nat.zero_le _) cs

end IntKind

/-! ### Exactness -/

/-- **Reading is exact at every width.**  Take an integer type of eight bits or more, with a sign or
    without, whose greatest number is `k.max`.  A list of characters is read, as their decimal
    value, exactly if all of them are digits and that value is not above the greatest number,
    however many there are; otherwise nothing is read.  Words of the type, with a check of each
    product and each sum, come to the same. -/
theorem foldBounded_max_eq_exact (k : IntKind) (hbits : 8 ≤ k.bits) (cs : List Char) :
    IsGreatest (Set.range k.valueOf) k.max ∧
      (∀ n, foldBounded? k.max cs = some n ↔
        (∀ c ∈ cs, '0' ≤ c ∧ c ≤ '9') ∧ decimal cs ≤ k.max ∧ decimal cs = n) ∧
      (foldBounded? k.max cs = none ↔
        ¬((∀ c ∈ cs, '0' ≤ c ∧ c ≤ '9') ∧ decimal cs ≤ k.max)) ∧
      (k.foldDigits? cs).map k.valueOf = (foldBounded? k.max cs).map fun n : Nat => (n : Int) := by
  have hpos : 0 < k.bits := Nat.zero_lt_of_lt hbits
  have hread (n : Nat) : foldBounded? k.max cs = some n ↔
      (∀ c ∈ cs, '0' ≤ c ∧ c ≤ '9') ∧ decimal cs ≤ k.max ∧ decimal cs = n := by
    rw [foldBounded?_eq_some_iff, value_eq_some_iff]
    constructor
    · rintro ⟨⟨hdigits, rfl⟩, hle⟩
      exact ⟨hdigits, hle, rfl⟩
    · rintro ⟨hdigits, hle, rfl⟩
      exact ⟨⟨hdigits, rfl⟩, hle⟩
  refine ⟨IntKind.isGreatest_max hpos, hread, ?_, ?_⟩
  · rw [Option.eq_none_iff_forall_ne_some]
    constructor
    · rintro hnone ⟨hdigits, hle⟩
      exact hnone _ ((hread _).2 ⟨hdigits, hle, rfl⟩)
    · intro hnot n hsome
      obtain ⟨hdigits, hle, -⟩ := (hread n).1 hsome
      exact hnot ⟨hdigits, hle⟩
  · rw [IntKind.foldDigits?_eq_map hbits, Option.map_map]
    refine Option.map_congr fun n hn => ?_
    exact IntKind.valueOf_ofNat hpos (foldBounded?_eq_some_iff.1 hn).2

/-- Eight bits with a sign hold 127, whatever zeros are in front, and not 128. -/
theorem foldBounded_max_eq_exact_signedByte :
    8 ≤ (⟨true, 8⟩ : IntKind).bits ∧
      foldBounded? (IntKind.max ⟨true, 8⟩) "00127".toList = some 127 ∧
      (IntKind.foldDigits? ⟨true, 8⟩ "00127".toList).map (IntKind.valueOf ⟨true, 8⟩) = some 127 ∧
      foldBounded? (IntKind.max ⟨true, 8⟩) "00128".toList = none := by
  have hbits : 8 ≤ (⟨true, 8⟩ : IntKind).bits := Nat.le_refl 8
  have hdigits : ∀ c ∈ "00127".toList, '0' ≤ c ∧ c ≤ '9' := value_isSome_iff.1 rfl
  have hvalue : decimal "00127".toList = 127 := by simp [decimal, Nat.ofDigits_cons]
  have hpast : decimal "00128".toList = 128 := by simp [decimal, Nat.ofDigits_cons]
  obtain ⟨-, hread, -, hwords⟩ := foldBounded_max_eq_exact ⟨true, 8⟩ hbits "00127".toList
  obtain ⟨-, -, hnone, -⟩ := foldBounded_max_eq_exact ⟨true, 8⟩ hbits "00128".toList
  have hsome := (hread 127).2 ⟨hdigits, Nat.le_of_eq hvalue, hvalue⟩
  refine ⟨hbits, hsome, ?_, hnone.2 fun h => ?_⟩
  · rw [hwords, hsome]
    rfl
  · rw [hpast] at h
    exact absurd h.2 (by decide)

end TextMatch.Decimal
