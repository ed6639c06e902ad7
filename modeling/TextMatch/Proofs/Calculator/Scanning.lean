import TextMatch.Proofs.Calculator.Derivation

namespace TextMatch.Calculator

/-!
# Scanning

A machine that reads a text from left to right and remembers only what may come next: whether an
operand is due, and how many parentheses are open.  It stops at a character that no sentence has
there.

* `Scan.push?` — one character more, or nothing if it fits in no sentence;
* `Leads` — what a text does to the machine, whatever is open before it;
* `Derives.leads` — a phrase is read through, and closes the parentheses it opens;
* `Sentence.not_append_cons` — where the machine stops no sentence goes on.
-/

/-! ### The machine -/

/-- What the last characters were, as far as it matters for the next one. -/
inductive Mode where
  /-- An operand is due. -/
  | operand
  /-- The digits of a number, which may go on. -/
  | digits
  /-- An operand that is complete. -/
  | complete
deriving Repr, DecidableEq

/-- What is known of the characters that were read. -/
structure Scan where
  mode : Mode
  /-- The number of parentheses that are open. -/
  opened : Nat
deriving Repr, DecidableEq

/-- A character where an operand is due. -/
def Scan.pushDue? (s : Scan) (c : Char) : Option Scan :=
  if c ∈ blankChars then some s
  else if '0' ≤ c ∧ c ≤ '9' then some { s with mode := .digits }
  else if c = '(' then some { s with opened := s.opened + 1 }
  else if c = '-' then some s
  else none

/-- A character behind an operand. -/
def Scan.pushBehind? (s : Scan) (c : Char) : Option Scan :=
  if c ∈ blankChars then some { s with mode := .complete }
  else if '0' ≤ c ∧ c ≤ '9' then if s.mode = .digits then some s else none
  else if c = ')' then if s.opened = 0 then none else some ⟨.complete, s.opened - 1⟩
  else if c ∈ ['+', '-', '*', '/'] then some { s with mode := .operand }
  else none

/-- One character more. -/
def Scan.push? (s : Scan) (c : Char) : Option Scan :=
  match s.mode with
  | .operand => s.pushDue? c
  | _ => s.pushBehind? c

namespace Scan

variable {m : Mode} {n : Nat} {c : Char}

/-- Where no operand is due a character is read as one behind an operand. -/
theorem push?_of_ne_operand (hm : m ≠ .operand) : push? ⟨m, n⟩ c = pushBehind? ⟨m, n⟩ c := by
  cases m with
  | operand => exact absurd rfl hm
  | _ => rfl

/-- Blanks in front of an operand change nothing. -/
theorem push?_blank_due (hc : c ∈ blankChars) : push? ⟨.operand, n⟩ c = some ⟨.operand, n⟩ :=
  if_pos hc

/-- Behind an operand a blank ends whatever there was, a number above all. -/
theorem push?_blank (hm : m ≠ .operand) (hc : c ∈ blankChars) :
    push? ⟨m, n⟩ c = some ⟨.complete, n⟩ := by
  rw [push?_of_ne_operand hm, pushBehind?, if_pos hc]

/-- A digit begins a number where an operand is due, and goes on with a number. -/
theorem push?_digit (hm : m ≠ .complete) (hc : '0' ≤ c ∧ c ≤ '9') :
    push? ⟨m, n⟩ c = some ⟨.digits, n⟩ := by
  have hblank : c ∉ blankChars := Opens.not_blank (.inl hc)
  cases m with
  | operand => rw [push?, pushDue?, if_neg hblank, if_pos hc]
  | digits => rw [push?, pushBehind?, if_neg hblank, if_pos hc, if_pos rfl]
  | complete => exact absurd rfl hm

/-- An opening parenthesis is one more to be closed. -/
theorem push?_open : push? ⟨.operand, n⟩ '(' = some ⟨.operand, n + 1⟩ := rfl

/-- A sign is as good as nothing in front of an operand. -/
theorem push?_minus : push? ⟨.operand, n⟩ '-' = some ⟨.operand, n⟩ := rfl

/-- A closing parenthesis needs one that is open, and is the end of an operand. -/
theorem push?_close (hm : m ≠ .operand) : push? ⟨m, n + 1⟩ ')' = some ⟨.complete, n⟩ := by
  rw [push?_of_ne_operand hm]
  rfl

/-- Behind an operator another operand is due. -/
theorem push?_symbol (hm : m ≠ .operand) (op : Operator) :
    push? ⟨m, n⟩ op.symbol = some ⟨.operand, n⟩ := by
  rw [push?_of_ne_operand hm]
  cases op <;> rfl

/-- Where an operand is due nothing else comes but what begins one. -/
theorem push?_due_eq_none (hblank : c ∉ blankChars) (hopens : ¬Opens c) :
    push? ⟨.operand, n⟩ c = none := by
  rw [push?, pushDue?, if_neg hblank, if_neg fun h => hopens (.inl h),
    if_neg fun h => hopens (.inr (.inl h)), if_neg fun h => hopens (.inr (.inr h))]

/-- Behind an operand nothing comes but more digits, an operator or a closing parenthesis. -/
theorem push?_eq_none (hm : m ≠ .operand) (hblank : c ∉ blankChars)
    (hdigit : m = .digits → ¬('0' ≤ c ∧ c ≤ '9')) (hop : ∀ op : Operator, c ≠ op.symbol)
    (hclose : c = ')' → n = 0) : push? ⟨m, n⟩ c = none := by
  rw [push?_of_ne_operand hm, pushBehind?, if_neg hblank]
  split
  · rename_i hd
    exact if_neg fun h => hdigit h hd
  split
  · rename_i hc
    exact if_pos (hclose hc)
  · refine if_neg fun hmem => ?_
    simp only [List.mem_cons, List.not_mem_nil, or_false] at hmem
    rcases hmem with rfl | rfl | rfl | rfl
    · exact hop .add rfl
    · exact hop .sub rfl
    · exact hop .mul rfl
    · exact hop .div rfl

end Scan

/-! ### Reading a text -/

/-- A text leads from one mode to another, and leaves `k` parentheses open. -/
def Leads (m : Mode) (s : List Char) (m' : Mode) (k : Nat) : Prop :=
  ∀ n, s.foldlM Scan.push? ⟨m, n⟩ = some ⟨m', n + k⟩

namespace Leads

variable {m m' m'' : Mode} {s s' w : List Char} {c : Char} {k : Nat}

/-- No characters lead nowhere. -/
theorem nil : Leads m [] m 0 := fun _ => rfl

/-- One stretch behind another leads on from where the first has led. -/
theorem append (h : Leads m s m' 0) (h' : Leads m' s' m'' k) : Leads m (s ++ s') m'' k := by
  intro n
  rw [List.foldlM_append, h n]
  exact h' n

/-- A character that leads on with any number of parentheses open may come first. -/
theorem cons (hc : ∀ n, Scan.push? ⟨m, n⟩ c = some ⟨m', n⟩) (h : Leads m' s m'' k) :
    Leads m (c :: s) m'' k := by
  intro n
  rw [List.foldlM_cons, hc n]
  exact h n

/-- Blanks in front of an operand. -/
theorem blanks_due (hw : Blanks w) : Leads .operand w .operand 0 := by
  induction w with
  | nil => exact .nil
  | cons c w ih =>
    rw [Blanks, List.forall_mem_cons] at hw
    exact .cons (fun _ => Scan.push?_blank_due hw.1) (ih hw.2)

/-- Blanks behind an operand complete it. -/
theorem blanks (hm : m ≠ .operand) (hw : Blanks w) :
    ∃ m', Leads m w m' 0 ∧ m' ≠ .operand ∧ (m' = .digits → w = [] ∧ m = .digits) := by
  induction w generalizing m with
  | nil => exact ⟨m, .nil, hm, fun h => ⟨rfl, h⟩⟩
  | cons c w ih =>
    rw [Blanks, List.forall_mem_cons] at hw
    obtain ⟨m', hleads, hm', hdigits⟩ := ih (m := .complete) (by decide) hw.2
    refine ⟨m', .cons (fun _ => Scan.push?_blank hm hw.1) hleads, hm', fun h => ?_⟩
    exact absurd (hdigits h).2 (by decide)

/-- Digits are a number that is not yet ended, with as many of them as one likes. -/
theorem digits (hm : m ≠ .complete) (hne : s ≠ []) (hs : ∀ c ∈ s, '0' ≤ c ∧ c ≤ '9') :
    Leads m s .digits 0 := by
  induction s generalizing m with
  | nil => exact absurd rfl hne
  | cons c s ih =>
    rw [List.forall_mem_cons] at hs
    refine .cons (fun _ => Scan.push?_digit hm hs.1) ?_
    cases s with
    | nil => exact .nil
    | cons c' s' => exact ih (by decide) (List.cons_ne_nil _ _) hs.2

/-- An opening parenthesis and the blanks behind it. -/
theorem opening (hw : Blanks w) (h : Leads .operand s m k) :
    Leads .operand ('(' :: (w ++ s)) m (k + 1) := by
  intro n
  rw [List.foldlM_cons, Scan.push?_open, ← Nat.add_assoc, Nat.add_right_comm]
  exact (blanks_due hw).append h (n + 1)

/-- A minus sign in front of an operand and the blanks behind it. -/
theorem minus (hw : Blanks w) (h : Leads .operand s m k) :
    Leads .operand ('-' :: (w ++ s)) m k :=
  .cons (fun _ => Scan.push?_minus) ((blanks_due hw).append h)

/-- An operator behind an operand and the blanks behind it. -/
theorem operator (hm : m ≠ .operand) (op : Operator) (hw : Blanks w)
    (h : Leads .operand s m' k) : Leads m (op.symbol :: (w ++ s)) m' k :=
  .cons (fun _ => Scan.push?_symbol hm op) ((blanks_due hw).append h)

/-- An operand in parentheses: what has been opened is closed. -/
theorem parens {w' : List Char} (hw : Blanks w) (h : Leads .operand s m 0) (hm : m ≠ .operand)
    (hw' : Blanks w') : Leads .operand ('(' :: (w ++ (s ++ (')' :: w')))) .complete 0 := by
  intro n
  have hopen := opening hw h n
  obtain ⟨m', hleads, hm', hdigits⟩ := blanks (m := .complete) (by decide) hw'
  obtain rfl : m' = .complete := by
    cases m' with
    | operand => exact absurd rfl hm'
    | digits => exact absurd (hdigits rfl).2 (by decide)
    | complete => rfl
  rw [← List.append_assoc, ← List.cons_append, List.foldlM_append, hopen]
  show (')' :: w').foldlM Scan.push? ⟨m, n + 1⟩ = _
  rw [List.foldlM_cons, Scan.push?_close hm]
  exact hleads n

end Leads

/-! ### Phrases and sentences -/

/-- The mode in front of a phrase: an operand is due, or one was read if the
    phrase is the rest of a chain. -/
def Phrase.Entered : Phrase → Mode → Prop
  | .tail _ _, m => m ≠ .operand
  | _, m => m = .operand

/-- **Phrases are read through.** A derivation leads behind an operand, with as many parentheses
    open as before. -/
theorem Derives.leads {x : Phrase} {d : Nat} {s : List Char} {e : Expr} (h : Derives x d s e)
    {m : Mode} (hm : x.Entered m) : ∃ m', Leads m s m' 0 ∧ m' ≠ .operand := by
  -- The mode changes from phrase to phrase, and an operand is due only behind a sign or an opening.
  induction h generalizing m with
  | number hds hw =>
    obtain rfl : m = .operand := hm
    obtain ⟨m', hleads, hm', -⟩ := Leads.blanks (m := .digits) (by decide) hw
    exact ⟨m', (Leads.digits (by decide) hds.ne_nil hds.forall_digit).append hleads, hm'⟩
  | parens hw _ hw' ih =>
    obtain rfl : m = .operand := hm
    obtain ⟨m', hleads, hm'⟩ := ih rfl
    exact ⟨.complete, .parens hw hleads hm' hw', by decide⟩
  | minus hw _ ih =>
    obtain rfl : m = .operand := hm
    obtain ⟨m', hleads, hm'⟩ := ih rfl
    exact ⟨m', .minus hw hleads, hm'⟩
  | @chain t _ _ _ _ _ _ _ _ ih ih' =>
    obtain rfl : m = .operand := hm
    obtain ⟨m₁, hleads, hm₁⟩ := ih (m := .operand) (by cases t <;> rfl)
    obtain ⟨m₂, hleads', hm₂⟩ := ih' hm₁
    exact ⟨m₂, hleads.append hleads', hm₂⟩
  | done => exact ⟨m, .nil, hm⟩
  | @more t op _ _ _ _ _ _ _ _ _ hw _ _ ih ih' =>
    obtain ⟨m₁, hleads, hm₁⟩ := ih (m := .operand) (by cases t <;> rfl)
    obtain ⟨m₂, hleads', hm₂⟩ := ih' hm₁
    exact ⟨m₂, .operator hm op hw (hleads.append hleads'), hm₂⟩

/-- **Where the machine stops no sentence goes on.** -/
theorem Sentence.not_append_cons {d : Nat} {u v : List Char} {c : Char} {e : Expr} {m : Mode}
    {k : Nat} (hleads : Leads .operand u m k) (hc : Scan.push? ⟨m, k⟩ c = none) :
    ¬Sentence d (u ++ (c :: v)) e := by
  rintro ⟨w, s, hw, htext, hs⟩
  obtain ⟨m', hs', -⟩ := hs.leads (m := .operand) rfl
  have hread := ((Leads.blanks_due hw).append hs') 0
  rw [← htext, List.foldlM_append, hleads 0, Option.bind_eq_bind, Option.bind_some, Nat.zero_add,
    List.foldlM_cons, hc] at hread
  cases hread

end TextMatch.Calculator
