import Mathlib.Algebra.Group.Int.Defs
import TextMatch.Calculator.Expr

namespace TextMatch.Calculator

/-!
# Evaluation is exact

Values are computed in sixty-four bits, with a check after every operation.  Here they are compared
with the values over the unbounded integers, which are never checked.

* `Expr.exact` — the value over the integers, unless a divisor is zero;
* `Expr.nodes` — the subexpressions, in the order in which they are evaluated;
* `Expr.offence?` — what is wrong with a node by itself: a divisor of zero, or a value that does not
  fit;
* `Expr.eval_of_findSome?` — an evaluation ends at the first node with which something is wrong;
* `eval_eq_exact` — so it gives the exact value, or the error of that node.
-/

/-! ### Values over the integers -/

/-- The result of an operator on integers.  Quotients are rounded toward
    zero, and there is none by zero. -/
def Operator.exact (op : Operator) (a b : Int) : Option Int :=
  match op with
  | .add => some (a + b)
  | .sub => some (a - b)
  | .mul => some (a * b)
  | .div => if b = 0 then none else some (a.tdiv b)

/-- The value of an expression over the integers. -/
def Expr.exact : Expr → Option Int
  | .number n => some n.toInt
  | .negate e => e.exact.map fun a => -a
  | .binary op l r => l.exact.bind fun a => r.exact.bind fun b => op.exact a b

/-- The integers of sixty-four bits. -/
def Fits (n : Int) : Prop := -2 ^ 63 ≤ n ∧ n ≤ 2 ^ 63 - 1

instance (n : Int) : Decidable (Fits n) := inferInstanceAs (Decidable (_ ∧ _))

/-- What has been stored in 64 bits fits into them. -/
theorem fits_toInt (v : Int64) : Fits v.toInt := by
  have hle : -2 ^ 63 ≤ v.toInt := v.le_toInt
  have hlt : v.toInt < 2 ^ 63 := v.toInt_lt
  unfold Fits
  omega

/-- A number that fits is stored. -/
theorem fit_of_fits {n : Int} (h : Fits n) : fit n = .ok (Int64.ofInt n) := if_pos h

/-- A number that does not fit is an overflow. -/
theorem fit_of_not_fits {n : Int} (h : ¬Fits n) : fit n = .error .overflow := if_neg h

/-- An integer of sixty-four bits is not changed by keeping it in them. -/
theorem toInt_ofInt_of_fits {n : Int} (h : Fits n) : (Int64.ofInt n).toInt = n := by
  have hsize : (Int64.size : Int) = 2 ^ 64 := rfl
  unfold Fits at h
  rw [Int64.toInt_ofInt, Int.bmod_eq_of_le] <;> omega

/-- An operator computes the exact result where there is one, and then checks that it fits. -/
theorem Operator.apply_eq (op : Operator) (a b : Int64) :
    op.apply a b = (op.exact a.toInt b.toInt).elim (.error .divisionByZero) fit := by
  cases op with
  | div =>
    have hzero : b = 0 ↔ b.toInt = 0 := Int64.toInt_inj.symm
    simp only [apply, exact, hzero]
    by_cases hb : b.toInt = 0 <;> simp [hb]
  | _ => rfl

/-! ### Nodes -/

/-- The subexpressions in postorder: operands before the operation, the left one first. -/
def Expr.nodes : Expr → List Expr
  | .number n => [.number n]
  | .negate e => e.nodes ++ [.negate e]
  | .binary op l r => l.nodes ++ r.nodes ++ [.binary op l r]

/-- The node is a division, and its divisor has the value zero. -/
def Expr.dividesByZero : Expr → Bool
  | .binary .div _ r => r.exact == some 0
  | _ => false

/-- What is wrong with a node, whatever is wrong with those before it. -/
def Expr.offence? (e : Expr) : Option Error :=
  if e.dividesByZero then some .divisionByZero
  else
    match e.exact with
    | some n => if Fits n then none else some .overflow
    | none => none

/-- A node with an exact value offends only if that does not fit. -/
theorem Expr.offence?_of_exact {e : Expr} {n : Int} (hdiv : e.dividesByZero = false)
    (hn : e.exact = some n) : e.offence? = if Fits n then none else some .overflow := by
  simp [offence?, hdiv, hn]

/-- An operation divides by zero if its operator has no result for the values of its operands. -/
theorem Expr.dividesByZero_binary {op : Operator} (l : Expr) {r : Expr} (a : Int) {b : Int}
    (hr : r.exact = some b) : (binary op l r).dividesByZero = (op.exact a b).isNone := by
  cases op with
  | div => by_cases hb : b = 0 <;> simp [dividesByZero, Operator.exact, hr, hb]
  | _ => rfl

/-! ### The first node with which something is wrong -/

/-- A node whose operands have exact values has the exact value of its
    operation, or the error of the node. -/
theorem Expr.fit_of_offence? {e : Expr} {n : Int} (hdiv : e.dividesByZero = false)
    (hn : e.exact = some n) :
    (e.offence? = none → ∃ v, fit n = .ok v ∧ e.exact = some v.toInt) ∧
      ∀ err, e.offence? = some err → fit n = .error err := by
  rw [offence?_of_exact hdiv hn, hn]
  by_cases h : Fits n
  · rw [if_pos h, fit_of_fits h]
    exact ⟨fun _ => ⟨_, rfl, by rw [toInt_ofInt_of_fits h]⟩, fun _ herr => nomatch herr⟩
  · rw [if_neg h, fit_of_not_fits h]
    exact ⟨fun hnone => (nomatch hnone), fun _ herr => congrArg _ (Option.some.inj herr)⟩

/-- **Evaluation ends at the first offence.** Without one it gives the exact value. -/
theorem Expr.eval_of_findSome? (e : Expr) :
    (e.nodes.findSome? offence? = none → ∃ v, e.eval = .ok v ∧ e.exact = some v.toInt) ∧
      ∀ err, e.nodes.findSome? offence? = some err → e.eval = .error err := by
  induction e with
  | number n =>
    have hnone : (number n).offence? = none := by
      rw [offence?_of_exact rfl rfl, if_pos (fits_toInt n)]
    simp [nodes, hnone, eval, exact]
  | negate e ih =>
    rw [nodes, List.findSome?_append]
    cases hfind : e.nodes.findSome? offence? with
    | some err' =>
      refine ⟨fun h => (nomatch h), fun err herr => ?_⟩
      obtain rfl : err' = err := Option.some.inj herr
      rw [eval, ih.2 _ hfind]
      rfl
    | none =>
      obtain ⟨a, ha, hexact⟩ := ih.1 hfind
      have hn : (negate e).exact = some (-a.toInt) := by rw [exact, hexact]; rfl
      have heval : (negate e).eval = fit (-a.toInt) := by rw [eval, ha]; rfl
      rw [heval]
      simpa using fit_of_offence? rfl hn
  | binary op l r ihl ihr =>
    rw [nodes, List.findSome?_append, List.findSome?_append]
    cases hfindl : l.nodes.findSome? offence? with
    | some err' =>
      -- The right operand and the operation itself are not looked at.
      refine ⟨fun h => (nomatch h), fun err herr => ?_⟩
      obtain rfl : err' = err := Option.some.inj herr
      rw [eval, ihl.2 _ hfindl]
      rfl
    | none =>
      obtain ⟨a, ha, hexactl⟩ := ihl.1 hfindl
      cases hfindr : r.nodes.findSome? offence? with
      | some err' =>
        refine ⟨fun h => (nomatch h), fun err herr => ?_⟩
        obtain rfl : err' = err := Option.some.inj herr
        rw [eval, ha, ihr.2 _ hfindr]
        rfl
      | none =>
        obtain ⟨b, hb, hexactr⟩ := ihr.1 hfindr
        have heval : (binary op l r).eval = op.apply a b := by rw [eval, ha, hb]; rfl
        have hexact : (binary op l r).exact = op.exact a.toInt b.toInt := by
          rw [exact, hexactl, hexactr]; rfl
        have hdiv : (binary op l r).dividesByZero = (op.exact a.toInt b.toInt).isNone :=
          dividesByZero_binary l a.toInt hexactr
        rw [heval, Operator.apply_eq]
        cases hn : op.exact a.toInt b.toInt with
        | some n =>
          rw [hn] at hexact hdiv
          simpa using fit_of_offence? hdiv hexact
        | none =>
          rw [hn] at hdiv
          have hoffence : (binary op l r).offence? = some .divisionByZero := if_pos hdiv
          simp [hoffence]

/-- Nothing is wrong with a node that divides by no zero and has a value that fits. -/
theorem Expr.offence?_eq_none {e : Expr} {n : Int} (hdiv : e.dividesByZero = false)
    (hn : e.exact = some n) (hfits : Fits n) : e.offence? = none := by
  rw [offence?_of_exact hdiv hn, if_pos hfits]

/-- A node that does not offend divides by nothing, or not by zero. -/
theorem Expr.dividesByZero_of_offence? {e : Expr} (h : e.offence? = none) :
    e.dividesByZero = false := by
  cases hdiv : e.dividesByZero with
  | false => rfl
  | true => simp [offence?, hdiv] at h

/-- The nodes of a node are nodes. -/
theorem Expr.nodes_subset {e s : Expr} (h : s ∈ e.nodes) : s.nodes ⊆ e.nodes := by
  induction e with
  | number n =>
    obtain rfl : s = number n := by simpa [nodes] using h
    exact List.Subset.refl _
  | negate e ih =>
    rw [nodes, List.mem_append, List.mem_singleton] at h
    obtain h | rfl := h
    · exact List.subset_append_of_subset_left _ (ih h)
    · exact List.Subset.refl _
  | binary op l r ihl ihr =>
    rw [nodes, List.mem_append, List.mem_append, List.mem_singleton] at h
    obtain (h | h) | rfl := h
    · exact List.subset_append_of_subset_left _ (List.subset_append_of_subset_left _ (ihl h))
    · exact List.subset_append_of_subset_left _ (List.subset_append_of_subset_right _ (ihr h))
    · exact List.Subset.refl _

/-- There is no offence exactly if no divisor is zero and the value of every subexpression fits. -/
theorem Expr.findSome?_offence?_eq_none_iff {e : Expr} :
    e.nodes.findSome? offence? = none ↔
      (∀ s ∈ e.nodes, s.dividesByZero = false) ∧
        ∀ s ∈ e.nodes, ∃ n, s.exact = some n ∧ Fits n := by
  constructor
  · intro hnone
    have hoffence : ∀ s ∈ e.nodes, s.offence? = none := List.findSome?_eq_none_iff.1 hnone
    refine ⟨fun s hs => dividesByZero_of_offence? (hoffence s hs), fun s hs => ?_⟩
    -- What holds of the whole expression holds of the subexpression, whose nodes are among its.
    have hnodes : s.nodes.findSome? offence? = none :=
      List.findSome?_eq_none_iff.2 fun s' hs' => hoffence s' (nodes_subset hs hs')
    obtain ⟨v, -, hexact⟩ := s.eval_of_findSome?.1 hnodes
    exact ⟨v.toInt, hexact, fits_toInt v⟩
  · rintro ⟨hdiv, hfits⟩
    refine List.findSome?_eq_none_iff.2 fun s hs => ?_
    obtain ⟨n, hn, hfit⟩ := hfits s hs
    exact offence?_eq_none (hdiv s hs) hn hfit

/-! ### Main result -/

/-- **Evaluation is exact or says what is wrong.**  The result is a value exactly if, over the
    integers, no divisor is zero and the value of every subexpression fits into sixty-four bits; it
    is the value of the expression.  Otherwise it is the error of the first node, in postorder, that
    divides by zero or has a value that does not fit. -/
theorem eval_eq_exact (e : Expr) :
    (∀ v, e.eval = .ok v ↔
      (∀ s ∈ e.nodes, s.dividesByZero = false) ∧
        (∀ s ∈ e.nodes, ∃ n, s.exact = some n ∧ Fits n) ∧ e.exact = some v.toInt) ∧
      ∀ err, e.eval = .error err ↔ e.nodes.findSome? Expr.offence? = some err := by
  cases hfind : e.nodes.findSome? Expr.offence? with
  | none =>
    obtain ⟨a, ha, hexact⟩ := e.eval_of_findSome?.1 hfind
    obtain ⟨hdiv, hfits⟩ := Expr.findSome?_offence?_eq_none_iff.1 hfind
    rw [ha, hexact]
    refine ⟨fun v => ⟨fun hv => ?_, fun ⟨_, _, hv⟩ => ?_⟩, fun err => by simp⟩
    · obtain rfl : a = v := Except.ok.inj hv
      exact ⟨hdiv, hfits, rfl⟩
    · exact congrArg _ (Int64.toInt_inj.1 (Option.some.inj hv))
  | some err =>
    -- The first node that offends decides, and there is no value then.
    have herr : e.eval = .error err := e.eval_of_findSome?.2 err hfind
    rw [herr]
    refine ⟨fun v => ⟨fun hv => (nomatch hv), fun ⟨hdiv, hfits, _⟩ => ?_⟩, fun err' => by simp⟩
    have hnone := Expr.findSome?_offence?_eq_none_iff.2 ⟨hdiv, hfits⟩
    rw [hfind] at hnone
    cases hnone

/-- The least number has no negation, and no quotient by minus one. -/
example :
    (Expr.negate (.number Int64.minValue)).eval = .error .overflow ∧
      (Expr.binary .div (.number Int64.minValue) (.number (-1))).eval = .error .overflow :=
  ⟨rfl, rfl⟩

end TextMatch.Calculator
