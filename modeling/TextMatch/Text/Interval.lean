namespace TextMatch.Text

/-!
# Intervals of code points

The form in which the data of a character property is kept.  All such data here is that of
Unicode 17.0.

* `Interval` — the first and the last code point;
* `covers` — membership in a list of intervals.
-/

/-- A closed interval of code points, given by its first and its last. -/
abbrev Interval := Nat × Nat

/-- Whether a code point lies in one of the intervals. -/
def covers (table : List Interval) (code : Nat) : Bool :=
  table.any fun i => i.1 ≤ code && code ≤ i.2

end TextMatch.Text
