import Mathlib.Algebra.Group.Nat.Defs
import TextMatch.Proofs.Cursor.Marks
import TextMatch.Proofs.Engine.Termination

namespace TextMatch

/-!
# Calls — the runs inside a run

A run is made of the runs of its parts and of the definitions it refers to.  Some of them leave no
trace in the outcome: abandoned alternatives, failed lookahead, the last round of a repetition.
What has to hold of all of them is said of calls.

* `Call`, `Call.Makes` — a matcher with a state and a cursor, and the calls it makes by itself;
* `Records` — somewhere inside a call a span is put under a name;
* `get?_captures_of_evaluates` — the table has what it had and what was recorded, nothing else;
* `Call.Makes.ahead`, `Records.ahead` — nothing inside a call looks at the text behind it;
* `run_within_text` — the cursors and spans of a run lie ahead of it in its text.
-/

variable {S : Signature} {P ω α : Type}

/-! ### Calls -/

/-- A matcher that is run from a state and a cursor. -/
structure Call (S : Signature) (P ω : Type) where
  {α : Type}
  matcher : Matcher S α
  state : State S P ω
  cursor : P

/-- The calls that a call makes by itself; those they make in turn are left to them.  A call is
    made whether or not it ever ends, but only behind one that has. -/
inductive Call.Makes [Cursor P] (host : Host S P ω) : Call S P ω → Call S P ω → Prop where
  | map {α β : Type} {f : α → β} {m st p} : Makes host ⟨.map f m, st, p⟩ ⟨m, st, p⟩
  | flatMap {α β : Type} {m : Matcher S α} {holds} {next : α → Matcher S β} {st p} :
      Makes host ⟨.flatMap m holds next, st, p⟩ ⟨m, st, p⟩
  | flatMapNext {α β : Type} {m : Matcher S α} {holds} {next : α → Matcher S β} {st p v q st'}
      (h : Evaluates host m st p (.success v q) st') :
      Makes host ⟨.flatMap m holds next, st, p⟩ ⟨next v, st', q⟩
  | seq {α β : Type} {a : Matcher S α} {b : Matcher S β} {st p} :
      Makes host ⟨.seq a b, st, p⟩ ⟨a, st, p⟩
  | seqNext {α β : Type} {a : Matcher S α} {b : Matcher S β} {st p v q st'}
      (h : Evaluates host a st p (.success v q) st') :
      Makes host ⟨.seq a b, st, p⟩ ⟨b, st', q⟩
  | choice {α : Type} {a b : Matcher S α} {st p} : Makes host ⟨.choice a b, st, p⟩ ⟨a, st, p⟩
  | choiceElse {α : Type} {a b : Matcher S α} {st p q st'}
      (h : Evaluates host a st p (.failure q) st') :
      Makes host ⟨.choice a b, st, p⟩ ⟨b, st', p⟩
  -- A repetition makes a round, and behind a round that moves on it begins again.
  | many {α : Type} {m : Matcher S α} {st p} : Makes host ⟨.many m, st, p⟩ ⟨m, st, p⟩
  | manyMore {α : Type} {m : Matcher S α} {st p v q st'}
      (h : Evaluates host m st p (.success v q) st') (hp : Cursor.isBefore p q = true) :
      Makes host ⟨.many m, st, p⟩ ⟨.many m, st', q⟩
  | many1 {α : Type} {m : Matcher S α} {st p} : Makes host ⟨.many1 m, st, p⟩ ⟨m, st, p⟩
  | many1More {α : Type} {m : Matcher S α} {st p v q st'}
      (h : Evaluates host m st p (.success v q) st') :
      Makes host ⟨.many1 m, st, p⟩ ⟨.many m, st', q⟩
  | optional {α : Type} {m : Matcher S α} {st p} : Makes host ⟨.optional m, st, p⟩ ⟨m, st, p⟩
  | not {α : Type} {m : Matcher S α} {st p} : Makes host ⟨.not m, st, p⟩ ⟨m, st, p⟩
  | guard {α : Type} {m : Matcher S α} {st p} : Makes host ⟨.guard m, st, p⟩ ⟨m, st, p⟩
  | capture {α : Type} {name} {m : Matcher S α} {st p} :
      Makes host ⟨.capture name m, st, p⟩ ⟨m, st, p⟩
  | shared {α : Type} {holds} {m : Matcher S α} {st p} :
      Makes host ⟨.shared holds m, st, p⟩ ⟨m, st, p⟩
  | enter {α : Type} {m definition : Matcher S α} {frame st p}
      (href : Refers host st.rules m frame definition) (hf : st.context.isFull = false) :
      Makes host ⟨m, st, p⟩ ⟨definition, st.enter frame, p⟩

/-- Inside a call a span is put under a name: a capture has succeeded there.  The span may be
    replaced later, and the capture may be part of something that fails. -/
inductive Records [Cursor P] (host : Host S P ω) : Call S P ω → String → Span P → Prop where
  | capture {α : Type} {name} {m : Matcher S α} {st p v q st'}
      (h : Evaluates host m st p (.success v q) st') :
      Records host ⟨.capture name m, st, p⟩ name ⟨p, q⟩
  | inside {c c' : Call S P ω} {name s} (h : c.Makes host c') (hr : Records host c' name s) :
      Records host c name s

/-- **The table is made of what is recorded.** Behind a run there is under a name what was there
    before it or what the run has recorded. -/
theorem get?_captures_of_evaluates [Cursor P] {host : Host S P ω} {m : Matcher S α}
    {st st' : State S P ω} {p : P} {o : Outcome P α} (h : Evaluates host m st p o st')
    {name : String} {s : Span P} (hs : st'.context.captures.get? name = some s) :
    st.context.captures.get? name = some s ∨ Records host ⟨m, st, p⟩ name s := by
  induction h with
  | map _ ih => exact (ih hs).imp_right (.inside .map)
  | flatMap h _ ih ih' =>
    rcases ih' hs with hs | hr
    · exact (ih hs).imp_right (.inside .flatMap)
    · exact .inr (.inside (.flatMapNext h) hr)
  | flatMapFail _ ih => exact (ih hs).imp_right (.inside .flatMap)
  | seq ha _ ih ih' =>
    rcases ih' hs with hs | hr
    · exact (ih hs).imp_right (.inside .seq)
    · exact .inr (.inside (.seqNext ha) hr)
  | seqFail _ ih => exact (ih hs).imp_right (.inside .seq)
  | choice _ ih => exact (ih hs).imp_right (.inside .choice)
  | choiceElse ha _ ih ih' =>
    rcases ih' hs with hs | hr
    · exact (ih hs).imp_right (.inside .choice)
    · exact .inr (.inside (.choiceElse ha) hr)
  | manyMore h hp _ ih ih' =>
    rcases ih' hs with hs | hr
    · exact (ih hs).imp_right (.inside .many)
    · exact .inr (.inside (.manyMore h hp) hr)
  | manyStuck _ _ ih | manyFail _ ih => exact (ih hs).imp_right (.inside .many)
  | many1 h _ ih ih' =>
    rcases ih' hs with hs | hr
    · exact (ih hs).imp_right (.inside .many1)
    · exact .inr (.inside (.many1More h) hr)
  | many1Fail _ ih => exact (ih hs).imp_right (.inside .many1)
  | optional _ ih | optionalNone _ ih => exact (ih hs).imp_right (.inside .optional)
  | notFail _ ih | not _ ih => exact (ih hs).imp_right (.inside .not)
  | guard _ ih | guardFail _ ih => exact (ih hs).imp_right (.inside .guard)
  | @capture _ name' _ _ _ _ _ _ h ih =>
    -- Under the name of the capture there is its own span now, whatever was recorded inside.
    rw [State.capture, Context.capture, Captures.get?_insert] at hs
    by_cases hname : name' = name
    · subst hname
      rw [if_pos rfl] at hs
      cases hs
      exact .inr (.capture h)
    · rw [if_neg hname] at hs
      exact (ih hs).imp_right (.inside .capture)
  | captureFail _ ih => exact (ih hs).imp_right (.inside .capture)
  | enter href hf _ ih => exact (ih hs).imp_right (.inside (.enter href hf))
  | shared _ ih => exact (ih hs).imp_right (.inside .shared)
  | _ => exact .inl hs

/-! ### Everything inside a call lies ahead of it -/

section

open Cursor (advanceBy Ahead)

variable [Cursor P] [IsEmpty S.Hook] {host : Host S P ω}

/-- A call is made at the place of the one that makes it, or behind a
    part that has ended ahead of it. -/
theorem Call.Makes.ahead {c c' : Call S P ω} (h : c.Makes host c') :
    Ahead c.cursor c'.cursor := by
  cases h with
  | flatMapNext h | seqNext h | manyMore h _ | many1More h => exact h.ahead
  | _ => exact .refl _

/-- A recorded span begins ahead of the call, and ends ahead of its beginning. -/
theorem Records.ahead {c : Call S P ω} {name : String} {s : Span P}
    (h : Records host c name s) : Ahead c.cursor s.start ∧ Ahead s.start s.stop := by
  induction h with
  | capture h => exact ⟨.refl _, h.ahead⟩
  | inside h _ ih => exact ⟨h.ahead.trans ih.1, ih.2⟩

end

open Cursor (advanceBy)

/-- **A run stays ahead in its text.** From any place of a text, over any definitions and in any
    context, a run that ends does so at a place of the same text that is not before the first, with
    the counts of what has been passed there, whether it succeeds or fails.  Every span that it
    records on the way goes from one place ahead to another that is not before it, and its text is
    the characters between them; and only such spans are new in the table.  If the text has fewer
    than `2 ^ 32` characters, lines and columns fit into 32 bits at all of these places. -/
theorem run_within_text [IsEmpty S.Hook] (host : Host S Place ω) (m : Matcher S α) (bound : Nat)
    (st st' : State S Place ω) (text : String) (k : Nat) (p : Place)
    (hp : p = advanceBy k (Place.start text)) (o : Outcome Place α)
    (h : m.run host bound st p = some (o, st')) :
    (∃ j, o.next = advanceBy j p ∧ Cursor.isBefore o.next p = false ∧
      o.next.Marks (text.toList.take (k + j)) (text.toList.drop (k + j))) ∧
      (∀ name s, Records host ⟨m, st, p⟩ name s →
        ∃ i j, i ≤ j ∧ s.start = advanceBy i p ∧ s.stop = advanceBy j p ∧
          s.text = String.ofList ((p.ahead.drop i).take (j - i))) ∧
      (∀ name s, st'.context.captures.get? name = some s →
        st.context.captures.get? name = some s ∨ Records host ⟨m, st, p⟩ name s) ∧
      (text.length < 2 ^ 32 → o.next.CountsFit ∧
        ∀ name s, Records host ⟨m, st, p⟩ name s → s.start.CountsFit ∧ s.stop.CountsFit) := by
  have he : Evaluates host m st p o st' := Matcher.evaluates_of_run h
  have hbegin : Cursor.Ahead (.start text) p := ⟨k, hp⟩
  refine ⟨?_, fun name s hs => ?_, fun name s hs => get?_captures_of_evaluates he hs,
    fun hlength => ⟨?_, fun name s hs => ?_⟩⟩
  · obtain ⟨j, hj⟩ := he.ahead
    have hmarks : (advanceBy j p).Marks (text.toList.take (k + j)) (text.toList.drop (k + j)) := by
      rw [hp, ← Cursor.advanceBy_add]
      exact Place.marks_advanceBy_start (k + j) text
    exact ⟨j, hj, Place.not_isBefore_of_ahead he.ahead, hj ▸ hmarks⟩
  · obtain ⟨⟨i, hi⟩, j, hj⟩ := hs.ahead
    -- The end of a span is counted from its beginning, which is counted from the place of the run.
    have hstop : s.stop = advanceBy (i + j) p := by rw [Cursor.advanceBy_add, ← hi, hj]
    refine ⟨i, i + j, Nat.le_add_right i j, hi, hstop, ?_⟩
    rw [Span.text, Span.chars, hi, hstop, Place.between_advanceBy]
  · exact Place.countsFit_of_ahead hlength (hbegin.trans he.ahead)
  · obtain ⟨hstart, hstop⟩ := hs.ahead
    have hspan : Cursor.Ahead (.start text) s.start := hbegin.trans hstart
    exact ⟨Place.countsFit_of_ahead hlength hspan,
      Place.countsFit_of_ahead hlength (hspan.trans hstop)⟩

/-- One name, which stands for characters that are each followed by the same one again. -/
def doubling (P : Type) : Host oneName P Unit where
  definition _ := .map (fun _ => ()) (.many (.seq (.capture "c" .anyChar) (.backref "c")))
  act action := nomatch action

/-- From an empty table only spans of the text ahead are found under a name, here behind a first
    character and in front of two of two bytes each.  Counts are small in so short a text. -/
theorem run_within_text_doubling :
    ∃ o st', (Matcher.defer (S := oneName) ()).run (doubling Place) 4 ⟨.new none, .empty, ()⟩
        (advanceBy 1 (.start "xéé")) = some (o, st') ∧
      (∃ j, o.next.Marks ("xéé".toList.take (1 + j)) ("xéé".toList.drop (1 + j))) ∧
      o.next.CountsFit ∧
      ∀ name s, st'.context.captures.get? name = some s →
        ∃ i j, i ≤ j ∧ s.text = String.ofList ((['é', 'é'].drop i).take (j - i)) := by
  refine ⟨_, _, rfl, ?_⟩
  obtain ⟨⟨j, -, -, hmarks⟩, hspans, htable, hfit⟩ := run_within_text (doubling Place)
    (.defer (S := oneName) ()) 4 ⟨.new none, .empty, ()⟩ _ "xéé" 1 _ rfl _ rfl
  refine ⟨⟨j, hmarks⟩, (hfit (by decide)).1, fun name s hs => ?_⟩
  rcases htable name s hs with hold | hr
  · rw [Context.new, Captures.get?_empty] at hold
    cases hold
  · obtain ⟨i, j, hle, -, -, htext⟩ := hspans name s hr
    exact ⟨i, j, hle, htext⟩

end TextMatch
