/-
**The parser accepts exactly its grammar.**

A text is read without errors exactly if the outline of the empty text accepts its tokens, and that
is so exactly if the grammar has them among its programs.  What remains to be seen here is the end of
a text: it is without errors exactly if nothing is open and nothing is missing.

Main results:

* `LetFn.Parser.run_eof_iff` — the end of a text mirrors the completeness of the outline;
* `LetFn.Parser.run_errors_eq_nil_iff` — the outline accepts a list of tokens exactly if reading it
  to its end brings no error to light;
* `LetFn.Parsed.errors_ofTokens_eq_nil_iff` — tokens are read without errors exactly if their
  literals denote words and their kinds are a program;
* `LetFn.Parsed.errors_ofString_eq_nil_iff` — **the parser accepts exactly its grammar**.
-/

import LetFn.Proofs.Parser.Mirror
import LetFn.Proofs.Parser.Sound

set_option relaxedAutoImplicit false
set_option autoImplicit false

namespace LetFn

namespace Parser

/-! ### The end of a text -/

@[simp] theorem outerFrames_eq_nil_iff (outer : List OpenBlock) :
    outerFrames outer = [] ↔ outer = [] := by
  cases outer <;> simp [outerFrames]

variable {t : Token}

/-- The end token leaves every open bracket without its end. -/
theorem close_eof_errors (ht : t.kind = .eof) (ps : List Pending) (e : Expr) :
    (close t true ps e).1 = [] ↔ frames ps = [] := by
  have hprec : t.kind.precedence = 0 := by rw [ht]; rfl
  constructor
  · intro h
    by_contra hps
    obtain ⟨f, fs, hfs⟩ := List.exists_cons_of_ne_nil hps
    obtain ⟨p, ps', e', -, -, hclose⟩ := close_bracket hprec hfs e
    -- no bracket is closed by the end token
    have haccept : p.accept? t ps' e' = none := by
      cases p <;> simp [Pending.accept?, ht]
    simp [hclose, closeBracket, haccept, giveUp] at h
  · intro hps
    obtain ⟨e', hclose⟩ := close_finished hprec hps e
    rw [hclose]

/-- At the end of a text an expression is complete if an operand has been read and no bracket is
open. -/
theorem advance_eof_errors (ht : t.kind = .eof) (ps : List Pending) {goal : Goal}
    (hgoal : ∀ e, goal ≠ .closer e) :
    (advance t ps goal).1 = [] ↔
      frames ps = [] ∧ (goal.slot = .operator ∨ goal.slot = .otherwise) := by
  cases goal with
  | operator e => simpa [advance, Goal.slot] using close_eof_errors ht ps e
  | otherwise tok c yes =>
      simpa [advance, ht, Goal.slot] using close_eof_errors ht ps (.ifElse tok c yes none)
  | closer e => exact absurd rfl (hgoal e)
  | _ => simp [advance, operand, expect, giveUp, ht, Goal.slot]

/-- **The end of a text brings no error to light exactly if the outline is complete.** -/
theorem run_eof_iff (ht : t.kind = .eof) {s : State} (hs : s.Whole) :
    (step s t).1 = [] ∧ s.outer = [] ↔ s.outline.Complete := by
  obtain ⟨outer, before, phase⟩ := s
  cases phase with
  | ready => simp [step, start, ht, State.outline, Outline.Complete]
  | bindName tok => simp [step, abandon, ht, State.outline, Outline.Complete]
  | bindAssign tok x => simp [step, abandon, ht, State.outline, Outline.Complete]
  | inside head ps goal =>
      have hslot : goal.slot ≠ .statement := by cases goal <;> simp [Goal.slot]
      have hgoal : ∀ e, goal ≠ .closer e := by
        rintro e rfl
        exact hs head ps e rfl
      have hadvance := advance_eof_errors ht ps hgoal
      obtain ⟨e, he⟩ := advance_eof ht ps goal
      have hstep : (step ⟨outer, before, .inside head ps goal⟩ t).1 = (advance t ps goal).1 := by
        rw [step_inside]
        rcases hmove : advance t ps goal with ⟨errors, move⟩
        obtain rfl : move = .finished e := by simpa [hmove] using he
        simp [carry, start, ht]
      rw [hstep, hadvance]
      simp only [State.outline, Outline.Complete, List.append_eq_nil_iff, outerFrames_eq_nil_iff]
      tauto

/-- **The outline accepts a list of tokens exactly if reading it to its end brings no error to light
and leaves nothing open.** -/
theorem run_errors_eq_nil_iff {eof : Token} (heof : eof.kind = .eof) {ts : List Token}
    (hts : ∀ t ∈ ts, t.kind ≠ .eof) {s : State} (hs : s.Whole) :
    (run s (ts ++ [eof])).1 = [] ∧ (run s (ts ++ [eof])).2.outer = [] ↔
      s.outline.Accepts (ts.map Token.soundKind) := by
  induction ts generalizing s with
  | nil =>
      have hend := run_eof_iff heof hs
      simpa [run_cons, Outline.accepts_nil, (step_eof heof s).1] using hend
  | cons t ts ih =>
      have hstep := step_mirrors (hts t (by simp)) hs
      simp only [List.cons_append, run_cons, List.map_cons, Outline.accepts_cons,
        List.append_eq_nil_iff]
      cases ho : s.outline.step t.soundKind with
      | none =>
          -- the error of this token stays among the errors of the text
          have herrors : (step s t).1 ≠ [] := by rw [ho] at hstep; exact hstep
          simp [herrors]
      | some o =>
          obtain ⟨herrors, houtline, hwhole⟩ : (step s t).1 = [] ∧ (step s t).2.outline = o ∧
              (step s t).2.Whole := by rw [ho] at hstep; exact hstep
          have hrest := ih (fun u hu => hts u (by simp [hu])) hwhole
          rw [houtline] at hrest
          simpa [herrors] using hrest

/-- What the end of a text lacks are the braces of the open blocks. -/
theorem finish_errors_eq_nil_iff (eof : Token) (outer : List OpenBlock) (before : List Stmt) :
    (finish eof outer before).1 = [] ↔ outer = [] := by
  cases outer <;> simp [finish]

end Parser

/-! ### Literals that are too large -/

theorem Token.fits_iff (t : Token) :
    t.Fits ↔
      (t.kind = .integer → Integer.valueOfDigits t.literal.toList ≤ 9223372036854775807) := by
  have h := Integer.ofDigits?_eq_none_iff t.literal.toList
  unfold Token.Fits
  rw [Ne, h]
  constructor <;> intro hfit hk <;> have := hfit hk <;> omega

/-- A character that begins no token is always at fault. -/
theorem Parser.Outline.step_illegal (o : Outline) : o.step .illegal = none := by
  obtain ⟨slot, fs⟩ := o
  cases slot <;> cases fs with
  | nil => rfl
  | cons f fs => cases f <;> rfl

/-- A list of tokens is accepted if its kinds are, and its literals are not too large. -/
theorem Parser.Outline.accepts_soundKind_iff (o : Outline) (ts : List Token) :
    o.Accepts (ts.map Token.soundKind) ↔ (∀ t ∈ ts, t.Fits) ∧ o.Accepts (ts.map Token.kind) := by
  induction ts generalizing o with
  | nil => simp [Outline.accepts_nil]
  | cons t ts ih =>
      simp only [List.map_cons, Outline.accepts_cons, List.forall_mem_cons, ih]
      by_cases hfit : t.Fits
      · have hkind : t.soundKind = t.kind := if_pos hfit
        rw [hkind]
        constructor
        · rintro ⟨o', hstep, hfits, hrest⟩
          exact ⟨⟨hfit, hfits⟩, o', hstep, hrest⟩
        · rintro ⟨⟨-, hfits⟩, o', hstep, hrest⟩
          exact ⟨o', hstep, hfits, hrest⟩
      · have hkind : t.soundKind = .illegal := if_neg hfit
        simp [hkind, hfit, Outline.step_illegal]

/-! ### The accepted language -/

open LetFn.Parser Grammar in
/-- Tokens are read without errors exactly if their literals denote words and their kinds are a
program of the grammar. -/
theorem Parsed.errors_ofTokens_eq_nil_iff {ts : Tokens} (hbody : ∀ t ∈ ts.body, t.kind ≠ .eof)
    (heof : ts.eof.kind = .eof) :
    (Parsed.ofTokens ts).errors = [] ↔
      (∀ t ∈ ts.body, t.Fits) ∧ Derives .items (ts.body.map Token.kind) := by
  have hwhole : State.initial.Whole := by simp [State.Whole, State.initial]
  have hrun := run_errors_eq_nil_iff heof hbody hwhole
  have hinitial : State.initial.outline = Outline.initial := rfl
  rw [hinitial, Outline.accepts_soundKind_iff, Outline.accepts_initial_iff] at hrun
  rw [← hrun, ofTokens, List.append_eq_nil_iff, finish_errors_eq_nil_iff]

open Grammar in
/-- **The parser accepts exactly its grammar**: a text is read without errors if and only if every
integer literal in it denotes a number below `2 ^ 63`, and the kinds of its tokens are a program of
the grammar. -/
theorem Parsed.errors_ofString_eq_nil_iff (source : String) :
    (Parsed.ofString source).errors = [] ↔
      (∀ t ∈ (Tokens.ofString source).body, t.kind = .integer →
        Integer.valueOfDigits t.literal.toList ≤ 9223372036854775807) ∧
      Derives .items ((Tokens.ofString source).body.map Token.kind) := by
  have hbody : ∀ t ∈ (Tokens.ofString source).body, t.kind ≠ .eof := fun _ =>
    Lexer.kind_ne_eof_of_mem_tokens
  have h := errors_ofTokens_eq_nil_iff hbody (Lexer.kind_tokens_eof _)
  simp only [Token.fits_iff] at h
  exact h

end LetFn
