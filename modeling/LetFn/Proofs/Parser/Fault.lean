/-
**What a token is at fault for.**

Every error that is recorded when a token is read is about that token.  Another one was expected in
its place, or an operand was and none begins with it, or it is an integer literal that is too large.
What had been read before is only found incomplete: the expression before a token may lack closing
brackets, and nothing else.

Main definitions:

* `LetFn.Token.AtFault` — **the errors that a token can be at fault for**.

Main results:

* `LetFn.Parser.close_errors` — what a token finds missing in the expression before it;
* `LetFn.Parser.step_atFault`, `LetFn.Parser.finish_atFault` — **a token is at fault for the errors
  that are recorded when it is read**;
* `LetFn.Parser.step_token`, `LetFn.Parser.run_token`, `LetFn.Parser.finish_token` — the tokens that
  errors name.
-/

import LetFn.Parser.Program

set_option relaxedAutoImplicit false
set_option autoImplicit false

namespace LetFn

open LetFn.Parser

/-- **The token is at fault for the error.** -/
inductive Token.AtFault (t : Token) : SyntaxError → Prop
  | unexpected (k : TokenKind) : AtFault t (.unexpected k t)
  | noOperand : AtFault t (.noOperand t)
  | tooLarge : t.kind = .integer → Integer.ofDigits? t.literal.toList = none →
      AtFault t (.tooLarge t)

/-- An error names the token that is at fault for it. -/
theorem Token.AtFault.token_eq {t : Token} {error : SyntaxError} (h : t.AtFault error) :
    error.token = t := by
  cases h <;> rfl

namespace Parser

variable {t : Token} {error : SyntaxError}

/-! ### Inside an expression -/

theorem begin_atFault {ps : List Pending} (h : error ∈ (begin t ps).1) : t.AtFault error := by
  unfold begin at h
  split at h
  case h_2 hk =>
      unfold integer at h
      split at h
      case h_1 => cases h
      case h_2 hdigits =>
          obtain rfl := List.mem_singleton.1 h
          exact .tooLarge hk hdigits
  case h_10 =>
      obtain rfl := List.mem_singleton.1 h
      exact .noOperand
  all_goals cases h

/-- **The expression before a token may lack closing brackets**, and nothing else. -/
theorem close_errors {free : Bool} {ps : List Pending} {e : Expr}
    (h : error ∈ (close t free ps e).1) : error = .unexpected .parenRight t := by
  induction ps generalizing free e with
  | nil =>
      simp only [close] at h
      split at h <;> cases h
  | cons p ps ih =>
      simp only [close] at h
      split at h
      · cases h
      · split at h
        · exact ih h
        · split at h
          · cases h
          · rcases List.mem_cons.1 h with rfl | h
            · rfl
            · exact ih h

theorem giveUp_errors {given : SyntaxError} {ps : List Pending}
    (h : error ∈ (giveUp given t ps).1) : error = given ∨ error = .unexpected .parenRight t := by
  rcases List.mem_cons.1 h with rfl | h
  · exact .inl rfl
  · exact .inr (close_errors h)

theorem expect_errors {k : TokenKind} {ps : List Pending} {move : Move}
    (h : error ∈ (expect k t ps move).1) : ∃ k', error = .unexpected k' t := by
  unfold expect at h
  split at h
  · cases h
  · rcases giveUp_errors h with rfl | rfl
    · exact ⟨k, rfl⟩
    · exact ⟨.parenRight, rfl⟩

theorem close_atFault {free : Bool} {ps : List Pending} {e : Expr}
    (h : error ∈ (close t free ps e).1) : t.AtFault error := by
  rw [close_errors h]
  exact .unexpected .parenRight

theorem expect_atFault {k : TokenKind} {ps : List Pending} {move : Move}
    (h : error ∈ (expect k t ps move).1) : t.AtFault error := by
  obtain ⟨k', rfl⟩ := expect_errors h
  exact .unexpected k'

theorem operand_atFault {ps : List Pending} (h : error ∈ (operand t ps).1) : t.AtFault error := by
  unfold operand at h
  split at h
  · rcases giveUp_errors h with rfl | rfl
    · exact .noOperand
    · exact .unexpected .parenRight
  · exact begin_atFault h

/-- What a token finds inside an expression. -/
theorem advance_atFault (ps : List Pending) (goal : Goal) (h : error ∈ (advance t ps goal).1) :
    t.AtFault error := by
  cases goal with
  | operand => exact operand_atFault h
  | operator e | closer e => exact close_atFault h
  | conditionParen tok | brace owner | parametersParen tok | parameter tok xs =>
      exact expect_atFault h
  | otherwise tok c yes =>
      simp only [advance] at h
      split at h
      · cases h
      · exact close_atFault h
  | firstParameter tok | parametersEnd tok xs =>
      simp only [advance] at h
      split at h
      · cases h
      · exact expect_atFault h
  | arguments tok f =>
      simp only [advance] at h
      split at h
      · cases h
      · exact operand_atFault h

/-! ### Between statements -/

theorem start_atFault {outer : List OpenBlock} {before : List Stmt}
    (h : error ∈ (start t outer before).1) : t.AtFault error := by
  unfold start at h
  split at h
  case h_1 | h_2 | h_3 | h_4 => cases h
  case h_5 =>
      cases outer with
      | nil => exact begin_atFault h
      | cons b outer => cases h
  case h_6 => exact begin_atFault h

theorem abandon_atFault {k : TokenKind} {outer : List OpenBlock} {before : List Stmt}
    (h : error ∈ (abandon k t outer before).1) : t.AtFault error := by
  rcases List.mem_cons.1 h with rfl | h
  · exact .unexpected k
  · exact start_atFault h

/-- **A token is at fault for the errors that are recorded when it is read.** -/
theorem step_atFault {s : State} (h : error ∈ (step s t).1) : t.AtFault error := by
  obtain ⟨outer, before, phase⟩ := s
  cases phase with
  | ready => exact start_atFault h
  | bindName tok | bindAssign tok x =>
      simp only [step] at h
      split at h
      · cases h
      · exact abandon_atFault h
  | inside head ps goal =>
      rw [step_inside] at h
      rcases hmove : advance t ps goal with ⟨errors, move⟩
      have hadvance (herror : error ∈ errors) : t.AtFault error :=
        advance_atFault ps goal (by rw [hmove]; exact herror)
      rw [hmove] at h
      cases move with
      | stay ps' goal' | openBlock owner ps' => exact hadvance h
      | finished e =>
          rcases List.mem_append.1 h with h | h
          · exact hadvance h
          · exact start_atFault h

/-! ### Several tokens -/

/-- The end token is at fault for the errors at the end of a text. -/
theorem finish_atFault {eof : Token} {outer : List OpenBlock} {before : List Stmt}
    (h : error ∈ (finish eof outer before).1) : eof.AtFault error := by
  induction outer generalizing before with
  | nil => cases h
  | cons b outer ih =>
      simp only [finish, List.cons_append, List.mem_cons, List.mem_append] at h
      rcases h with rfl | h | h
      · exact .unexpected .braceRight
      · exact step_atFault h
      · exact ih h

/-- The errors of a step name the token that is read. -/
theorem step_token {s : State} (h : error ∈ (step s t).1) : error.token = t :=
  (step_atFault h).token_eq

/-- The errors of several steps name tokens that are read. -/
theorem run_token {s : State} {ts : List Token} (h : error ∈ (run s ts).1) : error.token ∈ ts := by
  induction ts generalizing s with
  | nil => cases h
  | cons t ts ih =>
      rw [run_cons] at h
      rcases List.mem_append.1 h with hstep | hrun
      · rw [step_token hstep]
        exact List.mem_cons_self
      · exact List.mem_cons_of_mem t (ih hrun)

/-- The errors at the end of a text name the end token. -/
theorem finish_token {eof : Token} {outer : List OpenBlock} {before : List Stmt}
    (h : error ∈ (finish eof outer before).1) : error.token = eof :=
  (finish_atFault h).token_eq

end Parser

end LetFn
