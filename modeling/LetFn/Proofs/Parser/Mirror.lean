/-
**A parser records no error exactly as long as its outline has a step.**

The outline of a parser's state forgets the trees that have been read and the operators that are
pending.  Here it is shown to forget nothing that matters for errors: a token brings an error to
light exactly if it is at fault for the outline, and otherwise the outline of the next state is the
next outline.  So the texts without errors are those that the outline of an empty text accepts.

An integer literal that is too large begins an operand, and is an error all the same.  It is dealt
with by counting it among the characters that begin no token.

Main definitions:

* `LetFn.Parser.State.outline` — the outline of a state;
* `LetFn.Token.soundKind` — the kind of a token, unless it is a literal that is too large;
* `LetFn.Parser.Mirrors` — what has come of a step is what has come of the step of the outline.

Main results:

* `LetFn.Parser.begin_mirrors`, `LetFn.Parser.start_mirrors`, `LetFn.Parser.close_mirrors` — the
  first token of an operand, a token where a statement may begin, and a token after an operand;
* `LetFn.Parser.step_mirrors` — **a step mirrors the step of the outline**.
-/

import LetFn.Parser.Program
import LetFn.Proofs.Parser.Outline

set_option relaxedAutoImplicit false
set_option autoImplicit false

namespace LetFn

/-! ### Kinds, with literals that are too large set apart -/

/-- The integer that a literal denotes is a word, if the token is an integer literal. -/
def Token.Fits (t : Token) : Prop :=
  t.kind = .integer → Integer.ofDigits? t.literal.toList ≠ none

instance (t : Token) : Decidable t.Fits := by
  unfold Token.Fits; infer_instance

/-- The kind of a token, where a literal that is too large counts as no token at all. -/
def Token.soundKind (t : Token) : TokenKind :=
  if t.Fits then t.kind else .illegal

theorem Token.soundKind_of_kind_ne {t : Token} (h : t.kind ≠ .integer) : t.soundKind = t.kind :=
  if_pos fun hk => absurd hk h

theorem Token.kind_of_not_fits {t : Token} (h : ¬ t.Fits) : t.kind = .integer := by
  by_contra hk
  exact h fun hk' => absurd hk' hk

/-- Kinds other than that of integer literals are not affected. -/
theorem Token.soundKind_eq_iff (t : Token) (k : TokenKind) (hk : k ≠ .illegal := by decide)
    (hk' : k ≠ .integer := by decide) : t.soundKind = k ↔ t.kind = k := by
  unfold soundKind
  split
  · exact Iff.rfl
  · have := kind_of_not_fits ‹_›
    constructor
    · intro h
      exact absurd h.symm hk
    · intro h
      exact absurd (h.symm.trans this) hk'

@[simp] theorem Token.precedence_soundKind (t : Token) :
    t.soundKind.precedence = t.kind.precedence := by
  unfold soundKind
  split
  · rfl
  · rw [kind_of_not_fits ‹_›]
    rfl

namespace Parser

/-! ### The outline of a state -/

/-- Which block of its construct a block is. -/
def Owner.kind : Owner → BlockKind
  | .consequence _ _ => .consequence
  | .alternative _ _ _ => .alternative
  | .body _ _ => .body

/-- The bracket that a pending construct has open; operators have none. -/
def Pending.frame? : Pending → Option Frame
  | .unary _ => none
  | .binary _ _ => none
  | .group => some .group
  | .condition _ => some .condition
  | .argument _ _ _ => some .argument

/-- The brackets that are open in the present statement. -/
def frames (ps : List Pending) : List Frame :=
  ps.filterMap Pending.frame?

/-- The blocks that are open, and the brackets around them. -/
def outerFrames : List OpenBlock → List Frame
  | [] => []
  | b :: outer => .block b.owner.kind :: (frames b.pending ++ outerFrames outer)

/-- What the next token is to be.  Only after an error is an expression broken off. -/
def Goal.slot : Goal → Slot
  | .operand => .operand
  | .operator _ => .operator
  | .closer _ => .operator
  | .conditionParen _ => .conditionParen
  | .brace owner => .brace owner.kind
  | .otherwise _ _ _ => .otherwise
  | .parametersParen _ => .parametersParen
  | .firstParameter _ => .firstParameter
  | .parameter _ _ => .parameter
  | .parametersEnd _ _ => .parametersEnd
  | .arguments _ _ => .arguments

/-- **The outline of a state.** -/
def State.outline (s : State) : Outline :=
  match s.phase with
  | .ready => ⟨.statement, outerFrames s.outer⟩
  | .bindName _ => ⟨.bindName, outerFrames s.outer⟩
  | .bindAssign _ _ => ⟨.bindAssign, outerFrames s.outer⟩
  | .inside _ ps goal => ⟨goal.slot, frames ps ++ outerFrames s.outer⟩

/-- The expression under way was not broken off. -/
def State.Whole (s : State) : Prop :=
  ∀ head ps e, s.phase ≠ .inside head ps (.closer e)

@[simp] theorem frames_nil : frames [] = [] := rfl

@[simp] theorem frames_unary (op : Token) (ps : List Pending) :
    frames (.unary op :: ps) = frames ps := rfl

@[simp] theorem frames_binary (l : Expr) (op : Token) (ps : List Pending) :
    frames (.binary l op :: ps) = frames ps := rfl

@[simp] theorem frames_group (ps : List Pending) :
    frames (.group :: ps) = .group :: frames ps := rfl

@[simp] theorem frames_condition (t : Token) (ps : List Pending) :
    frames (.condition t :: ps) = .condition :: frames ps := rfl

@[simp] theorem frames_argument (t : Token) (f : Expr) (es : List Expr) (ps : List Pending) :
    frames (.argument t f es :: ps) = .argument :: frames ps := rfl

@[simp] theorem outerFrames_cons (b : OpenBlock) (outer : List OpenBlock) :
    outerFrames (b :: outer) = .block b.owner.kind :: (frames b.pending ++ outerFrames outer) := rfl

/-- Where no bracket is open, a token that is no operator begins or ends a statement. -/
theorem close_outerFrames (k : TokenKind) (outer : List OpenBlock) :
    Outline.close k (outerFrames outer) = Outline.statement k (outerFrames outer) := by
  cases outer <;> rfl

/-! ### Errors and outlines -/

/-- What has come of a step is what has come of the step of the outline: an error, or no error and
a state with the outline that has been reached. -/
def Mirrors (r : List SyntaxError × State) : Option Outline → Prop
  | none => r.1 ≠ []
  | some o => r.1 = [] ∧ r.2.outline = o ∧ r.2.Whole

variable {t : Token} {outer : List OpenBlock} {before : List Stmt}

/-- The first token of an operand. -/
theorem begin_mirrors (head : Head) (ps : List Pending) :
    Mirrors ((begin t ps).1, ⟨outer, before, .inside head (begin t ps).2.1 (begin t ps).2.2⟩)
      (Outline.operand t.soundKind (frames ps ++ outerFrames outer)) := by
  by_cases hfit : t.Fits
  · have hkind : t.soundKind = t.kind := if_pos hfit
    rw [hkind]
    cases hk : t.kind with
    | integer =>
        obtain ⟨n, hn⟩ := Option.ne_none_iff_exists'.1 (hfit hk)
        simp [begin, integer, hk, hn, Mirrors, Outline.operand, Outline.opening, State.outline,
          State.Whole, Goal.slot]
    | _ =>
        simp [begin, hk, Mirrors, Outline.operand, Outline.opening, State.outline, State.Whole,
          Goal.slot]
  · -- a literal that is too large is at fault for both
    have hk := Token.kind_of_not_fits hfit
    have hn : Integer.ofDigits? t.literal.toList = none := by
      simpa [Token.Fits, hk] using hfit
    have hkind : t.soundKind = .illegal := if_neg hfit
    simp [hkind, begin, integer, hk, hn, Mirrors, Outline.operand, Outline.opening]

/-- A statement that is an expression. -/
theorem startExpr_mirrors :
    Mirrors (startExpr t outer before) (Outline.operand t.soundKind (outerFrames outer)) :=
  begin_mirrors (.expr t) []

/-- A token where a statement may begin. -/
theorem start_mirrors (ht : t.kind ≠ .eof) :
    Mirrors (start t outer before) (Outline.statement t.soundKind (outerFrames outer)) := by
  have hexpr : Mirrors (startExpr t outer before)
      (Outline.operand t.soundKind (outerFrames outer)) := startExpr_mirrors
  by_cases hint : t.kind = .integer
  · -- a literal that is too large begins a statement as little as an operand
    have hstart : start t outer before = startExpr t outer before := by simp [start, hint]
    have hstatement : Outline.statement t.soundKind (outerFrames outer)
        = Outline.operand t.soundKind (outerFrames outer) := by
      unfold Token.soundKind
      split <;> simp [hint, Outline.statement]
    rw [hstart, hstatement]
    exact hexpr
  · rw [Token.soundKind_of_kind_ne hint] at hexpr ⊢
    unfold start
    split
    case h_1 hk => simp [hk, Mirrors, Outline.statement, State.outline, State.Whole]
    case h_2 hk => exact absurd hk ht
    case h_3 hk => simp [hk, Mirrors, Outline.statement, State.outline, State.Whole]
    case h_4 hk => simp [hk, Mirrors, Outline.statement, State.outline, State.Whole, Goal.slot]
    case h_5 hk =>
        cases outer with
        | nil =>
            simpa [hk, Outline.statement, Outline.endBlock, Outline.operand, Outline.opening,
              outerFrames] using hexpr
        | cons b bs =>
            obtain ⟨owner, brace, before, head, ps⟩ := b
            cases owner <;>
              simp [hk, Mirrors, Outline.statement, Outline.endBlock, OpenBlock.resume,
                State.outline, State.Whole, Owner.after, Owner.kind, BlockKind.after, Goal.slot]
    case h_6 h1 h2 h3 h4 h5 =>
        have hstatement : Outline.statement t.kind (outerFrames outer)
            = Outline.operand t.kind (outerFrames outer) := by
          unfold Outline.statement
          split <;> simp_all
        rw [hstatement]
        exact hexpr

/-! ### Inside an expression -/

theorem carry_errors {head : Head} {r : List SyntaxError × Move} (h : r.1 ≠ []) :
    (carry t outer before head r).1 ≠ [] := by
  obtain ⟨errors, _ | _ | _⟩ := r <;> simp_all [carry]

theorem carry_giveUp (head : Head) (error : SyntaxError) (ps : List Pending) :
    (carry t outer before head (giveUp error t ps)).1 ≠ [] :=
  carry_errors (by simp [giveUp])

/-- An operator takes an operand, whatever operations are complete before it. -/
theorem close_operator (h : 0 < t.kind.precedence) (ps : List Pending) (e : Expr) :
    ∃ ps' e', close t true ps e = ([], shift t ps' e') ∧ frames ps' = frames ps := by
  induction ps generalizing e with
  | nil => exact ⟨[], e, by simp [close, strictness, h], rfl⟩
  | cons p ps ih =>
      by_cases hp : p.strictness < t.kind.precedence
      · exact ⟨p :: ps, e, by simp [close, strictness, hp], rfl⟩
      · cases p with
        | unary op =>
            obtain ⟨ps', e', hclose, hframes⟩ := ih (.unary op e)
            exact ⟨ps', e', by simp [close, strictness, hp, Pending.operation?, hclose], hframes⟩
        | binary l op =>
            obtain ⟨ps', e', hclose, hframes⟩ := ih (.binary l op e)
            exact ⟨ps', e', by simp [close, strictness, hp, Pending.operation?, hclose], hframes⟩
        | group | condition | argument => exact absurd h (by simpa [Pending.strictness] using hp)

/-- Without open brackets, a token that is no operator ends an expression. -/
theorem close_finished (h : t.kind.precedence = 0) {ps : List Pending} (hps : frames ps = [])
    (e : Expr) : ∃ e', close t true ps e = ([], .finished e') := by
  induction ps generalizing e with
  | nil => exact ⟨e, by simp [close, h]⟩
  | cons p ps ih =>
      cases p with
      | unary op =>
          obtain ⟨e', he'⟩ := ih hps (.unary op e)
          exact ⟨e', by simpa [close, h, Pending.operation?] using he'⟩
      | binary l op =>
          obtain ⟨e', he'⟩ := ih hps (.binary l op e)
          exact ⟨e', by simpa [close, h, Pending.operation?] using he'⟩
      | group | condition | argument => simp at hps

/-- What a bracketed construct makes of a token that is no operator, after an operand in it. -/
def closeBracket (t : Token) (p : Pending) (ps : List Pending) (e : Expr) :
    List SyntaxError × Move :=
  match p.accept? t ps e with
  | some move => ([], move)
  | none => giveUp (.unexpected .parenRight t) t ps

theorem close_of_bracket (h : t.kind.precedence = 0) {p : Pending} {ps : List Pending} {e : Expr}
    (hp : p.operation? e = none) : close t true (p :: ps) e = closeBracket t p ps e := by
  simp only [close, h, Nat.not_lt_zero, and_false, if_false, hp]
  rfl

/-- Otherwise the token is judged by the innermost bracket. -/
theorem close_bracket (h : t.kind.precedence = 0) {ps : List Pending} {f : Frame}
    {fs : List Frame} (hps : frames ps = f :: fs) (e : Expr) :
    ∃ p ps' e', p.frame? = some f ∧ frames ps' = fs ∧
      close t true ps e = closeBracket t p ps' e' := by
  induction ps generalizing e with
  | nil => simp at hps
  | cons p ps ih =>
      cases p with
      | unary op =>
          obtain ⟨p, ps', e', hp, hps', hclose⟩ := ih hps (.unary op e)
          exact ⟨p, ps', e', hp, hps', by simpa [close, h, Pending.operation?] using hclose⟩
      | binary l op =>
          obtain ⟨p, ps', e', hp, hps', hclose⟩ := ih hps (.binary l op e)
          exact ⟨p, ps', e', hp, hps', by simpa [close, h, Pending.operation?] using hclose⟩
      | group =>
          obtain ⟨rfl, rfl⟩ := List.cons.inj hps
          exact ⟨_, ps, e, rfl, rfl, close_of_bracket h rfl⟩
      | condition tok =>
          obtain ⟨rfl, rfl⟩ := List.cons.inj hps
          exact ⟨_, ps, e, rfl, rfl, close_of_bracket h rfl⟩
      | argument tok callee es =>
          obtain ⟨rfl, rfl⟩ := List.cons.inj hps
          exact ⟨_, ps, e, rfl, rfl, close_of_bracket h rfl⟩

/-- An expression that is not broken off goes on without errors. -/
theorem stay_mirrors (head : Head) (ps : List Pending) (goal : Goal)
    (hgoal : ∀ e, goal ≠ .closer e := by simp) :
    Mirrors (carry t outer before head ([], .stay ps goal))
      (some ⟨goal.slot, frames ps ++ outerFrames outer⟩) := by
  refine ⟨rfl, rfl, ?_⟩
  intro head' ps' e hphase
  obtain ⟨-, -, hcloser⟩ := Phase.inside.inj hphase
  exact hgoal e hcloser

/-- A token that is wanted, or else the end of the construct that wants it. -/
theorem expect_mirrors {head : Head} {k : TokenKind} {ps : List Pending} {move : Move}
    {o : Outline} (h : Mirrors (carry t outer before head ([], move)) (some o))
    (hk : k ≠ .illegal := by decide) (hk' : k ≠ .integer := by decide) :
    Mirrors (carry t outer before head (expect k t ps move)) (Outline.want k t.soundKind o) := by
  unfold expect Outline.want
  simp only [Token.soundKind_eq_iff t k hk hk']
  split
  · exact h
  · exact carry_giveUp head _ ps

theorem closeBracket_group (ps : List Pending) (e : Expr) :
    closeBracket t .group ps e = expect .parenRight t ps (.stay ps (.operator e)) := by
  unfold closeBracket expect Pending.accept?
  by_cases hk : t.kind = .parenRight <;> simp [hk]

theorem closeBracket_condition (tok : Token) (ps : List Pending) (e : Expr) :
    closeBracket t (.condition tok) ps e =
      expect .parenRight t ps (.stay ps (.brace (.consequence tok e))) := by
  unfold closeBracket expect Pending.accept?
  by_cases hk : t.kind = .parenRight <;> simp [hk]

theorem closeBracket_argument (tok : Token) (callee : Expr) (es : List Expr) (ps : List Pending)
    (e : Expr) :
    closeBracket t (.argument tok callee es) ps e =
      if t.kind = .comma then
        ([], .stay (.argument tok callee (es ++ [e]) :: ps) .operand)
      else
        expect .parenRight t ps (.stay ps (.operator (.call tok callee (es ++ [e])))) := by
  unfold closeBracket expect Pending.accept?
  by_cases hcomma : t.kind = .comma
  · simp [hcomma]
  · by_cases hk : t.kind = .parenRight <;> simp [hcomma, hk]

/-- The token that a bracket wants, or a comma between arguments, or an error. -/
theorem closeBracket_mirrors (head : Head) {p : Pending} {f : Frame} (hp : p.frame? = some f)
    (ps : List Pending) (e : Expr) :
    Mirrors (carry t outer before head (closeBracket t p ps e))
      (Outline.close t.soundKind (f :: (frames ps ++ outerFrames outer))) := by
  cases p with
  | unary | binary => cases hp
  | group =>
      obtain rfl := Option.some.inj hp
      rw [closeBracket_group]
      exact expect_mirrors (stay_mirrors head ps _)
  | condition tok =>
      obtain rfl := Option.some.inj hp
      rw [closeBracket_condition]
      exact expect_mirrors (stay_mirrors head ps _)
  | argument tok callee es =>
      obtain rfl := Option.some.inj hp
      rw [closeBracket_argument]
      simp only [Outline.close, Token.soundKind_eq_iff t .comma]
      split
      · exact stay_mirrors head _ .operand
      · exact expect_mirrors (stay_mirrors head ps _)

/-- A token after an operand. -/
theorem close_mirrors (ht : t.kind ≠ .eof) (head : Head) (ps : List Pending) (e : Expr) :
    Mirrors (carry t outer before head (close t true ps e))
      (Outline.operator t.soundKind (frames ps ++ outerFrames outer)) := by
  by_cases hprec : 0 < t.kind.precedence
  · -- operators complete one another without a trace in the outline
    obtain ⟨ps', e', hclose, hframes⟩ := close_operator hprec ps e
    rw [hclose, ← hframes]
    simp only [shift, Outline.operator, Token.precedence_soundKind, hprec, if_true,
      Token.soundKind_eq_iff t .parenLeft]
    split
    · exact stay_mirrors head ps' _
    · exact stay_mirrors head _ .operand
  · have hprec : t.kind.precedence = 0 := by omega
    have hparen : t.soundKind ≠ .parenLeft := by
      intro hk
      have := Token.precedence_soundKind t
      rw [hk, hprec] at this
      cases this
    have hoperator (fs : List Frame) :
        Outline.operator t.soundKind fs = Outline.close t.soundKind fs := by
      simp [Outline.operator, hparen, hprec]
    rw [hoperator]
    cases hps : frames ps with
    | nil =>
        -- the statement is complete, and the token begins another or ends the block
        obtain ⟨e', hclose⟩ := close_finished hprec hps e
        have hstart : Mirrors (start t outer (head.complete e' :: before))
            (Outline.statement t.soundKind (outerFrames outer)) := start_mirrors ht
        rw [hclose, List.nil_append, close_outerFrames]
        exact hstart
    | cons f fs =>
        obtain ⟨p, ps', e', hp, rfl, hclose⟩ := close_bracket hprec hps e
        rw [hclose]
        exact closeBracket_mirrors head hp ps' e'

/-- An operand, where the text has not ended. -/
theorem operand_mirrors (ht : t.kind ≠ .eof) (head : Head) (ps : List Pending) :
    Mirrors (carry t outer before head (operand t ps))
      (Outline.operand t.soundKind (frames ps ++ outerFrames outer)) := by
  rw [operand, if_neg ht]
  exact begin_mirrors head ps

/-- **A step mirrors the step of the outline.** -/
theorem step_mirrors (ht : t.kind ≠ .eof) {s : State} (hs : s.Whole) :
    Mirrors (step s t) (s.outline.step t.soundKind) := by
  obtain ⟨outer, before, phase⟩ := s
  cases phase with
  | ready => exact start_mirrors ht
  | bindName tok =>
      simp only [step, State.outline, Outline.step, Outline.want,
        Token.soundKind_eq_iff t .identifier]
      split
      · exact ⟨rfl, rfl, by simp [State.Whole]⟩
      · simp [Mirrors, abandon]
  | bindAssign tok x =>
      simp only [step, State.outline, Outline.step, Outline.want, Token.soundKind_eq_iff t .assign]
      split
      · exact ⟨rfl, rfl, by simp [State.Whole]⟩
      · simp [Mirrors, abandon]
  | inside head ps goal =>
      rw [step_inside]
      cases goal with
      | operand => exact operand_mirrors ht head ps
      | operator e => exact close_mirrors ht head ps e
      | closer e => exact absurd rfl (hs head ps e)
      | conditionParen tok => exact expect_mirrors (stay_mirrors head (.condition tok :: ps) .operand)
      | brace owner =>
          -- the block is opened, and what is under way in it is its first statement
          exact expect_mirrors ⟨rfl, rfl, by simp [carry, State.Whole]⟩
      | parametersParen tok => exact expect_mirrors (stay_mirrors head ps _)
      | parameter tok xs => exact expect_mirrors (stay_mirrors head ps _)
      | otherwise tok c yes =>
          simp only [advance, State.outline, Goal.slot, Outline.step,
            Token.soundKind_eq_iff t .kwElse]
          split
          · exact stay_mirrors head ps _
          · exact close_mirrors ht head ps _
      | firstParameter tok =>
          simp only [advance, State.outline, Goal.slot, Outline.step,
            Token.soundKind_eq_iff t .parenRight]
          split
          · exact stay_mirrors head ps _
          · exact expect_mirrors (stay_mirrors head ps _)
      | parametersEnd tok xs =>
          simp only [advance, State.outline, Goal.slot, Outline.step,
            Token.soundKind_eq_iff t .comma]
          split
          · exact stay_mirrors head ps _
          · exact expect_mirrors (stay_mirrors head ps _)
      | arguments tok callee =>
          simp only [advance, State.outline, Goal.slot, Outline.step,
            Token.soundKind_eq_iff t .parenRight]
          split
          · exact stay_mirrors head ps _
          · exact operand_mirrors ht head (.argument tok callee [] :: ps)

end Parser

end LetFn
