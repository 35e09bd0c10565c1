/-
**What decides whether a token is at fault.**

A parser that has met no error keeps all it has read, but little of that decides which token may
come next: which brackets and blocks are open, and what the next token is to be.  This is the
*outline* of a parser's state.  Operators leave no trace in it, since how strictly they bind only
decides what the tree will look like.

Outlines are compared by what they accept.  Where a statement is complete one may go on with its
expression or begin the next statement, and a parser always goes on; an outline that may go on
accepts whatever one accepts that begins anew, which is why going on is never a mistake.

Main definitions:

* `LetFn.Parser.Frame`, `LetFn.Parser.Slot`, `LetFn.Parser.Outline` — outlines;
* `LetFn.Parser.Outline.step` — what a token does to an outline, if it is not at fault;
* `LetFn.Parser.Outline.Accepts` — a list of tokens completes an outline;
* `LetFn.Parser.Outline.Le` — one outline can do all that another can.

Main results:

* `LetFn.Parser.Outline.step_mono` — **one step keeps the comparison**;
* `LetFn.Parser.Outline.Accepts.mono` — an outline that can do more accepts more.
-/

import Mathlib.Data.List.Forall2
import LetFn.Parser.State

set_option relaxedAutoImplicit false
set_option autoImplicit false

namespace LetFn.Parser

/-! ### Outlines -/

/-- Which block of its construct a block is. -/
inductive BlockKind
  | consequence | alternative | body
deriving DecidableEq

/-- A bracket or a brace that is open. -/
inductive Frame
  | group | condition | argument
  | block (kind : BlockKind)
deriving DecidableEq

/-- What the next token is to be. -/
inductive Slot
  | statement
  | bindName | bindAssign
  | operand | operator
  | conditionParen | brace (kind : BlockKind) | otherwise
  | parametersParen | firstParameter | parameter | parametersEnd
  | arguments
deriving DecidableEq

/-- What is open, innermost first, and what the next token is to be. -/
structure Outline where
  slot : Slot
  frames : List Frame
deriving DecidableEq

/-- What comes after a complete block. -/
def BlockKind.after : BlockKind → Slot
  | consequence => .otherwise
  | alternative => .operator
  | body => .operator

namespace Outline

/-- Nothing has been read. -/
def initial : Outline :=
  ⟨.statement, []⟩

/-! ### Steps -/

/-- A token of the kind `wanted` comes next, and no other. -/
def want (wanted k : TokenKind) (next : Outline) : Option Outline :=
  if k = wanted then some next else none

/-- The tokens that begin an operand: what comes next, and what they open. -/
def opening (k : TokenKind) : Option (Slot × List Frame) :=
  match k with
  | .identifier | .integer | .kwTrue | .kwFalse => some (.operator, [])
  | .bang | .minus => some (.operand, [])
  | .parenLeft => some (.operand, [.group])
  | .kwIf => some (.conditionParen, [])
  | .kwFn => some (.parametersParen, [])
  | _ => none

/-- The first token of an operand. -/
def operand (k : TokenKind) (fs : List Frame) : Option Outline :=
  (opening k).map fun p => ⟨p.1, p.2 ++ fs⟩

/-- The innermost block is complete. -/
def endBlock (fs : List Frame) : Option Outline :=
  match fs with
  | .block kind :: outer => some ⟨kind.after, outer⟩
  | _ => none

/-- A token where a statement may begin. -/
def statement (k : TokenKind) (fs : List Frame) : Option Outline :=
  match k with
  | .semicolon => some ⟨.statement, fs⟩
  | .kwLet => some ⟨.bindName, fs⟩
  | .kwReturn => some ⟨.operand, fs⟩
  | .braceRight => endBlock fs
  | _ => operand k fs

/-- A token that is no operator, after an operand. -/
def close (k : TokenKind) (fs : List Frame) : Option Outline :=
  match fs with
  | .group :: outer => want .parenRight k ⟨.operator, outer⟩
  | .condition :: outer => want .parenRight k ⟨.brace .consequence, outer⟩
  | .argument :: outer =>
    if k = .comma then some ⟨.operand, fs⟩ else want .parenRight k ⟨.operator, outer⟩
  | _ => statement k fs

/-- A token after an operand. -/
def operator (k : TokenKind) (fs : List Frame) : Option Outline :=
  if k = .parenLeft then some ⟨.arguments, fs⟩
  else if 0 < k.precedence then some ⟨.operand, fs⟩
  else close k fs

/-- What a token of kind `k` does to an outline, if it is not at fault. -/
def step (o : Outline) (k : TokenKind) : Option Outline :=
  match o.slot with
  | .statement => statement k o.frames
  | .bindName => want .identifier k ⟨.bindAssign, o.frames⟩
  | .bindAssign => want .assign k ⟨.operand, o.frames⟩
  | .operand => operand k o.frames
  | .operator => operator k o.frames
  | .conditionParen => want .parenLeft k ⟨.operand, .condition :: o.frames⟩
  | .brace kind => want .braceLeft k ⟨.statement, .block kind :: o.frames⟩
  | .otherwise =>
    if k = .kwElse then some ⟨.brace .alternative, o.frames⟩ else operator k o.frames
  | .parametersParen => want .parenLeft k ⟨.firstParameter, o.frames⟩
  | .firstParameter =>
    if k = .parenRight then some ⟨.brace .body, o.frames⟩
    else want .identifier k ⟨.parametersEnd, o.frames⟩
  | .parameter => want .identifier k ⟨.parametersEnd, o.frames⟩
  | .parametersEnd =>
    if k = .comma then some ⟨.parameter, o.frames⟩
    else want .parenRight k ⟨.brace .body, o.frames⟩
  | .arguments =>
    if k = .parenRight then some ⟨.operator, o.frames⟩
    else operand k (.argument :: o.frames)

/-- Nothing is missing at the end of the text. -/
def Complete (o : Outline) : Prop :=
  o.frames = [] ∧ (o.slot = .statement ∨ o.slot = .operator ∨ o.slot = .otherwise)

instance (o : Outline) : Decidable o.Complete := by
  unfold Complete; infer_instance

/-- No token of the list is at fault, and nothing is missing after the last. -/
def Accepts : Outline → List TokenKind → Prop
  | o, [] => o.Complete
  | o, k :: ks => ∃ o', o.step k = some o' ∧ Accepts o' ks

theorem accepts_nil {o : Outline} : o.Accepts [] ↔ o.Complete := Iff.rfl

theorem accepts_cons {o : Outline} {k : TokenKind} {ks : List TokenKind} :
    o.Accepts (k :: ks) ↔ ∃ o', o.step k = some o' ∧ o'.Accepts ks := Iff.rfl

theorem accepts_of_step {o o' : Outline} {k : TokenKind} {ks : List TokenKind}
    (h : o.step k = some o') (h' : o'.Accepts ks) : o.Accepts (k :: ks) :=
  ⟨o', h, h'⟩

/-! ### Comparing outlines -/

/-- Statements stand here, not the inside of a bracket. -/
def AtStatement : List Frame → Prop
  | [] => True
  | .block _ :: _ => True
  | _ => False

end Outline

/-- An argument may end like an expression in parentheses, and may also be followed by another. -/
inductive Frame.Le : Frame → Frame → Prop
  | refl (f : Frame) : Le f f
  | groupArgument : Le .group .argument

/-- Where a statement may begin after an operand, the operand may also go on; and after the
consequence of a conditional it may in addition be continued by an alternative. -/
inductive Outline.Le : Outline → Outline → Prop
  | frames {s : Slot} {fs gs : List Frame} :
      List.Forall₂ Frame.Le fs gs → Le ⟨s, fs⟩ ⟨s, gs⟩
  | goOn {fs gs : List Frame} :
      AtStatement fs → List.Forall₂ Frame.Le fs gs → Le ⟨.statement, fs⟩ ⟨.operator, gs⟩
  | goOnOtherwise {fs gs : List Frame} :
      AtStatement fs → List.Forall₂ Frame.Le fs gs → Le ⟨.statement, fs⟩ ⟨.otherwise, gs⟩
  | otherwise {fs gs : List Frame} :
      List.Forall₂ Frame.Le fs gs → Le ⟨.operator, fs⟩ ⟨.otherwise, gs⟩
  | arguments {f : Frame} {fs gs : List Frame} :
      Frame.Le f .argument → List.Forall₂ Frame.Le fs gs → Le ⟨.operand, f :: fs⟩ ⟨.arguments, gs⟩

namespace Outline

theorem framesLe_refl (fs : List Frame) : List.Forall₂ Frame.Le fs fs :=
  List.forall₂_same.2 fun f _ => .refl f

theorem framesLe_append (new : List Frame) {fs gs : List Frame}
    (h : List.Forall₂ Frame.Le fs gs) : List.Forall₂ Frame.Le (new ++ fs) (new ++ gs) := by
  induction new with
  | nil => exact h
  | cons f new ih => exact .cons (.refl f) ih

/-- Whatever one step comes to, another comes to something that can do all the same. -/
def Tracks (x y : Option Outline) : Prop :=
  ∀ o, x = some o → ∃ o', y = some o' ∧ Le o o'

theorem Tracks.of_none {y : Option Outline} : Tracks none y := by
  intro o ho
  cases ho

theorem Tracks.of_some {o o' : Outline} (h : Le o o') : Tracks (some o) (some o') := by
  intro p hp
  obtain rfl := Option.some.inj hp
  exact ⟨o', rfl, h⟩

theorem Tracks.ite {p : Prop} [Decidable p] {x x' y y' : Option Outline} (h : Tracks x y)
    (h' : Tracks x' y') : Tracks (if p then x else x') (if p then y else y') := by
  split
  · exact h
  · exact h'

theorem want_mono (wanted k : TokenKind) {o o' : Outline} (h : Le o o') :
    Tracks (want wanted k o) (want wanted k o') :=
  .ite (.of_some h) .of_none

section Frames

variable {fs gs : List Frame} (h : List.Forall₂ Frame.Le fs gs) (k : TokenKind)

include h

theorem operand_mono : Tracks (operand k fs) (operand k gs) := by
  intro o ho
  obtain ⟨⟨s, new⟩, hk, rfl⟩ := Option.map_eq_some_iff.1 ho
  exact ⟨⟨s, new ++ gs⟩, by simp [operand, hk], .frames (framesLe_append new h)⟩

theorem endBlock_mono : Tracks (endBlock fs) (endBlock gs) := by
  cases h with
  | nil => exact .of_none
  | @cons f g fs gs hf h =>
      cases hf with
      | groupArgument => exact .of_none
      | refl =>
          cases f with
          | block kind => exact .of_some (.frames h)
          | _ => exact .of_none

theorem statement_mono : Tracks (statement k fs) (statement k gs) := by
  unfold statement
  split
  case h_1 | h_2 | h_3 => exact .of_some (.frames h)
  case h_4 => exact endBlock_mono h
  case h_5 => exact operand_mono h k

theorem close_mono : Tracks (close k fs) (close k gs) := by
  have hall := h
  cases h with
  | nil => exact statement_mono hall k
  | @cons f g fs gs hf h =>
      cases hf with
      | groupArgument =>
          intro o ho
          -- only the parenthesis ends an expression in parentheses, and it ends an argument too
          obtain ⟨rfl, rfl⟩ : k = .parenRight ∧ ⟨.operator, fs⟩ = o := by
            simpa [close, want] using ho
          exact ⟨_, rfl, .frames h⟩
      | refl =>
          cases f with
          | block kind => exact statement_mono hall k
          | group | condition => exact want_mono _ k (.frames h)
          | argument => exact .ite (.of_some (.frames hall)) (want_mono _ k (.frames h))

theorem operator_mono : Tracks (operator k fs) (operator k gs) :=
  .ite (.of_some (.frames h)) (.ite (.of_some (.frames h)) (close_mono h k))

/-- One step keeps the comparison of outlines that differ in what is open alone. -/
theorem step_mono_frames (s : Slot) : Tracks (step ⟨s, fs⟩ k) (step ⟨s, gs⟩ k) := by
  cases s with
  | statement => exact statement_mono h k
  | bindName | bindAssign | parametersParen | parameter => exact want_mono _ k (.frames h)
  | operand => exact operand_mono h k
  | operator => exact operator_mono h k
  | conditionParen | brace kind => exact want_mono _ k (.frames (.cons (.refl _) h))
  | otherwise => exact .ite (.of_some (.frames h)) (operator_mono h k)
  | firstParameter | parametersEnd => exact .ite (.of_some (.frames h)) (want_mono _ k (.frames h))
  | arguments => exact .ite (.of_some (.frames h)) (operand_mono (.cons (.refl _) h) k)

/-- Going on with an expression accepts every token that begins a statement. -/
theorem operator_of_statement (hfs : AtStatement fs) :
    Tracks (statement k fs) (operator k gs) := by
  have hclose : close k fs = statement k fs := by
    cases fs with
    | nil => rfl
    | cons f fs => cases f <;> first | rfl | exact hfs.elim
  intro o ho
  -- the tokens that both begin a statement and go on are the parenthesis and the minus
  by_cases hparen : k = .parenLeft
  · subst hparen
    obtain rfl := Option.some.inj ho
    exact ⟨⟨.arguments, gs⟩, rfl, .arguments .groupArgument h⟩
  · by_cases hprec : 0 < k.precedence
    · obtain rfl | hk : k = .minus ∨ statement k fs = none := by
        revert hprec hparen
        cases k <;> simp [TokenKind.precedence, statement, operand, opening]
      · obtain rfl := Option.some.inj ho
        exact ⟨⟨.operand, gs⟩, rfl, .frames h⟩
      · exact absurd ho (by simp [hk])
    · obtain ⟨o', ho', hle⟩ := close_mono h k o (hclose.trans ho)
      exact ⟨o', by simpa [operator, hparen, hprec] using ho', hle⟩

end Frames

/-- No operand is followed by an alternative or by an opening brace. -/
theorem operator_eq_none {k : TokenKind} (hk : k = .kwElse ∨ k = .braceLeft) (fs : List Frame) :
    operator k fs = none := by
  rcases hk with rfl | rfl
  · cases fs with
    | nil => rfl
    | cons f fs => cases f <;> rfl
  · cases fs with
    | nil => rfl
    | cons f fs => cases f <;> rfl

/-- After the consequence of a conditional an operand may go on as after any other. -/
theorem step_otherwise {k : TokenKind} {fs : List Frame} {o : Outline}
    (ho : operator k fs = some o) : step ⟨.otherwise, fs⟩ k = some o := by
  have helse : k ≠ .kwElse := by
    rintro rfl
    exact absurd ho (by simp [operator_eq_none (.inl rfl)])
  simpa [step, helse] using ho

/-- Where arguments may begin an operand may. -/
theorem step_arguments {k : TokenKind} {fs : List Frame} {o : Outline}
    (ho : operand k (.argument :: fs) = some o) : step ⟨.arguments, fs⟩ k = some o := by
  have hk : k ≠ .parenRight := by
    rintro rfl
    exact absurd ho (by simp [operand, opening])
  simpa [step, hk] using ho

/-- **One step keeps the comparison.** -/
theorem step_mono {o₁ o₂ : Outline} (h : Le o₁ o₂) (k : TokenKind) :
    Tracks (o₁.step k) (o₂.step k) := by
  intro o ho
  cases h with
  | frames h => exact step_mono_frames h k _ o ho
  | goOn hfs h => exact operator_of_statement h k hfs o ho
  | goOnOtherwise hfs h =>
      obtain ⟨o', ho', hle⟩ := operator_of_statement h k hfs o ho
      exact ⟨o', step_otherwise ho', hle⟩
  | otherwise h =>
      obtain ⟨o', ho', hle⟩ := operator_mono h k o ho
      exact ⟨o', step_otherwise ho', hle⟩
  | arguments hf h =>
      obtain ⟨o', ho', hle⟩ := operand_mono (.cons hf h) k o ho
      exact ⟨o', step_arguments ho', hle⟩

theorem Complete.mono {o₁ o₂ : Outline} (h : Le o₁ o₂) (ho : o₁.Complete) : o₂.Complete := by
  obtain ⟨hfs, hs⟩ := ho
  cases h with
  | frames h | goOn _ h | goOnOtherwise _ h | otherwise h =>
      obtain rfl := hfs
      obtain rfl := List.forall₂_nil_left_iff.1 h
      exact ⟨rfl, by simp_all⟩
  | arguments => cases hfs

/-- An outline that can do more accepts more. -/
theorem Accepts.mono {o₁ o₂ : Outline} (h : Le o₁ o₂) {ks : List TokenKind}
    (hks : o₁.Accepts ks) : o₂.Accepts ks := by
  induction ks generalizing o₁ o₂ with
  | nil => exact Complete.mono h hks
  | cons k ks ih =>
      obtain ⟨o, ho, hrest⟩ := hks
      obtain ⟨o', ho', hle⟩ := step_mono h k o ho
      exact ⟨o', ho', ih hle hrest⟩

end Outline

end LetFn.Parser
