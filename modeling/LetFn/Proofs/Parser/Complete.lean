/-
**Every phrase of the grammar is accepted.**

A phrase is followed from its first token to its last, in whatever is open around it and whatever
comes after it: if what comes after is accepted where the phrase ends, then the phrase and what
comes after it are accepted where it begins.  Stated like this no phrase has to be told apart from
the next, and the ambiguities of the grammar cause no trouble: after an operand the outline goes on,
and an outline that goes on accepts all that one accepts which begins anew.

Main definitions:

* `LetFn.Parser.Outline.Passes` — the phrases of a category can be passed through.

Main results:

* `LetFn.Parser.Outline.passes_of_derives` — **every phrase can be passed through**.
-/

import LetFn.Proofs.Parser.Grammar
import LetFn.Proofs.Parser.Outline

set_option relaxedAutoImplicit false
set_option autoImplicit false

namespace LetFn.Parser.Outline

open Grammar

/-! ### Beginnings -/

/-- What begins an operand begins a statement. -/
theorem statement_of_operand {k : TokenKind} {fs : List Frame} {o : Outline}
    (ho : operand k fs = some o) : statement k fs = some o := by
  unfold statement
  split
  case h_5 => exact ho
  all_goals exact absurd ho (by simp [operand, opening])

/-- An outline that takes each step of another that is not complete accepts as much. -/
theorem accepts_of_steps {o₁ o₂ : Outline} (hne : ¬ o₁.Complete)
    (h : ∀ k o, o₁.step k = some o → o₂.step k = some o) {ks : List TokenKind}
    (hks : o₁.Accepts ks) : o₂.Accepts ks := by
  cases ks with
  | nil => exact absurd hks hne
  | cons k ks =>
      obtain ⟨o, ho, hrest⟩ := hks
      exact ⟨o, h k o ho, hrest⟩

theorem accepts_statement {fs : List Frame} {ks : List TokenKind}
    (h : Accepts ⟨.operand, fs⟩ ks) : Accepts ⟨.statement, fs⟩ ks := by
  refine accepts_of_steps (by simp [Complete]) ?_ h
  intro k o ho
  exact statement_of_operand ho

theorem accepts_arguments {fs : List Frame} {ks : List TokenKind}
    (h : Accepts ⟨.operand, .argument :: fs⟩ ks) : Accepts ⟨.arguments, fs⟩ ks := by
  refine accepts_of_steps (by simp [Complete]) ?_ h
  intro k o ho
  exact step_arguments ho

theorem accepts_firstParameter {fs : List Frame} {ks : List TokenKind}
    (h : Accepts ⟨.parameter, fs⟩ ks) : Accepts ⟨.firstParameter, fs⟩ ks := by
  refine accepts_of_steps (by simp [Complete]) ?_ h
  intro k o ho
  obtain ⟨rfl, rfl⟩ : k = .identifier ∧ ⟨.parametersEnd, fs⟩ = o := by
    simpa [step, want] using ho
  rfl

/-! ### Operators -/

theorem step_unary {op : TokenKind} (hop : op ∈ unaryOperators) (fs : List Frame) :
    step ⟨.operand, fs⟩ op = some ⟨.operand, fs⟩ := by
  simp only [unaryOperators, List.mem_cons, List.not_mem_nil, or_false] at hop
  rcases hop with rfl | rfl <;> rfl

theorem step_binary {op : TokenKind} (hop : op ∈ binaryOperators) (fs : List Frame) :
    step ⟨.operator, fs⟩ op = some ⟨.operand, fs⟩ := by
  obtain ⟨hprec, hparen⟩ := (mem_binaryOperators_iff op).1 hop
  simp [step, operator, hprec, hparen]

/-! ### Phrases -/

/-- The phrases of a category can be passed through: whatever is accepted after the phrase, the
phrase and it are accepted before. -/
def Passes : Category → List TokenKind → Prop
  | .items, ks => ∀ (fs : List Frame) (vs : List TokenKind), AtStatement fs →
      Accepts ⟨.statement, fs⟩ vs → Accepts ⟨.statement, fs⟩ (ks ++ vs)
  | .statement, ks => ∀ (fs : List Frame) (vs : List TokenKind),
      Accepts ⟨.operator, fs⟩ vs → Accepts ⟨.statement, fs⟩ (ks ++ vs)
  | .block, ks => ∀ (kind : BlockKind) (fs : List Frame) (vs : List TokenKind),
      Accepts ⟨kind.after, fs⟩ vs → Accepts ⟨.brace kind, fs⟩ (ks ++ vs)
  | .expression, ks => ∀ (fs : List Frame) (vs : List TokenKind),
      Accepts ⟨.operator, fs⟩ vs → Accepts ⟨.operand, fs⟩ (ks ++ vs)
  | .parameters, ks => ∀ (fs : List Frame) (vs : List TokenKind),
      Accepts ⟨.parametersEnd, fs⟩ vs → Accepts ⟨.parameter, fs⟩ (ks ++ vs)
  | .arguments, ks => ∀ (fs : List Frame) (vs : List TokenKind),
      Accepts ⟨.operator, .argument :: fs⟩ vs → Accepts ⟨.operand, .argument :: fs⟩ (ks ++ vs)

/-- **Every phrase can be passed through.** -/
theorem passes_of_derives {c : Category} {ks : List TokenKind} (h : Derives c ks) :
    Passes c ks := by
  induction h with
  | none =>
      intro fs vs _ h
      exact h
  | semicolon _ ihis =>
      intro fs vs hfs h
      rw [List.append_assoc]
      exact ihis fs _ hfs (accepts_of_step rfl h)
  | item _ _ ihis ihs =>
      intro fs vs hfs h
      rw [List.append_assoc]
      -- after the statement its expression might go on, and accepts what the next one would
      exact ihis fs _ hfs (ihs fs vs (h.mono (.goOn hfs (framesLe_refl fs))))
  | bind _ ih =>
      intro fs vs h
      exact accepts_of_step rfl (accepts_of_step rfl (accepts_of_step rfl (ih fs vs h)))
  | returns _ ih =>
      intro fs vs h
      exact accepts_of_step rfl (ih fs vs h)
  | expr _ ih =>
      intro fs vs h
      exact accepts_statement (ih fs vs h)
  | block _ ih =>
      intro kind fs vs h
      rw [List.append_assoc, List.append_assoc]
      exact accepts_of_step rfl (ih _ _ trivial (accepts_of_step rfl h))
  | identifier | integer | kwTrue | kwFalse =>
      intro fs vs h
      exact accepts_of_step rfl h
  | unary hop _ ih =>
      intro fs vs h
      exact accepts_of_step (step_unary hop fs) (ih fs vs h)
  | binary _ hop _ ihl ihr =>
      intro fs vs h
      rw [List.append_assoc, List.append_assoc]
      exact ihl fs _ (accepts_of_step (step_binary hop fs) (ihr fs vs h))
  | group _ ih =>
      intro fs vs h
      rw [List.append_assoc, List.append_assoc]
      exact accepts_of_step rfl (ih _ _ (accepts_of_step rfl h))
  | ifThen _ _ ihc ihyes =>
      intro fs vs h
      have hafter : Accepts ⟨.otherwise, fs⟩ vs := h.mono (.otherwise (framesLe_refl fs))
      simp only [List.append_assoc]
      refine accepts_of_step rfl (accepts_of_step rfl (ihc _ _ (accepts_of_step rfl ?_)))
      exact ihyes .consequence fs vs hafter
  | ifElse _ _ _ ihc ihyes ihno =>
      intro fs vs h
      simp only [List.append_assoc]
      refine accepts_of_step rfl (accepts_of_step rfl (ihc _ _ (accepts_of_step rfl ?_)))
      refine ihyes .consequence fs _ (accepts_of_step rfl ?_)
      exact ihno .alternative fs vs h
  | thunk _ ih =>
      intro fs vs h
      refine accepts_of_step rfl (accepts_of_step rfl (accepts_of_step rfl ?_))
      exact ih .body fs vs h
  | function _ _ ihps ihb =>
      intro fs vs h
      simp only [List.append_assoc]
      refine accepts_of_step rfl (accepts_of_step rfl (accepts_firstParameter ?_))
      exact ihps fs _ (accepts_of_step rfl (ihb .body fs vs h))
  | callEmpty _ ihf =>
      intro fs vs h
      rw [List.append_assoc]
      exact ihf fs _ (accepts_of_step rfl (accepts_of_step rfl h))
  | call _ _ ihf ihas =>
      intro fs vs h
      simp only [List.append_assoc]
      refine ihf fs _ (accepts_of_step rfl (accepts_arguments ?_))
      exact ihas fs _ (accepts_of_step rfl h)
  | parameter =>
      intro fs vs h
      exact accepts_of_step rfl h
  | moreParameters _ ihps =>
      intro fs vs h
      rw [List.append_assoc]
      exact ihps fs _ (accepts_of_step rfl (accepts_of_step rfl h))
  | argument _ ih =>
      intro fs vs h
      exact ih _ vs h
  | moreArguments _ _ ihas ihe =>
      intro fs vs h
      simp only [List.append_assoc]
      exact ihas fs _ (accepts_of_step rfl (ihe _ vs h))

end LetFn.Parser.Outline
