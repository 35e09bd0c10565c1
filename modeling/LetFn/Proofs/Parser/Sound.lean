/-
**What is accepted is a phrase of the grammar.**

An outline says little of the tokens that led to it, but enough to say what they are in terms of the
grammar: for each open bracket the beginning of a phrase that the bracket belongs to, and innermost
the beginning of an operand or of a statement.  This is the invariant of reading, and at the end of
the text, when nothing is open, it says that a program has been read.

The operators before an operand are not listed one by one.  All that is remembered of them is that
they make a phrase together with whatever operand comes next, and that is kept by reading another
one.

Main definitions:

* `LetFn.Parser.Outline.Leads` — what stands before an operand makes a phrase with it;
* `LetFn.Parser.Outline.Heads` — what stands before a block in the construct that it belongs to;
* `LetFn.Parser.Outline.Opens`, `LetFn.Parser.Outline.Reads` — **the invariant**: what has been read
  when certain brackets are open, and when an outline has been reached.

Main results:

* `LetFn.Parser.Outline.Reads.step` — each step keeps the invariant;
* `LetFn.Parser.Outline.accepts_initial_iff` — **outlines accept exactly the programs of the
  grammar**.
-/

import LetFn.Proofs.Parser.Complete

set_option relaxedAutoImplicit false
set_option autoImplicit false

namespace LetFn.Parser.Outline

open Grammar

/-! ### The invariant -/

/-- The phrase that an operand belongs to: the whole statement, or all that stands in a bracket. -/
def unit : List Frame → Category
  | [] => .statement
  | .block _ :: _ => .statement
  | _ => .expression

theorem unit_of_atStatement {fs : List Frame} (h : AtStatement fs) : unit fs = .statement := by
  cases fs with
  | nil => rfl
  | cons f fs => cases f <;> first | rfl | exact h.elim

/-- What stands before an operand makes a phrase of the category with whatever operand it gets. -/
def Leads (c : Category) (p : List TokenKind) : Prop :=
  ∀ e, Derives .expression e → Derives c (p ++ e)

/-- What stands before a block in the construct that it belongs to. -/
inductive Heads : BlockKind → List TokenKind → Prop
  | consequence {c : List TokenKind} : Derives .expression c →
      Heads .consequence ([TokenKind.kwIf, .parenLeft] ++ c ++ [TokenKind.parenRight])
  | alternative {c yes : List TokenKind} : Derives .expression c → Derives .block yes →
      Heads .alternative
        ([TokenKind.kwIf, .parenLeft] ++ c ++ [TokenKind.parenRight] ++ yes ++ [TokenKind.kwElse])
  | thunk : Heads .body [.kwFn, .parenLeft, .parenRight]
  | function {ps : List TokenKind} : Derives .parameters ps →
      Heads .body ([TokenKind.kwFn, .parenLeft] ++ ps ++ [TokenKind.parenRight])

/-- What has been read when the frames are open and nothing has been read in the innermost one but
complete items or arguments. -/
inductive Opens : List Frame → List TokenKind → Prop
  | program {is : List TokenKind} : Derives .items is → Opens [] is
  | group {fs : List Frame} {u p : List TokenKind} : Opens fs u → Leads (unit fs) p →
      Opens (.group :: fs) (u ++ p ++ [TokenKind.parenLeft])
  | condition {fs : List Frame} {u p : List TokenKind} : Opens fs u → Leads (unit fs) p →
      Opens (.condition :: fs) (u ++ p ++ [TokenKind.kwIf, .parenLeft])
  | arguments {fs : List Frame} {u p f : List TokenKind} : Opens fs u → Leads (unit fs) p →
      Derives .expression f → Opens (.argument :: fs) (u ++ p ++ f ++ [TokenKind.parenLeft])
  | moreArguments {fs : List Frame} {u p f as : List TokenKind} : Opens fs u → Leads (unit fs) p →
      Derives .expression f → Derives .arguments as →
      Opens (.argument :: fs) (u ++ p ++ f ++ [TokenKind.parenLeft] ++ as ++ [TokenKind.comma])
  | block {kind : BlockKind} {fs : List Frame} {u p b is : List TokenKind} : Opens fs u →
      Leads (unit fs) p → Heads kind b → Derives .items is →
      Opens (.block kind :: fs) (u ++ p ++ b ++ [TokenKind.braceLeft] ++ is)

/-- What has been read when an outline has been reached. -/
inductive Reads : Outline → List TokenKind → Prop
  | statement {fs : List Frame} {u : List TokenKind} : AtStatement fs → Opens fs u →
      Reads ⟨.statement, fs⟩ u
  | bindName {fs : List Frame} {u : List TokenKind} : AtStatement fs → Opens fs u →
      Reads ⟨.bindName, fs⟩ (u ++ [TokenKind.kwLet])
  | bindAssign {fs : List Frame} {u : List TokenKind} : AtStatement fs → Opens fs u →
      Reads ⟨.bindAssign, fs⟩ (u ++ [TokenKind.kwLet, .identifier])
  | operand {fs : List Frame} {u p : List TokenKind} : Opens fs u → Leads (unit fs) p →
      Reads ⟨.operand, fs⟩ (u ++ p)
  | operator {fs : List Frame} {u p e : List TokenKind} : Opens fs u → Leads (unit fs) p →
      Derives .expression e → Reads ⟨.operator, fs⟩ (u ++ p ++ e)
  | conditionParen {fs : List Frame} {u p : List TokenKind} : Opens fs u → Leads (unit fs) p →
      Reads ⟨.conditionParen, fs⟩ (u ++ p ++ [TokenKind.kwIf])
  | brace {kind : BlockKind} {fs : List Frame} {u p b : List TokenKind} : Opens fs u →
      Leads (unit fs) p → Heads kind b → Reads ⟨.brace kind, fs⟩ (u ++ p ++ b)
  | otherwise {fs : List Frame} {u p c yes : List TokenKind} : Opens fs u → Leads (unit fs) p →
      Derives .expression c → Derives .block yes →
      Reads ⟨.otherwise, fs⟩
        (u ++ p ++ ([TokenKind.kwIf, .parenLeft] ++ c ++ [TokenKind.parenRight] ++ yes))
  | parametersParen {fs : List Frame} {u p : List TokenKind} : Opens fs u → Leads (unit fs) p →
      Reads ⟨.parametersParen, fs⟩ (u ++ p ++ [TokenKind.kwFn])
  | firstParameter {fs : List Frame} {u p : List TokenKind} : Opens fs u → Leads (unit fs) p →
      Reads ⟨.firstParameter, fs⟩ (u ++ p ++ [TokenKind.kwFn, .parenLeft])
  | parameter {fs : List Frame} {u p ps : List TokenKind} : Opens fs u → Leads (unit fs) p →
      Derives .parameters ps →
      Reads ⟨.parameter, fs⟩ (u ++ p ++ ([TokenKind.kwFn, .parenLeft] ++ ps ++ [TokenKind.comma]))
  | parametersEnd {fs : List Frame} {u p ps : List TokenKind} : Opens fs u → Leads (unit fs) p →
      Derives .parameters ps →
      Reads ⟨.parametersEnd, fs⟩ (u ++ p ++ ([TokenKind.kwFn, .parenLeft] ++ ps))
  | arguments {fs : List Frame} {u p f : List TokenKind} : Opens fs u → Leads (unit fs) p →
      Derives .expression f → Reads ⟨.arguments, fs⟩ (u ++ p ++ f ++ [TokenKind.parenLeft])

/-! ### Phrases under way -/

theorem leads_nil {fs : List Frame} : Leads (unit fs) [] := by
  intro e he
  cases fs with
  | nil => exact .expr he
  | cons f fs => cases f <;> first | exact he | exact .expr he

theorem Leads.unary {c : Category} {p : List TokenKind} (h : Leads c p) {op : TokenKind}
    (hop : op ∈ unaryOperators) : Leads c (p ++ [op]) := by
  intro e he
  rw [List.append_assoc]
  exact h _ (.unary hop he)

theorem Leads.binary {c : Category} {p l : List TokenKind} (h : Leads c p)
    (hl : Derives .expression l) {op : TokenKind} (hop : op ∈ binaryOperators) :
    Leads c (p ++ l ++ [op]) := by
  intro e he
  have := h _ (.binary hl hop he)
  simpa only [List.append_assoc] using this

theorem leads_bind {fs : List Frame} (h : AtStatement fs) :
    Leads (unit fs) [.kwLet, .identifier, .assign] := by
  intro e he
  rw [unit_of_atStatement h]
  exact .bind he

theorem leads_returns {fs : List Frame} (h : AtStatement fs) : Leads (unit fs) [.kwReturn] := by
  intro e he
  rw [unit_of_atStatement h]
  exact .returns he

/-- Items of the innermost block are continued by whatever continues items. -/
theorem Opens.append {fs : List Frame} {u x : List TokenKind} (h : Opens fs u)
    (hfs : AtStatement fs) (hx : ∀ is, Derives .items is → Derives .items (is ++ x)) :
    Opens fs (u ++ x) := by
  cases h with
  | program his => exact .program (hx _ his)
  | block hu hp hb his =>
      rw [List.append_assoc]
      exact .block hu hp hb (hx _ his)
  | group | condition | arguments | moreArguments => exact hfs.elim

/-! ### One token -/

theorem reads_operand {fs : List Frame} {u p : List TokenKind} (hu : Opens fs u)
    (hp : Leads (unit fs) p) {k : TokenKind} {o : Outline} (ho : operand k fs = some o) :
    Reads o (u ++ p ++ [k]) := by
  have sign (hk : k ∈ unaryOperators) : Reads ⟨.operand, fs⟩ (u ++ p ++ [k]) := by
    rw [List.append_assoc]
    exact .operand hu (hp.unary hk)
  obtain ⟨⟨s, new⟩, hk, rfl⟩ := Option.map_eq_some_iff.1 ho
  unfold opening at hk
  split at hk <;> cases hk
  · exact .operator hu hp .identifier
  · exact .operator hu hp .integer
  · exact .operator hu hp .kwTrue
  · exact .operator hu hp .kwFalse
  · exact sign (by decide)
  · exact sign (by decide)
  · simpa using Reads.operand (Opens.group hu hp) leads_nil
  · exact .conditionParen hu hp
  · exact .parametersParen hu hp

theorem reads_endBlock {fs : List Frame} {u : List TokenKind} (hu : Opens fs u) {o : Outline}
    (ho : endBlock fs = some o) : Reads o (u ++ [.braceRight]) := by
  cases hu with
  | @block kind fs v p b is hv hp hb his =>
      obtain rfl := Option.some.inj ho
      have hblock := Derives.block his
      cases hb with
      | consequence hc => simpa [BlockKind.after] using Reads.otherwise hv hp hc hblock
      | alternative hc hyes =>
          simpa [BlockKind.after] using Reads.operator hv hp (.ifElse hc hyes hblock)
      | thunk => simpa [BlockKind.after] using Reads.operator hv hp (.thunk hblock)
      | function hps =>
          simpa [BlockKind.after] using Reads.operator hv hp (.function hps hblock)
  | program | group | condition | arguments | moreArguments => cases ho

theorem reads_statement {fs : List Frame} {u : List TokenKind} (hfs : AtStatement fs)
    (hu : Opens fs u) {k : TokenKind} {o : Outline} (ho : statement k fs = some o) :
    Reads o (u ++ [k]) := by
  unfold statement at ho
  split at ho
  case h_1 =>
      obtain rfl := Option.some.inj ho
      exact .statement hfs (hu.append hfs fun _ his => .semicolon his)
  case h_2 =>
      obtain rfl := Option.some.inj ho
      exact .bindName hfs hu
  case h_3 =>
      obtain rfl := Option.some.inj ho
      exact .operand hu (leads_returns hfs)
  case h_4 => exact reads_endBlock hu ho
  case h_5 => simpa using reads_operand hu leads_nil ho

/-- An argument is complete, and a token comes that is no operator. -/
theorem reads_argument {fs : List Frame} {u p f as : List TokenKind} (hu : Opens fs u)
    (hp : Leads (unit fs) p) (hf : Derives .expression f) (has : Derives .arguments as)
    {k : TokenKind} {o : Outline} (ho : close k (.argument :: fs) = some o) :
    Reads o (u ++ p ++ f ++ [.parenLeft] ++ as ++ [k]) := by
  simp only [close] at ho
  split at ho
  · obtain rfl := Option.some.inj ho
    subst k
    simpa using Reads.operand (Opens.moreArguments hu hp hf has) leads_nil
  · obtain ⟨rfl, rfl⟩ : k = .parenRight ∧ ⟨.operator, fs⟩ = o := by simpa [want] using ho
    simpa using Reads.operator hu hp (.call hf has)

/-- An operand is complete, and a token comes that is no operator. -/
theorem reads_close {fs : List Frame} {u p e : List TokenKind} (hu : Opens fs u)
    (hp : Leads (unit fs) p) (he : Derives .expression e) {k : TokenKind} {o : Outline}
    (ho : close k fs = some o) : Reads o (u ++ p ++ e ++ [k]) := by
  have hpe := hp e he
  -- where statements stand, the statement is complete as well
  have hstatement (hfs : AtStatement fs) (ho : statement k fs = some o) :
      Reads o (u ++ p ++ e ++ [k]) := by
    rw [unit_of_atStatement hfs] at hpe
    rw [List.append_assoc u]
    exact reads_statement hfs (hu.append hfs fun _ his => .item his hpe) ho
  cases hu with
  | program his => exact hstatement trivial ho
  | block => exact hstatement trivial ho
  | group hv hq =>
      obtain ⟨rfl, rfl⟩ : k = .parenRight ∧ ⟨.operator, _⟩ = o := by simpa [close, want] using ho
      simpa using Reads.operator hv hq (.group hpe)
  | condition hv hq =>
      obtain ⟨rfl, rfl⟩ : k = .parenRight ∧ ⟨.brace .consequence, _⟩ = o := by
        simpa [close, want] using ho
      simpa using Reads.brace hv hq (.consequence hpe)
  | arguments hv hq hf => simpa using reads_argument hv hq hf (.argument hpe) ho
  | moreArguments hv hq hf has => simpa using reads_argument hv hq hf (.moreArguments has hpe) ho

theorem reads_operator {fs : List Frame} {u p e : List TokenKind} (hu : Opens fs u)
    (hp : Leads (unit fs) p) (he : Derives .expression e) {k : TokenKind} {o : Outline}
    (ho : operator k fs = some o) : Reads o (u ++ p ++ e ++ [k]) := by
  unfold operator at ho
  split at ho
  · obtain rfl := Option.some.inj ho
    subst k
    exact .arguments hu hp he
  · split at ho
    · obtain rfl := Option.some.inj ho
      have hk : k ∈ binaryOperators := (mem_binaryOperators_iff k).2 ⟨‹_›, ‹_›⟩
      simpa using Reads.operand hu (hp.binary he hk)
    · exact reads_close hu hp he ho

/-- A wanted token has come. -/
theorem eq_of_want {wanted k : TokenKind} {next o : Outline} (h : want wanted k next = some o) :
    k = wanted ∧ o = next := by
  unfold want at h
  split at h
  · exact ⟨‹_›, (Option.some.inj h).symm⟩
  · cases h

/-- **Each step keeps the invariant.** -/
theorem Reads.step {o : Outline} {u : List TokenKind} (h : Reads o u) {k : TokenKind} {o' : Outline}
    (ho : o.step k = some o') : Reads o' (u ++ [k]) := by
  cases h with
  | statement hfs hu => exact reads_statement hfs hu ho
  | bindName hfs hu =>
      obtain ⟨rfl, rfl⟩ := eq_of_want ho
      simpa using Reads.bindAssign hfs hu
  | bindAssign hfs hu =>
      obtain ⟨rfl, rfl⟩ := eq_of_want ho
      simpa using Reads.operand hu (leads_bind hfs)
  | operand hu hp => exact reads_operand hu hp ho
  | operator hu hp he => exact reads_operator hu hp he ho
  | conditionParen hu hp =>
      obtain ⟨rfl, rfl⟩ := eq_of_want ho
      simpa using Reads.operand (Opens.condition hu hp) leads_nil
  | brace hu hp hb =>
      obtain ⟨rfl, rfl⟩ := eq_of_want ho
      have hblock := Opens.block hu hp hb .none
      simpa using Reads.statement (by trivial) hblock
  | otherwise hu hp hc hyes =>
      simp only [Outline.step] at ho
      split at ho
      · obtain rfl := Option.some.inj ho
        subst k
        simpa using Reads.brace hu hp (.alternative hc hyes)
      · simpa using reads_operator hu hp (.ifThen hc hyes) ho
  | parametersParen hu hp =>
      obtain ⟨rfl, rfl⟩ := eq_of_want ho
      simpa using Reads.firstParameter hu hp
  | firstParameter hu hp =>
      simp only [Outline.step] at ho
      split at ho
      · obtain rfl := Option.some.inj ho
        subst k
        simpa using Reads.brace hu hp .thunk
      · obtain ⟨rfl, rfl⟩ := eq_of_want ho
        simpa using Reads.parametersEnd hu hp .parameter
  | parameter hu hp hps =>
      obtain ⟨rfl, rfl⟩ := eq_of_want ho
      simpa using Reads.parametersEnd hu hp (.moreParameters hps)
  | parametersEnd hu hp hps =>
      simp only [Outline.step] at ho
      split at ho
      · obtain rfl := Option.some.inj ho
        subst k
        simpa using Reads.parameter hu hp hps
      · obtain ⟨rfl, rfl⟩ := eq_of_want ho
        simpa using Reads.brace hu hp (.function hps)
  | arguments hu hp hf =>
      simp only [Outline.step] at ho
      split at ho
      · obtain rfl := Option.some.inj ho
        subst k
        simpa using Reads.operator hu hp (.callEmpty hf)
      · simpa using reads_operand (Opens.arguments hu hp hf) leads_nil ho

/-! ### Whole texts -/

/-- When nothing is missing, a program has been read. -/
theorem Reads.items {o : Outline} {u : List TokenKind} (h : Reads o u) (ho : o.Complete) :
    Derives .items u := by
  have of_opens {u : List TokenKind} (hu : Opens [] u) : Derives .items u := by
    cases hu with
    | program his => exact his
  have of_phrase {u p e : List TokenKind} (hu : Opens [] u) (hp : Leads .statement p)
      (he : Derives .expression e) : Derives .items (u ++ p ++ e) := by
    rw [List.append_assoc]
    exact .item (of_opens hu) (hp e he)
  obtain ⟨hfs, hs⟩ := ho
  cases h with
  | statement _ hu =>
      obtain rfl := hfs
      exact of_opens hu
  | operator hu hp he =>
      obtain rfl := hfs
      exact of_phrase hu hp he
  | otherwise hu hp hc hyes =>
      obtain rfl := hfs
      exact of_phrase hu hp (.ifThen hc hyes)
  | _ => simp at hs

/-- What is accepted after a list of tokens makes a program with it. -/
theorem Reads.of_accepts {o : Outline} {u ks : List TokenKind} (h : Reads o u)
    (hks : o.Accepts ks) : Derives .items (u ++ ks) := by
  induction ks generalizing o u with
  | nil =>
      rw [List.append_nil]
      exact h.items hks
  | cons k ks ih =>
      obtain ⟨o', ho, hrest⟩ := hks
      simpa using ih (h.step ho) hrest

/-- **Outlines accept exactly the programs of the grammar.** -/
theorem accepts_initial_iff (ks : List TokenKind) :
    initial.Accepts ks ↔ Derives .items ks := by
  constructor
  · intro h
    have hread : Reads initial [] := .statement (by trivial) (.program .none)
    exact hread.of_accepts h
  · intro h
    have hend : initial.Accepts [] := ⟨rfl, .inl rfl⟩
    have hpass := passes_of_derives h [] [] trivial hend
    rwa [List.append_nil] at hpass

end LetFn.Parser.Outline
