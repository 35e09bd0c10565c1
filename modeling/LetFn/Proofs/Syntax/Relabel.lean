/-
**Other tokens for a tree.**

The tokens that a tree keeps say where its parts stand and how they were written.  Here they are
replaced throughout, without a change to the tree itself: those of integers and of statements that
are expressions in ways of their own, since these may be written in more than one way, and so are
those of broken nodes, since what is said of these tells where they stand.

Main definitions:

* `LetFn.Relabelling`, `LetFn.Expr.relabel`, `LetFn.Program.relabel` — other tokens for a tree;
* `LetFn.Relabelling.same` — changes nothing;
* `LetFn.Relabelling.unplaced` — forgets the places of tokens;
* `LetFn.Relabelling.bare` — forgets in addition how integers were written and with which tokens
  the statements that are expressions began;
* `LetFn.Program.forget` — **what a program is, its tokens forgotten**.

Main results:

* `LetFn.Expr.relabel_relabel` — to relabel twice is to relabel once;
* `LetFn.Program.relabel_of_whole` — where nothing is broken, the tokens of broken nodes do not
  matter;
* `LetFn.Program.forget_unplaced` — forgetting places first makes no difference;
* `LetFn.Program.render_forget` — the text of a program depends on no more than is kept.
-/

import LetFn.Proofs.Syntax.Nodes
import LetFn.Proofs.Token.Lexemes
import LetFn.Syntax.Render

set_option relaxedAutoImplicit false
set_option autoImplicit false

namespace LetFn

/-! ### Relabelling -/

/-- What becomes of the tokens of a tree. -/
structure Relabelling where
  /-- Tokens other than the following. -/
  token : Token → Token
  /-- The tokens of integers. -/
  integer : Token → Token
  /-- The tokens of statements that are expressions. -/
  statement : Token → Token
  /-- The tokens of broken nodes. -/
  broken : Token → Token

/-- An occurrence of a name, with another token. -/
def Ident.relabel (r : Relabelling) (x : Ident) : Ident :=
  ⟨r.token x.token, x.name⟩

mutual

/-- An expression with other tokens. -/
def Expr.relabel (r : Relabelling) : Expr → Expr
  | .ident x => .ident (x.relabel r)
  | .integer t n => .integer (r.integer t) n
  | .boolean t b => .boolean (r.token t) b
  | .unary op e => .unary (r.token op) (e.relabel r)
  | .binary l op e => .binary (l.relabel r) (r.token op) (e.relabel r)
  | .ifElse t c yes none => .ifElse (r.token t) (c.relabel r) (yes.relabel r) none
  | .ifElse t c yes (some no) =>
    .ifElse (r.token t) (c.relabel r) (yes.relabel r) (some (no.relabel r))
  | .function t ps body => .function (r.token t) (ps.map (Ident.relabel r)) (body.relabel r)
  | .call t f es => .call (r.token t) (f.relabel r) (Expr.relabelAll r es)
  | .error t expected message => .error (r.broken t) expected message

/-- Several expressions with other tokens. -/
def Expr.relabelAll (r : Relabelling) : List Expr → List Expr
  | [] => []
  | e :: es => e.relabel r :: Expr.relabelAll r es

/-- A statement with other tokens. -/
def Stmt.relabel (r : Relabelling) : Stmt → Stmt
  | .bind t x e => .bind (r.token t) (x.relabel r) (e.relabel r)
  | .returns t e => .returns (r.token t) (e.relabel r)
  | .expr t e => .expr (r.statement t) (e.relabel r)
  | .block b => .block (b.relabel r)
  | .error t => .error (r.broken t)

/-- Several statements with other tokens. -/
def Stmt.relabelAll (r : Relabelling) : List Stmt → List Stmt
  | [] => []
  | s :: ss => s.relabel r :: Stmt.relabelAll r ss

/-- A block with other tokens. -/
def Block.relabel (r : Relabelling) : Block → Block
  | ⟨t, ss⟩ => ⟨r.token t, Stmt.relabelAll r ss⟩

end

/-- A function literal with other tokens. -/
def Function.relabel (r : Relabelling) (f : Function) : Function :=
  ⟨r.token f.token, f.parameters.map (Ident.relabel r), f.body.relabel r⟩

/-- A program with other tokens. -/
def Program.relabel (r : Relabelling) (p : Program) : Program :=
  ⟨p.statements.map (Stmt.relabel r)⟩

@[simp] theorem Expr.relabelAll_eq_map (r : Relabelling) (es : List Expr) :
    Expr.relabelAll r es = es.map (Expr.relabel r) := by
  induction es with
  | nil => rfl
  | cons e es ih => simp [Expr.relabelAll, ih]

@[simp] theorem Stmt.relabelAll_eq_map (r : Relabelling) (ss : List Stmt) :
    Stmt.relabelAll r ss = ss.map (Stmt.relabel r) := by
  induction ss with
  | nil => rfl
  | cons s ss ih => simp [Stmt.relabelAll, ih]

/-! ### Relabelling twice -/

/-- One relabelling after another. -/
def Relabelling.comp (q r : Relabelling) : Relabelling :=
  ⟨q.token ∘ r.token, q.integer ∘ r.integer, q.statement ∘ r.statement, q.broken ∘ r.broken⟩

mutual

/-- To relabel an expression twice is to relabel it once. -/
theorem Expr.relabel_relabel (q r : Relabelling) :
    (e : Expr) → (e.relabel r).relabel q = e.relabel (q.comp r)
  | .ident _ => rfl
  | .integer _ _ => rfl
  | .boolean _ _ => rfl
  | .unary _ e => by simp [Expr.relabel, Expr.relabel_relabel q r e, Relabelling.comp]
  | .binary l _ e => by
    simp [Expr.relabel, Expr.relabel_relabel q r l, Expr.relabel_relabel q r e, Relabelling.comp]
  | .ifElse _ c yes none => by
    simp [Expr.relabel, Expr.relabel_relabel q r c, Block.relabel_relabel q r yes,
      Relabelling.comp]
  | .ifElse _ c yes (some no) => by
    simp [Expr.relabel, Expr.relabel_relabel q r c, Block.relabel_relabel q r yes,
      Block.relabel_relabel q r no, Relabelling.comp]
  | .function _ _ body => by
    simp [Expr.relabel, Block.relabel_relabel q r body, Relabelling.comp, Ident.relabel]
  | .call _ f es => by
    have hes := Expr.relabelAll_relabelAll q r es
    simp only [Expr.relabelAll_eq_map] at hes
    simp only [Expr.relabel, Expr.relabel_relabel q r f, Expr.relabelAll_eq_map, hes]
    rfl
  | .error _ _ _ => rfl

theorem Expr.relabelAll_relabelAll (q r : Relabelling) :
    (es : List Expr) → Expr.relabelAll q (Expr.relabelAll r es) = Expr.relabelAll (q.comp r) es
  | [] => rfl
  | e :: es => by
    rw [Expr.relabelAll, Expr.relabelAll, Expr.relabelAll, Expr.relabel_relabel q r e,
      Expr.relabelAll_relabelAll q r es]

/-- To relabel a statement twice is to relabel it once. -/
theorem Stmt.relabel_relabel (q r : Relabelling) :
    (s : Stmt) → (s.relabel r).relabel q = s.relabel (q.comp r)
  | .bind _ _ e => by
    simp [Stmt.relabel, Expr.relabel_relabel q r e, Relabelling.comp, Ident.relabel]
  | .returns _ e => by simp [Stmt.relabel, Expr.relabel_relabel q r e, Relabelling.comp]
  | .expr _ e => by simp [Stmt.relabel, Expr.relabel_relabel q r e, Relabelling.comp]
  | .block b => by simp [Stmt.relabel, Block.relabel_relabel q r b]
  | .error _ => rfl

theorem Stmt.relabelAll_relabelAll (q r : Relabelling) :
    (ss : List Stmt) → Stmt.relabelAll q (Stmt.relabelAll r ss) = Stmt.relabelAll (q.comp r) ss
  | [] => rfl
  | s :: ss => by
    rw [Stmt.relabelAll, Stmt.relabelAll, Stmt.relabelAll, Stmt.relabel_relabel q r s,
      Stmt.relabelAll_relabelAll q r ss]

/-- To relabel a block twice is to relabel it once. -/
theorem Block.relabel_relabel (q r : Relabelling) :
    (b : Block) → (b.relabel r).relabel q = b.relabel (q.comp r)
  | ⟨_, ss⟩ => by
    rw [Block.relabel, Block.relabel, Block.relabel, Stmt.relabelAll_relabelAll q r ss]
    rfl

end

/-- To relabel a program twice is to relabel it once. -/
theorem Program.relabel_relabel (q r : Relabelling) (p : Program) :
    (p.relabel r).relabel q = p.relabel (q.comp r) := by
  simp [Program.relabel, Stmt.relabel_relabel]

/-! ### No other tokens -/

/-- The relabelling that changes nothing. -/
def Relabelling.same : Relabelling :=
  ⟨id, id, id, id⟩

@[simp] theorem Relabelling.token_same (t : Token) : Relabelling.same.token t = t := rfl

@[simp] theorem Relabelling.integer_same (t : Token) : Relabelling.same.integer t = t := rfl

@[simp] theorem Relabelling.statement_same (t : Token) : Relabelling.same.statement t = t := rfl

@[simp] theorem Relabelling.broken_same (t : Token) : Relabelling.same.broken t = t := rfl

@[simp] theorem Ident.relabel_same (x : Ident) : x.relabel .same = x := rfl

mutual

theorem Expr.relabel_same : (e : Expr) → e.relabel .same = e
  | .ident _ => rfl
  | .integer _ _ => rfl
  | .boolean _ _ => rfl
  | .unary _ e => by simp [Expr.relabel, Expr.relabel_same e]
  | .binary l _ r => by simp [Expr.relabel, Expr.relabel_same l, Expr.relabel_same r]
  | .ifElse _ c yes none => by simp [Expr.relabel, Expr.relabel_same c, Block.relabel_same yes]
  | .ifElse _ c yes (some no) => by
    simp [Expr.relabel, Expr.relabel_same c, Block.relabel_same yes, Block.relabel_same no]
  | .function _ ps body => by
    have hps : ps.map (Ident.relabel .same) = ps := List.map_id ps
    simp [Expr.relabel, hps, Block.relabel_same body]
  | .call _ f es => by
    rw [Expr.relabel, Expr.relabel_same f, Expr.relabelAll_same es]
    rfl
  | .error _ _ _ => rfl

theorem Expr.relabelAll_same : (es : List Expr) → Expr.relabelAll .same es = es
  | [] => rfl
  | e :: es => by rw [Expr.relabelAll, Expr.relabel_same e, Expr.relabelAll_same es]

theorem Stmt.relabel_same : (s : Stmt) → s.relabel .same = s
  | .bind _ _ e => by simp [Stmt.relabel, Expr.relabel_same e]
  | .returns _ e => by simp [Stmt.relabel, Expr.relabel_same e]
  | .expr _ e => by simp [Stmt.relabel, Expr.relabel_same e]
  | .block b => by simp [Stmt.relabel, Block.relabel_same b]
  | .error _ => rfl

theorem Stmt.relabelAll_same : (ss : List Stmt) → Stmt.relabelAll .same ss = ss
  | [] => rfl
  | s :: ss => by rw [Stmt.relabelAll, Stmt.relabel_same s, Stmt.relabelAll_same ss]

theorem Block.relabel_same : (b : Block) → b.relabel .same = b
  | ⟨_, ss⟩ => by rw [Block.relabel, Stmt.relabelAll_same ss, Relabelling.token_same]

end

/-! ### Trees in which nothing is broken -/

mutual

/-- What becomes of the tokens of broken nodes does not matter where there are none. -/
theorem Expr.relabel_of_whole (r : Relabelling) (f : Token → Token) :
    (e : Expr) → e.Every Node.Whole → e.relabel { r with broken := f } = e.relabel r
  | .ident _, _ => rfl
  | .integer _ _, _ => rfl
  | .boolean _ _, _ => rfl
  | .unary _ e, he => by
    simp only [Expr.relabel, Expr.relabel_of_whole r f e (Expr.every_unary.1 he).2]
  | .binary l _ e, he => by
    obtain ⟨-, hl, he⟩ := Expr.every_binary.1 he
    simp only [Expr.relabel, Expr.relabel_of_whole r f l hl, Expr.relabel_of_whole r f e he]
  | .ifElse _ c yes none, he => by
    obtain ⟨-, hc, hyes⟩ := Expr.every_ifThen.1 he
    simp only [Expr.relabel, Expr.relabel_of_whole r f c hc, Block.relabel_of_whole r f yes hyes]
  | .ifElse _ c yes (some no), he => by
    obtain ⟨-, hc, hyes, hno⟩ := Expr.every_ifElse.1 he
    simp only [Expr.relabel, Expr.relabel_of_whole r f c hc, Block.relabel_of_whole r f yes hyes,
      Block.relabel_of_whole r f no hno]
  | .function _ _ body, he => by
    simp only [Expr.relabel, Block.relabel_of_whole r f body (Expr.every_function.1 he).2]
    rfl
  | .call _ e es, he => by
    obtain ⟨-, he, hes⟩ := Expr.every_call.1 he
    simp only [Expr.relabel, Expr.relabel_of_whole r f e he, Expr.relabelAll_of_whole r f es hes]
  | .error _ _ _, he => absurd trivial (Expr.every_error.1 he)

theorem Expr.relabelAll_of_whole (r : Relabelling) (f : Token → Token) :
    (es : List Expr) → (∀ e ∈ es, e.Every Node.Whole) →
      Expr.relabelAll { r with broken := f } es = Expr.relabelAll r es
  | [], _ => rfl
  | e :: es, hes => by
    obtain ⟨he, hes⟩ := List.forall_mem_cons.1 hes
    rw [Expr.relabelAll, Expr.relabelAll, Expr.relabel_of_whole r f e he,
      Expr.relabelAll_of_whole r f es hes]

/-- So it is with a statement. -/
theorem Stmt.relabel_of_whole (r : Relabelling) (f : Token → Token) :
    (s : Stmt) → s.Every Node.Whole → s.relabel { r with broken := f } = s.relabel r
  | .bind _ _ e, hs => by
    simp only [Stmt.relabel, Expr.relabel_of_whole r f e (Stmt.every_bind.1 hs).2]
    rfl
  | .returns _ e, hs => by
    simp only [Stmt.relabel, Expr.relabel_of_whole r f e (Stmt.every_returns.1 hs).2]
  | .expr _ e, hs => by
    simp only [Stmt.relabel, Expr.relabel_of_whole r f e (Stmt.every_expr.1 hs).2]
  | .block b, hs => by
    simp only [Stmt.relabel, Block.relabel_of_whole r f b (Stmt.every_block.1 hs).2]
  | .error _, hs => absurd trivial (Stmt.every_error.1 hs)

theorem Stmt.relabelAll_of_whole (r : Relabelling) (f : Token → Token) :
    (ss : List Stmt) → (∀ s ∈ ss, s.Every Node.Whole) →
      Stmt.relabelAll { r with broken := f } ss = Stmt.relabelAll r ss
  | [], _ => rfl
  | s :: ss, hss => by
    obtain ⟨hs, hss⟩ := List.forall_mem_cons.1 hss
    rw [Stmt.relabelAll, Stmt.relabelAll, Stmt.relabel_of_whole r f s hs,
      Stmt.relabelAll_of_whole r f ss hss]

/-- So it is with a block. -/
theorem Block.relabel_of_whole (r : Relabelling) (f : Token → Token) :
    (b : Block) → b.Every Node.Whole → b.relabel { r with broken := f } = b.relabel r
  | ⟨_, ss⟩, hb => by
    rw [Block.relabel, Block.relabel, Stmt.relabelAll_of_whole r f ss (Block.every_mk.1 hb).2]

end

/-- So it is with a program. -/
theorem Program.relabel_of_whole (r : Relabelling) (f : Token → Token) {p : Program}
    (hp : ∀ s ∈ p.statements, s.Every Node.Whole) :
    p.relabel { r with broken := f } = p.relabel r :=
  congrArg Program.mk (List.map_congr_left fun s hs => Stmt.relabel_of_whole r f s (hp s hs))

/-! ### The text of a relabelled tree -/

/-- The relabelling keeps how tokens were written. -/
def Relabelling.Faithful (r : Relabelling) : Prop :=
  ∀ t, ((r.token t).kind = t.kind ∧ (r.token t).literal = t.literal) ∧
    (r.broken t).kind = t.kind ∧ (r.broken t).literal = t.literal

theorem Relabelling.faithful_same : Relabelling.same.Faithful :=
  fun _ => ⟨⟨rfl, rfl⟩, rfl, rfl⟩

theorem Relabelling.Faithful.brokenText_eq {r : Relabelling} (h : r.Faithful) (t : Token)
    (k : Option TokenKind) (m : Option String) :
    brokenText (r.broken t) k m = brokenText t k m := by
  obtain ⟨-, hkind, hliteral⟩ := h t
  simp only [brokenText, Token.quoted, hkind, hliteral]

mutual

/-- The text of an expression depends on its tokens only as far as they are kept. -/
theorem Expr.render_relabel {r : Relabelling} (h : r.Faithful) :
    (e : Expr) → (e.relabel r).render = e.render
  | .ident _ => rfl
  | .integer _ _ => rfl
  | .boolean _ _ => rfl
  | .unary op e => by simp only [Expr.relabel, Expr.render, (h op).1.2, Expr.render_relabel h e]
  | .binary l op e => by
    simp only [Expr.relabel, Expr.render, (h op).1.2, Expr.render_relabel h l,
      Expr.render_relabel h e]
  | .ifElse _ c yes none => by
    simp only [Expr.relabel, Expr.render, Expr.render_relabel h c, Block.render_relabel h yes]
  | .ifElse _ c yes (some no) => by
    simp only [Expr.relabel, Expr.render, Expr.render_relabel h c, Block.render_relabel h yes,
      Block.render_relabel h no]
  | .function _ ps body => by
    simp only [Expr.relabel, Expr.render, Block.render_relabel h body, parametersText, List.map_map]
    rfl
  | .call _ f es => by
    simp only [Expr.relabel, Expr.render, Expr.render_relabel h f, Expr.renderAll_relabelAll h es]
  | .error t k m => h.brokenText_eq t k m

theorem Expr.renderAll_relabelAll {r : Relabelling} (h : r.Faithful) :
    (es : List Expr) → Expr.renderAll (Expr.relabelAll r es) = Expr.renderAll es
  | [] => rfl
  | e :: es => by
    rw [Expr.relabelAll, Expr.renderAll, Expr.renderAll, Expr.render_relabel h e,
      Expr.renderAll_relabelAll h es]

/-- The text of a statement depends on its tokens only as far as they are kept. -/
theorem Stmt.render_relabel {r : Relabelling} (h : r.Faithful) :
    (s : Stmt) → (s.relabel r).render = s.render
  | .bind _ _ e => by simp only [Stmt.relabel, Stmt.render, Ident.relabel, Expr.render_relabel h e]
  | .returns _ e => by simp only [Stmt.relabel, Stmt.render, Expr.render_relabel h e]
  | .expr _ e => by simp only [Stmt.relabel, Stmt.render, Expr.render_relabel h e]
  | .block b => by simp only [Stmt.relabel, Stmt.render, Block.render_relabel h b]
  | .error t => h.brokenText_eq t none none

theorem Stmt.renderAll_relabelAll {r : Relabelling} (h : r.Faithful) :
    (ss : List Stmt) → Stmt.renderAll (Stmt.relabelAll r ss) = Stmt.renderAll ss
  | [] => rfl
  | s :: ss => by
    rw [Stmt.relabelAll, Stmt.renderAll, Stmt.renderAll, Stmt.render_relabel h s,
      Stmt.renderAll_relabelAll h ss]

/-- The text of a block depends on its tokens only as far as they are kept. -/
theorem Block.render_relabel {r : Relabelling} (h : r.Faithful) :
    (b : Block) → (b.relabel r).render = b.render
  | ⟨_, ss⟩ => by rw [Block.relabel, Block.render, Block.render, Stmt.renderAll_relabelAll h ss]

end

/-- The text of a function literal depends on its tokens only as far as they are kept. -/
theorem Function.render_relabel {r : Relabelling} (h : r.Faithful) (f : Function) :
    (f.relabel r).render = f.render :=
  Expr.render_relabel h (.function f.token f.parameters f.body)

/-- The text of a program depends on its tokens only as far as they are kept. -/
theorem Program.render_relabel {r : Relabelling} (h : r.Faithful) (p : Program) :
    (p.relabel r).render = p.render := by
  simp only [Program.relabel, Program.render, List.map_map]
  congr 2
  funext s
  exact Stmt.render_relabel h s

/-! ### What is forgotten -/

/-- Forgets the places of tokens. -/
def Relabelling.unplaced : Relabelling :=
  ⟨Token.unplaced, Token.unplaced, Token.unplaced, Token.unplaced⟩

/-- Forgets the places of tokens, how integers were written, and the tokens of the statements that
are expressions. -/
def Relabelling.bare : Relabelling :=
  ⟨Token.unplaced, fun t => ⟨t.kind, "", .start⟩, fun _ => ⟨.eof, "", .start⟩, Token.unplaced⟩

/-- **What a program is, its tokens forgotten**: the kinds and the characters of tokens are kept,
but for integers and for the statements that are expressions. -/
def Program.forget (p : Program) : Program :=
  p.relabel .bare

/-- Forgetting places first makes no difference. -/
theorem Program.forget_unplaced (p : Program) : (p.relabel .unplaced).forget = p.forget :=
  Program.relabel_relabel .bare .unplaced p

/-- The text of a program depends on no more than is kept. -/
theorem Program.render_forget (p : Program) : p.forget.render = p.render :=
  Program.render_relabel (fun _ => ⟨⟨rfl, rfl⟩, rfl, rfl⟩) p

end LetFn
