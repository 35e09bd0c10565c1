/-
**A tree in reading order.**

A tree keeps the tokens that carry its meaning: names, literals, operators and keywords, and the
brace before a block.  Read in the order of the text these are its *reading*.  What a text needs
besides to be read, such as brackets and commas, leaves no token in the reading.

Main definitions:

* `LetFn.Expr.reading`, `LetFn.Stmt.reading`, `LetFn.Block.reading`, `LetFn.Program.reading` — **the
  tokens of a tree in the order of the text**;
* `LetFn.Node.own` — the tokens that one node adds to the reading.

Main results:

* `LetFn.Expr.readingAll_append`, `LetFn.Stmt.readingAll_append` — the tokens of two lists are those
  of one and then those of the other;
* `LetFn.Program.mem_reading` — the tokens of a tree are those of its nodes.
-/

import LetFn.Proofs.Syntax.Nodes

set_option relaxedAutoImplicit false
set_option autoImplicit false

namespace LetFn

mutual

/-- **The tokens of an expression in the order of the text.**  The parenthesis that is the token of
a call is not among them. -/
def Expr.reading : Expr → List Token
  | .ident x => [x.token]
  | .integer t _ => [t]
  | .boolean t _ => [t]
  | .unary op e => op :: e.reading
  | .binary l op r => l.reading ++ op :: r.reading
  | .ifElse t c yes none => t :: (c.reading ++ yes.reading)
  | .ifElse t c yes (some no) => t :: (c.reading ++ yes.reading ++ no.reading)
  | .function t xs body => t :: (xs.map Ident.token ++ body.reading)
  | .call _ f es => f.reading ++ Expr.readingAll es
  | .error t _ _ => [t]

/-- The tokens of several expressions in the order of the text. -/
def Expr.readingAll : List Expr → List Token
  | [] => []
  | e :: es => e.reading ++ Expr.readingAll es

/-- The tokens of a statement in the order of the text.  The token of a statement that is an
expression is the first token of the expression, and not counted again. -/
def Stmt.reading : Stmt → List Token
  | .bind t x e => t :: x.token :: e.reading
  | .returns t e => t :: e.reading
  | .expr _ e => e.reading
  | .block b => b.reading
  | .error t => [t]

/-- The tokens of several statements in the order of the text. -/
def Stmt.readingAll : List Stmt → List Token
  | [] => []
  | s :: ss => s.reading ++ Stmt.readingAll ss

/-- The tokens of a block in the order of the text, its brace first. -/
def Block.reading : Block → List Token
  | ⟨brace, ss⟩ => brace :: Stmt.readingAll ss

end

theorem Expr.readingAll_append (es fs : List Expr) :
    Expr.readingAll (es ++ fs) = Expr.readingAll es ++ Expr.readingAll fs := by
  induction es with
  | nil => rfl
  | cons e es ih =>
      rw [List.cons_append, Expr.readingAll, Expr.readingAll, ih, List.append_assoc]

theorem Stmt.readingAll_append (ss rs : List Stmt) :
    Stmt.readingAll (ss ++ rs) = Stmt.readingAll ss ++ Stmt.readingAll rs := by
  induction ss with
  | nil => rfl
  | cons s ss ih =>
      rw [List.cons_append, Stmt.readingAll, Stmt.readingAll, ih, List.append_assoc]

/-- The tokens of a program in the order of the text. -/
def Program.reading (p : Program) : List Token :=
  Stmt.readingAll p.statements

/-! ### The tokens of a node -/

/-- The tokens that a node adds to the reading, apart from those of its parts. -/
def Node.own : Node → List Token
  | .expr (.ident x) => [x.token]
  | .expr (.integer t _) => [t]
  | .expr (.boolean t _) => [t]
  | .expr (.unary op _) => [op]
  | .expr (.binary _ op _) => [op]
  | .expr (.ifElse t _ _ _) => [t]
  | .expr (.function t xs _) => t :: xs.map Ident.token
  | .expr (.call _ _ _) => []
  | .expr (.error t _ _) => [t]
  | .stmt (.bind t x _) => [t, x.token]
  | .stmt (.returns t _) => [t]
  | .stmt (.expr _ _) => []
  | .stmt (.block _) => []
  | .stmt (.error t) => [t]
  | .block b => [b.brace]
  | .program _ => []

variable {t : Token}

mutual

/-- The tokens of an expression are those of its nodes. -/
theorem Expr.mem_reading : (e : Expr) → (t ∈ e.reading ↔ ∃ n ∈ e.nodes, t ∈ n.own)
  | .ident _ | .integer _ _ | .boolean _ _ | .error _ _ _ => by
    simp [Expr.reading, Expr.nodes, Node.own]
  | .unary _ e => by simp [Expr.reading, Expr.nodes, Node.own, e.mem_reading]
  | .binary l _ r => by
    simp [Expr.reading, Expr.nodes, Node.own, l.mem_reading, r.mem_reading, or_and_right,
      exists_or, or_left_comm]
  | .ifElse _ c yes none => by
    simp [Expr.reading, Expr.nodes, Node.own, c.mem_reading, yes.mem_reading, or_and_right,
      exists_or]
  | .ifElse _ c yes (some no) => by
    simp [Expr.reading, Expr.nodes, Node.own, c.mem_reading, yes.mem_reading, no.mem_reading,
      or_and_right, exists_or]
  | .function _ _ body => by
    simp [Expr.reading, Expr.nodes, Node.own, body.mem_reading, or_assoc]
  | .call _ f es => by
    simp [Expr.reading, Expr.nodes, Node.own, f.mem_reading, Expr.mem_readingAll es, or_and_right,
      exists_or]

/-- The tokens of several expressions are those of their nodes. -/
theorem Expr.mem_readingAll : (es : List Expr) →
    (t ∈ Expr.readingAll es ↔ ∃ n ∈ Expr.nodesAll es, t ∈ n.own)
  | [] => by simp [Expr.readingAll, Expr.nodesAll]
  | e :: es => by
    simp only [Expr.readingAll, Expr.nodesAll, List.mem_append, e.mem_reading,
      Expr.mem_readingAll es, or_and_right, exists_or]

/-- The tokens of a statement are those of its nodes. -/
theorem Stmt.mem_reading : (s : Stmt) → (t ∈ s.reading ↔ ∃ n ∈ s.nodes, t ∈ n.own)
  | .bind _ _ e => by simp [Stmt.reading, Stmt.nodes, Node.own, e.mem_reading, or_assoc]
  | .returns _ e => by simp [Stmt.reading, Stmt.nodes, Node.own, e.mem_reading]
  | .expr _ e => by simp [Stmt.reading, Stmt.nodes, Node.own, e.mem_reading]
  | .block b => by simp [Stmt.reading, Stmt.nodes, Node.own, b.mem_reading]
  | .error _ => by simp [Stmt.reading, Stmt.nodes, Node.own]

/-- The tokens of several statements are those of their nodes. -/
theorem Stmt.mem_readingAll : (ss : List Stmt) →
    (t ∈ Stmt.readingAll ss ↔ ∃ n ∈ Stmt.nodesAll ss, t ∈ n.own)
  | [] => by simp [Stmt.readingAll, Stmt.nodesAll]
  | s :: ss => by
    simp only [Stmt.readingAll, Stmt.nodesAll, List.mem_append, s.mem_reading,
      Stmt.mem_readingAll ss, or_and_right, exists_or]

/-- The tokens of a block are those of its nodes. -/
theorem Block.mem_reading : (b : Block) → (t ∈ b.reading ↔ ∃ n ∈ b.nodes, t ∈ n.own)
  | ⟨_, ss⟩ => by simp [Block.reading, Block.nodes, Node.own, Stmt.mem_readingAll ss]

end

/-- **The tokens of a program are those of its nodes.** -/
theorem Program.mem_reading (p : Program) : t ∈ p.reading ↔ ∃ n ∈ p.nodes, t ∈ n.own :=
  Stmt.mem_readingAll p.statements

end LetFn
