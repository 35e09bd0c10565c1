/-
**The nodes of a syntax tree.**

What is required of every node of a tree is required of its root and of the nodes of its parts.  So
a property of trees that looks at one node at a time is given by a property of nodes, and is taken
apart along the tree by the lemmas here.

Main definitions:

* `LetFn.Expr.nodes`, `LetFn.Stmt.nodes`, `LetFn.Block.nodes`, `LetFn.Program.nodes` — all nodes of
  a tree, at any depth;
* `LetFn.Expr.Every`, `LetFn.Stmt.Every`, `LetFn.Block.Every`, `LetFn.Node.Every` — what holds of
  every node;
* `LetFn.Node.parts`, `LetFn.Node.Hereditary` — the parts of a node that are evaluated where the
  node is, and what holds of them if it holds of the node;
* `LetFn.Node.Broken` — the nodes that stand for what could not be read, `LetFn.Node.Whole` the
  others.
-/

import LetFn.Syntax.Basic

set_option relaxedAutoImplicit false
set_option autoImplicit false

namespace LetFn

/-- The node stands for what could not be read. -/
def Node.Broken : Node → Prop
  | .expr (.error _ _ _) => True
  | .stmt (.error _) => True
  | _ => False

instance : DecidablePred Node.Broken := fun n => by
  unfold Node.Broken
  split <;> infer_instance

/-- The node is not broken. -/
def Node.Whole (n : Node) : Prop :=
  ¬ n.Broken

/-! ### All nodes -/

mutual

/-- The nodes of an expression, the expression first. -/
def Expr.nodes : Expr → List Node
  | .ident id => [.expr (.ident id)]
  | .integer t n => [.expr (.integer t n)]
  | .boolean t b => [.expr (.boolean t b)]
  | .unary op e => .expr (.unary op e) :: e.nodes
  | .binary l op r => .expr (.binary l op r) :: (l.nodes ++ r.nodes)
  | .ifElse t c yes none => .expr (.ifElse t c yes none) :: (c.nodes ++ yes.nodes)
  | .ifElse t c yes (some no) =>
    .expr (.ifElse t c yes (some no)) :: (c.nodes ++ yes.nodes ++ no.nodes)
  | .function t ps body => .expr (.function t ps body) :: body.nodes
  | .call t f es => .expr (.call t f es) :: (f.nodes ++ Expr.nodesAll es)
  | .error t expected message => [.expr (.error t expected message)]

/-- The nodes of several expressions. -/
def Expr.nodesAll : List Expr → List Node
  | [] => []
  | e :: es => e.nodes ++ Expr.nodesAll es

/-- The nodes of a statement, the statement first. -/
def Stmt.nodes : Stmt → List Node
  | .bind t x e => .stmt (.bind t x e) :: e.nodes
  | .returns t e => .stmt (.returns t e) :: e.nodes
  | .expr t e => .stmt (.expr t e) :: e.nodes
  | .block b => .stmt (.block b) :: b.nodes
  | .error t => [.stmt (.error t)]

/-- The nodes of several statements. -/
def Stmt.nodesAll : List Stmt → List Node
  | [] => []
  | s :: ss => s.nodes ++ Stmt.nodesAll ss

/-- The nodes of a block, the block first. -/
def Block.nodes : Block → List Node
  | ⟨t, ss⟩ => .block ⟨t, ss⟩ :: Stmt.nodesAll ss

end

/-- The nodes of the statements of a program. -/
def Program.nodes (p : Program) : List Node :=
  Stmt.nodesAll p.statements

/-- The nodes of a node, that node first unless it is a program. -/
def Node.nodes : Node → List Node
  | .program p => p.nodes
  | .stmt s => s.nodes
  | .block b => b.nodes
  | .expr e => e.nodes

@[simp] theorem Expr.mem_nodesAll {n : Node} {es : List Expr} :
    n ∈ Expr.nodesAll es ↔ ∃ e ∈ es, n ∈ e.nodes := by
  induction es with
  | nil => simp [Expr.nodesAll]
  | cons e es ih => simp [Expr.nodesAll, ih]

@[simp] theorem Stmt.mem_nodesAll {n : Node} {ss : List Stmt} :
    n ∈ Stmt.nodesAll ss ↔ ∃ s ∈ ss, n ∈ s.nodes := by
  induction ss with
  | nil => simp [Stmt.nodesAll]
  | cons s ss ih => simp [Stmt.nodesAll, ih]

/-! ### What holds of every node -/

section Every

variable (P : Node → Prop)

/-- Every node of an expression has the property. -/
def Expr.Every (e : Expr) : Prop :=
  ∀ n ∈ e.nodes, P n

/-- Every node of a statement has the property. -/
def Stmt.Every (s : Stmt) : Prop :=
  ∀ n ∈ s.nodes, P n

/-- Every node of a block has the property. -/
def Block.Every (b : Block) : Prop :=
  ∀ n ∈ b.nodes, P n

/-- Every node of a node has the property. -/
def Node.Every (n : Node) : Prop :=
  ∀ m ∈ n.nodes, P m

end Every

variable {P : Node → Prop} {t : Token}

/-- What holds of every node of several expressions holds of every node of each. -/
theorem Expr.forall_mem_nodesAll {es : List Expr} :
    (∀ n ∈ Expr.nodesAll es, P n) ↔ ∀ e ∈ es, e.Every P := by
  simp only [Expr.mem_nodesAll, forall_exists_index, and_imp]
  exact forall_comm.trans (forall_congr' fun e => forall_comm)

/-- What holds of every node of several statements holds of every node of each. -/
theorem Stmt.forall_mem_nodesAll {ss : List Stmt} :
    (∀ n ∈ Stmt.nodesAll ss, P n) ↔ ∀ s ∈ ss, s.Every P := by
  simp only [Stmt.mem_nodesAll, forall_exists_index, and_imp]
  exact forall_comm.trans (forall_congr' fun s => forall_comm)

namespace Expr

@[simp] theorem every_ident {x : Ident} : (Expr.ident x).Every P ↔ P (.expr (.ident x)) :=
  List.forall_mem_singleton

@[simp] theorem every_integer {n : Int64} :
    (Expr.integer t n).Every P ↔ P (.expr (.integer t n)) :=
  List.forall_mem_singleton

@[simp] theorem every_boolean {b : Bool} :
    (Expr.boolean t b).Every P ↔ P (.expr (.boolean t b)) :=
  List.forall_mem_singleton

@[simp] theorem every_error {k : Option TokenKind} {m : Option String} :
    (Expr.error t k m).Every P ↔ P (.expr (.error t k m)) :=
  List.forall_mem_singleton

@[simp] theorem every_unary {e : Expr} :
    (Expr.unary t e).Every P ↔ P (.expr (.unary t e)) ∧ e.Every P :=
  List.forall_mem_cons

@[simp] theorem every_binary {l r : Expr} :
    (Expr.binary l t r).Every P ↔ P (.expr (.binary l t r)) ∧ l.Every P ∧ r.Every P :=
  List.forall_mem_cons.trans (and_congr_right' List.forall_mem_append)

@[simp] theorem every_ifThen {c : Expr} {yes : Block} :
    (Expr.ifElse t c yes none).Every P ↔
      P (.expr (.ifElse t c yes none)) ∧ c.Every P ∧ yes.Every P :=
  List.forall_mem_cons.trans (and_congr_right' List.forall_mem_append)

@[simp] theorem every_ifElse {c : Expr} {yes no : Block} :
    (Expr.ifElse t c yes (some no)).Every P ↔
      P (.expr (.ifElse t c yes (some no))) ∧ c.Every P ∧ yes.Every P ∧ no.Every P := by
  refine List.forall_mem_cons.trans (and_congr_right' ?_)
  rw [List.forall_mem_append, List.forall_mem_append, and_assoc]
  rfl

@[simp] theorem every_function {ps : List Ident} {b : Block} :
    (Expr.function t ps b).Every P ↔ P (.expr (.function t ps b)) ∧ b.Every P :=
  List.forall_mem_cons

@[simp] theorem every_call {f : Expr} {es : List Expr} :
    (Expr.call t f es).Every P ↔
      P (.expr (.call t f es)) ∧ f.Every P ∧ ∀ e ∈ es, e.Every P := by
  refine List.forall_mem_cons.trans (and_congr_right' ?_)
  rw [List.forall_mem_append, forall_mem_nodesAll]
  rfl

end Expr

namespace Stmt

@[simp] theorem every_bind {x : Ident} {e : Expr} :
    (Stmt.bind t x e).Every P ↔ P (.stmt (.bind t x e)) ∧ e.Every P :=
  List.forall_mem_cons

@[simp] theorem every_returns {e : Expr} :
    (Stmt.returns t e).Every P ↔ P (.stmt (.returns t e)) ∧ e.Every P :=
  List.forall_mem_cons

@[simp] theorem every_expr {e : Expr} :
    (Stmt.expr t e).Every P ↔ P (.stmt (.expr t e)) ∧ e.Every P :=
  List.forall_mem_cons

@[simp] theorem every_block {b : Block} :
    (Stmt.block b).Every P ↔ P (.stmt (.block b)) ∧ b.Every P :=
  List.forall_mem_cons

@[simp] theorem every_error : (Stmt.error t).Every P ↔ P (.stmt (.error t)) :=
  List.forall_mem_singleton

end Stmt

@[simp] theorem Block.every_mk {ss : List Stmt} :
    (Block.mk t ss).Every P ↔ P (.block ⟨t, ss⟩) ∧ ∀ s ∈ ss, s.Every P :=
  List.forall_mem_cons.trans (and_congr_right' Stmt.forall_mem_nodesAll)

/-! ### The parts of a node -/

/-- The parts of a node that are evaluated in the scope in which it is: the body of a function is
none of them. -/
def Node.parts : Node → List Node
  | .expr (.unary _ e) => [.expr e]
  | .expr (.binary l _ r) => [.expr l, .expr r]
  | .expr (.ifElse _ c yes none) => [.expr c, .block yes]
  | .expr (.ifElse _ c yes (some no)) => [.expr c, .block yes, .block no]
  | .expr (.call _ f es) => .expr f :: es.map .expr
  | .expr _ => []
  | .stmt (.bind _ _ e) => [.expr e]
  | .stmt (.returns _ e) => [.expr e]
  | .stmt (.expr _ e) => [.expr e]
  | .stmt (.block b) => [.block b]
  | .stmt (.error _) => []
  | .block b => b.statements.map .stmt
  | .program p => p.statements.map .stmt

/-- What holds of a node holds of its parts. -/
def Node.Hereditary (ok : Node → Prop) : Prop :=
  ∀ n, ok n → ∀ m ∈ n.parts, ok m

/-- What holds of every node of a node holds of every node of its parts. -/
theorem Node.hereditary_every (P : Node → Prop) : Node.Hereditary (Node.Every P) := by
  intro n hn
  cases n with
  | program p => exact List.forall_mem_map.2 (Stmt.forall_mem_nodesAll.1 hn)
  | block b =>
      obtain ⟨t, sts⟩ := b
      exact List.forall_mem_map.2 (Block.every_mk.1 hn).2
  | stmt st =>
      cases st with
      | bind t x e => exact List.forall_mem_singleton.2 (Stmt.every_bind.1 hn).2
      | returns t e => exact List.forall_mem_singleton.2 (Stmt.every_returns.1 hn).2
      | expr t e => exact List.forall_mem_singleton.2 (Stmt.every_expr.1 hn).2
      | block b => exact List.forall_mem_singleton.2 (Stmt.every_block.1 hn).2
      | error t => exact List.forall_mem_nil _
  | expr e =>
      cases e with
      | ident | integer | boolean | function | error => exact List.forall_mem_nil _
      | unary op e => exact List.forall_mem_singleton.2 (Expr.every_unary.1 hn).2
      | binary l op r =>
          obtain ⟨-, hl, hr⟩ := Expr.every_binary.1 hn
          exact List.forall_mem_cons.2 ⟨hl, List.forall_mem_singleton.2 hr⟩
      | ifElse t c yes no =>
          cases no with
          | none =>
              obtain ⟨-, hc, hyes⟩ := Expr.every_ifThen.1 hn
              exact List.forall_mem_cons.2 ⟨hc, List.forall_mem_singleton.2 hyes⟩
          | some no =>
              obtain ⟨-, hc, hyes, hno⟩ := Expr.every_ifElse.1 hn
              exact List.forall_mem_cons.2
                ⟨hc, List.forall_mem_cons.2 ⟨hyes, List.forall_mem_singleton.2 hno⟩⟩
      | call t f es =>
          obtain ⟨-, hf, hes⟩ := Expr.every_call.1 hn
          exact List.forall_mem_cons.2 ⟨hf, List.forall_mem_map.2 hes⟩

end LetFn
