/-
**Equality of syntax trees is decidable.**

Two nodes are compared from the top: the same sort of node, equal tokens with their positions, equal
parts.

Main definitions:

* `LetFn.Expr.same`, `LetFn.Stmt.same`, `LetFn.Block.same` — the comparison.

Main results:

* `LetFn.Expr.same_iff`, `LetFn.Stmt.same_iff`, `LetFn.Block.same_iff` — **the comparison decides
  equality**, which gives the four sorts of tree their `DecidableEq` instances.
-/

import LetFn.Syntax.Basic

set_option relaxedAutoImplicit false
set_option autoImplicit false

namespace LetFn

mutual

/-- Whether two expressions are the same tree. -/
def Expr.same : Expr → Expr → Bool
  | .ident x, .ident y => x = y
  | .integer t n, .integer u m => t = u && n = m
  | .boolean t a, .boolean u b => t = u && a = b
  | .unary t e, .unary u f => t = u && e.same f
  | .binary l t r, .binary l' u r' => l.same l' && t = u && r.same r'
  | .ifElse t c yes none, .ifElse u d yes' none => t = u && c.same d && yes.same yes'
  | .ifElse t c yes (some no), .ifElse u d yes' (some no') =>
    t = u && c.same d && yes.same yes' && no.same no'
  | .function t ps b, .function u qs d => t = u && ps = qs && b.same d
  | .call t f es, .call u g fs => t = u && f.same g && Expr.sameAll es fs
  | .error t k m, .error u l n => t = u && k = l && m = n
  | _, _ => false

/-- Whether two lists of expressions are the same trees. -/
def Expr.sameAll : List Expr → List Expr → Bool
  | [], [] => true
  | e :: es, f :: fs => e.same f && Expr.sameAll es fs
  | _, _ => false

/-- Whether two statements are the same tree. -/
def Stmt.same : Stmt → Stmt → Bool
  | .bind t x e, .bind u y f => t = u && x = y && e.same f
  | .returns t e, .returns u f => t = u && e.same f
  | .expr t e, .expr u f => t = u && e.same f
  | .block b, .block d => b.same d
  | .error t, .error u => t = u
  | _, _ => false

/-- Whether two lists of statements are the same trees. -/
def Stmt.sameAll : List Stmt → List Stmt → Bool
  | [], [] => true
  | s :: ss, r :: rs => s.same r && Stmt.sameAll ss rs
  | _, _ => false

/-- Whether two blocks are the same tree. -/
def Block.same : Block → Block → Bool
  | ⟨t, ss⟩, ⟨u, rs⟩ => t = u && Stmt.sameAll ss rs

end

mutual

/-- The comparison decides equality of expressions. -/
theorem Expr.same_iff : (a b : Expr) → (a.same b = true ↔ a = b)
  | .ident _, b => by cases b <;> simp [Expr.same]
  | .integer .., b => by cases b <;> simp [Expr.same]
  | .boolean .., b => by cases b <;> simp [Expr.same]
  | .unary _ e, b => by cases b <;> simp [Expr.same, Expr.same_iff e]
  | .binary l _ r, b => by
    cases b <;> simp [Expr.same, Expr.same_iff l, Expr.same_iff r, and_assoc]
  | .ifElse _ c yes none, b => by
    cases b with
    | ifElse _ _ _ no =>
      cases no <;> simp [Expr.same, Expr.same_iff c, Block.same_iff yes, and_assoc]
    | _ => simp [Expr.same]
  | .ifElse _ c yes (some no), b => by
    cases b with
    | ifElse _ _ _ no' =>
      cases no' <;>
        simp [Expr.same, Expr.same_iff c, Block.same_iff yes, Block.same_iff no, and_assoc]
    | _ => simp [Expr.same]
  | .function _ _ d, b => by cases b <;> simp [Expr.same, Block.same_iff d, and_assoc]
  | .call _ f es, b => by
    cases b <;> simp [Expr.same, Expr.same_iff f, Expr.sameAll_iff es, and_assoc]
  | .error .., b => by cases b <;> simp [Expr.same, and_assoc]

/-- The comparison decides equality of lists of expressions. -/
theorem Expr.sameAll_iff : (as bs : List Expr) → (Expr.sameAll as bs = true ↔ as = bs)
  | [], bs => by cases bs <;> simp [Expr.sameAll]
  | e :: es, bs => by cases bs <;> simp [Expr.sameAll, Expr.same_iff e, Expr.sameAll_iff es]

/-- The comparison decides equality of statements. -/
theorem Stmt.same_iff : (a b : Stmt) → (a.same b = true ↔ a = b)
  | .bind _ _ e, b => by cases b <;> simp [Stmt.same, Expr.same_iff e, and_assoc]
  | .returns _ e, b => by cases b <;> simp [Stmt.same, Expr.same_iff e]
  | .expr _ e, b => by cases b <;> simp [Stmt.same, Expr.same_iff e]
  | .block d, b => by cases b <;> simp [Stmt.same, Block.same_iff d]
  | .error _, b => by cases b <;> simp [Stmt.same]

/-- The comparison decides equality of lists of statements. -/
theorem Stmt.sameAll_iff : (as bs : List Stmt) → (Stmt.sameAll as bs = true ↔ as = bs)
  | [], bs => by cases bs <;> simp [Stmt.sameAll]
  | s :: ss, bs => by cases bs <;> simp [Stmt.sameAll, Stmt.same_iff s, Stmt.sameAll_iff ss]

/-- The comparison decides equality of blocks. -/
theorem Block.same_iff : (a b : Block) → (a.same b = true ↔ a = b)
  | ⟨_, ss⟩, ⟨_, _⟩ => by simp [Block.same, Stmt.sameAll_iff ss]

end

instance : DecidableEq Expr := fun a b => decidable_of_iff _ (Expr.same_iff a b)
instance : DecidableEq Stmt := fun a b => decidable_of_iff _ (Stmt.same_iff a b)
instance : DecidableEq Block := fun a b => decidable_of_iff _ (Block.same_iff a b)

deriving instance DecidableEq for Function
deriving instance DecidableEq for Program

end LetFn
