/-
**Arithmetic is exact, or it is an error.**

A tree of integer literals, negation and the operators `+`, `-`, `*`, `/` and `%` has a value in the
unbounded integers, quotients being truncated toward zero and remainders having the sign of the
dividend.  Evaluation computes in words of 64 bits, and it either finds that very value or fails: no
result is ever wrapped.  It fails at the first operation, in the order of evaluation, that divides by
zero or has no word for its result.

The remainder of the least word by minus one is the one operation that fails although its result is
a word: the quotient that belongs to it is none.

Main definitions:

* `LetFn.Expr.Arithmetic` — **arithmetic trees**;
* `LetFn.Expr.exact` — **the value of an arithmetic tree in the unbounded integers**;
* `LetFn.Operator.InRange`, `LetFn.Node.InRange` — what words of 64 bits ask of an operation;
* `LetFn.Expr.operations` — the operations of a tree in the order of their evaluation;
* `LetFn.Operator.complaint`, `LetFn.Expr.complaint` — what is said of an operation that fails;
* `LetFn.Operator.compare?` — the comparison of two unbounded integers.

Main results:

* `LetFn.Integer.fits_tdiv_iff` — which quotients are words;
* `LetFn.Operator.onIntegers_exact`, `LetFn.Operator.onIntegers_fails` — one operation;
* `LetFn.Expr.Arithmetic.computes` — a tree, by induction;
* `LetFn.Expr.arithmetic_exact` — **arithmetic is exact, or it is the error of the first operation
  that fails**.
-/

import LetFn.Proofs.Eval.Runs
import LetFn.Proofs.Syntax.Nodes

set_option relaxedAutoImplicit false
set_option autoImplicit false

namespace LetFn

/-! ### Quotients and remainders of words -/

namespace Integer

theorem fits_iff {n : Int} : Fits n ↔ -9223372036854775808 ≤ n ∧ n ≤ 9223372036854775807 := by
  rw [Fits, Int64.toInt_minValue, Int64.toInt_maxValue]
  rfl

/-- An integer between zero and a word is a word. -/
theorem Fits.of_natAbs_le {m n : Int} (hn : Fits n) (hnonneg : 0 ≤ n → 0 ≤ m)
    (hnonpos : n ≤ 0 → m ≤ 0) (h : m.natAbs ≤ n.natAbs) : Fits m := by
  rw [fits_iff] at hn ⊢
  rcases Int.le_total 0 n with hsign | hsign
  · have := hnonneg hsign
    omega
  · have := hnonpos hsign
    omega

theorem tmod_nonpos {a : Int} (b : Int) (ha : a ≤ 0) : a.tmod b ≤ 0 := by
  have h := Int.tmod_nonneg b (Int.neg_nonneg_of_nonpos ha)
  rw [Int.neg_tmod] at h
  omega

theorem natAbs_tmod_le (a b : Int) : (a.tmod b).natAbs ≤ a.natAbs := by
  rw [Int.natAbs_tmod]
  exact Nat.mod_le _ _

/-- What the quotient accounts for of a word is a word. -/
theorem Fits.tdiv_mul {a : Int} (ha : Fits a) (b : Int) : Fits (a.tdiv b * b) := by
  have hsplit := Int.tmod_add_tdiv_mul a b
  have hle := natAbs_tmod_le a b
  have hnonneg : 0 ≤ a → 0 ≤ a.tmod b := Int.tmod_nonneg b
  have hnonpos : a ≤ 0 → a.tmod b ≤ 0 := tmod_nonpos b
  exact ha.of_natAbs_le (by omega) (by omega) (by omega)

/-- **The quotient of two words is a word**, but for that of the least word by minus one. -/
theorem fits_tdiv_iff {a b : Int} (ha : Fits a) :
    Fits (a.tdiv b) ↔ ¬ (a = -9223372036854775808 ∧ b = -1) := by
  constructor
  · rintro h ⟨rfl, rfl⟩
    exact absurd h (by decide)
  · intro h
    rw [fits_iff] at ha ⊢
    by_cases hone : b.natAbs = 1
    · -- the quotient is the dividend or its negative
      obtain rfl | rfl : b = 1 ∨ b = -1 := by omega
      · rw [Int.tdiv_one]
        exact ha
      · rw [Int.tdiv_neg, Int.tdiv_one]
        omega
    · -- the divisor is zero, or it at least halves the dividend
      have hle : (a.tdiv b).natAbs ≤ a.natAbs / 2 := by
        rw [Int.natAbs_tdiv]
        change a.natAbs / b.natAbs ≤ a.natAbs / 2
        rcases Nat.eq_zero_or_pos b.natAbs with hzero | hpos
        · rw [hzero]
          exact Nat.le_trans (Nat.le_of_eq (Nat.div_zero _)) (Nat.zero_le _)
        · exact Nat.div_le_div_left (by omega) (by decide)
      omega

/-- There is a remainder of two words but for that of the least word by minus one. -/
theorem rem?_eq_some_iff {a b i : Int64} :
    rem? a b = some i ↔
      i.toInt = a.toInt.tmod b.toInt ∧ ¬ (a.toInt = -9223372036854775808 ∧ b.toInt = -1) := by
  rw [rem?, Option.bind_eq_some_iff, ← fits_tdiv_iff (fits_toInt a), div?]
  constructor
  · rintro ⟨q, hq, hrem⟩
    exact ⟨fit?_eq_some_iff.1 hrem, fit?_eq_some_iff.1 hq ▸ fits_toInt q⟩
  · rintro ⟨hrem, hquotient⟩
    obtain ⟨q, hq⟩ := Option.ne_none_iff_exists'.1
      fun hnone => fit?_eq_none_iff.1 hnone hquotient
    exact ⟨q, hq, fit?_eq_some_iff.2 hrem⟩

end Integer

/-! ### One operation -/

namespace Operator

/-- The operators of arithmetic on two operands. -/
def arithmetic : List TokenKind :=
  [.plus, .minus, .star, .slash, .percent]

/-- The operator divides. -/
def Divides (k : TokenKind) : Prop :=
  k = .slash ∨ k = .percent

instance : DecidablePred Divides := fun k => by
  unfold Divides
  infer_instance

/-- **The result of an operation in the unbounded integers**: quotients are truncated toward zero,
and remainders have the sign of the dividend. -/
def unbounded (k : TokenKind) (a b : Int) : Int :=
  match k with
  | .plus => a + b
  | .minus => a - b
  | .star => a * b
  | .slash => a.tdiv b
  | .percent => a.tmod b
  | _ => 0

/-- **What words of 64 bits ask of an operation**: the divisor is not zero, the result is a word,
and the remainder is not that of the least word by minus one. -/
structure InRange (k : TokenKind) (a b : Int) : Prop where
  divisor : Divides k → b ≠ 0
  result : Integer.Fits (unbounded k a b)
  remainder : k = .percent → ¬ (a = -9223372036854775808 ∧ b = -1)

/-- What is said of an operation that fails: that the divisor is zero, or else the operation. -/
def complaint (op : Token) (a b : Int) : String :=
  if Divides op.kind ∧ b = 0 then
    "division by zero"
  else
    "integer overflow: " ++ Integer.textOfInt a ++ " " ++ op.literal ++ " " ++ Integer.textOfInt b

/-- The comparison of two unbounded integers, if the operator compares. -/
def compare? (k : TokenKind) (a b : Int) : Option Bool :=
  match k with
  | .less => some (a < b)
  | .greater => some (b < a)
  | .lessEqual => some (a ≤ b)
  | .greaterEqual => some (b ≤ a)
  | .equal => some (a = b)
  | .notEqual => some (a ≠ b)
  | _ => none

variable {op : Token} {a b : Int64}

theorem ne_zero_iff : b ≠ 0 ↔ b.toInt ≠ 0 := by
  rw [ne_eq, ne_eq, ← Int64.toInt_zero, Int64.toInt_inj]

/-- Where the divisor is not zero, the result of an operation is the word that denotes it. -/
theorem onIntegers_eq (hop : op.kind ∈ arithmetic) (hdivisor : Divides op.kind → b.toInt ≠ 0) :
    ∃ r, onIntegers op a b = exact op a b r ∧
      ∀ i : Int64, r = some i ↔ i.toInt = unbounded op.kind a.toInt b.toInt ∧
        (op.kind = .percent → ¬ (a.toInt = -9223372036854775808 ∧ b.toInt = -1)) := by
  have hfit {k : TokenKind} (hk : k ≠ .percent) (n : Int) (i : Int64) :
      Integer.fit? n = some i ↔
        i.toInt = n ∧ (k = .percent → ¬ (a.toInt = -9223372036854775808 ∧ b.toInt = -1)) := by
    simp [Integer.fit?_eq_some_iff, hk]
  have hkinds : op.kind = .plus ∨ op.kind = .minus ∨ op.kind = .star ∨ op.kind = .slash ∨
      op.kind = .percent := by
    simpa [arithmetic] using hop
  rcases hkinds with hk | hk | hk | hk | hk
  · exact ⟨Integer.add? a b, by simp only [onIntegers, hk], hk ▸ hfit (by decide) _⟩
  · exact ⟨Integer.sub? a b, by simp only [onIntegers, hk], hk ▸ hfit (by decide) _⟩
  · exact ⟨Integer.mul? a b, by simp only [onIntegers, hk], hk ▸ hfit (by decide) _⟩
  · have hb : b ≠ 0 := ne_zero_iff.2 (hdivisor (.inl hk))
    exact ⟨Integer.div? a b, by simp only [onIntegers, hk, if_neg hb], hk ▸ hfit (by decide) _⟩
  · have hb : b ≠ 0 := ne_zero_iff.2 (hdivisor (.inr hk))
    refine ⟨Integer.rem? a b, by simp only [onIntegers, hk, if_neg hb], fun i => ?_⟩
    simp [Integer.rem?_eq_some_iff, unbounded, hk]

/-- **An operation that is in range is exact.** -/
theorem onIntegers_exact (hop : op.kind ∈ arithmetic) (h : InRange op.kind a.toInt b.toInt) :
    ∃ i, onIntegers op a b = .ok (.integer i) ∧ i.toInt = unbounded op.kind a.toInt b.toInt := by
  obtain ⟨r, heq, hr⟩ := onIntegers_eq hop h.divisor
  obtain ⟨i, hi⟩ := Option.ne_none_iff_exists'.1
    fun hnone => Integer.fit?_eq_none_iff.1 hnone h.result
  rw [Integer.fit?_eq_some_iff] at hi
  exact ⟨i, by rw [heq, (hr i).2 ⟨hi, h.remainder⟩, exact], hi⟩

/-- **An operation that is out of range fails.** -/
theorem onIntegers_fails (hop : op.kind ∈ arithmetic) (h : ¬ InRange op.kind a.toInt b.toInt) :
    ∃ e, onIntegers op a b = .error e ∧ e.message = complaint op a.toInt b.toInt := by
  by_cases hzero : Divides op.kind ∧ b.toInt = 0
  · have hb : b = 0 := Int64.toInt_inj.1 (hzero.2.trans Int64.toInt_zero.symm)
    refine ⟨.divisionByZero, ?_, ?_⟩
    · rcases hzero.1 with hk | hk <;> simp only [onIntegers, hk, if_pos hb]
    · rw [complaint, if_pos hzero]
      rfl
  · obtain ⟨r, heq, hr⟩ := onIntegers_eq hop fun hdivides hb => hzero ⟨hdivides, hb⟩
    cases r with
    | none =>
        refine ⟨.overflow a op.literal b, by rw [heq, exact], ?_⟩
        rw [complaint, if_neg hzero]
        rfl
    | some i =>
        obtain ⟨hi, hremainder⟩ := (hr i).1 rfl
        refine absurd ⟨fun hdivides hb => hzero ⟨hdivides, hb⟩, ?_, hremainder⟩ h
        exact hi ▸ Integer.fits_toInt i

/-- Words are compared as the integers that they denote. -/
theorem onIntegers_compare {r : Bool} (h : compare? op.kind a.toInt b.toInt = some r) :
    onIntegers op a b = .ok (.boolean r) := by
  unfold compare? at h
  split at h
  case h_7 => cases h
  all_goals
    rename_i hk
    obtain rfl := Option.some.inj h
    simp [onIntegers, hk, Int64.lt_iff_toInt_lt, Int64.le_iff_toInt_le, Int64.toInt_inj]

end Operator

/-! ### Trees -/

/-- **Arithmetic trees**: integers, negation, and the operators of arithmetic. -/
inductive Expr.Arithmetic : Expr → Prop
  | integer (t : Token) (n : Int64) : Arithmetic (.integer t n)
  | negation {op : Token} {e : Expr} :
      op.kind = .minus → Arithmetic e → Arithmetic (.unary op e)
  | operation {l r : Expr} {op : Token} :
      op.kind ∈ Operator.arithmetic → Arithmetic l → Arithmetic r → Arithmetic (.binary l op r)

/-- **The value of an arithmetic tree in the unbounded integers.** -/
def Expr.exact : Expr → Int
  | .integer _ n => n.toInt
  | .unary _ e => -e.exact
  | .binary l op r => Operator.unbounded op.kind l.exact r.exact
  | _ => 0

/-- **What words of 64 bits ask of a node**, if it is an operation. -/
def Node.InRange : Node → Prop
  | .expr (.unary _ e) => Integer.Fits (-e.exact)
  | .expr (.binary l op r) => Operator.InRange op.kind l.exact r.exact
  | _ => True

/-- The operations of a tree in the order of their evaluation: each after its operands, the left one
before the right one. -/
def Expr.operations : Expr → List Expr
  | .unary op e => e.operations ++ [.unary op e]
  | .binary l op r => l.operations ++ r.operations ++ [.binary l op r]
  | _ => []

/-- What is said of an operation that fails. -/
def Expr.complaint : Expr → String
  | .unary _ e => "integer overflow: -(" ++ Integer.textOfInt e.exact ++ ")"
  | .binary l op r => Operator.complaint op l.exact r.exact
  | _ => ""

theorem Expr.complaint_unary (op : Token) (e : Expr) :
    (Expr.unary op e).complaint = "integer overflow: -(" ++ Integer.textOfInt e.exact ++ ")" := rfl

theorem Expr.complaint_binary (l r : Expr) (op : Token) :
    (Expr.binary l op r).complaint = Operator.complaint op l.exact r.exact := rfl

/-- A tree is in range if its operations are. -/
theorem Expr.Arithmetic.every_inRange_iff {e : Expr} (he : e.Arithmetic) :
    e.Every Node.InRange ↔ ∀ x ∈ e.operations, Node.InRange (.expr x) := by
  induction he with
  | integer t n => simp [Node.InRange, Expr.operations]
  | negation _ _ ih =>
      rw [Expr.every_unary, Expr.operations, List.forall_mem_append, List.forall_mem_singleton, ih,
        and_comm]
  | operation _ _ _ ihl ihr =>
      rw [Expr.every_binary, Expr.operations, List.forall_mem_append, List.forall_mem_append,
        List.forall_mem_singleton, ihl, ihr, and_comm]

/-- The value of an arithmetic tree in range is a word. -/
theorem Expr.Arithmetic.fits_exact {e : Expr} (he : e.Arithmetic) (h : e.Every Node.InRange) :
    Integer.Fits e.exact := by
  cases he with
  | integer t n => exact Integer.fits_toInt n
  | negation => exact (Expr.every_unary.1 h).1
  | operation => exact (Expr.every_binary.1 h).1.result

/-- **What comes of an arithmetic tree**: its value, or the error of the first operation that is out
of range. -/
inductive Expr.Computes (call : Calls) (s : ScopeId) (w : World) (e : Expr) : Prop
  | value (n : Int64) :
      (∀ y ∈ e.operations, Node.InRange (.expr y)) → n.toInt = e.exact →
      e.eval call s w = some (.ok (.integer n), w) → Computes call s w e
  | failure (before after : List Expr) (x : Expr) (error : RuntimeError) :
      e.operations = before ++ x :: after → (∀ y ∈ before, Node.InRange (.expr y)) →
      ¬ Node.InRange (.expr x) → error.message = x.complaint →
      e.eval call s w = some (.error (.error error), w) → Computes call s w e

section Computes

variable {call : Calls} {s : ScopeId} {w : World}

/-- An operation on the values of its operands, which is the last of the tree. -/
theorem Expr.Computes.of_operands {e : Expr} {before : List Expr}
    {result : Except RuntimeError Value} (hoperations : e.operations = before ++ [e])
    (hbefore : ∀ y ∈ before, Node.InRange (.expr y))
    (heval : e.eval call s w = Eval.ofOperator result w)
    (hvalue : Node.InRange (.expr e) → ∃ n, result = .ok (.integer n) ∧ n.toInt = e.exact)
    (hfails : ¬ Node.InRange (.expr e) → ∃ error, result = .error error ∧
      error.message = e.complaint) : e.Computes call s w := by
  by_cases hrange : Node.InRange (.expr e)
  · obtain ⟨n, rfl, hn⟩ := hvalue hrange
    refine .value n ?_ hn heval
    rw [hoperations, List.forall_mem_append, List.forall_mem_singleton]
    exact ⟨hbefore, hrange⟩
  · obtain ⟨error, rfl, hmessage⟩ := hfails hrange
    exact .failure before [] e error hoperations hbefore hrange hmessage heval

/-- What fails in the part of a tree that is evaluated first fails in the tree. -/
theorem Expr.Computes.of_failure {e e' x : Expr} (first : List Expr) {before after rest : List Expr}
    {error : RuntimeError} (hoperations : e'.operations = first ++ e.operations ++ rest)
    (hfirst : ∀ y ∈ first, Node.InRange (.expr y)) (hsplit : e.operations = before ++ x :: after)
    (hbefore : ∀ y ∈ before, Node.InRange (.expr y)) (hx : ¬ Node.InRange (.expr x))
    (hmessage : error.message = x.complaint)
    (heval : e'.eval call s w = some (.error (.error error), w)) : e'.Computes call s w := by
  refine .failure (first ++ before) (after ++ rest) x error ?_ ?_ hx hmessage heval
  · simp [hoperations, hsplit]
  · rw [List.forall_mem_append]
    exact ⟨hfirst, hbefore⟩

/-- The negative of a word, if it is a word. -/
theorem Operator.unary_minus {op : Token} (hop : op.kind = .minus) (n : Int64) :
    Operator.unary op (.integer n) =
      (Integer.neg? n).elim (.error (.negationOverflow n)) fun m => .ok (.integer m) := by
  simp only [Operator.unary, hop]
  cases Integer.neg? n <;> rfl

theorem Expr.Computes.negation {op : Token} {e : Expr} (hop : op.kind = .minus)
    (h : e.Computes call s w) : (Expr.unary op e).Computes call s w := by
  cases h with
  | failure before after x error hsplit hbefore hx hmessage heval =>
      exact .of_failure [] rfl (List.forall_mem_nil _) hsplit hbefore hx hmessage
        (Eval.bind_eq_of_error heval _)
  | value n hrange hn heval =>
      refine .of_operands rfl hrange (Eval.bind_eq_of_ok heval _) (fun h => ?_) fun h => ?_
      · rw [Operator.unary_minus hop]
        obtain ⟨m, hm⟩ := Option.ne_none_iff_exists'.1
          fun hnone => Integer.fit?_eq_none_iff.1 hnone h
        rw [Integer.neg?, hn, hm]
        exact ⟨m, rfl, Integer.fit?_eq_some_iff.1 hm⟩
      · rw [Operator.unary_minus hop, Integer.neg?, hn, Integer.fit?_eq_none_iff.2 h]
        exact ⟨.negationOverflow n, rfl, by rw [Expr.complaint_unary, ← hn]; rfl⟩

theorem Expr.Computes.operation {l r : Expr} {op : Token} (hop : op.kind ∈ Operator.arithmetic)
    (hl : l.Computes call s w) (hr : r.Computes call s w) :
    (Expr.binary l op r).Computes call s w := by
  cases hl with
  | failure before after x error hsplit hbefore hx hmessage heval =>
      exact .of_failure [] (List.append_assoc _ _ _) (List.forall_mem_nil _) hsplit
        hbefore hx hmessage (Eval.bind_eq_of_error heval _)
  | value m hlrange hm hleval =>
      cases hr with
      | failure before after x error hsplit hbefore hx hmessage heval =>
          refine .of_failure _ rfl hlrange hsplit hbefore hx hmessage ?_
          exact (Eval.bind_eq_of_ok hleval _).trans (Eval.bind_eq_of_error heval _)
      | value n hrrange hn hreval =>
          have heval : (Expr.binary l op r).eval call s w =
              Eval.ofOperator (Operator.onIntegers op m n) w :=
            (Eval.bind_eq_of_ok hleval _).trans (Eval.bind_eq_of_ok hreval _)
          refine .of_operands rfl (List.forall_mem_append.2 ⟨hlrange, hrrange⟩) heval
            (fun h => ?_) fun h => ?_
          · rw [Node.InRange, ← hm, ← hn] at h
            rw [Expr.exact, ← hm, ← hn]
            exact Operator.onIntegers_exact hop h
          · rw [Node.InRange, ← hm, ← hn] at h
            rw [Expr.complaint_binary, ← hm, ← hn]
            exact Operator.onIntegers_fails hop h

/-- **Every arithmetic tree has its value, or the error of its first operation out of range.** -/
theorem Expr.Arithmetic.computes {e : Expr} (he : e.Arithmetic) (call : Calls) (s : ScopeId)
    (w : World) : e.Computes call s w := by
  induction he with
  | integer t n => exact .value n (List.forall_mem_nil _) rfl rfl
  | negation hop _ ih => exact .negation hop ih
  | operation hop _ _ ihl ihr => exact .operation hop ihl ihr

end Computes

/-! ### Runs -/

namespace Expr.Arithmetic

variable {e : Expr} (he : e.Arithmetic) (depth : Nat) (s : ScopeId) (w : World)

include he

/-- An arithmetic tree in range has its value. -/
theorem run_of_inRange (h : e.Every Node.InRange) :
    ∃ n : Int64, n.toInt = e.exact ∧ e.run depth s w = some (.value (.integer n), w) := by
  cases he.computes (Closure.call depth) s w with
  | value n _ hn heval => exact ⟨n, hn, Expr.run_eq_iff.2 heval⟩
  | failure before after x error hsplit _ hx _ _ =>
      exact absurd (he.every_inRange_iff.1 h x (by simp [hsplit])) hx

/-- Any other has the error of its first operation that is out of range. -/
theorem run_of_not_inRange (h : ¬ e.Every Node.InRange) :
    ∃ (before after : List Expr) (x : Expr) (error : RuntimeError),
      e.operations = before ++ x :: after ∧ (∀ y ∈ before, Node.InRange (.expr y)) ∧
      ¬ Node.InRange (.expr x) ∧ e.run depth s w = some (.error error, w) ∧
      error.message = x.complaint := by
  cases he.computes (Closure.call depth) s w with
  | value n hrange _ _ => exact absurd (he.every_inRange_iff.2 hrange) h
  | failure before after x error hsplit hbefore hx hmessage heval =>
      exact ⟨before, after, x, error, hsplit, hbefore, hx,
        Expr.run_eq_iff.2 heval, hmessage⟩

/-- Only a tree in range has an integer for its value. -/
theorem inRange_of_run {n : Int64} (h : e.run depth s w = some (.value (.integer n), w)) :
    e.Every Node.InRange ∧ n.toInt = e.exact := by
  by_cases hrange : e.Every Node.InRange
  · obtain ⟨m, hm, hrun⟩ := he.run_of_inRange depth s w hrange
    rw [h] at hrun
    cases hrun
    exact ⟨hrange, hm⟩
  · obtain ⟨_, _, _, _, _, _, _, hrun, _⟩ := he.run_of_not_inRange depth s w hrange
    rw [h] at hrun
    cases hrun

end Expr.Arithmetic

/-- Two operands that are integers are compared as integers. -/
theorem Expr.run_compare {depth : Nat} {s : ScopeId} {w : World} {l r : Expr} {op : Token}
    {m n : Int64} {b : Bool} (hl : l.run depth s w = some (.value (.integer m), w))
    (hr : r.run depth s w = some (.value (.integer n), w))
    (hb : Operator.compare? op.kind m.toInt n.toInt = some b) :
    (Expr.binary l op r).run depth s w = some (.value (.boolean b), w) := by
  have heval : (Expr.binary l op r).eval (Closure.call depth) s w =
      Eval.ofOperator (Operator.onIntegers op m n) w :=
    (Eval.bind_eq_of_ok (Expr.run_eq_iff.1 hl) _).trans
      (Eval.bind_eq_of_ok (Expr.run_eq_iff.1 hr) _)
  rw [Operator.onIntegers_compare hb] at heval
  exact Expr.run_eq_iff.2 heval

section Division

variable {a b : Expr} {slash percent star plus : Token}

/-- The tree of `(a / b) * b + a % b`. -/
def Expr.recombined (a b : Expr) (slash percent star plus : Token) : Expr :=
  .binary (.binary (.binary a slash b) star b) plus (.binary a percent b)

/-- **A quotient and the remainder that belongs to it make up the dividend.** -/
theorem Expr.Arithmetic.recombined (ha : a.Arithmetic) (hb : b.Arithmetic)
    (hslash : slash.kind = .slash) (hpercent : percent.kind = .percent) (hstar : star.kind = .star)
    (hplus : plus.kind = .plus) (hdiv : (Expr.binary a slash b).Every Node.InRange)
    (hrem : (Expr.binary a percent b).Every Node.InRange) :
    (Expr.recombined a b slash percent star plus).Arithmetic ∧
      (Expr.recombined a b slash percent star plus).Every Node.InRange ∧
      (Expr.recombined a b slash percent star plus).exact = a.exact := by
  obtain ⟨-, harange, hbrange⟩ := Expr.every_binary.1 hdiv
  have hfits := ha.fits_exact harange
  have hsum : a.exact.tdiv b.exact * b.exact + a.exact.tmod b.exact = a.exact := by
    rw [Int.add_comm]
    exact Int.tmod_add_tdiv_mul a.exact b.exact
  refine ⟨?_, ?_, ?_⟩
  · refine .operation (by simp [hplus, Operator.arithmetic]) (.operation ?_ (.operation ?_ ha hb) hb)
      (.operation ?_ ha hb)
    · simp [hstar, Operator.arithmetic]
    · simp [hslash, Operator.arithmetic]
    · simp [hpercent, Operator.arithmetic]
  · refine Expr.every_binary.2 ⟨?_, Expr.every_binary.2 ⟨?_, hdiv, hbrange⟩, hrem⟩
    · -- the sum is the dividend
      refine ⟨fun h => ?_, ?_, fun h => ?_⟩
      · simp [hplus, Operator.Divides] at h
      · simpa only [hplus, hstar, hslash, hpercent, Expr.exact, Operator.unbounded, hsum] using hfits
      · simp [hplus] at h
    · refine ⟨fun h => ?_, ?_, fun h => ?_⟩
      · simp [hstar, Operator.Divides] at h
      · simpa only [hstar, hslash, Expr.exact, Operator.unbounded] using hfits.tdiv_mul b.exact
      · simp [hstar] at h
  · simpa only [Expr.recombined, hplus, hstar, hslash, hpercent, Expr.exact, Operator.unbounded]
      using hsum

end Division

/-- **Arithmetic is exact, or it is the error of the first operation that fails.**  In any scope and
any world:

* an arithmetic tree has an integer for its value if and only if all of its operations are in range,
  and then the integer is its exact value; otherwise the outcome is the error of the first operation
  that is not, with the operands of that operation;
* two trees that have integers for their values are compared as their exact values;
* if `a / b` and `a % b` have integers for their values, then `(a / b) * b + a % b` has that of `a`.
-/
theorem Expr.arithmetic_exact (depth : Nat) (s : ScopeId) (w : World) :
    (∀ e : Expr, e.Arithmetic →
      ((∃ n, e.run depth s w = some (.value (.integer n), w)) ↔ e.Every Node.InRange) ∧
      (∀ n, e.run depth s w = some (.value (.integer n), w) → n.toInt = e.exact) ∧
      (¬ e.Every Node.InRange → ∃ (before after : List Expr) (x : Expr) (error : RuntimeError),
        e.operations = before ++ x :: after ∧ (∀ y ∈ before, Node.InRange (.expr y)) ∧
        ¬ Node.InRange (.expr x) ∧ e.run depth s w = some (.error error, w) ∧
        error.message = x.complaint)) ∧
    (∀ (l r : Expr) (op : Token) (m n : Int64) (b : Bool), l.Arithmetic → r.Arithmetic →
      l.run depth s w = some (.value (.integer m), w) →
      r.run depth s w = some (.value (.integer n), w) →
      Operator.compare? op.kind l.exact r.exact = some b →
      (Expr.binary l op r).run depth s w = some (.value (.boolean b), w)) ∧
    ∀ (a b : Expr) (slash percent star plus : Token) (q r : Int64), a.Arithmetic → b.Arithmetic →
      slash.kind = .slash → percent.kind = .percent → star.kind = .star → plus.kind = .plus →
      (Expr.binary a slash b).run depth s w = some (.value (.integer q), w) →
      (Expr.binary a percent b).run depth s w = some (.value (.integer r), w) →
      ∃ n, a.run depth s w = some (.value (.integer n), w) ∧
        (Expr.recombined a b slash percent star plus).run depth s w =
          some (.value (.integer n), w) := by
  refine ⟨fun e he => ⟨⟨?_, ?_⟩, ?_, ?_⟩, ?_, ?_⟩
  · rintro ⟨n, hrun⟩
    exact (he.inRange_of_run depth s w hrun).1
  · intro hrange
    obtain ⟨n, -, hrun⟩ := he.run_of_inRange depth s w hrange
    exact ⟨n, hrun⟩
  · exact fun n hrun => (he.inRange_of_run depth s w hrun).2
  · exact he.run_of_not_inRange depth s w
  · intro l r op m n b hl hr hlrun hrrun hb
    rw [← (hl.inRange_of_run depth s w hlrun).2, ← (hr.inRange_of_run depth s w hrrun).2] at hb
    exact Expr.run_compare hlrun hrrun hb
  · intro a b slash percent star plus q r ha hb hslash hpercent hstar hplus hqrun hrrun
    have hdiv : (Expr.binary a slash b).Arithmetic :=
      .operation (by simp [hslash, Operator.arithmetic]) ha hb
    have hrem : (Expr.binary a percent b).Arithmetic :=
      .operation (by simp [hpercent, Operator.arithmetic]) ha hb
    have hdivrange := (hdiv.inRange_of_run depth s w hqrun).1
    obtain ⟨hsum, hsumrange, hexact⟩ := ha.recombined hb hslash hpercent hstar hplus hdivrange
      (hrem.inRange_of_run depth s w hrrun).1
    obtain ⟨n, hn, hrun⟩ := ha.run_of_inRange depth s w (Expr.every_binary.1 hdivrange).2.1
    obtain ⟨n', hn', hrun'⟩ := hsum.run_of_inRange depth s w hsumrange
    obtain rfl : n = n' := Int64.toInt_inj.1 (hn.trans (hexact.symm.trans hn'.symm))
    exact ⟨n, hrun, hrun'⟩

/-- An integer as a tree. -/
def Expr.number (n : Int64) : Expr :=
  .integer ⟨.integer, Integer.text n, .start⟩ n

/-- An operation on two integers as a tree. -/
def Expr.calculation (a : Int64) (k : TokenKind) (b : Int64) : Expr :=
  .binary (.number a) ⟨k, k.text, .start⟩ (.number b)

/-- In `(-9223372036854775808 % -1) + 1 / 0` the remainder is the first operation that fails, and not
for its own result; `-7 / 2` is more than `-7 / 1`; and `-7` is made up of its quotient and remainder
by `2`. -/
theorem Expr.arithmetic_exact_least :
    (∃ error, (Expr.binary (.calculation (-9223372036854775808) .percent (-1))
        ⟨.plus, "+", .start⟩ (.calculation 1 .slash 0)).run 0 0 .empty =
          some (.error error, .empty) ∧
      error.message = "integer overflow: -9223372036854775808 % -1") ∧
    (Expr.binary (.calculation (-7) .slash 2) ⟨.greater, ">", .start⟩
        (.calculation (-7) .slash 1)).run 0 0 .empty = some (.value (.boolean true), .empty) ∧
    (Expr.recombined (.number (-7)) (.number 2) ⟨.slash, "/", .start⟩ ⟨.percent, "%", .start⟩
        ⟨.star, "*", .start⟩ ⟨.plus, "+", .start⟩).run 0 0 .empty =
      some (.value (.integer (-7)), .empty) := by
  obtain ⟨htree, hcompare, hrecombined⟩ := Expr.arithmetic_exact 0 0 .empty
  have hnumber (n : Int64) : (Expr.number n).Arithmetic := .integer _ n
  have hcalculation (a : Int64) {k : TokenKind} (hk : k ∈ Operator.arithmetic) (b : Int64) :
      (Expr.calculation a k b).Arithmetic := .operation hk (hnumber a) (hnumber b)
  refine ⟨?_, ?_, ?_⟩
  · have hrem : ¬ Node.InRange (.expr (.calculation (-9223372036854775808) .percent (-1))) :=
      fun h => h.remainder rfl ⟨by decide, by decide⟩
    have hsum : (Expr.binary (.calculation (-9223372036854775808) .percent (-1))
        ⟨.plus, "+", .start⟩ (.calculation 1 .slash 0)).Arithmetic :=
      .operation (show TokenKind.plus ∈ Operator.arithmetic by decide)
        (hcalculation _ (show TokenKind.percent ∈ Operator.arithmetic by decide) _)
        (hcalculation _ (show TokenKind.slash ∈ Operator.arithmetic by decide) _)
    obtain ⟨before, after, x, error, hsplit, hbefore, -, hrun, hmessage⟩ := (htree _ hsum).2.2
      fun h => hrem (Expr.every_binary.1 (Expr.every_binary.1 h).2.1).1
    refine ⟨error, hrun, ?_⟩
    cases before with
    | nil =>
        obtain ⟨rfl, -⟩ := List.cons.inj hsplit
        exact hmessage.trans (by decide)
    | cons y before =>
        obtain ⟨rfl, -⟩ := List.cons.inj hsplit
        exact absurd (hbefore _ List.mem_cons_self) hrem
  · have hslash : TokenKind.slash ∈ Operator.arithmetic := by decide
    exact hcompare _ _ _ (-3) (-7) true (hcalculation _ hslash _) (hcalculation _ hslash _)
      rfl rfl (by decide)
  · obtain ⟨n, hn, hrun⟩ := hrecombined (.number (-7)) (.number 2) ⟨.slash, "/", .start⟩
      ⟨.percent, "%", .start⟩ ⟨.star, "*", .start⟩ ⟨.plus, "+", .start⟩ (-3) (-1) (hnumber _)
      (hnumber _) rfl rfl rfl rfl rfl rfl
    cases hn
    exact hrun

end LetFn
