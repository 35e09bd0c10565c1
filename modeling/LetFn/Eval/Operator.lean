/-
**What operators do to values.**

An operator is told by the kind of its token; its literal is only shown in messages.  Any two values
can be compared for equality.  Arithmetic and order are for integers, and a result out of range is
an error.

Main definitions:

* `LetFn.Operator.unary`, `LetFn.Operator.onIntegers`, `LetFn.Operator.binary`.
-/

import LetFn.Value.Basic

set_option relaxedAutoImplicit false
set_option autoImplicit false

namespace LetFn.Operator

/-- The value of a unary operation. -/
def unary (op : Token) (v : Value) : Except RuntimeError Value :=
  match op.kind, v with
  | .bang, v => .ok (.boolean !v.truthy)
  | .minus, .integer a =>
    match Integer.neg? a with
    | some n => .ok (.integer n)
    | none => .error (.negationOverflow a)
  | .minus, v => .error (.unknownUnary "-" v.tag)
  | _, v => .error (.unknownUnary op.literal v.tag)

/-- The result of an operation on `a` and `b`, which is out of range if there is none. -/
def exact (op : Token) (a b : Int64) : Option Int64 → Except RuntimeError Value
  | some n => .ok (.integer n)
  | none => .error (.overflow a op.literal b)

/-- The value of a binary operation on integers. -/
def onIntegers (op : Token) (a b : Int64) : Except RuntimeError Value :=
  match op.kind with
  | .plus => exact op a b (Integer.add? a b)
  | .minus => exact op a b (Integer.sub? a b)
  | .star => exact op a b (Integer.mul? a b)
  | .slash => if b = 0 then .error .divisionByZero else exact op a b (Integer.div? a b)
  | .percent => if b = 0 then .error .divisionByZero else exact op a b (Integer.rem? a b)
  | .less => .ok (.boolean (a < b))
  | .greater => .ok (.boolean (b < a))
  | .lessEqual => .ok (.boolean (a ≤ b))
  | .greaterEqual => .ok (.boolean (b ≤ a))
  | .equal => .ok (.boolean (a = b))
  | .notEqual => .ok (.boolean (a ≠ b))
  | _ => .error (.unknownBinary .integer op.literal .integer)

/-- The value of a binary operation. -/
def binary (op : Token) (l r : Value) : Except RuntimeError Value :=
  match l, r with
  | .integer a, .integer b => onIntegers op a b
  | _, _ =>
    match op.kind with
    | .equal => .ok (.boolean (l.equals r))
    | .notEqual => .ok (.boolean !(l.equals r))
    | _ =>
      if l.tag = r.tag then
        .error (.unknownBinary l.tag op.literal r.tag)
      else
        .error (.typeMismatch l.tag op.literal r.tag)

end LetFn.Operator
