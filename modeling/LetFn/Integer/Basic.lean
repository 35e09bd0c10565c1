/-
**Integers of 64 bits, exact or not at all.**

An integer of the language is a signed word of 64 bits.  An operation is computed in the unbounded
integers and answers only if the result is a word again; it never wraps.  Quotients are truncated
toward zero and remainders have the sign of the dividend, and a remainder exists exactly where the
quotient does: the least word has neither for the divisor minus one.

Main definitions:

* `LetFn.Integer.fit?` — the word that denotes an integer, if there is one;
* `LetFn.Integer.neg?`, `LetFn.Integer.add?`, `LetFn.Integer.sub?`, `LetFn.Integer.mul?`,
  `LetFn.Integer.div?`, `LetFn.Integer.rem?` — the operations.

Main results:

* `LetFn.Integer.fit?_eq_some_iff` — **a result is exact**: the word found denotes the integer;
* `LetFn.Integer.fit?_eq_none_iff` — there is no word exactly outside the range.
-/

set_option relaxedAutoImplicit false
set_option autoImplicit false

namespace LetFn.Integer

/-- An integer fits if a signed word of 64 bits denotes it. -/
def Fits (n : Int) : Prop :=
  Int64.minValue.toInt ≤ n ∧ n ≤ Int64.maxValue.toInt

instance (n : Int) : Decidable (Fits n) := by
  unfold Fits; infer_instance

/-- Every word denotes an integer of the range. -/
theorem fits_toInt (i : Int64) : Fits i.toInt := by
  have hle := i.le_toInt
  have hlt := i.toInt_lt
  rw [Fits, Int64.toInt_minValue, Int64.toInt_maxValue]
  omega

/-- The word that denotes `n`, if there is one. -/
def fit? (n : Int) : Option Int64 :=
  if Fits n then some (Int64.ofInt n) else none

/-- **A result is exact**: the word found denotes the integer. -/
theorem fit?_eq_some_iff {n : Int} {i : Int64} : fit? n = some i ↔ i.toInt = n := by
  unfold fit?
  constructor
  · intro h
    split at h
    · rename_i hn
      obtain rfl := Option.some.inj h
      rw [Fits, Int64.toInt_minValue, Int64.toInt_maxValue] at hn
      exact Int64.toInt_ofInt_of_le (by omega) (by omega)
    · simp at h
  · rintro rfl
    rw [if_pos (fits_toInt i), Int64.ofInt_toInt]

/-- Every word is found again. -/
@[simp] theorem fit?_toInt (i : Int64) : fit? i.toInt = some i :=
  fit?_eq_some_iff.2 rfl

/-- There is no word exactly outside the range. -/
theorem fit?_eq_none_iff {n : Int} : fit? n = none ↔ ¬ Fits n := by
  unfold fit?
  split <;> simp [*]

/-! ### Operations -/

/-- The negative of a word. -/
def neg? (a : Int64) : Option Int64 :=
  fit? (-a.toInt)

/-- The sum of two words. -/
def add? (a b : Int64) : Option Int64 :=
  fit? (a.toInt + b.toInt)

/-- The difference of two words. -/
def sub? (a b : Int64) : Option Int64 :=
  fit? (a.toInt - b.toInt)

/-- The product of two words. -/
def mul? (a b : Int64) : Option Int64 :=
  fit? (a.toInt * b.toInt)

/-- The quotient of two words, truncated toward zero; the divisor is not to be zero. -/
def div? (a b : Int64) : Option Int64 :=
  fit? (a.toInt.tdiv b.toInt)

/-- The remainder that belongs to the truncated quotient, where that quotient is a word. -/
def rem? (a b : Int64) : Option Int64 :=
  (div? a b).bind fun _ => fit? (a.toInt.tmod b.toInt)

end LetFn.Integer
