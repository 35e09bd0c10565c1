/-
**Integers in decimal digits.**

A run of digits is read in full, however long it is, and only its value decides whether it is a
word; leading zeros change nothing.  An integer is written with the fewest digits, behind a minus
sign if it is negative.

Main definitions:

* `LetFn.Integer.ofDigits?` — the word that a run of digits denotes, if there is one;
* `LetFn.Integer.text` — the digits of a word.

Main results:

* `LetFn.Integer.ofDigits?_eq_none_iff` — only a run whose value is out of range denotes no word;
* `LetFn.Integer.toInt_of_ofDigits?` — the word has the value of the digits;
* `LetFn.Integer.ofDigits?_text` — a word that is not negative can be read back from its text.
-/

import LetFn.Integer.Basic

set_option relaxedAutoImplicit false
set_option autoImplicit false

namespace LetFn.Integer

/-- The number that a run of decimal digits denotes. -/
def valueOfDigits (digits : List Char) : Nat :=
  Nat.ofDigitChars 10 digits 0

/-- The word that a run of decimal digits denotes, if there is one. -/
def ofDigits? (digits : List Char) : Option Int64 :=
  if (valueOfDigits digits : Int) ≤ Int64.maxValue.toInt then
    some (Int64.ofNat (valueOfDigits digits))
  else
    none

/-- A run of digits denotes a word exactly if its value does. -/
theorem ofDigits?_eq_fit? (digits : List Char) :
    ofDigits? digits = fit? (valueOfDigits digits) := by
  have hmin : Int64.minValue.toInt ≤ 0 := by decide
  have h : Fits (valueOfDigits digits) ↔ (valueOfDigits digits : Int) ≤ Int64.maxValue.toInt := by
    unfold Fits
    omega
  unfold ofDigits? fit?
  simp only [h]
  rfl

/-- A run of digits denotes no word exactly if its value is out of range. -/
theorem ofDigits?_eq_none_iff (digits : List Char) :
    ofDigits? digits = none ↔ 9223372036854775807 < valueOfDigits digits := by
  have hmax : Int64.maxValue.toInt = 9223372036854775807 := rfl
  unfold ofDigits?
  split
  · simp only [reduceCtorEq, false_iff]
    omega
  · simp only [true_iff]
    omega

/-- The word that a run of digits denotes has the value of the digits. -/
theorem toInt_of_ofDigits? {digits : List Char} {i : Int64} (h : ofDigits? digits = some i) :
    i.toInt = valueOfDigits digits := by
  rw [ofDigits?_eq_fit?] at h
  exact fit?_eq_some_iff.1 h

/-- The fewest decimal digits that denote `n`. -/
def digits (n : Nat) : List Char :=
  Nat.toDigits 10 n

/-- The text of an integer: its digits, behind a minus sign if it is negative. -/
def textOfInt (n : Int) : String :=
  if n < 0 then "-" ++ String.ofList (digits n.natAbs) else String.ofList (digits n.natAbs)

/-- The text of a word. -/
def text (i : Int64) : String :=
  textOfInt i.toInt

@[simp] theorem valueOfDigits_digits (n : Nat) : valueOfDigits (digits n) = n :=
  Nat.ofDigitChars_toDigits (by decide) (by decide)

/-- A word that is not negative can be read back from its text. -/
theorem ofDigits?_text (i : Int64) (h : 0 ≤ i.toInt) :
    ofDigits? (text i).toList = some i := by
  have hn : ¬ i.toInt < 0 := by omega
  have hi : ((i.toInt.natAbs : Nat) : Int) = i.toInt := by omega
  simp [text, textOfInt, hn, ofDigits?_eq_fit?, hi]

end LetFn.Integer
