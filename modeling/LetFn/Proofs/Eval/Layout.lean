/-
**Layout does not matter.**

A text may be laid out in many ways: its tokens may stand on one line or on several, with more or
fewer blanks between them.  However that is done, the same tokens are read, they make up the same
program or have the same errors, and running the program has the same outcome and leaves the same
world behind: all of it up to the places at which the tokens stand, and what a user is shown not
even up to these.

Main definitions:

* `LetFn.Interpreted.Alike` — results of interpreting that differ in places only.

Main results:

* `LetFn.interpret_alike` — texts that are read alike run alike;
* `LetFn.interpret_layout` — **layout does not matter**.
-/

import LetFn.Interpret
import LetFn.Proofs.Eval.Alike
import LetFn.Proofs.Parser.Regular
import LetFn.Proofs.Token.Layout

set_option relaxedAutoImplicit false
set_option autoImplicit false

namespace LetFn

/-- **Results of interpreting that differ in places only**: in those of syntax errors, or in those
in the literal of a closure.  An outcome is of the same type and is shown as the same text. -/
inductive Interpreted.Alike :
    Except (List SyntaxError) (Option Outcome) → Except (List SyntaxError) (Option Outcome) → Prop
  | errors {es es' : List SyntaxError} :
      es.map SyntaxError.unplaced = es'.map SyntaxError.unplaced → Alike (.error es) (.error es')
  | outcome {o o' : Option Outcome} :
      o.map Outcome.blurred = o'.map Outcome.blurred → o.map Outcome.tag = o'.map Outcome.tag →
      o.map Outcome.text = o'.map Outcome.text → Alike (.ok o) (.ok o')

/-- Outcomes that differ in places only are of the same type and are shown as the same text. -/
theorem Interpreted.Alike.of_blurred {o o' : Option Outcome}
    (h : o.map Outcome.blurred = o'.map Outcome.blurred) :
    Interpreted.Alike (.ok o) (.ok o') := by
  have htag := congrArg (Option.map Outcome.tag) h
  have htext := congrArg (Option.map Outcome.text) h
  simp only [Option.map_map, Function.comp_def, Outcome.tag_blurred] at htag
  simp only [Option.map_map, Function.comp_def, Outcome.text_blurred] at htext
  exact .outcome h htag htext

/-- In the program of a correct text all places are forgotten, since nothing in it is broken. -/
theorem Parsed.relabel_blurred {source : String} (h : (Parsed.ofString source).errors = []) :
    (Parsed.ofString source).program.relabel .blurred =
      (Parsed.ofString source).program.relabel .unplaced :=
  Program.relabel_blurred (Parsed.whole_of_errors_eq_nil h)

/-- **Texts that are read alike run alike in worlds that are alike.** -/
theorem interpret_alike (depth : Nat) {source source' : String}
    (h : (Parsed.ofString source).unplaced = (Parsed.ofString source').unplaced) (s : ScopeId)
    {w w' : World} (hw : w.Alike w') :
    Option.Rel (fun r r' => Interpreted.Alike r.1 r'.1 ∧ r.2.Alike r'.2)
      (interpret depth source s w) (interpret depth source' s w') := by
  by_cases hcorrect : (Parsed.ofString source).errors = []
  · have hcorrect' := Parsed.errors_eq_nil_of_unplaced_eq h hcorrect
    have hprogram : (Parsed.ofString source).program.relabel .blurred =
        (Parsed.ofString source').program.relabel .blurred := by
      rw [Parsed.relabel_blurred hcorrect, Parsed.relabel_blurred hcorrect']
      exact congrArg Parsed.program h
    have hrun := Program.run_alike depth hprogram s hw
    rw [interpret_of_correct hcorrect, interpret_of_correct hcorrect', Run.map_apply, Run.map_apply]
    generalize (Parsed.ofString source).program.run depth s w = x,
      (Parsed.ofString source').program.run depth s w' = y at hrun
    cases hrun with
    | none => exact .none
    | some hr => exact .some ⟨.of_blurred hr.1, hr.2⟩
  · have hcorrect' : (Parsed.ofString source').errors ≠ [] :=
      fun h' => hcorrect (Parsed.errors_eq_nil_of_unplaced_eq h.symm h')
    rw [interpret_of_errors hcorrect, interpret_of_errors hcorrect']
    exact .some ⟨.errors (congrArg Parsed.errors h), hw⟩

open Lexer in
/-- **Layout does not matter.**  A run of blanks may be replaced by any other that is not empty, and
blanks may be put wherever a text is not within a token, at its beginning and at its end: the tokens
are written as before.  And texts whose tokens are written alike are read alike and, in any scope of
any world and however deep calls may nest, run alike: neither comes to an end, or both do with
results and worlds that differ in places only. -/
theorem interpret_layout :
    (∀ a w w' b : String, (∀ c ∈ w.toList, isBlank c = true) → w ≠ "" →
      (∀ c ∈ w'.toList, isBlank c = true) → w' ≠ "" →
      (Tokens.ofString (a ++ w ++ b)).written = (Tokens.ofString (a ++ w' ++ b)).written) ∧
    (∀ a w b : String, Boundary a.toList b.toList → (∀ c ∈ w.toList, isBlank c = true) →
      (Tokens.ofString (a ++ w ++ b)).written = (Tokens.ofString (a ++ b)).written) ∧
    (∀ a w : String, (∀ c ∈ w.toList, isBlank c = true) →
      (Tokens.ofString (w ++ a)).written = (Tokens.ofString a).written ∧
      (Tokens.ofString (a ++ w)).written = (Tokens.ofString a).written) ∧
    ∀ source source' : String,
      (Tokens.ofString source).written = (Tokens.ofString source').written →
      (Parsed.ofString source).unplaced = (Parsed.ofString source').unplaced ∧
      ∀ (depth : Nat) (s : ScopeId) (w : World),
        Option.Rel (fun r r' => Interpreted.Alike r.1 r'.1 ∧ r.2.Alike r'.2)
          (interpret depth source s w) (interpret depth source' s w) := by
  have hne {w : String} (h : w ≠ "") : w.toList ≠ [] := fun hw => h (String.toList_eq_nil_iff.1 hw)
  refine ⟨fun a w w' b hw hw₀ hw' hw₀' => ?_, fun a w b hboundary hw => ?_, fun a w hw => ⟨?_, ?_⟩,
    fun source source' h => ?_⟩
  · rw [Tokens.written_eq_iff]
    simp only [String.toList_append, List.append_assoc]
    exact lexemes_blanks_between hw (hne hw₀) hw' (hne hw₀') _ _
  · rw [Tokens.written_eq_iff]
    simp only [String.toList_append, List.append_assoc]
    exact hboundary.lexemes_insert hw
  · rw [Tokens.written_eq_iff, String.toList_append, lexemes_blanks hw]
  · have hend := (boundary_end a.toList).lexemes_insert hw
    rw [List.append_nil, List.append_nil] at hend
    rw [Tokens.written_eq_iff, String.toList_append, hend]
  · have hread := Parsed.unplaced_eq_of_lexemes ((Tokens.written_eq_iff source source').1 h)
    exact ⟨hread, fun depth s w => interpret_alike depth hread s (.refl w)⟩

/-- A function that is written on one line or on several, with as few blanks as there can be or with
more, is shown as the same text. -/
theorem interpret_layout_function :
    (Tokens.ofString "let\r\n\tid = 1").written = (Tokens.ofString "let id = 1").written ∧
    (Tokens.ofString "1== \n=2").written = (Tokens.ofString "1===2").written ∧
    ∃ o o' w w',
      interpret 1 "let f=fn(x)\x7bx\x7d;f" 0 World.empty.newGlobal.2 = some (.ok (some o), w) ∧
      interpret 1 "let f = fn( x )\n\x7b\tx \x7d\r\n; f\n" 0 World.empty.newGlobal.2 =
        some (.ok (some o'), w') ∧
      o.text = "fn(x) \x7b x \x7d" ∧ o'.text = "fn(x) \x7b x \x7d" ∧ w.Alike w' := by
  obtain ⟨hblanks, hboundary, -, hruns⟩ := interpret_layout
  have hplace : Lexer.Boundary ('1' :: ([] ++ '=' :: (['='] ++ []))) ['=', '2'] :=
    .token rfl rfl (.token rfl rfl .start)
  refine ⟨hblanks "let" "\r\n\t" " " "id = 1" (List.all_eq_true.1 (by decide)) (by decide)
      (List.all_eq_true.1 (by decide)) (by decide),
    hboundary "1==" " \n" "=2" hplace (List.all_eq_true.1 (by decide)), ?_⟩
  have hrun := (hruns "let f=fn(x)\x7bx\x7d;f" "let f = fn( x )\n\x7b\tx \x7d\r\n; f\n"
    (by decide +kernel)).2 1 0 World.empty.newGlobal.2
  have hshown : (interpret 1 "let f=fn(x)\x7bx\x7d;f" 0 World.empty.newGlobal.2).map
      (fun r => r.1.toOption.map (Option.map Outcome.text)) =
        some (some (some "fn(x) \x7b x \x7d")) := by decide +kernel
  generalize interpret 1 "let f=fn(x)\x7bx\x7d;f" 0 World.empty.newGlobal.2 = x,
    interpret 1 "let f = fn( x )\n\x7b\tx \x7d\r\n; f\n" 0 World.empty.newGlobal.2 = y
    at hrun hshown
  cases hrun with
  | none => cases hshown
  | @some r r' h =>
      obtain ⟨result, w⟩ := r
      obtain ⟨result', w'⟩ := r'
      obtain ⟨hresult, hworld⟩ := h
      cases hresult with
      | errors => cases hshown
      | @outcome o o' _ _ htext =>
          have hshown : o.map Outcome.text = some "fn(x) \x7b x \x7d" :=
            Option.some.inj (Option.some.inj hshown)
          obtain ⟨o', rfl, ho'⟩ := Option.map_eq_some_iff.1 (htext.symm.trans hshown)
          obtain ⟨o, rfl, ho⟩ := Option.map_eq_some_iff.1 hshown
          exact ⟨o, o', w, w', rfl, rfl, ho, ho', hworld⟩

end LetFn
