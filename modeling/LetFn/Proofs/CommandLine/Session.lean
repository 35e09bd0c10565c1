/-
**A session is a script in pieces.**

Someone who enters a program line by line runs the same program as someone who has it in a file, as
long as no line fails or returns something early: a failure ends a script and a session goes on
after it.  What is bound afterwards is the same, up to the places in functions, and the script has
the outcome of the last line that has a statement.  Blank lines and lines with syntax errors may be
in between.  They do nothing, and a script cannot have them.

Main definitions:

* `LetFn.Stmt.completed`, `LetFn.Repl.completed` — the world after statements, and after lines, none
  of which unwinds;
* `LetFn.Repl.transcript` — the results of lines;
* `LetFn.Repl.lastOutcome` — the outcome of the last line that has a statement;
* `LetFn.Repl.correct` — the lines that do something.

Main results:

* `LetFn.Repl.session_eq_transcript` — what a session prints, by the results of its lines;
* `LetFn.Stmt.runAll_of_completed` — statements that complete, and further statements;
* `LetFn.Repl.transcript_of_completed` — lines have the results of the statements in them;
* `LetFn.Repl.session_eq_script` — **a session is a script in pieces**.
-/

import LetFn.Proofs.CommandLine.Shown
import LetFn.Proofs.Eval.Layout
import LetFn.Proofs.Parser.Joined
import LetFn.Repl

set_option relaxedAutoImplicit false
set_option autoImplicit false

namespace LetFn

/-! ### Statements that complete -/

/-- The world after statements of which none unwinds: each of them has a value, or no outcome. -/
def Stmt.completed (depth : Nat) (s : ScopeId) : List Stmt → World → Option World
  | [], w => some w
  | st :: sts, w =>
    (st.run depth s w).bind fun r =>
      if r.1.any Outcome.unwinds then none else Stmt.completed depth s sts r.2

variable {depth : Nat} {s : ScopeId}

/-- A statement that does not unwind, and further statements. -/
theorem Stmt.runAll_cons_of_not_unwinds {st : Stmt} {w w' : World} {o : Option Outcome}
    (h : st.run depth s w = some (o, w')) (ho : o.any Outcome.unwinds = false)
    (last : Option Outcome) (sts : List Stmt) :
    Stmt.runAll depth s last (st :: sts) w = Stmt.runAll depth s o sts w' := by
  rw [Stmt.runAll_cons, h, Option.bind_some]
  cases o with
  | none => rfl
  | some o =>
      cases o with
      | value v => rfl
      | returned | error => cases ho

/-- **Statements that complete, and further statements**: these are run with the outcome of the last
statement before them, if there is one. -/
theorem Stmt.runAll_of_completed {sts : List Stmt} {w w' : World}
    (h : Stmt.completed depth s sts w = some w') :
    ∃ o, Stmt.runAll depth s none sts w = some (o, w') ∧
      ∀ last rest, Stmt.runAll depth s last (sts ++ rest) w =
        Stmt.runAll depth s (if sts = [] then last else o) rest w' := by
  induction sts generalizing w with
  | nil =>
      obtain rfl := Option.some.inj h
      exact ⟨none, rfl, fun last rest => rfl⟩
  | cons st sts ih =>
      obtain ⟨⟨o, w₁⟩, hst, hsts⟩ := Option.bind_eq_some_iff.1 h
      cases ho : o.any Outcome.unwinds with
      | true => simp [ho] at hsts
      | false =>
          rw [ho] at hsts
          obtain ⟨o', hrun, happend⟩ := ih hsts
          have hnext := runAll_cons_of_not_unwinds hst ho
          have hfirst (last : Option Outcome) : Stmt.runAll depth s last (st :: sts) w =
              some (if sts = [] then o else o', w') := by
            have := happend o []
            rw [List.append_nil] at this
            rw [hnext, this]
            rfl
          refine ⟨if sts = [] then o else o', hfirst none, fun last rest => ?_⟩
          rw [List.cons_append, hnext, happend, if_neg (List.cons_ne_nil _ _)]

namespace Repl

/-! ### The results of lines -/

/-- The results of lines that are interpreted one after the other in one scope. -/
def transcript (depth : Nat) (s : ScopeId) (lines : List String) :
    Run (List ((ScopeId × String) × Except (List SyntaxError) (Option Outcome))) :=
  interpretAll depth (lines.map fun l => (s, l))

theorem transcript_cons (l : String) (ls : List String) (w : World) :
    transcript depth s (l :: ls) w =
      (interpret depth l s w).bind fun r =>
        (transcript depth s ls r.2).map fun rs => (((s, l), r.1) :: rs.1, rs.2) :=
  interpretAll_cons (s, l) _ w

/-- A line without a line end is itself without its line end. -/
theorem chomp_of_no_newline {l : String} (h : '\n' ∉ l.toList) : chomp l = l := by
  have hreverse : '\n' ∉ l.toList.reverse := by simpa using h
  unfold chomp
  split
  · rename_i heq
    rw [heq] at hreverse
    exact absurd List.mem_cons_self hreverse
  · rename_i heq
    rw [heq] at hreverse
    exact absurd List.mem_cons_self hreverse
  · rfl

theorem after_printed (text more : String) :
    (Report.printed more).after text = .printed (text ++ more) := rfl

/-- A blank line is passed over. -/
theorem respond_of_blank {l : String} (hl : '\n' ∉ l.toList) (h : Text.allBlank l = true)
    (w : World) : respond depth s (encode l) w = some (.ok "", w) := by
  simp only [respond, decode_encode, chomp_of_no_newline hl, h, if_true]
  rfl

/-- For any other line its result is printed. -/
theorem respond_of_not_blank (depth : Nat) (s : ScopeId) {l : String} (hl : '\n' ∉ l.toList)
    (h : Text.allBlank l = false) (w : World) :
    respond depth s (encode l) w =
      (interpret depth l s w).map fun r => (.ok (resultText r.1), r.2) := by
  simp only [respond, decode_encode, chomp_of_no_newline hl, h, Bool.false_eq_true, if_false,
    Run.map_apply, answer, Option.map_map]
  rfl

/-- What is printed for a line stands before what is printed for the further ones. -/
theorem session_cons {bytes : List UInt8} {ls : List (List UInt8)} {w w' : World} {text : String}
    (h : respond depth s bytes w = some (.ok text, w')) :
    session depth s (bytes :: ls) w =
      (session depth s ls w').map fun r => (r.1.after text, r.2) := by
  change Option.bind (respond depth s bytes w) _ = _
  rw [h]
  exact Run.map_apply (Report.after text) (session depth s ls) w'

/-- **What a session prints**: the results of its lines, the blank ones being passed over. -/
theorem session_eq_transcript {lines : List String} (hlines : ∀ l ∈ lines, '\n' ∉ l.toList)
    (w : World) :
    session depth s (lines.map encode) w =
      (transcript depth s (lines.filter fun l => !Text.allBlank l) w).map fun r =>
        (.printed (String.join (r.1.map fun line => resultText line.2)), r.2) := by
  induction lines generalizing w with
  | nil => rfl
  | cons l ls ih =>
      rw [List.forall_mem_cons] at hlines
      rw [List.map_cons]
      cases hblank : Text.allBlank l with
      | true =>
          rw [List.filter_cons_of_neg (by simp [hblank]),
            session_cons (respond_of_blank hlines.1 hblank w), ih hlines.2, Option.map_map]
          refine congrArg (Option.map · _) (funext fun r => ?_)
          simp only [Function.comp_apply, after_printed, String.empty_append]
      | false =>
          rw [List.filter_cons_of_pos (by simp [hblank]), transcript_cons]
          have hrespond := respond_of_not_blank depth s hlines.1 hblank w
          cases hinterpret : interpret depth l s w with
          | none =>
              rw [hinterpret] at hrespond
              change Option.bind (respond depth s (encode l) w) _ = _
              rw [hrespond]
              rfl
          | some r =>
              rw [hinterpret] at hrespond
              rw [session_cons hrespond, ih hlines.2, Option.map_map, Option.bind_some,
                Option.map_map]
              refine congrArg (Option.map · _) (funext fun rs => ?_)
              simp only [Function.comp_apply, after_printed, List.map_cons, String.join_cons]

/-! ### Lines that complete -/

/-- **The lines that do something**: they are not blank and have no syntax errors. -/
def correct (lines : List String) : List String :=
  lines.filter fun l => !Text.allBlank l && (Parsed.ofString l).errors.isEmpty

/-- The world after lines in which no statement unwinds. -/
def completed (depth : Nat) (s : ScopeId) : List String → World → Option World
  | [], w => some w
  | l :: ls, w =>
    (Stmt.completed depth s (Parsed.ofString l).program.statements w).bind (completed depth s ls)

/-- The outcome of the last line that has a statement, if there is such a line and it has an
outcome; `last` is that of the lines before.  Lines with syntax errors have no statements. -/
def lastOutcome (last : Option Outcome) :
    List ((ScopeId × String) × Except (List SyntaxError) (Option Outcome)) → Option Outcome
  | [] => last
  | (_, .error _) :: rs => lastOutcome last rs
  | ((_, l), .ok o) :: rs =>
    lastOutcome (if (Parsed.ofString l).program.statements = [] then last else o) rs

/-- **Lines have the results of the statements in them.**  If the correct ones among them complete,
so do all of them, and the last outcome is that of all statements, one after the other. -/
theorem transcript_of_completed {lines : List String} {w w' : World}
    (h : completed depth s (lines.filter fun l => (Parsed.ofString l).errors.isEmpty) w = some w') :
    ∃ results, transcript depth s lines w = some (results, w') ∧
      ∀ last, Stmt.runAll depth s last
        ((lines.filter fun l => (Parsed.ofString l).errors.isEmpty).flatMap fun l =>
          (Parsed.ofString l).program.statements) w = some (lastOutcome last results, w') := by
  induction lines generalizing w with
  | nil =>
      obtain rfl := Option.some.inj h
      exact ⟨[], rfl, fun last => rfl⟩
  | cons l ls ih =>
      by_cases hcorrect : (Parsed.ofString l).errors = []
      · rw [List.filter_cons_of_pos (by simp [hcorrect])] at h ⊢
        obtain ⟨w₁, hl, hls⟩ := Option.bind_eq_some_iff.1 h
        obtain ⟨o, hrun, happend⟩ := Stmt.runAll_of_completed hl
        obtain ⟨results, htranscript, hall⟩ := ih hls
        have hinterpret : interpret depth l s w = some (.ok o, w₁) := by
          rw [interpret_of_correct hcorrect, Run.map_apply, Program.run, hrun]
          rfl
        refine ⟨((s, l), .ok o) :: results, ?_, fun last => ?_⟩
        · rw [transcript_cons, hinterpret, Option.bind_some, htranscript]
          rfl
        · rw [List.flatMap_cons, happend, hall]
          rfl
      · rw [List.filter_cons_of_neg (by simp [hcorrect])] at h ⊢
        obtain ⟨results, htranscript, hall⟩ := ih h
        refine ⟨((s, l), .error (Parsed.ofString l).errors) :: results, ?_, hall⟩
        rw [transcript_cons, interpret_of_errors hcorrect]
        change Option.map _ (transcript depth s ls w) = _
        rw [htranscript]
        rfl

/-! ### A session and a script -/

/-- A correct line has no syntax errors. -/
theorem errors_of_mem_correct {lines : List String} {l : String} (hl : l ∈ correct lines) :
    (Parsed.ofString l).errors = [] := by
  have h := (List.mem_filter.1 hl).2
  rw [Bool.and_eq_true, List.isEmpty_iff] at h
  exact h.2

/-- Correct texts with semicolons between them are the program of all their statements, up to
places. -/
theorem program_of_lines {sources : List String}
    (h : ∀ source ∈ sources, (Parsed.ofString source).errors = []) :
    (Parsed.ofString (";\n".intercalate sources)).errors = [] ∧
      Program.relabel .blurred
          ⟨sources.flatMap fun source => (Parsed.ofString source).program.statements⟩ =
        (Parsed.ofString (";\n".intercalate sources)).program.relabel .blurred := by
  have hjoined := Parsed.ofString_lines h
  have herrors : (Parsed.ofString (";\n".intercalate sources)).errors = [] :=
    Parsed.errors_eq_nil_of_unplaced_eq hjoined.symm rfl
  refine ⟨herrors, ?_⟩
  rw [Parsed.relabel_blurred herrors, Program.relabel_blurred]
  · exact (congrArg Parsed.program hjoined).symm
  · intro st hst
    obtain ⟨source, hsource, hst⟩ := List.mem_flatMap.1 hst
    exact Parsed.whole_of_errors_eq_nil (h source hsource) st hst

/-- **A session is a script in pieces.**  Let lines be entered in a scope, none of them with a line
end in it, and let no statement unwind in those that are correct.  Then the session comes to an end.
The correct lines, with semicolons between them, are a correct text, which run in the same scope of
the same world comes to an end as well and leaves the same world behind, up to places.  Its outcome
is that of the last line that has a statement, and there is none if there is no such line.  A line
with syntax errors changes nothing. -/
theorem session_eq_script (depth : Nat) (s : ScopeId) {lines : List String}
    (hlines : ∀ l ∈ lines, '\n' ∉ l.toList) {w w' : World}
    (hcompleted : completed depth s (correct lines) w = some w') :
    ∃ results o w'',
      transcript depth s (lines.filter fun l => !Text.allBlank l) w = some (results, w') ∧
      session depth s (lines.map encode) w =
        some (.printed (String.join (results.map fun line => resultText line.2)), w') ∧
      interpret depth (";\n".intercalate (correct lines)) s w = some (.ok o, w'') ∧
      w'.Alike w'' ∧ Interpreted.Alike (.ok (lastOutcome none results)) (.ok o) ∧
      ∀ l ∈ lines, (Parsed.ofString l).errors ≠ [] →
        ∀ v, interpret depth l s v = some (.error (Parsed.ofString l).errors, v) := by
  have hfilter : (lines.filter fun l => !Text.allBlank l).filter
      (fun l => (Parsed.ofString l).errors.isEmpty) = correct lines := by
    rw [List.filter_filter, correct]
    exact congrArg (List.filter · lines) (funext fun l => Bool.and_comm _ _)
  obtain ⟨results, htranscript, hall⟩ := transcript_of_completed (hfilter ▸ hcompleted)
  rw [hfilter] at hall
  obtain ⟨herrors, hprogram⟩ := program_of_lines fun l hl => errors_of_mem_correct (l := l) hl
  have hrun := Program.run_alike depth hprogram s (.refl w)
  rw [Program.run, hall none] at hrun
  generalize hscript : (Parsed.ofString (";\n".intercalate (correct lines))).program.run depth s w =
    script at hrun
  cases hrun with
  | @some _ r h =>
      obtain ⟨o, w''⟩ := r
      refine ⟨results, o, w'', htranscript, ?_, ?_, h.2, .of_blurred h.1, fun l _ hl v => ?_⟩
      · rw [session_eq_transcript hlines, htranscript]
        rfl
      · rw [interpret_of_correct herrors, Run.map_apply, hscript]
        rfl
      · rw [interpret_of_errors hl]
        rfl

/-- Lines that bind a function and call it, among them a blank one, two with syntax errors, and at
the end one without a statement. -/
def callLines : List String :=
  ["let add = fn(a, b) \x7b a + b \x7d;", " \t", "let = 1", "let x = add(1, 2)", "x + 1",
    "x + (2", ";"]

/-- A session of these lines and the script that they make up: four is the outcome of either. -/
theorem session_eq_script_call : ∃ text o w₁ w₂,
    session 1 0 (callLines.map encode) World.empty.newGlobal.2 = some (.printed text, w₁) ∧
    interpret 1 "let add = fn(a, b) \x7b a + b \x7d;;\nlet x = add(1, 2);\nx + 1;\n;" 0
      World.empty.newGlobal.2 = some (.ok (some o), w₂) ∧
    o.text = "4" ∧ w₁.Alike w₂ := by
  have hlines : ∀ l ∈ callLines, '\n' ∉ l.toList := by decide +kernel
  have hscript : ";\n".intercalate (correct callLines) =
      "let add = fn(a, b) \x7b a + b \x7d;;\nlet x = add(1, 2);\nx + 1;\n;" := by decide +kernel
  obtain ⟨w₁, hcompleted⟩ := Option.isSome_iff_exists.1 (show (completed 1 0 (correct callLines)
    World.empty.newGlobal.2).isSome = true by decide +kernel)
  obtain ⟨results, o, w₂, htranscript, hsession, hinterpret, halike, hlast, -⟩ :=
    session_eq_script 1 0 hlines hcompleted
  have hfour : (transcript 1 0 (callLines.filter fun l => !Text.allBlank l)
      World.empty.newGlobal.2).map (fun r => (lastOutcome none r.1).map Outcome.text) =
        some (some "4") := by decide +kernel
  rw [htranscript] at hfour
  rw [hscript] at hinterpret
  cases hlast with
  | outcome _ _ htext =>
      obtain ⟨o, rfl, ho⟩ := Option.map_eq_some_iff.1 (htext.symm.trans (Option.some.inj hfour))
      exact ⟨_, o, w₁, w₂, hsession, hinterpret, ho, halike⟩

end Repl

end LetFn
