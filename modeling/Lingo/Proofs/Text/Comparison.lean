/-
Printed lines compared with expected ones.

The comparison goes by the expected lines.  So it ends abnormally if the printed lines are the first
of them and some are missing, and it never looks at a printed line behind the last expected one.
-/

import Lingo.Grader
import Lingo.Proofs.Eval.Running
import Lingo.Suite

namespace Lingo

namespace Text

variable {printed expected : List String}

/-- Printed lines are the first of the expected ones, and some are missing. -/
def FallsShort (printed expected : List String) : Prop :=
  ∃ line missing, expected = printed ++ line :: missing

theorem compareLines_eq_same_iff :
    compareLines printed expected = .ok .same ↔ expected <+: printed := by
  fun_induction compareLines printed expected with
  | case1 => simp
  | case2 => simp
  | case3 printed line expected ih => simp [ih]
  | case4 line printed other expected differs => simp [List.cons_prefix_cons, Ne.symm differs]

theorem compareLines_eq_error_iff {cause : Crash} :
    compareLines printed expected = .error cause ↔
      cause = .missingElement ∧ FallsShort printed expected := by
  unfold FallsShort
  fun_induction compareLines printed expected with
  | case1 => simp
  | case2 => simp [eq_comm]
  | case3 printed line expected ih => simp [ih]
  | case4 line printed other expected differs => simp [Ne.symm differs]

theorem judge_eq_same_iff :
    judge printed expected = .ok .same ↔
      printed = expected ∨ ∃ line, printed = expected ++ [line] := by
  unfold judge
  split
  next long =>
    refine ⟨by rintro ⟨⟩, ?_⟩
    rintro (rfl | ⟨line, rfl⟩)
    · omega
    · simp at long
  next short =>
    rw [compareLines_eq_same_iff]
    constructor
    · rintro ⟨extra, rfl⟩
      match extra with
      | [] => exact .inl (List.append_nil expected)
      | [line] => exact .inr ⟨line, rfl⟩
      | line :: other :: extra => simp at short
    · rintro (rfl | ⟨line, rfl⟩)
      · exact List.prefix_rfl
      · exact List.prefix_append expected [line]

theorem judge_eq_error_iff {cause : Crash} :
    judge printed expected = .error cause ↔
      cause = .missingElement ∧ FallsShort printed expected := by
  unfold judge
  split
  next long =>
    refine ⟨by rintro ⟨⟩, ?_⟩
    rintro ⟨_, line, missing, rfl⟩
    simp only [List.length_append, List.length_cons] at long
    omega
  next => exact compareLines_eq_error_iff

end Text

namespace Activity

variable {before : Machine} {printedPath expectedPath printed expected : String}

theorem ends_readLines {path content : String} (known : before.folder.read path = .ok content) :
    (readLines path).Ends before (Text.lines content) before := by
  have asked : (readFile path).Ends before content before := by
    apply (ends_get before).bind
    dsimp only
    rw [known]
    rfl
  exact asked.bind rfl

variable (readPrinted : before.folder.read printedPath = .ok printed)
  (readExpected : before.folder.read expectedPath = .ok expected)

include readPrinted readExpected

theorem run_agree :
    (Grader.agree printedPath expectedPath).run.run before =
      ((Text.judge (Text.lines printed) (Text.lines expected)).map (· == .same), before) := by
  unfold Grader.agree
  rw [run_bind_ended (ends_readLines readPrinted), run_bind_ended (ends_readLines readExpected)]
  cases Text.judge (Text.lines printed) (Text.lines expected) <;> rfl

theorem exists_ends_compareFiles_iff :
    (∃ after, (Suite.compareFiles printedPath expectedPath).Ends before () after) ↔
      (Grader.agree printedPath expectedPath).Ends before true before := by
  unfold Suite.compareFiles Ends
  rw [run_agree readPrinted readExpected, run_bind_ended (ends_readLines readPrinted),
    run_bind_ended (ends_readLines readExpected)]
  cases Text.judge (Text.lines printed) (Text.lines expected) with
  | error cause => exact ⟨by rintro ⟨_, ⟨⟩⟩, by rintro ⟨⟩⟩
  | ok verdict =>
      cases verdict with
      | same => exact ⟨fun _ => rfl, fun _ => ⟨_, rfl⟩⟩
      | _ => exact ⟨by rintro ⟨_, ⟨⟩⟩, by rintro ⟨⟩⟩

end Activity

/-- Printed files compared with expected ones, on every machine with the two files.  The grader ends
abnormally just if the printed lines fall short of the expected ones.  Else it tells whether the
printed lines are the expected ones, possibly with one line more, whatever that line holds.  The
comparison in the suite comes to its end just if the grader finds the two alike. -/
theorem printed_files_are_compared (before : Machine)
    (printedPath expectedPath printed expected : String)
    (readPrinted : before.folder.read printedPath = .ok printed)
    (readExpected : before.folder.read expectedPath = .ok expected) :
    let lines := Text.lines printed
    let wanted := Text.lines expected
    let agree := Grader.agree printedPath expectedPath
    (Text.FallsShort lines wanted → agree.run.run before = (.error .missingElement, before)) ∧
    (¬Text.FallsShort lines wanted → ∃ alike, agree.Ends before alike before ∧
      (alike = true ↔ lines = wanted ∨ ∃ line, lines = wanted ++ [line])) ∧
    ((∃ after, (Suite.compareFiles printedPath expectedPath).Ends before () after) ↔
      agree.Ends before true before) := by
  intro lines wanted agree
  have ran := Activity.run_agree readPrinted readExpected
  have finds (verdict : Text.Verdict) : (verdict == .same) = true ↔ verdict = .same := by
    cases verdict <;> decide
  refine ⟨?_, ?_, Activity.exists_ends_compareFiles_iff readPrinted readExpected⟩
  · intro short
    exact ran.trans (by rw [Text.judge_eq_error_iff.mpr ⟨rfl, short⟩]; rfl)
  · intro enough
    rw [← Text.judge_eq_same_iff]
    cases judged : Text.judge lines wanted with
    | error cause => exact absurd (Text.judge_eq_error_iff.mp judged).2 enough
    | ok verdict =>
        rw [judged] at ran
        refine ⟨verdict == .same, ran, (finds verdict).trans ?_⟩
        exact ⟨congrArg _, Except.ok.inj⟩

def Machine.withFiles (printed expected : String) : Machine :=
  { store := {}, globals := ⟨0⟩
    folder := { items := [(["a"], .file printed), (["b"], .file expected)] } }

theorem Machine.read_withFiles (printed expected : String) :
    (withFiles printed expected).folder.read "a" =
        .ok (String.ofList (Folder.unifyLineEnds printed.toList)) ∧
      (withFiles printed expected).folder.read "b" =
        .ok (String.ofList (Folder.unifyLineEnds expected.toList)) := by
  have names : Folder.names "a" = ["a"] ∧ Folder.names "b" = ["b"] := by
    constructor
    all_goals
      change String.splitOnAux _ "/" 0 0 0 [] = _
      rw [String.splitOnAux.eq_def]
      change String.splitOnAux _ "/" 0 ⟨1⟩ 0 [] = _
      rw [String.splitOnAux.eq_def]
      rfl
  unfold Folder.read Folder.readRaw Folder.find Folder.resolve
  rw [names.1, names.2]
  exact ⟨rfl, rfl⟩

/-- A line that is missing, and one with an empty line behind it. -/
theorem printed_files_are_compared_missing :
    (Grader.agree "a" "b").run.run (.withFiles "1\n" "1\n2\n") =
        (.error .missingElement, .withFiles "1\n" "1\n2\n") ∧
      ∃ alike, (Grader.agree "a" "b").Ends (.withFiles "1\n\n" "1") alike (.withFiles "1\n\n" "1") ∧
        (alike = true ↔ Text.lines "1\n\n" = Text.lines "1" ∨
          ∃ line, Text.lines "1\n\n" = Text.lines "1" ++ [line]) := by
  obtain ⟨few, more⟩ := Machine.read_withFiles "1\n" "1\n2\n"
  obtain ⟨many, one⟩ := Machine.read_withFiles "1\n\n" "1"
  refine ⟨(printed_files_are_compared _ "a" "b" _ _ few more).1 ⟨"2", [], rfl⟩,
    (printed_files_are_compared _ "a" "b" _ _ many one).2.1 ?_⟩
  rintro ⟨line, missing, same⟩
  cases same

/-- The grader ends abnormally at a missing line, and lets any one line pass behind the expected
ones. -/
theorem grader_misses_lines :
    (Grader.agree "a" "b").run.run (.withFiles "1" "1\n2") =
        (.error .missingElement, .withFiles "1" "1\n2") ∧
      (Grader.agree "a" "b").Ends (.withFiles "1\n2" "1") true (.withFiles "1\n2" "1") := by
  obtain ⟨few, more⟩ := Machine.read_withFiles "1" "1\n2"
  obtain ⟨many, one⟩ := Machine.read_withFiles "1\n2" "1"
  exact ⟨Activity.run_agree few more, Activity.run_agree many one⟩

end Lingo
