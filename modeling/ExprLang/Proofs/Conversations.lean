import ExprLang.Proofs.Presentation
import ExprLang.Proofs.ReportLines

/-! # Conversations

A conversation runs its lines in one session, but no line can tell: each writes what it writes in a
new session. What a conversation writes is therefore put together from runs of its single lines,
with prompts between them unless reports are asked for. -/

namespace ExprLang

/-! ### Lines of what is written -/

theorem Text.lines_line {body : List Char} (h : '\n' ∉ body) (rest : List Char) :
    lines (body ++ '\n' :: rest) = (body ++ ['\n']) :: lines rest := by
  induction body with
  | nil => simp [lines]
  | cons c body ih =>
    have hc : c ≠ '\n' := fun heq => h (by simp [heq])
    have hbody : '\n' ∉ body := fun hmem => h (List.mem_cons_of_mem c hmem)
    simp only [List.cons_append, lines, if_neg hc, ih hbody]

theorem Json.newline_not_mem_render (value : Json) : '\n' ∉ value.render := by
  intro hmem
  have hvisible := visible_render value '\n' hmem
  revert hvisible
  decide

/-- Reports that are written one after the other are found again as the lines of the whole. -/
theorem Report.lines_join {texts : List String}
    (h : ∀ text ∈ texts, ∃ report : Report, text = report.line) :
    Text.lines (String.join texts).toList = texts.map String.toList := by
  induction texts with
  | nil => rfl
  | cons text texts ih =>
    obtain ⟨htext, htexts⟩ := List.forall_mem_cons.1 h
    obtain ⟨report, rfl⟩ := htext
    have hrender := report.toJson.newline_not_mem_render
    rw [String.join_cons, String.toList_append, report.toList_line, List.append_assoc,
      List.singleton_append, Text.lines_line hrender, ih htexts, List.map_cons, report.toList_line]

namespace Command

theorem runSource_eq_fresh (session : Session) (limit threshold : Nat) (json : Bool)
    (name source : String) :
    runSource session limit threshold json name source =
      runSource (.start session.options) limit threshold json name source := by
  simp only [runSource, Session.run_eq_start_run session]

theorem stdout_showTrace (limit threshold : Nat) (name source : String) :
    (showTrace limit threshold name source).stdout = "" := by
  unfold showTrace
  split <;> rfl

namespace Conversation

def isRun (line : List Char) : Bool := !line.all Text.isBlank

def freshOutput (talk : Conversation) (line : List Char) : Output :=
  (runSource (.start talk.session.options) talk.limit talk.threshold talk.json inputName
    (String.ofList line)).1

/-- What a line writes: nothing, if it is not run. -/
def lineOutput (talk : Conversation) (line : List Char) : Output :=
  if isRun line then talk.freshOutput line else .empty

/-! ### One line -/

/-- Whatever has been said before, a line writes what it writes in a new session, and the
conversation goes on with the same options. -/
theorem runLine_eq (talk : Conversation) {line : List Char}
    (h : Source.isShallow talk.limit (String.ofList line) = true) :
    ∃ code after, talk.runLine line =
        (talk.lineOutput line, .code code, { talk with session := after }) ∧
      after.options = talk.session.options := by
  cases hblank : line.all Text.isBlank with
  | true => exact ⟨0, talk.session, by simp [runLine, lineOutput, isRun, hblank], rfl⟩
  | false =>
    obtain ⟨report, code, plain, hjson, htext, -, -⟩ :=
      showOutcome_matches h (talk.session.run talk.limit (String.ofList line)).2
    have hexit : (runSource talk.session talk.limit talk.threshold talk.json inputName
        (String.ofList line)).2 =
          (.code code, (talk.session.run talk.limit (String.ofList line)).2) := by
      rw [runSource_eq]
      cases talk.json with
      | true => rw [hjson]
      | false => rw [htext]
    have hshown : (runSource talk.session talk.limit talk.threshold talk.json inputName
        (String.ofList line)).1 = talk.lineOutput line := by
      simp only [lineOutput, isRun, hblank, Bool.not_false, if_true, freshOutput]
      rw [runSource_eq_fresh]
    refine ⟨code, (talk.session.run talk.limit (String.ofList line)).2, ?_, by rw [Session.run_eq]⟩
    simp only [runLine, hblank, Bool.false_eq_true, if_false, hshown, hexit]

theorem lineOutput_of_options {talk : Conversation} {after : Session}
    (h : after.options = talk.session.options) :
    lineOutput { talk with session := after } = talk.lineOutput := by
  funext line
  simp only [lineOutput, freshOutput, h]

/-! ### All lines -/

theorem stderr_asking (talk : Conversation) : talk.asking.stderr = "" := by
  unfold asking
  split <;> rfl

theorem stderr_closing (talk : Conversation) : talk.closing.stderr = "" := by
  unfold closing
  split <;> rfl

theorem run_eq (talk : Conversation) {lines : List (List Char)}
    (h : ∀ line ∈ lines, Source.isShallow talk.limit (String.ofList line) = true) :
    (talk.run lines).2 = .code 0 ∧
      (talk.run lines).1.stdout =
        String.join (lines.map fun line => talk.asking.stdout ++ (talk.lineOutput line).stdout) ++
          (talk.asking.stdout ++ talk.closing.stdout) ∧
      (talk.run lines).1.stderr =
        String.join (lines.map fun line => (talk.lineOutput line).stderr) := by
  induction lines generalizing talk with
  | nil =>
    have hstderr : (talk.asking ++ talk.closing).stderr = "" := by
      rw [Output.stderr_append, stderr_asking, stderr_closing]
      rfl
    exact ⟨rfl, String.empty_append.symm, hstderr⟩
  | cons line lines ih =>
    obtain ⟨hline, hlines⟩ := List.forall_mem_cons.1 h
    obtain ⟨code, after, hrun, hoptions⟩ := talk.runLine_eq hline
    -- the rest is said to a conversation that differs only in what its session has been through
    obtain ⟨hexit, hstdout, hstderr⟩ := ih { talk with session := after } hlines
    rw [lineOutput_of_options hoptions] at hstdout hstderr
    have hstep : talk.run (line :: lines) =
        (talk.asking ++ talk.lineOutput line ++ (run { talk with session := after } lines).1,
          (run { talk with session := after } lines).2) := by
      simp only [run, hrun]
    rw [hstep]
    refine ⟨hexit, ?_, ?_⟩
    · rw [Output.stdout_append, Output.stdout_append, hstdout, List.map_cons, String.join_cons]
      exact String.append_assoc.symm
    · rw [Output.stderr_append, Output.stderr_append, hstderr, stderr_asking, List.map_cons,
        String.join_cons, String.empty_append]

/-- Lines that are not run can be left out of what is written. -/
theorem join_lineOutput (talk : Conversation) {part : Output → String} (hpart : part .empty = "")
    (lines : List (List Char)) :
    String.join (lines.map fun line => part (talk.lineOutput line)) =
      String.join ((lines.filter isRun).map fun line => part (talk.freshOutput line)) := by
  induction lines with
  | nil => rfl
  | cons line lines ih =>
    cases hrun : isRun line with
    | true =>
      rw [List.filter_cons_of_pos hrun, List.map_cons, List.map_cons, String.join_cons,
        String.join_cons, ih, lineOutput, if_pos hrun]
    | false =>
      have hskipped : ¬ isRun line = true := by simp [hrun]
      rw [List.filter_cons_of_neg hskipped, List.map_cons, String.join_cons, ih, lineOutput,
        if_neg hskipped, hpart, String.empty_append]

theorem exists_freshOutput_eq_line {talk : Conversation} (hjson : talk.json = true)
    {line : List Char} (h : Source.isShallow talk.limit (String.ofList line) = true) :
    ∃ report : Report, (talk.freshOutput line).stdout = report.line ∧
      report.source = String.ofList line := by
  obtain ⟨report, code, plain, hreport, -, hsource, -⟩ :=
    showOutcome_matches h
      ((Session.start talk.session.options).run talk.limit (String.ofList line)).2
  refine ⟨report, ?_, hsource⟩
  rw [freshOutput, runSource_eq, hjson, hreport, Output.stdout_append, stdout_showTrace,
    Output.stdout_toStdout, String.empty_append]

/-- A conversation is made of the runs of its lines. It ends with exit code 0, and writes what its
lines write when each is run in a new session; blank lines are not run. If reports are asked for,
standard output has nothing else, so that its lines are the reports about the lines that were run,
in their order. Otherwise the prompt stands before what each line writes, a blank one too, and
before the newline at the end. -/
theorem run_eq_fresh_runs (talk : Conversation) (lines : List (List Char))
    (h : ∀ line ∈ lines, Source.isShallow talk.limit (String.ofList line) = true) :
    (talk.run lines).2 = .code 0 ∧
      (talk.run lines).1.stderr =
        String.join ((lines.filter isRun).map fun line => (talk.freshOutput line).stderr) ∧
      (talk.json = true →
        (talk.run lines).1.stdout =
          String.join ((lines.filter isRun).map fun line => (talk.freshOutput line).stdout) ∧
        Text.lines (talk.run lines).1.stdout.toList =
          (lines.filter isRun).map (fun line => (talk.freshOutput line).stdout.toList) ∧
        ∀ line ∈ lines.filter isRun, ∃ report : Report,
          (talk.freshOutput line).stdout = report.line ∧
          Report.ofLine? (talk.freshOutput line).stdout = some report ∧
          report.source = String.ofList line) ∧
      (talk.json = false →
        (talk.run lines).1.stdout =
          String.join (lines.map fun line =>
            talk.prompt ++ if isRun line then (talk.freshOutput line).stdout else "") ++
          (talk.prompt ++ "\n")) := by
  obtain ⟨hexit, hstdout, hstderr⟩ := talk.run_eq h
  refine ⟨hexit, ?_, fun hjson => ?_, fun hjson => ?_⟩
  · rw [hstderr, talk.join_lineOutput Output.stderr_empty]
  · have hasking : talk.asking.stdout = "" := by simp [asking, hjson]
    have hclosing : talk.closing.stdout = "" := by simp [closing, hjson]
    have hreports : ∀ line ∈ lines.filter isRun, ∃ report : Report,
        (talk.freshOutput line).stdout = report.line ∧ report.source = String.ofList line :=
      fun line hline => exists_freshOutput_eq_line hjson (h line (List.mem_filter.1 hline).1)
    have hjoin : (talk.run lines).1.stdout =
        String.join ((lines.filter isRun).map fun line => (talk.freshOutput line).stdout) := by
      rw [← talk.join_lineOutput Output.stdout_empty, hstdout, hasking, hclosing]
      simp only [String.empty_append, String.append_empty]
    refine ⟨hjoin, ?_, fun line hline => ?_⟩
    · rw [hjoin, Report.lines_join, List.map_map]
      · rfl
      · refine List.forall_mem_map.2 fun line hline => ?_
        obtain ⟨report, hreport, -⟩ := hreports line hline
        exact ⟨report, hreport⟩
    · obtain ⟨report, hreport, hsource⟩ := hreports line hline
      refine ⟨report, hreport, ?_, hsource⟩
      rw [hreport, report.ofLine?_line]
  · have hasking : talk.asking.stdout = talk.prompt := by simp [asking, hjson]
    have hclosing : talk.closing.stdout = "\n" := by simp [closing, hjson]
    have hline : ∀ line, (talk.lineOutput line).stdout =
        if isRun line then (talk.freshOutput line).stdout else "" := by
      intro line
      unfold lineOutput
      split <;> rfl
    rw [hstdout, hasking, hclosing]
    simp only [hline]

theorem run_eq_fresh_runs_afterError :
    (∀ line ∈ ["1 +\n", " \n", "2\n"].map String.toList,
      Source.isShallow 10 (String.ofList line) = true) ∧
    (run ⟨.start ⟨false, false⟩, 10, 30, false, "> "⟩
      (["1 +\n", " \n", "2\n"].map String.toList)).1.stdout = "> > > 2\n> \n" ∧
    (run ⟨.start ⟨false, false⟩, 10, 30, false, "> "⟩
      (["1 +\n", " \n", "2\n"].map String.toList)).1.stderr =
      "expected expression after `+` (2, 1)\ninterpreter caught 1 error(s)\n" ∧
    (Text.lines (run ⟨.start ⟨false, false⟩, 10, 30, true, "> "⟩
      (["1 +\n", " \n", "2\n"].map String.toList)).1.stdout.toList).length = 2 := by
  have hshallow : ∀ line ∈ ["1 +\n", " \n", "2\n"].map String.toList,
      Source.isShallow 10 (String.ofList line) = true := by
    decide +kernel
  obtain ⟨-, hstderr, -, hstdout⟩ :=
    run_eq_fresh_runs ⟨.start ⟨false, false⟩, 10, 30, false, "> "⟩ _ hshallow
  obtain ⟨-, -, hreports, -⟩ :=
    run_eq_fresh_runs ⟨.start ⟨false, false⟩, 10, 30, true, "> "⟩ _ hshallow
  refine ⟨hshallow, ?_, ?_, ?_⟩
  · rw [hstdout rfl]
    decide +kernel
  · rw [hstderr]
    decide +kernel
  · rw [(hreports rfl).2.1, List.length_map]
    decide +kernel

end Conversation

end Command

end ExprLang
