import ExprLang.Command.Output
import ExprLang.Proofs.Sessions
import ExprLang.Proofs.TypeChecking
import ExprLang.Proofs.TypeSoundness

/-! # Reports and texts tell the same

A run shows its result as a report or as text. The two are written in different ways: a text leaves
out the blanks at the end of a message that stands alone, and a report does not. They agree because
the diagnostic of a run that stopped in binding or evaluation has a position, with which its text
ends. -/

namespace ExprLang

/-! ### Diagnostics of binding and evaluation -/

theorem Text.trimEnd_eq_self {text : String} {front : List Char} {c : Char}
    (h : text.toList = front ++ [c]) (hc : isBlank c = false) : trimEnd text = text := by
  have hreverse : text.toList.reverse = c :: front.reverse := by rw [h, List.reverse_concat]
  have hkept : (c :: front.reverse).dropWhile isBlank = c :: front.reverse := by
    rw [List.dropWhile_cons_of_neg (by simp [hc])]
  rw [trimEnd, hreverse, hkept, ← hreverse, List.reverse_reverse, String.ofList_toList]

theorem Diagnostic.exists_text_eq_append {d : Diagnostic} {pos : Position}
    (h : d.pos? = some pos) : ∃ front, d.text.toList = front ++ [')'] := by
  have htext : d.text = d.message ++ " " ++ pos.text := by simp only [text, h]
  have hpos : pos.text = "(" ++ pos.line.repr ++ ", " ++ pos.column.repr ++ ")" := rfl
  rw [htext, hpos, ← String.append_assoc, String.toList_append]
  exact ⟨_, rfl⟩

theorem Diagnostic.trimEnd_text {d : Diagnostic} {pos : Position} (h : d.pos? = some pos) :
    Text.trimEnd d.text = d.text := by
  obtain ⟨front, hfront⟩ := exists_text_eq_append h
  exact Text.trimEnd_eq_self hfront (by decide)

theorem Blames.exists_pos {e : Expr} {d : Diagnostic} (h : Blames e d) :
    ∃ pos, d.pos? = some pos := by
  cases h <;> exact ⟨_, rfl⟩

theorem FaultsAt.exists_pos {node : Expr.Node} {d : Diagnostic} (h : FaultsAt node d) :
    ∃ pos, d.pos? = some pos := by
  cases h <;> exact ⟨_, rfl⟩

theorem Expr.exists_pos_of_evaluate {e : Expr} {d : Diagnostic} (h : e.evaluate = .error d) :
    ∃ pos, d.pos? = some pos := by
  rcases Except.bind_eq_error_iff.1 h with hbind | ⟨b, hbind, hevaluate⟩
  · obtain ⟨_, _, _, _, _, hblames⟩ := bind_eq_error_iff_firstFault.1 hbind
    exact hblames.exists_pos
  · rcases (binds_of_bind hbind).evaluate_cases with ⟨v, hv, _⟩ | ⟨_, _, d', hfault, hd'⟩
    · rw [hv] at hevaluate
      cases hevaluate
    · rw [hd'] at hevaluate
      cases hevaluate
      exact hfault.exists_pos

theorem Tree.exists_pos_of_outcome {tree : Tree} {log : DiagnosticLog} {d : Diagnostic}
    (h : tree.outcome log = .failed d) : ∃ pos, d.pos? = some pos := by
  unfold outcome at h
  split at h
  · split at h
    · cases h
    · next hevaluate =>
      cases h
      exact Expr.exists_pos_of_evaluate hevaluate
  · cases h

theorem exists_pos_of_evaluateSource {limit : Nat} {source : String} {d : Diagnostic}
    (h : evaluateSource limit source = .failed d) : ∃ pos, d.pos? = some pos := by
  rw [Session.evaluateSource_eq] at h
  split at h
  · exact Tree.exists_pos_of_outcome h
  · cases h

/-! ### The two forms of a result -/

namespace Report

def dumps (report : Report) : String := report.tokens.getD "" ++ report.tree.getD ""

/-- `report.Matches outcome code plain`: the report is about the outcome, with which a run ends with
the exit code, and what is written as text is what can be read from the report. -/
inductive Matches (report : Report) : Outcome → Nat → Output → Prop
  | value {v : Value} : report.ok = true → report.value = some v.print →
    report.Matches (.value v) 0 ⟨v.print ++ "\n", report.dumps⟩
  /-- Every diagnostic has its entry. The summary is only in the last line. -/
  | rejected {ds : List Diagnostic} {summary : String} : report.ok = false →
    report.errors = ds.map Entry.ofDiagnostic → report.summary = some summary →
    report.Matches (.rejected ds) 2
      ⟨"", report.dumps ++ Command.joinLines (report.errors.map Entry.text ++ [summary])⟩
  /-- The only entry says the same as the summary, and stands on a line of its own. -/
  | failed {d : Diagnostic} : report.ok = false → report.errors = [Entry.ofDiagnostic d] →
    report.summary = some (Entry.ofDiagnostic d).text →
    report.Matches (.failed d) 2
      ⟨"", report.dumps ++ Command.joinLines [(Entry.ofDiagnostic d).text]⟩

end Report

namespace Command

theorem runSource_eq (session : Session) (limit threshold : Nat) (json : Bool)
    (name source : String) :
    runSource session limit threshold json name source =
      (showTrace limit threshold name source ++
          (showOutcome json source (session.run limit source).2 (evaluateSource limit source)).1,
        (showOutcome json source (session.run limit source).2 (evaluateSource limit source)).2,
        (session.run limit source).2) := by
  simp only [runSource, Session.run_eq]

/-- What is shown of an outcome in the two forms. -/
theorem showOutcome_matches {limit : Nat} {source : String}
    (h : Source.isShallow limit source = true) (after : Session) :
    ∃ (report : Report) (code : Nat) (plain : Output),
      showOutcome true source after (evaluateSource limit source) =
        (.toStdout report.line, .code code) ∧
      showOutcome false source after (evaluateSource limit source) = (plain, .code code) ∧
      report.source = source ∧ report.Matches (evaluateSource limit source) code plain := by
  cases houtcome : evaluateSource limit source with
  | value v =>
    exact ⟨.success source v after.tokenDump after.treeDump, 0, _, rfl, rfl, rfl, .value rfl rfl⟩
  | rejected ds =>
    refine ⟨.failure source (.rejected ds) after.tokenDump after.treeDump, 2, _, rfl, rfl, rfl, ?_⟩
    have htexts : (ds.map Report.Entry.ofDiagnostic).map Report.Entry.text =
        ds.map Diagnostic.text := List.map_map
    have hlines : (Failure.rejected ds).lines =
        (ds.map Report.Entry.ofDiagnostic).map Report.Entry.text ++ [Diagnostic.summary ds] := by
      rw [htexts]
      rfl
    simp only [showFailure, Bool.false_eq_true, if_false, hlines]
    exact .rejected rfl rfl rfl
  | failed d =>
    refine ⟨.failure source (.diagnostic d) after.tokenDump after.treeDump, 2, _, rfl, rfl, rfl, ?_⟩
    obtain ⟨pos, hpos⟩ := exists_pos_of_evaluateSource houtcome
    have hlines : (Failure.diagnostic d).lines = [(Report.Entry.ofDiagnostic d).text] := by
      simp only [Failure.lines, Failure.message, Diagnostic.trimEnd_text hpos,
        Report.Entry.ofDiagnostic]
    simp only [showFailure, Bool.false_eq_true, if_false, hlines]
    exact .failed rfl rfl rfl
  | tooDeep =>
    rw [Session.evaluateSource_eq, if_pos h] at houtcome
    exact absurd houtcome (Session.outcome_ne_tooDeep _ _)

/-- A report and a text tell the same about a run. Both ways the run ends with the same exit code,
writes the same log records and leaves the same session behind, and the text is what the report
says: the value and the dumps, or the dumps and the lines of the diagnostics. -/
theorem runSource_tells_alike (session : Session) (limit threshold : Nat) (name source : String)
    (h : Source.isShallow limit source = true) :
    ∃ (report : Report) (code : Nat) (plain : Output) (after : Session),
      runSource session limit threshold true name source =
        (showTrace limit threshold name source ++ .toStdout report.line, .code code, after) ∧
      runSource session limit threshold false name source =
        (showTrace limit threshold name source ++ plain, .code code, after) ∧
      report.source = source ∧ report.Matches (evaluateSource limit source) code plain := by
  obtain ⟨report, code, plain, hjson, htext, hsource, hmatches⟩ :=
    showOutcome_matches h (session.run limit source).2
  refine ⟨report, code, plain, (session.run limit source).2, ?_, ?_, hsource, hmatches⟩
  · rw [runSource_eq, hjson]
  · rw [runSource_eq, htext]

theorem runSource_tells_alike_division :
    Source.isShallow 10 "1 / 0" = true ∧ ∃ report : Report,
      (runSource (.start ⟨true, true⟩) 10 30 true inputName "1 / 0").1.stdout = report.line ∧
      report.summary = some "cannot divide by zero (1, 3)" ∧
      (runSource (.start ⟨true, true⟩) 10 30 false inputName "1 / 0").1.stderr =
        report.dumps ++ "cannot divide by zero (1, 3)\n" := by
  have hshallow : Source.isShallow 10 "1 / 0" = true := by decide +kernel
  have hfailed : evaluateSource 10 "1 / 0" =
      .failed (.syntaxError ⟨1, 3⟩ "cannot divide by zero") := by
    decide +kernel
  have htrace : showTrace 10 30 inputName "1 / 0" = .empty := if_neg (by decide)
  obtain ⟨report, code, plain, after, hjson, htext, -, hmatches⟩ :=
    runSource_tells_alike (.start ⟨true, true⟩) 10 30 inputName "1 / 0" hshallow
  rw [hfailed] at hmatches
  cases hmatches with
  | failed _ _ hsummary =>
    have hentry : (Report.Entry.ofDiagnostic
        (.syntaxError ⟨1, 3⟩ "cannot divide by zero")).text = "cannot divide by zero (1, 3)" := by
      decide
    refine ⟨hshallow, report, ?_, ?_, ?_⟩
    · simp [hjson, htrace]
    · rw [hsummary, hentry]
    · simp [htext, htrace, hentry, joinLines]

end Command

end ExprLang
