import ExprLang.Session.Run

/-! # Runs of one session

A run depends on its source and on the options of its session, and on nothing that earlier runs have
left behind. The options decide which dumps are made; the outcome and the recorded diagnostics are
those of the source on its own. -/

namespace ExprLang

namespace Source

/-- Whether the tree of a source is within the depth limit, so that parsing returns it. -/
def isShallow (limit : Nat) (source : String) : Bool :=
  (Tree.parse (Token.scan source)).1.root.depth ≤ limit

/-- All diagnostics about a source: the lexical ones, then those of the parser. -/
def diagnostics (source : String) : List Diagnostic :=
  Token.faults (Token.scan source) ++ (Tree.parse (Token.scan source)).2

end Source

/-- Whether an outcome comes from evaluation: a value, or the diagnostic where evaluation stopped. -/
def Outcome.isEvaluated : Outcome → Bool
  | value _ => true
  | failed _ => true
  | rejected _ => false
  | tooDeep => false

namespace Session

/-- Runs sources one after the other. Every outcome stands with the session that its run leaves. -/
def runAll (session : Session) (limit : Nat) : List String → List (Outcome × Session)
  | [] => []
  | source :: sources =>
    session.run limit source :: (session.run limit source).2.runAll limit sources

/-! ### What a run leaves -/

/-- What is recorded about a source, also if its tree is given up. -/
def recorded (limit : Nat) (source : String) : DiagnosticLog :=
  if Source.isShallow limit source then ⟨Source.diagnostics source⟩
  else Tree.abandonedLog limit ⟨Token.faults (Token.scan source)⟩ (Token.scan source)

def tokenDumpOf (options : RunOptions) (source : String) : Option String :=
  if options.showTokens then some (Token.dump (Token.scan source)) else none

def treeDumpOf (limit : Nat) (options : RunOptions) (source : String) : Option String :=
  if Source.isShallow limit source && options.showTree then
    some ((Tree.parse (Token.scan source)).1.root.pretty 0)
  else none

/-- A parse that is given up has reported an initial part of what the whole parse reports. -/
theorem reportsWithin_isPrefix_run (limit : Nat) (trail : TokenTrail) (phase : Parse.Phase)
    (tokens : List Token) :
    Parse.reportsWithin limit trail phase tokens <+: (Parse.run trail phase tokens).2 := by
  induction tokens generalizing trail phase with
  | nil => exact List.prefix_rfl
  | cons t ts ih =>
    cases t with
    | endOfFile pos => exact List.prefix_rfl
    | symbol | keyword | literal | invalid =>
      simp only [Parse.reportsWithin, Parse.run]
      split
      · exact (List.prefix_append_right_inj _).2 (ih _ _)
      · exact List.prefix_append _ _

theorem recorded_isPrefix (limit : Nat) (source : String) :
    (recorded limit source).entries <+: Source.diagnostics source := by
  unfold recorded
  split
  · exact List.prefix_rfl
  · exact (List.prefix_append_right_inj _).2 (reportsWithin_isPrefix_run _ _ _ _)

theorem scan_clear (session : Session) (source : String) :
    session.clear.scan source =
      (Token.scan source, ⟨session.options, ⟨Token.faults (Token.scan source)⟩,
        tokenDumpOf session.options source, none⟩) := by
  cases hshow : session.options.showTokens <;>
    simp [Session.scan, clear, tokenDumpOf, hshow, Token.scanInto, DiagnosticLog.append,
      DiagnosticLog.empty]

theorem parseInto?_scan (limit : Nat) (source : String) :
    Tree.parseInto? limit ⟨Token.faults (Token.scan source)⟩ (Token.scan source) =
      if Source.isShallow limit source then
        some ((Tree.parse (Token.scan source)).1, ⟨Source.diagnostics source⟩)
      else none := by
  simp [Tree.parseInto?, Source.isShallow, Source.diagnostics, DiagnosticLog.append]

theorem evaluateSource_eq (limit : Nat) (source : String) :
    evaluateSource limit source =
      if Source.isShallow limit source then
        (Tree.parse (Token.scan source)).1.outcome ⟨Source.diagnostics source⟩
      else .tooDeep := by
  have hscan : Token.scanInto .empty source =
      (Token.scan source, ⟨Token.faults (Token.scan source)⟩) := rfl
  simp only [evaluateSource, hscan, parseInto?_scan]
  cases Source.isShallow limit source <;> rfl

/-- A run has the outcome of the source on its own, and what it leaves comes from the source and the
options. -/
theorem run_eq (session : Session) (limit : Nat) (source : String) :
    session.run limit source =
      (evaluateSource limit source,
        ⟨session.options, recorded limit source, tokenDumpOf session.options source,
          treeDumpOf limit session.options source⟩) := by
  simp only [run, scan_clear, parse, parseInto?_scan, evaluateSource_eq, recorded, treeDumpOf]
  cases Source.isShallow limit source with
  | false => rfl
  | true => cases session.options.showTree <;> rfl

theorem run_eq_start_run (session : Session) (limit : Nat) (source : String) :
    session.run limit source = (start session.options).run limit source := by
  rw [run_eq, run_eq (start session.options)]
  rfl

theorem runAll_eq_map (session : Session) (limit : Nat) (sources : List String) :
    session.runAll limit sources = sources.map ((start session.options).run limit) := by
  induction sources generalizing session with
  | nil => rfl
  | cons source sources ih =>
    have hoptions : (session.run limit source).2.options = session.options := by rw [run_eq]
    rw [runAll, ih, hoptions, List.map_cons, run_eq_start_run]

/-! ### Outcomes and recorded diagnostics -/

theorem outcome_eq_rejected_iff (tree : Tree) (log : DiagnosticLog) (ds : List Diagnostic) :
    tree.outcome log = .rejected ds ↔ log.entries = ds ∧ ds ≠ [] := by
  unfold Tree.outcome
  cases hempty : log.isEmpty with
  | true =>
    have hnil : log.entries = [] := by simpa [DiagnosticLog.isEmpty] using hempty
    simp only [if_true, hnil]
    constructor
    · split <;> simp
    · rintro ⟨rfl, hne⟩
      exact absurd rfl hne
  | false =>
    have hne : log.entries ≠ [] := by simpa [DiagnosticLog.isEmpty] using hempty
    simp only [Bool.false_eq_true, if_false, Outcome.rejected.injEq]
    constructor
    · rintro rfl
      exact ⟨rfl, hne⟩
    · exact fun h => h.1

theorem outcome_ne_tooDeep (tree : Tree) (log : DiagnosticLog) : tree.outcome log ≠ .tooDeep := by
  unfold Tree.outcome
  split
  · split <;> simp
  · simp

theorem isEvaluated_outcome_iff (tree : Tree) (log : DiagnosticLog) :
    (tree.outcome log).isEvaluated = true ↔ log = .empty := by
  have hempty : log.isEmpty = true ↔ log = .empty := by
    cases log
    simp [DiagnosticLog.isEmpty, DiagnosticLog.empty]
  unfold Tree.outcome
  split
  · next h =>
    simp only [hempty.1 h, iff_true]
    split <;> rfl
  · next h =>
    simp only [Outcome.isEvaluated, Bool.false_eq_true, false_iff]
    exact fun hlog => h (hempty.2 hlog)

structure Settles (limit : Nat) (source : String) (result : Outcome × Session) : Prop where
  outcome : result.1 = evaluateSource limit source
  log : result.2.log = recorded limit source
  /-- Whether parsing returns or is given up, nothing is recorded out of order. -/
  recordedFirst : result.2.log.entries <+: Source.diagnostics source
  /-- When parsing returns, the log holds the lexical diagnostics and after them the parser's. -/
  parsed : Source.isShallow limit source = true → result.2.log.entries = Source.diagnostics source
  givenUp : result.1 = .tooDeep ↔ Source.isShallow limit source = false
  rejected : ∀ ds, result.1 = .rejected ds ↔
    Source.isShallow limit source = true ∧ result.2.log.entries = ds ∧ ds ≠ []
  evaluated : result.1.isEvaluated = true ↔
    Source.isShallow limit source = true ∧ result.2.log = .empty

theorem settles_run (session : Session) (limit : Nat) (source : String) :
    Settles limit source (session.run limit source) := by
  rw [run_eq]
  cases hshallow : Source.isShallow limit source with
  | true =>
    have hlog : recorded limit source = ⟨Source.diagnostics source⟩ := by simp [recorded, hshallow]
    have houtcome : evaluateSource limit source =
        (Tree.parse (Token.scan source)).1.outcome ⟨Source.diagnostics source⟩ := by
      rw [evaluateSource_eq, hshallow, if_pos rfl]
    refine ⟨rfl, rfl, recorded_isPrefix limit source,
      fun _ => congrArg DiagnosticLog.entries hlog, ?_, fun ds => ?_, ?_⟩
    · simp [houtcome, hshallow, outcome_ne_tooDeep]
    · simp [houtcome, hlog, hshallow, outcome_eq_rejected_iff]
    · simp [houtcome, hlog, hshallow, isEvaluated_outcome_iff]
  | false =>
    have houtcome : evaluateSource limit source = .tooDeep := by
      rw [evaluateSource_eq, hshallow]
      rfl
    have hinitial := recorded_isPrefix limit source
    constructor <;> simp [houtcome, hshallow, Outcome.isEvaluated, hinitial]

/-- Runs of one session do not leak into each other. Whatever a session has been through, each of its
runs has the outcome of a new session that runs only that source, and leaves the same log and the
same dumps. Outcome and log do not depend on the options: the outcome is that of the source on its
own, a source is rejected exactly for the diagnostics in the log, if there are any when parsing
returns, and a source that was evaluated has an empty log. -/
theorem runAll_eq_fresh_runs (session : Session) (limit : Nat) (sources : List String) :
    session.runAll limit sources = sources.map ((start session.options).run limit) ∧
      ∀ (options : RunOptions) (source : String),
        Settles limit source ((start options).run limit source) :=
  ⟨runAll_eq_map session limit sources,
    fun options source => settles_run (start options) limit source⟩

end Session

end ExprLang
