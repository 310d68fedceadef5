import ExprLang.Proofs.Grammar
import ExprLang.Proofs.Rendering
import ExprLang.Session.Run

/-! # Positions are labels

Parsing, binding and evaluation carry positions along without looking at them. Relabelling the
positions of all tokens therefore relabels the tree and the diagnostics, and changes nothing else. The
only position that does not come from a token is the unknown one, at which a run starts. -/

namespace ExprLang

def Expr.mapPos (f : Position → Position) : Expr → Expr
  | literal l pos => .literal l (f pos)
  | unary op pos operand => .unary op (f pos) (operand.mapPos f)
  | binary op pos left right => .binary op (f pos) (left.mapPos f) (right.mapPos f)
  | grouping operand => .grouping (operand.mapPos f)

def Tree.mapPos (f : Position → Position) (tree : Tree) : Tree :=
  ⟨tree.root.mapPos f, f tree.eof⟩

def TokenTrail.mapPos (f : Position → Position) (trail : TokenTrail) : TokenTrail :=
  ⟨trail.previous.map (Token.mapPos f), f trail.lastPos⟩

namespace Diagnostic

@[simp] theorem kind_mapPos (f : Position → Position) (d : Diagnostic) :
    (d.mapPos f).kind = d.kind := by
  cases d <;> rfl

@[simp] theorem message_mapPos (f : Position → Position) (d : Diagnostic) :
    (d.mapPos f).message = d.message := by
  cases d <;> rfl

@[simp] theorem subject?_mapPos (f : Position → Position) (d : Diagnostic) :
    (d.mapPos f).subject? = d.subject? := by
  cases d <;> rfl

@[simp] theorem pos?_mapPos (f : Position → Position) (d : Diagnostic) :
    (d.mapPos f).pos? = d.pos?.map f := by
  cases d <;> rfl

end Diagnostic

namespace Token

@[simp] theorem lexeme_mapPos (f : Position → Position) (t : Token) :
    (t.mapPos f).lexeme = t.lexeme := by
  cases t <;> rfl

@[simp] theorem pos?_mapPos (f : Position → Position) (t : Token) :
    (t.mapPos f).pos? = t.pos?.map f := by
  cases t <;> rfl

@[simp] theorem fault?_mapPos (f : Position → Position) (t : Token) :
    (t.mapPos f).fault? = t.fault?.map (Diagnostic.mapPos f) := by
  cases t <;> rfl

theorem faults_map_mapPos (f : Position → Position) (ts : List Token) :
    faults (ts.map (mapPos f)) = (faults ts).map (Diagnostic.mapPos f) := by
  unfold faults
  rw [List.filterMap_map, List.map_filterMap]
  congr 1
  funext t
  exact fault?_mapPos f t

end Token

theorem TokenTrail.posOf_mapPos (f : Position → Position) (trail : TokenTrail) (t : Token) :
    (trail.mapPos f).posOf (t.mapPos f) = f (trail.posOf t) := by
  cases h : t.pos? <;> simp [posOf, mapPos, h]

theorem TokenTrail.after_mapPos (f : Position → Position) (trail : TokenTrail) (t : Token) :
    (trail.mapPos f).after (t.mapPos f) = (trail.after t).mapPos f := by
  rw [after, posOf_mapPos]
  rfl

theorem TokenTrail.start_mapPos {f : Position → Position} (h : f .unknown = .unknown) :
    start.mapPos f = start :=
  congrArg (TokenTrail.mk none) h

/-! ### Trees -/

theorem Expr.depth_mapPos (f : Position → Position) (e : Expr) : (e.mapPos f).depth = e.depth := by
  induction e with
  | literal => rfl
  | unary op pos operand ih => simp [mapPos, depth, ih]
  | binary op pos left right ihl ihr => simp [mapPos, depth, ihl, ihr]
  | grouping operand ih => simp [mapPos, depth, ih]

theorem Expr.prettyLines_mapPos (f : Position → Position) (e : Expr) (indent : Nat) :
    (e.mapPos f).prettyLines indent = e.prettyLines indent := by
  induction e generalizing indent with
  | literal => rfl
  | unary op pos operand ih => simp [mapPos, prettyLines, ih]
  | binary op pos left right ihl ihr => simp [mapPos, prettyLines, ihl, ihr]
  | grouping operand ih => simp [mapPos, prettyLines, ih]

theorem Expr.pretty_mapPos (f : Position → Position) (e : Expr) (indent : Nat) :
    (e.mapPos f).pretty indent = e.pretty indent := by
  rw [pretty, pretty, prettyLines_mapPos]

/-- Relabellings that agree on the literals and operators of a tree agree on the tree. -/
theorem Expr.mapPos_congr {f g : Position → Position} {e : Expr}
    (h : ∀ t ∈ e.inorder, ∀ pos, t.pos? = some pos → f pos = g pos) : e.mapPos f = e.mapPos g := by
  induction e with
  | literal l pos =>
    have hpos := h (.literal l pos) (List.mem_singleton.2 rfl) pos rfl
    simp only [mapPos, hpos]
  | unary op pos operand ih =>
    obtain ⟨hpos, hoperand⟩ := List.forall_mem_cons.1 h
    simp only [mapPos, hpos pos rfl, ih hoperand]
  | binary op pos left right ihl ihr =>
    obtain ⟨hleft, hrest⟩ := List.forall_mem_append.1 h
    obtain ⟨hpos, hright⟩ := List.forall_mem_cons.1 hrest
    simp only [mapPos, hpos pos rfl, ihl hleft, ihr hright]
  | grouping operand ih => simp only [mapPos, ih h]

namespace Parse

/-! ### Parsing -/

def Frame.mapPos (f : Position → Position) : Frame → Frame
  | unary op pos => .unary op (f pos)
  | binary level left op pos => .binary level (left.mapPos f) op (f pos)
  | group delimiter pos => .group delimiter (f pos)

def Phase.mapPos (f : Position → Position) : Phase → Phase
  | operand stack => .operand (stack.map (Frame.mapPos f))
  | operator stack e => .operator (stack.map (Frame.mapPos f)) (e.mapPos f)
  | trailing root reported => .trailing (root.mapPos f) reported

variable (f : Position → Position)

theorem stack_mapPos (phase : Phase) : (phase.mapPos f).stack = phase.stack.map (Frame.mapPos f) := by
  cases phase <;> rfl

theorem expectedExpression_mapPos (trail : TokenTrail) (pos : Position) (found : Option Token) :
    expectedExpression (trail.mapPos f) (f pos) (found.map (Token.mapPos f)) =
      (expectedExpression trail pos found).mapPos f := by
  cases hp : trail.previous <;> cases found <;>
    simp [expectedExpression, TokenTrail.mapPos, Diagnostic.mapPos, hp]

theorem expectedCloser?_mapPos (stack : List Frame) :
    expectedCloser? (stack.map (Frame.mapPos f)) = expectedCloser? stack := by
  induction stack with
  | nil => rfl
  | cons frame stack ih =>
    cases frame with
    | unary | binary => exact ih
    | group => rfl

theorem stray?_mapPos (stack : List Frame) (t : Token) :
    stray? (stack.map (Frame.mapPos f)) (t.mapPos f) =
      (stray? stack t).map (Diagnostic.mapPos f) := by
  cases t with
  | symbol s pos =>
    simp only [Token.mapPos, stray?, expectedCloser?_mapPos]
    split <;> rfl
  | keyword | literal | endOfFile | invalid => rfl

theorem reduce_mapPos (level : Nat) (stack : List Frame) (e : Expr) :
    reduce level (stack.map (Frame.mapPos f)) (e.mapPos f) =
      ((reduce level stack e).1.map (Frame.mapPos f), (reduce level stack e).2.mapPos f) := by
  induction stack generalizing e with
  | nil => rfl
  | cons frame stack ih =>
    cases frame with
    | unary op pos => exact ih (.unary op pos e)
    | binary l left op pos =>
      simp only [List.map_cons, Frame.mapPos, reduce]
      split
      · exact ih (.binary op pos left e)
      · rfl
    | group => rfl

theorem unwind_mapPos (stack : List Frame) (e : Expr) :
    unwind (stack.map (Frame.mapPos f)) (e.mapPos f) =
      ((unwind stack e).1.mapPos f, (unwind stack e).2.map (Diagnostic.mapPos f)) := by
  induction stack generalizing e with
  | nil => rfl
  | cons frame stack ih =>
    cases frame with
    | unary op pos => exact ih (.unary op pos e)
    | binary l left op pos => exact ih (.binary op pos left e)
    | group delimiter pos =>
      have hrest := ih (.grouping e)
      rw [Expr.mapPos] at hrest
      simp [Frame.mapPos, unwind, hrest, Diagnostic.mapPos]

theorem closeGroup_mapPos (stack : List Frame) (e : Expr) :
    closeGroup (stack.map (Frame.mapPos f)) (e.mapPos f) = (closeGroup stack e).mapPos f := by
  unfold closeGroup
  rw [reduce_mapPos]
  rcases reduce 0 stack e with ⟨stack, e⟩
  cases stack with
  | nil => rfl
  | cons frame stack => cases frame <;> rfl

def relabel (r : Phase × List Diagnostic) : Phase × List Diagnostic :=
  (r.1.mapPos f, r.2.map (Diagnostic.mapPos f))

theorem trailingStep_mapPos (trail : TokenTrail) (root : Expr) (t : Token) :
    trailingStep (trail.mapPos f) (root.mapPos f) (t.mapPos f) =
      relabel f (trailingStep trail root t) := by
  have hpos := trail.posOf_mapPos f t
  cases t with
  | invalid => rfl
  | symbol | keyword | literal | endOfFile =>
    simp only [Token.mapPos] at hpos
    simp [trailingStep, Token.mapPos, hpos, relabel, Phase.mapPos, Diagnostic.mapPos, Token.lexeme]

theorem leave_mapPos (trail : TokenTrail) (stack : List Frame) (e : Expr) (t : Token) :
    leave (trail.mapPos f) (stack.map (Frame.mapPos f)) (e.mapPos f) (t.mapPos f) =
      relabel f (leave trail stack e t) := by
  simp [leave, unwind_mapPos, trailingStep_mapPos, relabel]

theorem operatorStep_mapPos (trail : TokenTrail) (stack : List Frame) (e : Expr) (t : Token) :
    operatorStep (trail.mapPos f) (stack.map (Frame.mapPos f)) (e.mapPos f) (t.mapPos f) =
      relabel f (operatorStep trail stack e t) := by
  have hleave := leave_mapPos f trail stack e t
  cases t with
  | symbol s pos =>
    simp only [Token.mapPos, operatorStep, expectedCloser?_mapPos]
    split
    · rw [closeGroup_mapPos]
      rfl
    · split
      · rw [reduce_mapPos]
        rfl
      · exact hleave
  | keyword | literal | endOfFile | invalid => exact hleave

theorem operandStep_mapPos (trail : TokenTrail) (stack : List Frame) (t : Token) :
    operandStep (trail.mapPos f) (stack.map (Frame.mapPos f)) (t.mapPos f) =
      relabel f (operandStep trail stack t) := by
  have hmissing : expectedExpression (trail.mapPos f) ((trail.mapPos f).posOf (t.mapPos f))
      (some (t.mapPos f)) = (expectedExpression trail (trail.posOf t) (some t)).mapPos f := by
    rw [trail.posOf_mapPos]
    exact expectedExpression_mapPos f trail (trail.posOf t) (some t)
  have hreport := congrArg (fun d => [d]) hmissing
  cases t with
  | invalid => rfl
  | keyword | endOfFile => exact Prod.ext rfl hreport
  | literal l pos =>
    cases l with
    | identifier => exact Prod.ext rfl hreport
    | string | number | void => rfl
  | symbol s pos =>
    have hoperator := operatorStep_mapPos f trail stack (.placeholder pos) (.symbol s pos)
    simp only [Token.mapPos, operandStep, expectedCloser?_mapPos]
    split
    · rfl
    · split
      · rfl
      · split
        · have hexpr : (Expr.placeholder pos).mapPos f = .placeholder (f pos) := rfl
          rw [hexpr, Token.mapPos] at hoperator
          simp only [hoperator]
          exact Prod.ext rfl (congrArg (· :: _) hmissing)
        · exact Prod.ext rfl hreport

theorem step_mapPos (trail : TokenTrail) (phase : Phase) (t : Token) :
    step (trail.mapPos f) (phase.mapPos f) (t.mapPos f) = relabel f (step trail phase t) := by
  have hstray := stray?_mapPos f phase.stack t
  cases phase with
  | operand stack =>
    cases h : stray? stack t with
    | some d =>
      rw [Phase.stack, h] at hstray
      rw [step_operand_of_stray h, Phase.mapPos, step_operand_of_stray hstray]
      rfl
    | none =>
      rw [Phase.stack, h] at hstray
      rw [step_operand h, Phase.mapPos, step_operand hstray, operandStep_mapPos]
  | operator stack e =>
    cases h : stray? stack t with
    | some d =>
      rw [Phase.stack, h] at hstray
      rw [step_operator_of_stray h, Phase.mapPos, step_operator_of_stray hstray]
      rfl
    | none =>
      rw [Phase.stack, h] at hstray
      rw [step_operator h, Phase.mapPos, step_operator hstray, operatorStep_mapPos]
  | trailing root reported =>
    cases reported with
    | true => rfl
    | false =>
      have hstep := trailingStep_mapPos f trail root t
      cases h : stray? [] t <;> simp only [Phase.stack, List.map_nil, h] at hstray <;>
        simp [step, Phase.mapPos, Phase.stack, h, hstray, hstep, relabel]

theorem finish_mapPos (trail : TokenTrail) (eof : Position) (phase : Phase) :
    finish (trail.mapPos f) (f eof) (phase.mapPos f) =
      ((finish trail eof phase).1.mapPos f, (finish trail eof phase).2.map (Diagnostic.mapPos f)) := by
  cases phase with
  | operand stack =>
    have hmissing := expectedExpression_mapPos f trail eof none
    have hunwind := unwind_mapPos f stack (.placeholder eof)
    have hexpr : (Expr.placeholder eof).mapPos f = .placeholder (f eof) := rfl
    rw [hexpr] at hunwind
    rw [Option.map_none] at hmissing
    simp [finish, Phase.mapPos, hmissing, hunwind]
  | operator stack e => exact unwind_mapPos f stack e
  | trailing => rfl

theorem run_mapPos (trail : TokenTrail) (phase : Phase) (ts : List Token) :
    run (trail.mapPos f) (phase.mapPos f) (ts.map (Token.mapPos f)) =
      ((run trail phase ts).1.mapPos f, (run trail phase ts).2.map (Diagnostic.mapPos f)) := by
  induction ts generalizing trail phase with
  | nil =>
    have hfinish := finish_mapPos f trail trail.lastPos phase
    have hlast : (trail.mapPos f).lastPos = f trail.lastPos := rfl
    simp only [List.map_nil, run, hlast, hfinish]
    rfl
  | cons t ts ih =>
    have hstep := step_mapPos f trail phase t
    have hrest := ih (trail.after t) (step trail phase t).1
    rw [← TokenTrail.after_mapPos] at hrest
    cases t with
    | endOfFile pos =>
      have hfinish := finish_mapPos f trail pos phase
      simp only [List.map_cons, Token.mapPos, run, hfinish]
      rfl
    | symbol | keyword | literal | invalid =>
      -- the case split is only there for the pattern that stops at an end of file
      simp only [Token.mapPos] at hstep hrest
      simp [run, Token.mapPos, hstep, hrest, relabel]

theorem reportsWithin_mapPos (limit : Nat) (trail : TokenTrail) (phase : Phase) (ts : List Token) :
    reportsWithin limit (trail.mapPos f) (phase.mapPos f) (ts.map (Token.mapPos f)) =
      (reportsWithin limit trail phase ts).map (Diagnostic.mapPos f) := by
  induction ts generalizing trail phase with
  | nil => exact congrArg Prod.snd (finish_mapPos f trail trail.lastPos phase)
  | cons t ts ih =>
    have hstep := step_mapPos f trail phase t
    have hrest := ih (trail.after t) (step trail phase t).1
    have hstack := congrArg List.length (stack_mapPos f (step trail phase t).1)
    rw [← TokenTrail.after_mapPos] at hrest
    rw [List.length_map] at hstack
    cases t with
    | endOfFile pos => exact congrArg Prod.snd (finish_mapPos f trail pos phase)
    | symbol | keyword | literal | invalid =>
      simp only [Token.mapPos] at hstep hrest
      simp only [reportsWithin, List.map_cons, Token.mapPos, hstep, relabel, hstack, hrest]
      split <;> simp

end Parse

/-- Relabelling that leaves the unknown position alone commutes with parsing. -/
theorem Tree.parse_mapPos {f : Position → Position} (hf : f .unknown = .unknown)
    (tokens : List Token) :
    parse (tokens.map (Token.mapPos f)) =
      ((parse tokens).1.mapPos f, (parse tokens).2.map (Diagnostic.mapPos f)) := by
  have hrun := Parse.run_mapPos f .start (.operand []) tokens
  rw [TokenTrail.start_mapPos hf] at hrun
  exact hrun

theorem Tree.reportsWithin_mapPos {f : Position → Position} (hf : f .unknown = .unknown)
    (limit : Nat) (tokens : List Token) :
    Parse.reportsWithin limit .start (.operand []) (tokens.map (Token.mapPos f)) =
      (Parse.reportsWithin limit .start (.operand []) tokens).map (Diagnostic.mapPos f) := by
  have hreports := Parse.reportsWithin_mapPos f limit .start (.operand []) tokens
  rw [TokenTrail.start_mapPos hf] at hreports
  exact hreports

/-! ### Evaluation -/

def Typed.mapPos (f : Position → Position) : Typed → Typed
  | literal value => .literal value
  | unary op pos operand => .unary op (f pos) (operand.mapPos f)
  | binary op pos left right => .binary op (f pos) (left.mapPos f) (right.mapPos f)
  | grouping operand => .grouping (operand.mapPos f)

theorem Typed.type_mapPos (f : Position → Position) (e : Typed) : (e.mapPos f).type = e.type := by
  induction e with
  | literal | unary | binary => rfl
  | grouping operand ih => exact ih

section

variable (f : Position → Position)

theorem UnaryOperator.resolve_mapPos (s : Symbol) (pos : Position) (t : DataType) :
    resolve s (f pos) t = (resolve s pos t).mapError (Diagnostic.mapPos f) := by
  unfold resolve
  split
  · split <;> rfl
  · rfl

theorem BinaryOperator.resolve_mapPos (s : Symbol) (pos : Position) (t u : DataType) :
    resolve s (f pos) t u = (resolve s pos t u).mapError (Diagnostic.mapPos f) := by
  unfold resolve
  split
  · split <;> rfl
  · rfl

theorem OperationFault.mapError_diagnostic (s : Symbol) (pos : Position)
    (result : Except OperationFault Value) :
    result.mapError (·.diagnostic s (f pos)) =
      (result.mapError (·.diagnostic s pos)).mapError (Diagnostic.mapPos f) := by
  cases result with
  | ok => rfl
  | error fault => cases fault <;> rfl

theorem Expr.bind_mapPos (e : Expr) :
    (e.mapPos f).bind = (e.bind.map (Typed.mapPos f)).mapError (Diagnostic.mapPos f) := by
  induction e with
  | literal => rfl
  | unary op pos operand ih =>
    rw [mapPos, Expr.bind, Expr.bind, ih]
    cases operand.bind with
    | error d => rfl
    | ok a =>
      have hresolve := UnaryOperator.resolve_mapPos f op pos a.type
      simp only [Bind.bind, Except.bind, Except.map, Except.mapError, a.type_mapPos, hresolve]
      cases UnaryOperator.resolve op pos a.type <;> rfl
  | binary op pos left right ihl ihr =>
    rw [mapPos, Expr.bind, Expr.bind, ihl, ihr]
    cases left.bind with
    | error d => rfl
    | ok a =>
      cases right.bind with
      | error d => rfl
      | ok b =>
        have hresolve := BinaryOperator.resolve_mapPos f op pos a.type b.type
        simp only [Bind.bind, Except.bind, Except.map, Except.mapError, a.type_mapPos, b.type_mapPos,
          hresolve]
        cases BinaryOperator.resolve op pos a.type b.type <;> rfl
  | grouping operand ih =>
    rw [mapPos, Expr.bind, Expr.bind, ih]
    cases operand.bind <;> rfl

theorem Typed.evaluate_mapPos (e : Typed) :
    (e.mapPos f).evaluate = e.evaluate.mapError (Diagnostic.mapPos f) := by
  induction e with
  | literal => rfl
  | unary op pos operand ih =>
    rw [mapPos, evaluate, evaluate, ih]
    cases operand.evaluate with
    | error d => rfl
    | ok a => exact OperationFault.mapError_diagnostic f op.symbol pos (op.operation.apply a)
  | binary op pos left right ihl ihr =>
    rw [mapPos, evaluate, evaluate, ihl, ihr]
    cases left.evaluate with
    | error d => rfl
    | ok a =>
      cases right.evaluate with
      | error d => rfl
      | ok b => exact OperationFault.mapError_diagnostic f op.symbol pos (op.operation.apply a b)
  | grouping operand ih => exact ih

theorem Expr.evaluate_mapPos (e : Expr) :
    (e.mapPos f).evaluate = e.evaluate.mapError (Diagnostic.mapPos f) := by
  rw [evaluate, evaluate, bind_mapPos]
  cases e.bind with
  | error d => rfl
  | ok typed => exact typed.evaluate_mapPos f

end

/-! ### Outcomes -/

def Outcome.mapPos (f : Position → Position) : Outcome → Outcome
  | value v => .value v
  | rejected ds => .rejected (ds.map (Diagnostic.mapPos f))
  | failed d => .failed (d.mapPos f)
  | tooDeep => .tooDeep

def DiagnosticLog.mapPos (f : Position → Position) (log : DiagnosticLog) : DiagnosticLog :=
  ⟨log.entries.map (Diagnostic.mapPos f)⟩

/-- Only the tree of an empty log is evaluated; of any other the positions do not matter. -/
theorem Tree.outcome_mapPos {f g : Position → Position} (tree : Tree) (log : DiagnosticLog)
    (h : log.entries = [] → tree.root.mapPos f = tree.root.mapPos g) :
    (tree.mapPos f).outcome (log.mapPos g) = (tree.outcome log).mapPos g := by
  have hempty : (log.mapPos g).isEmpty = log.isEmpty := List.isEmpty_map
  rw [Tree.outcome, Tree.outcome, hempty]
  split
  · next hlog =>
    have hroot : (tree.mapPos f).root = tree.root.mapPos g := h (List.isEmpty_iff.1 hlog)
    rw [hroot, Expr.evaluate_mapPos]
    cases tree.root.evaluate <;> rfl
  · rfl

end ExprLang
