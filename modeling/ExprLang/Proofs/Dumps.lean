import ExprLang.Proofs.LiteralTexts

/-! # Dumps can be read back

Both forms of a tree, the compact one and the dump line by line, hold exactly the shape of the tree:
its nodes, their operators and the texts of the literals. Each part of a dump can be told from what
follows it, so two dumps that agree are taken apart in the same way, from the root down. -/

namespace ExprLang

open Text (Unbroken isLineBreak)

/-! ### Lines of a text -/

namespace Text

/-- The lines of a text for a reader that breaks it at every line break. A carriage return and the
newline after it are one break. -/
def splitLines : List Char → List (List Char)
  | [] => []
  | '\r' :: '\n' :: cs => [] :: splitLines cs
  | c :: cs =>
    if isLineBreak c then [] :: splitLines cs
    else
      match splitLines cs with
      | [] => [[c]]
      | line :: rest => (c :: line) :: rest

theorem splitLines_append {line : List Char} (h : Unbroken line) (rest : List Char) :
    splitLines (line ++ '\n' :: rest) = line :: splitLines rest := by
  induction line with
  | nil => rfl
  | cons c line ih =>
    obtain ⟨hc, hline⟩ := List.forall_mem_cons.1 h
    have hreturn : c ≠ '\r' := by
      rintro rfl
      exact absurd hc (by decide)
    rw [List.cons_append, splitLines, hc, ih hline]
    · rfl
    · exact fun _ heq _ => hreturn heq

theorem splitLines_join {lines : List String} (h : ∀ line ∈ lines, Unbroken line.toList) :
    splitLines (String.join (lines.map (· ++ "\n"))).toList = lines.map String.toList := by
  induction lines with
  | nil => rfl
  | cons line lines ih =>
    obtain ⟨hline, hlines⟩ := List.forall_mem_cons.1 h
    have hsplit := splitLines_append hline (String.join (lines.map (· ++ "\n"))).toList
    rw [ih hlines] at hsplit
    simpa using hsplit

end Text

/-- A tree without its positions, with literals as they are written. -/
inductive Shape where
  | literal (text : String)
  | unary (op : Symbol) (operand : Shape)
  | binary (op : Symbol) (left right : Shape)
  | grouping (operand : Shape)
deriving DecidableEq, Repr

namespace Expr

def shape : Expr → Shape
  | literal l _ => .literal l.sourceText
  | unary op _ operand => .unary op operand.shape
  | binary op _ left right => .binary op left.shape right.shape
  | grouping operand => .grouping operand.shape

/-- Trees of one shape are taken apart together. -/
theorem sameShape_induction {P : Expr → Expr → Prop}
    (hliteral : ∀ l l' pos pos', l.sourceText = l'.sourceText → P (literal l pos) (literal l' pos'))
    (hunary : ∀ op pos pos' e e', P e e' → P (unary op pos e) (unary op pos' e'))
    (hbinary : ∀ op pos pos' left left' right right', P left left' → P right right' →
      P (binary op pos left right) (binary op pos' left' right'))
    (hgrouping : ∀ e e', P e e' → P (grouping e) (grouping e'))
    {e e' : Expr} (h : e.shape = e'.shape) : P e e' := by
  induction e generalizing e' with
  | literal l pos =>
    cases e' with
    | literal l' pos' => exact hliteral l l' pos pos' (Shape.literal.inj h)
    | unary | binary | grouping => cases h
  | unary op pos operand ih =>
    cases e' with
    | unary op' pos' operand' =>
      obtain ⟨rfl, hoperand⟩ := Shape.unary.inj h
      exact hunary op pos pos' operand operand' (ih hoperand)
    | literal | binary | grouping => cases h
  | binary op pos left right ihl ihr =>
    cases e' with
    | binary op' pos' left' right' =>
      obtain ⟨rfl, hleft, hright⟩ := Shape.binary.inj h
      exact hbinary op pos pos' left left' right right' (ihl hleft) (ihr hright)
    | literal | unary | grouping => cases h
  | grouping operand ih =>
    cases e' with
    | grouping operand' => exact hgrouping operand operand' (ih (Shape.grouping.inj h))
    | literal | unary | binary => cases h

def Node.isNameless : Node → Bool
  | literal l _ => l.isOperand
  | _ => true

/-- Whether all literals of a tree are numbers, strings and void values. -/
def isNameless (e : Expr) : Bool := e.preorder.all Node.isNameless

@[simp] theorem isNameless_literal (l : Literal) (pos : Position) :
    (literal l pos).isNameless = l.isOperand := by
  simp [isNameless, preorder, Node.isNameless]

@[simp] theorem isNameless_unary (op : Symbol) (pos : Position) (operand : Expr) :
    (unary op pos operand).isNameless = operand.isNameless := by
  simp [isNameless, preorder, Node.isNameless]

@[simp] theorem isNameless_binary (op : Symbol) (pos : Position) (left right : Expr) :
    (binary op pos left right).isNameless = (left.isNameless && right.isNameless) := by
  simp [isNameless, preorder, Node.isNameless]

@[simp] theorem isNameless_grouping (operand : Expr) :
    (grouping operand).isNameless = operand.isNameless := by
  simp [isNameless, preorder, Node.isNameless]

/-! ### The compact form -/

theorem compact_append_inj {e e' : Expr} (he : e.isNameless = true) (he' : e'.isNameless = true)
    {x y : List Char} (h : e.compact.toList ++ x = e'.compact.toList ++ y) :
    e.shape = e'.shape ∧ x = y := by
  -- what follows on either side may differ: an operand is followed by the rest of its operator
  induction e generalizing e' x y with
  | literal l pos =>
    cases e' with
    | literal l' pos' =>
      simp only [isNameless_literal] at he he'
      simp only [compact, String.toList_append, List.append_assoc] at h
      obtain ⟨htext, hrest⟩ := Literal.sourceText_append_inj he he' (List.append_cancel_left h)
      exact ⟨congrArg Shape.literal htext, hrest⟩
    | unary | binary | grouping => simp [compact] at h
  | unary op pos operand ih =>
    cases e' with
    | unary op' pos' operand' =>
      simp only [isNameless_unary] at he he'
      simp only [compact, String.toList_append, List.append_assoc] at h
      obtain ⟨hop, hrest⟩ := Symbol.text_append_inj (List.append_cancel_left h)
      obtain ⟨hoperand, hclose⟩ := ih he he' (List.cons.inj hrest).2
      exact ⟨congrArg₂ Shape.unary hop hoperand, (List.cons.inj hclose).2⟩
    | literal | binary | grouping => simp [compact] at h
  | binary op pos left right ihl ihr =>
    cases e' with
    | binary op' pos' left' right' =>
      simp only [isNameless_binary, Bool.and_eq_true] at he he'
      simp only [compact, String.toList_append, List.append_assoc] at h
      obtain ⟨hop, hrest⟩ := Symbol.text_append_inj (List.append_cancel_left h)
      obtain ⟨hleft, hcomma⟩ := ihl he.1 he'.1 (List.cons.inj hrest).2
      obtain ⟨hright, hclose⟩ := ihr he.2 he'.2 (List.append_cancel_left hcomma)
      refine ⟨?_, (List.cons.inj hclose).2⟩
      rw [shape, shape, hop, hleft, hright]
    | literal | unary | grouping => simp [compact] at h
  | grouping operand ih =>
    cases e' with
    | grouping operand' =>
      simp only [isNameless_grouping] at he he'
      simp only [compact, String.toList_append, List.append_assoc] at h
      obtain ⟨hoperand, hclose⟩ := ih he he' (List.append_cancel_left h)
      exact ⟨congrArg Shape.grouping hoperand, (List.cons.inj hclose).2⟩
    | literal | unary | binary => simp [compact] at h

theorem compact_of_shape_eq {e e' : Expr} (h : e.shape = e'.shape) : e.compact = e'.compact := by
  refine sameShape_induction (P := fun e e' => e.compact = e'.compact) ?_ ?_ ?_ ?_ h
  · intro l l' pos pos' htext
    rw [compact, compact, htext]
  · intro op pos pos' e e' ih
    rw [compact, compact, ih]
  · intro op pos pos' left left' right right' ihl ihr
    rw [compact, compact, ihl, ihr]
  · intro e e' ih
    rw [compact, compact, ih]

/-! ### The dump line by line -/

def Node.title : Node → String
  | literal l _ => "Literal: " ++ l.sourceText
  | unary op _ => "Unary: " ++ op.text
  | binary op _ => "Binary: " ++ op.text
  | grouping => "Grouping"

/-- All nodes in preorder, each with the number of nodes above it. -/
def levels (above : Nat) : Expr → List (Nat × Node)
  | literal l pos => [(above, .literal l pos)]
  | unary op pos operand => (above, .unary op pos) :: operand.levels (above + 1)
  | binary op pos left right =>
    (above, .binary op pos) :: (left.levels (above + 1) ++ right.levels (above + 1))
  | grouping operand => (above, .grouping) :: operand.levels (above + 1)

theorem map_snd_levels (above : Nat) (e : Expr) : (e.levels above).map Prod.snd = e.preorder := by
  induction e generalizing above with
  | literal => rfl
  | unary op pos operand ih => simp [levels, preorder, ih]
  | binary op pos left right ihl ihr => simp [levels, preorder, ihl, ihr]
  | grouping operand ih => simp [levels, preorder, ih]

def Node.line (indent above : Nat) (node : Node) : String :=
  spaces (indent + 2 * above) ++ node.title

theorem prettyLines_eq (indent above : Nat) (e : Expr) :
    e.prettyLines (indent + 2 * above) =
      (e.levels above).map fun level => level.2.line indent level.1 := by
  have hstep : ∀ n, indent + 2 * n + 2 = indent + 2 * (n + 1) := by
    intro n
    omega
  induction e generalizing above with
  | literal =>
    rw [prettyLines, String.append_assoc]
    rfl
  | unary op pos operand ih =>
    rw [prettyLines, levels, List.map_cons, hstep, ih, String.append_assoc]
    rfl
  | binary op pos left right ihl ihr =>
    rw [prettyLines, levels, List.map_cons, List.map_append, hstep, ihl, ihr, String.append_assoc]
    rfl
  | grouping operand ih =>
    rw [prettyLines, levels, List.map_cons, hstep, ih]
    rfl

theorem Node.unbroken_title {node : Node} (h : node.isNameless = true) :
    Unbroken node.title.toList := by
  cases node with
  | literal l pos =>
    have hstart : Unbroken "Literal: ".toList := .of_all rfl
    rw [title, String.toList_append]
    exact hstart.append (Literal.unbroken_sourceText h)
  | unary op pos =>
    have hstart : Unbroken "Unary: ".toList := .of_all rfl
    rw [title, String.toList_append]
    exact hstart.append op.unbroken_text
  | binary op pos =>
    have hstart : Unbroken "Binary: ".toList := .of_all rfl
    rw [title, String.toList_append]
    exact hstart.append op.unbroken_text
  | grouping => exact .of_all rfl

theorem unbroken_spaces (n : Nat) : Unbroken (spaces n).toList := by
  intro c hc
  rw [spaces, String.toList_ofList] at hc
  rw [List.eq_of_mem_replicate hc]
  rfl

theorem unbroken_prettyLines {e : Expr} (h : e.isNameless = true) (indent : Nat) :
    ∀ line ∈ e.prettyLines indent, Unbroken line.toList := by
  intro line hline
  have hlines := prettyLines_eq indent 0 e
  rw [Nat.mul_zero, Nat.add_zero] at hlines
  rw [hlines] at hline
  obtain ⟨level, hlevel, rfl⟩ := List.mem_map.1 hline
  have hnode : level.2 ∈ e.preorder := map_snd_levels 0 e ▸ List.mem_map_of_mem hlevel
  have htitle := Node.unbroken_title (List.all_eq_true.1 h level.2 hnode)
  rw [Node.line, String.toList_append]
  exact (unbroken_spaces _).append htitle

theorem splitLines_pretty {e : Expr} (h : e.isNameless = true) (indent : Nat) :
    Text.splitLines (e.pretty indent).toList = (e.prettyLines indent).map String.toList :=
  Text.splitLines_join (unbroken_prettyLines h indent)

theorem prettyLines_append_inj {e e' : Expr} {indent : Nat} {x y : List String}
    (h : e.prettyLines indent ++ x = e'.prettyLines indent ++ y) :
    e.shape = e'.shape ∧ x = y := by
  induction e generalizing e' indent x y with
  | literal l pos =>
    cases e' with
    | literal l' pos' =>
      obtain ⟨hline, hrest⟩ := List.cons.inj h
      exact ⟨congrArg Shape.literal (String.append_right_inj _ |>.1 hline), hrest⟩
    | unary | binary | grouping =>
      exact absurd (congrArg String.toList (List.cons.inj h).1) (by simp)
  | unary op pos operand ih =>
    cases e' with
    | unary op' pos' operand' =>
      obtain ⟨hline, hrest⟩ := List.cons.inj h
      have hop := Symbol.text_inj (String.append_right_inj _ |>.1 hline)
      obtain ⟨hoperand, htail⟩ := ih hrest
      exact ⟨congrArg₂ Shape.unary hop hoperand, htail⟩
    | literal | binary | grouping =>
      exact absurd (congrArg String.toList (List.cons.inj h).1) (by simp)
  | binary op pos left right ihl ihr =>
    cases e' with
    | binary op' pos' left' right' =>
      rw [prettyLines, prettyLines, List.cons_append, List.cons_append, List.append_assoc,
        List.append_assoc] at h
      obtain ⟨hline, hrest⟩ := List.cons.inj h
      have hop := Symbol.text_inj (String.append_right_inj _ |>.1 hline)
      obtain ⟨hleft, hrest⟩ := ihl hrest
      obtain ⟨hright, htail⟩ := ihr hrest
      refine ⟨?_, htail⟩
      rw [shape, shape, hop, hleft, hright]
    | literal | unary | grouping =>
      exact absurd (congrArg String.toList (List.cons.inj h).1) (by simp)
  | grouping operand ih =>
    cases e' with
    | grouping operand' =>
      obtain ⟨hoperand, htail⟩ := ih (List.cons.inj h).2
      exact ⟨congrArg Shape.grouping hoperand, htail⟩
    | literal | unary | binary =>
      exact absurd (congrArg String.toList (List.cons.inj h).1) (by simp)

theorem prettyLines_of_shape_eq {e e' : Expr} (h : e.shape = e'.shape) (indent : Nat) :
    e.prettyLines indent = e'.prettyLines indent := by
  refine sameShape_induction
    (P := fun e e' => ∀ indent, e.prettyLines indent = e'.prettyLines indent) ?_ ?_ ?_ ?_ h indent
  · intro l l' pos pos' htext indent
    rw [prettyLines, prettyLines, htext]
  · intro op pos pos' e e' ih indent
    rw [prettyLines, prettyLines, ih]
  · intro op pos pos' left left' right right' ihl ihr indent
    rw [prettyLines, prettyLines, ihl, ihr]
  · intro e e' ih indent
    rw [prettyLines, prettyLines, ih]

/-- Dumps can be read back. For trees of numbers, strings and void values, both forms say exactly what
the shape of the tree is. A reader who breaks the long form at every line break finds one line for
each node in preorder, two columns further in for each node above it, and no line holds a line break,
whatever the strings are made of. -/
theorem dumps_determine_shape {e e' : Expr} (h : e.isNameless = true) (h' : e'.isNameless = true)
    (indent : Nat) :
    (e.compact = e'.compact ↔ e.shape = e'.shape) ∧
    (e.pretty indent = e'.pretty indent ↔ e.shape = e'.shape) ∧
    Text.splitLines (e.pretty indent).toList = (e.levels 0).map (fun level =>
      (spaces (indent + 2 * level.1) ++ level.2.title).toList) ∧
    (e.levels 0).map Prod.snd = e.preorder ∧
    ∀ line ∈ e.prettyLines indent, ∀ c ∈ line.toList, isLineBreak c = false := by
  refine ⟨⟨fun heq => ?_, compact_of_shape_eq⟩, ⟨fun heq => ?_, fun heq => ?_⟩, ?_,
    map_snd_levels 0 e, unbroken_prettyLines h indent⟩
  · exact (compact_append_inj h h' (congrArg (·.toList ++ []) heq)).1
  · have hlines := congrArg (Text.splitLines ·.toList) heq
    simp only [splitLines_pretty h, splitLines_pretty h'] at hlines
    have hsame := (List.map_inj_right fun _ _ => String.toList_inj.1).1 hlines
    exact (prettyLines_append_inj (congrArg (· ++ []) hsame)).1
  · rw [pretty, pretty, prettyLines_of_shape_eq heq]
  · have hlines := prettyLines_eq indent 0 e
    rw [Nat.mul_zero, Nat.add_zero] at hlines
    rw [splitLines_pretty h, hlines, List.map_map]
    rfl

theorem dumps_determine_shape_quotedDump :
    (grouping (literal (.string "1), Literal(2\u2028") ⟨1, 2⟩)).isNameless = true ∧
    (binary .comma ⟨1, 3⟩ (literal .void ⟨1, 1⟩) (literal (.string "\"") ⟨1, 5⟩)).isNameless = true ∧
    (grouping (literal (.string "1), Literal(2\u2028") ⟨1, 2⟩)).compact ≠
      (binary .comma ⟨1, 3⟩ (literal .void ⟨1, 1⟩) (literal (.string "\"") ⟨1, 5⟩)).compact ∧
    Text.splitLines ((grouping (literal (.string "1), Literal(2\u2028") ⟨1, 2⟩)).pretty 1).toList =
      [" Grouping".toList, "   Literal: \"1), Literal(2\\u2028\"".toList] := by
  have hgroup : (grouping (literal (.string "1), Literal(2\u2028") ⟨1, 2⟩)).isNameless = true := rfl
  have hbinary : (binary .comma ⟨1, 3⟩ (literal .void ⟨1, 1⟩)
      (literal (.string "\"") ⟨1, 5⟩)).isNameless = true := rfl
  obtain ⟨hcompact, -, hlines, -⟩ := dumps_determine_shape hgroup hbinary 1
  refine ⟨hgroup, hbinary, fun heq => ?_, ?_⟩
  · cases hcompact.1 heq
  · rw [hlines]
    decide +kernel

end Expr

end ExprLang
