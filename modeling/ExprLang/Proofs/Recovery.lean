import ExprLang.Proofs.Grammar
import ExprLang.Proofs.ParserMoves

/-! # Recovery keeps to the tokens

However broken the source is, the tree is made of its tokens: operators and literals stand in the tree
in the order of the source, none of them twice, and nothing but placeholders is added. The invariant
is about what has been read: the stack and the operand in hand hold a sublist of the tokens so far,
and have no more operators and groups than there were tokens. -/

namespace ExprLang

def Token.isVoid : Token → Bool
  | literal .void _ => true
  | _ => false

namespace Expr.Node

def isLiteral : Node → Bool
  | literal _ _ => true
  | _ => false

/-- The nodes that a tree may have: literals other than identifiers, and operators of the grammar. -/
def IsAllowed : Node → Prop
  | literal l _ => l.isOperand = true
  | unary op _ => op ∈ Grammar.unaryOperators
  | binary op _ => ∃ n, op ∈ Grammar.operators n
  | grouping => True

end Expr.Node

namespace Parse

/-! ### The tokens in a phase -/

def Frame.inorder : Frame → List Token
  | unary op pos => [.symbol op pos]
  | binary _ left op pos => left.inorder ++ [.symbol op pos]
  | group _ _ => []

def stackInorder : List Frame → List Token
  | [] => []
  | frame :: stack => stackInorder stack ++ frame.inorder

def Phase.inorder : Phase → List Token
  | operand stack => stackInorder stack
  | operator stack e => stackInorder stack ++ e.inorder
  | trailing root _ => root.inorder

theorem inorder_reduce (level : Nat) (stack : List Frame) (e : Expr) :
    stackInorder (reduce level stack e).1 ++ (reduce level stack e).2.inorder =
      stackInorder stack ++ e.inorder := by
  refine reduce_invariant (P := fun s x =>
    stackInorder s ++ x.inorder = stackInorder stack ++ e.inorder) ?_ ?_ level rfl
  · intro op pos s x h
    simpa [stackInorder, Frame.inorder, Expr.inorder] using h
  · intro l left op pos s x h
    simpa [stackInorder, Frame.inorder, Expr.inorder] using h

theorem inorder_unwind (stack : List Frame) (e : Expr) :
    (unwind stack e).1.inorder = stackInorder stack ++ e.inorder := by
  induction stack generalizing e with
  | nil => rfl
  | cons frame stack ih =>
    cases frame <;> simp [unwind, ih, stackInorder, Frame.inorder, Expr.inorder]

theorem inorder_closeGroup (stack : List Frame) (e : Expr) :
    (closeGroup stack e).inorder = stackInorder stack ++ e.inorder := by
  rw [← inorder_reduce 0 stack e]
  unfold closeGroup
  split
  · next h => simp [h, Phase.inorder, stackInorder, Frame.inorder, Expr.inorder]
  · next h => simp [h, Phase.inorder]

theorem Shifts.inorder_sublist {phase next : Phase} {t : Token} (h : Shifts phase t next) :
    next.inorder.Sublist (phase.inorder ++ [t]) := by
  cases h with
  | literal => exact List.Sublist.refl _
  | unary => exact List.Sublist.refl _
  | opener => simp [Phase.inorder, stackInorder, Frame.inorder]
  | @binary stack e s pos level =>
    have hreduce : (Phase.operand (.binary level (reduce level stack e).2 s pos ::
        (reduce level stack e).1)).inorder = (Phase.operator stack e).inorder ++ [.symbol s pos] := by
      simp [Phase.inorder, stackInorder, Frame.inorder, ← inorder_reduce level stack e]
    exact hreduce ▸ List.Sublist.refl _
  | @closer stack e s pos =>
    rw [inorder_closeGroup]
    exact List.sublist_append_left _ _

/-- The tokens of a phase without void literals, which may be placeholders. -/
def Phase.solid (phase : Phase) : List Token := phase.inorder.filter (!·.isVoid)

theorem solid_sublist {phase next : Phase} {t : Token}
    (h : next.inorder.Sublist (phase.inorder ++ [t])) : next.solid.Sublist (phase.solid ++ [t]) := by
  have hfilter := h.filter (!·.isVoid)
  rw [List.filter_append] at hfilter
  exact hfilter.trans ((List.Sublist.refl _).append List.filter_sublist)

theorem solid_placeholder (stack : List Frame) (pos : Position) :
    (Phase.operator stack (.placeholder pos)).solid = (Phase.operand stack).solid := by
  simp [Phase.solid, Phase.inorder, Expr.placeholder, Expr.inorder, Token.isVoid]

theorem Moves.solid_sublist {trail : TokenTrail} {phase next : Phase} {t : Token}
    {ds : List Diagnostic} (h : Moves trail phase t next ds) :
    next.solid.Sublist (phase.solid ++ [t]) := by
  cases h with
  | shift hshift => exact Parse.solid_sublist hshift.inorder_sublist
  | stray | invalidTrailing | past | unexpected => exact List.sublist_append_left _ _
  | @misplaced stack t pos =>
    rw [solid_placeholder]
    exact List.sublist_append_left _ _
  | @omitted stack t pos next _ _ hshift =>
    rw [← solid_placeholder stack pos]
    exact Parse.solid_sublist hshift.inorder_sublist
  | @invalidOperand stack =>
    rw [solid_placeholder]
    exact List.sublist_append_left _ _
  | @leave stack e | @leaveInvalid stack e =>
    refine Parse.solid_sublist ?_
    simp only [Phase.inorder, inorder_unwind]
    exact List.sublist_append_left _ _

/-! ### The nodes in a phase -/

def Frame.nodes : Frame → List Expr.Node
  | unary op pos => [.unary op pos]
  | binary _ left op pos => .binary op pos :: left.preorder
  | group _ _ => [.grouping]

def Phase.nodes : Phase → List Expr.Node
  | operand stack => stack.flatMap Frame.nodes
  | operator stack e => stack.flatMap Frame.nodes ++ e.preorder
  | trailing root _ => root.preorder

/-- Putting a node on top of an operand keeps all nodes. -/
theorem Frame.nodes_perm_unary (op : Symbol) (pos : Position) (stack : List Frame) (e : Expr) :
    (stack.flatMap nodes ++ (Expr.unary op pos e).preorder).Perm
      ((Frame.unary op pos :: stack).flatMap nodes ++ e.preorder) := by
  simp only [Expr.preorder, List.flatMap_cons, nodes]
  exact List.perm_middle

theorem Frame.nodes_perm_binary (level : Nat) (left : Expr) (op : Symbol) (pos : Position)
    (stack : List Frame) (e : Expr) :
    (stack.flatMap nodes ++ (Expr.binary op pos left e).preorder).Perm
      ((Frame.binary level left op pos :: stack).flatMap nodes ++ e.preorder) := by
  simp only [Expr.preorder, List.flatMap_cons, nodes, ← List.append_assoc, ← List.cons_append]
  exact List.perm_append_comm.append_right _

theorem Frame.nodes_perm_group (delimiter : Delimiter) (pos : Position) (stack : List Frame)
    (e : Expr) :
    (stack.flatMap nodes ++ (Expr.grouping e).preorder).Perm
      ((Frame.group delimiter pos :: stack).flatMap nodes ++ e.preorder) := by
  simp only [Expr.preorder, List.flatMap_cons, nodes]
  exact List.perm_middle

theorem nodes_reduce (level : Nat) (stack : List Frame) (e : Expr) :
    ((reduce level stack e).1.flatMap Frame.nodes ++ (reduce level stack e).2.preorder).Perm
      (stack.flatMap Frame.nodes ++ e.preorder) := by
  refine reduce_invariant (P := fun s x =>
    (s.flatMap Frame.nodes ++ x.preorder).Perm (stack.flatMap Frame.nodes ++ e.preorder))
    ?_ ?_ level (List.Perm.refl _)
  · intro op pos s x h
    exact (Frame.nodes_perm_unary op pos s x).trans h
  · intro l left op pos s x h
    exact (Frame.nodes_perm_binary l left op pos s x).trans h

theorem nodes_unwind (stack : List Frame) (e : Expr) :
    (unwind stack e).1.preorder.Perm (stack.flatMap Frame.nodes ++ e.preorder) := by
  induction stack generalizing e with
  | nil => exact List.Perm.refl _
  | cons frame stack ih =>
    cases frame with
    | unary op pos => exact (ih _).trans (Frame.nodes_perm_unary op pos stack e)
    | binary l left op pos => exact (ih _).trans (Frame.nodes_perm_binary l left op pos stack e)
    | group delimiter pos => exact (ih _).trans (Frame.nodes_perm_group delimiter pos stack e)

theorem nodes_closeGroup (stack : List Frame) (e : Expr) :
    (closeGroup stack e).nodes.Perm (stack.flatMap Frame.nodes ++ e.preorder) := by
  refine List.Perm.trans ?_ (nodes_reduce 0 stack e)
  unfold closeGroup
  split
  · next delimiter pos rest inner h =>
    rw [h]
    exact Frame.nodes_perm_group delimiter pos rest inner
  · next h => rw [h]; exact List.Perm.refl _

/-- The nodes of a later phase are those of an earlier one and a few new ones, of which at most one is an
operator or a group. -/
def Grows (before after : List Expr.Node) : Prop :=
  ∃ new, after.Perm (before ++ new) ∧ (∀ node ∈ new, node.IsAllowed) ∧
    new.countP (!·.isLiteral) ≤ 1

theorem Grows.of_perm {before after : List Expr.Node} (h : after.Perm before) :
    Grows before after :=
  ⟨[], by simpa using h, by simp, by simp⟩

theorem Grows.single {before after : List Expr.Node} {node : Expr.Node}
    (h : after.Perm (node :: before)) (hallowed : node.IsAllowed) : Grows before after :=
  ⟨[node], h.trans (List.perm_append_singleton node before).symm, by simpa using hallowed,
    List.countP_le_length⟩

theorem Shifts.grows {phase next : Phase} {t : Token} (h : Shifts phase t next) :
    Grows phase.nodes next.nodes := by
  cases h with
  | @literal stack l pos hl => exact .single List.perm_append_comm hl
  | @unary stack s pos hs => exact .single (List.Perm.refl _) (Symbol.isPrefixOperator_iff.1 hs)
  | opener => exact .single (List.Perm.refl _) trivial
  | @binary stack e s pos level hs =>
    have hallowed : (Expr.Node.binary s pos).IsAllowed := ⟨level, Symbol.level?_eq_some_iff.1 hs⟩
    refine .single ?_ hallowed
    exact (List.perm_append_comm.trans (nodes_reduce level stack e)).cons _
  | @closer stack e => exact .of_perm (nodes_closeGroup stack e)

theorem Grows.placeholder {stack : List Frame} {pos : Position} {after : List Expr.Node}
    (h : Grows (Phase.operator stack (.placeholder pos)).nodes after) :
    Grows (Phase.operand stack).nodes after := by
  obtain ⟨new, hperm, hallowed, hcount⟩ := h
  refine ⟨.literal .void pos :: new, ?_, ?_, by simpa [Expr.Node.isLiteral] using hcount⟩
  · simpa [Phase.nodes, Expr.placeholder, Expr.preorder] using hperm
  · simpa [Expr.Node.IsAllowed, Literal.isOperand] using hallowed

theorem Moves.grows {trail : TokenTrail} {phase next : Phase} {t : Token} {ds : List Diagnostic}
    (h : Moves trail phase t next ds) : Grows phase.nodes next.nodes := by
  cases h with
  | shift hshift => exact hshift.grows
  | stray | invalidTrailing | past | unexpected => exact .of_perm (List.Perm.refl _)
  | misplaced | invalidOperand => exact Grows.placeholder (.of_perm (List.Perm.refl _))
  | omitted _ _ hshift => exact Grows.placeholder hshift.grows
  | leave | leaveInvalid => exact .of_perm (nodes_unwind _ _)

/-! ### Whole runs -/

structure KeepsTo (phase : Phase) (us : List Token) : Prop where
  solid : phase.solid.Sublist us
  allowed : ∀ node ∈ phase.nodes, node.IsAllowed
  count : phase.nodes.countP (!·.isLiteral) ≤ us.length

theorem KeepsTo.move {trail : TokenTrail} {phase next : Phase} {t : Token} {ds : List Diagnostic}
    {us : List Token} (h : KeepsTo phase us) (hmove : Moves trail phase t next ds) :
    KeepsTo next (us ++ [t]) := by
  obtain ⟨new, hperm, hallowed, hcount⟩ := hmove.grows
  refine ⟨hmove.solid_sublist.trans (h.solid.append (List.Sublist.refl _)), ?_, ?_⟩
  · intro node hnode
    rcases List.mem_append.1 (hperm.mem_iff.1 hnode) with hold | hnew
    · exact h.allowed node hold
    · exact hallowed node hnew
  · have hold := h.count
    rw [hperm.countP_eq, List.countP_append, List.length_append, List.length_singleton]
    omega

theorem KeepsTo.placeholder {stack : List Frame} {us : List Token} (h : KeepsTo (.operand stack) us)
    (pos : Position) : KeepsTo (.operator stack (.placeholder pos)) us where
  solid := by
    rw [solid_placeholder]
    exact h.solid
  allowed := by
    intro node hnode
    rcases List.mem_append.1 hnode with hold | hnew
    · exact h.allowed node hold
    · rw [List.mem_singleton.1 hnew]
      rfl
  count := by
    have hcount := h.count
    simpa [Phase.nodes, Expr.placeholder, Expr.preorder, Expr.Node.isLiteral] using hcount

theorem KeepsTo.unwind {stack : List Frame} {e : Expr} {us : List Token}
    (h : KeepsTo (.operator stack e) us) (reported : Bool) :
    KeepsTo (.trailing (Parse.unwind stack e).1 reported) us where
  solid := by
    simp only [Phase.solid, Phase.inorder, inorder_unwind]
    exact h.solid
  allowed := by
    intro node hnode
    exact h.allowed node ((nodes_unwind stack e).mem_iff.1 hnode)
  count := by
    simp only [Phase.nodes, (nodes_unwind stack e).countP_eq]
    exact h.count

theorem KeepsTo.finish {phase : Phase} {us : List Token} (h : KeepsTo phase us) (trail : TokenTrail)
    (eof : Position) : KeepsTo (.trailing (Parse.finish trail eof phase).1 true) us := by
  cases phase with
  | operand stack => exact (h.placeholder eof).unwind true
  | operator stack e => exact h.unwind true
  | trailing root reported => exact ⟨h.solid, h.allowed, h.count⟩

theorem keepsTo_parse (tokens : List Token) :
    KeepsTo (.trailing (Tree.parse tokens).1.root true) (Token.body tokens) := by
  have hstart : KeepsTo (.operand []) [] :=
    ⟨List.Sublist.refl _, by simp [Phase.nodes], by simp [Phase.nodes]⟩
  have hsteps := steps_invariant (P := fun phase us _ => KeepsTo phase us) KeepsTo.move [] []
    hstart TokenTrail.start (Token.body tokens)
  unfold Tree.parse
  rw [run_eq]
  exact hsteps.finish _ _

end Parse

namespace Tree

/-- Recovery never invents, duplicates or reorders tokens. Whatever the tokens are, the operators and
the literals of the tree, void ones aside, are tokens from before the end of file in their order; all
operators are those of the grammar and no literal is an identifier; and there are at most as many
operators and groups as tokens. -/
theorem parse_keeps_to_tokens (tokens : List Token) :
    ((parse tokens).1.root.inorder.filter (!·.isVoid)).Sublist (Token.body tokens) ∧
    (∀ op pos, .unary op pos ∈ (parse tokens).1.root.preorder → op ∈ Grammar.unaryOperators) ∧
    (∀ op pos, .binary op pos ∈ (parse tokens).1.root.preorder →
      ∃ n, op ∈ Grammar.operators n) ∧
    (∀ name pos, .literal (.identifier name) pos ∉ (parse tokens).1.root.preorder) ∧
    (parse tokens).1.root.preorder.countP (!·.isLiteral) ≤ (Token.body tokens).length := by
  obtain ⟨hsolid, hallowed, hcount⟩ := Parse.keepsTo_parse tokens
  refine ⟨hsolid, fun op pos h => hallowed _ h, fun op pos h => hallowed _ h, ?_, hcount⟩
  intro name pos h
  have hoperand : (Literal.identifier name).isOperand = true := hallowed _ h
  simp [Literal.isOperand] at hoperand

end Tree

end ExprLang
