import ExprLang.Proofs.DirectEvaluation
import ExprLang.Proofs.TypeChecking

/-! # String expressions

An expression is a string exactly if it is built from strings and names by `+` and groups alone.
Nothing in it can fail, and its value is the join of its leaves, however they were put together. -/

namespace ExprLang.Expr

def leaves : Expr → List Literal
  | literal l _ => [l]
  | unary _ _ operand => operand.leaves
  | binary _ _ left right => left.leaves ++ right.leaves
  | grouping operand => operand.leaves

def joinedLeaves (e : Expr) : String := String.join (e.leaves.map Literal.lexeme)

def Node.isOfStrings : Node → Bool
  | literal l _ => l.value.type = .string
  | unary _ _ => false
  | binary op _ => op = .plus
  | grouping => true

theorem hasType_string_iff {e : Expr} :
    HasType e .string ↔ ∀ node ∈ e.preorder, node.isOfStrings = true := by
  induction e with
  | literal l pos =>
    rw [preorder, List.forall_mem_singleton, Node.isOfStrings, decide_eq_true_iff]
    constructor
    · intro h
      cases h with
      | string | identifier => rfl
    · intro h
      cases l with
      | string => exact .string
      | identifier => exact .identifier
      | number | void => cases h
  | unary s pos operand ih =>
    constructor
    · intro h
      cases h
    · intro h
      exact absurd (h _ List.mem_cons_self) Bool.false_ne_true
  | binary s pos left right ihl ihr =>
    rw [preorder, List.forall_mem_cons, List.forall_mem_append, ← ihl, ← ihr, Node.isOfStrings,
      decide_eq_true_iff]
    constructor
    · intro h
      cases h with
      | concatenation hl hr => exact ⟨rfl, hl, hr⟩
    · rintro ⟨rfl, hl, hr⟩
      exact .concatenation hl hr
  | grouping operand ih =>
    rw [preorder, List.forall_mem_cons, ← ih]
    constructor
    · intro h
      cases h with
      | grouping h => exact ⟨rfl, h⟩
    · rintro ⟨-, h⟩
      exact .grouping h

theorem joinedLeaves_binary (s : Symbol) (pos : Position) (l r : Expr) :
    (binary s pos l r).joinedLeaves = l.joinedLeaves ++ r.joinedLeaves := by
  rw [joinedLeaves, leaves, List.map_append, String.join_append]
  rfl

theorem joinedLeaves_literal (l : Literal) (pos : Position) :
    (literal l pos).joinedLeaves = l.lexeme := by
  rw [joinedLeaves, leaves, List.map_singleton]
  simp

theorem evaluateDirectly_of_string {e : Expr} (h : HasType e .string) :
    e.evaluateDirectly = .ok (.string e.joinedLeaves) := by
  induction e with
  | literal l pos =>
    rw [joinedLeaves_literal]
    cases h with
    | string | identifier => rfl
  | unary => cases h
  | binary s pos left right ihl ihr =>
    cases h with
    | concatenation hl hr =>
      have hrow : BinaryOperator.resolve .plus pos .string .string =
          .ok ⟨.concatenation, .plus, .string, .string, .string⟩ := rfl
      rw [joinedLeaves_binary]
      simp only [evaluateDirectly, ihl hl, ihr hr, Bind.bind, Except.bind, Value.type, hrow]
      rfl
  | grouping operand ih =>
    cases h with
    | grouping h => exact ih h

theorem evaluate_of_string {e : Expr} {b : Typed} (hbind : e.bind = .ok b)
    (htype : b.type = .string) : e.evaluate = .ok (.string e.joinedLeaves) := by
  rw [evaluate_of_bind_ok hbind]
  exact evaluateDirectly_of_string (hasType_iff_bind.2 ⟨b, hbind, htype⟩)

/-- An expression of type string always has a value, the join of its leaves, all of which are
strings or names. Two such expressions with the same texts at their leaves have the same value. -/
theorem string_evaluates_to_leaves (e : Expr) (b : Typed) (hbind : e.bind = .ok b)
    (htype : b.type = .string) :
    e.evaluate = .ok (.string (String.join (e.leaves.map Literal.lexeme))) ∧
    (∀ node ∈ e.preorder, node.isOfStrings = true) ∧
    ∀ (e' : Expr) (b' : Typed), e'.bind = .ok b' → b'.type = .string →
      e'.leaves.map Literal.lexeme = e.leaves.map Literal.lexeme → e'.evaluate = e.evaluate := by
  refine ⟨evaluate_of_string hbind htype,
    hasType_string_iff.1 (hasType_iff_bind.2 ⟨b, hbind, htype⟩), ?_⟩
  intro e' b' hbind' htype' hleaves
  rw [evaluate_of_string hbind htype, evaluate_of_string hbind' htype', joinedLeaves, joinedLeaves,
    hleaves]

/-- `("a" + b) + "c"`, where `b` is a name. -/
def groupedLeft : Expr :=
  .binary .plus ⟨1, 11⟩
    (.grouping (.binary .plus ⟨1, 6⟩ (.literal (.string "a") ⟨1, 2⟩)
      (.literal (.identifier "b") ⟨1, 8⟩)))
    (.literal (.string "c") ⟨1, 13⟩)

/-- `"a" + {b + "c"}` -/
def groupedRight : Expr :=
  .binary .plus ⟨1, 5⟩ (.literal (.string "a") ⟨1, 1⟩)
    (.grouping (.binary .plus ⟨1, 10⟩ (.literal (.identifier "b") ⟨1, 8⟩)
      (.literal (.string "c") ⟨1, 12⟩)))

theorem string_evaluates_to_leaves_groupedLeft :
    (∃ b, groupedLeft.bind = .ok b ∧ b.type = .string) ∧
    groupedLeft.evaluate = .ok (.string "abc") ∧ groupedRight.evaluate = groupedLeft.evaluate := by
  obtain ⟨hvalue, -, halike⟩ := string_evaluates_to_leaves groupedLeft _ rfl rfl
  exact ⟨⟨_, rfl, rfl⟩, hvalue, halike groupedRight _ rfl rfl rfl⟩

end ExprLang.Expr
