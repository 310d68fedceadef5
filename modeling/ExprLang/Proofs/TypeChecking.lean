import ExprLang.Proofs.Binding

/-! # Binding decides typing

An expression can be bound exactly if it has a type. If it has none, binding blames the first part
of it, operands before their operator and left before right, whose operands have types but whose
operator has no row for them. -/

namespace ExprLang

namespace Typing

/-- The symbols that stand before an operand of some type. -/
def unaryOperators : List Symbol := [.minus, .exclamation]

/-- The symbols that stand between operands of some types. -/
def binaryOperators : List Symbol := arithmetic ++ comparison ++ equality

end Typing

/-! ### Rows of the tables and rules of typing -/

namespace UnaryOperator

theorem isKnown_iff {s : Symbol} : isKnown s = true ↔ s ∈ Typing.unaryOperators := by
  simp only [isKnown, List.any_eq_true, decide_eq_true_eq]
  constructor
  · rintro ⟨op, hop, rfl⟩
    revert op
    decide
  · revert s
    decide

theorem lookup?_of_mem : ∀ op ∈ table, lookup? op.symbol op.operand = some op := by decide

theorem hasType_of_row {op : UnaryOperator} (h : op ∈ table) {e : Expr} (he : HasType e op.operand)
    (pos : Position) : HasType (.unary op.symbol pos e) op.result := by
  simp only [table, List.mem_cons, List.not_mem_nil, or_false] at h
  rcases h with rfl | rfl
  · exact .negation he
  · exact .logicalNot he

end UnaryOperator

namespace BinaryOperator

theorem isKnown_iff {s : Symbol} : isKnown s = true ↔ s ∈ Typing.binaryOperators := by
  simp only [isKnown, List.any_eq_true, decide_eq_true_eq]
  constructor
  · rintro ⟨op, hop, rfl⟩
    revert op
    decide
  · revert s
    decide

theorem lookup?_of_mem : ∀ op ∈ table, lookup? op.symbol op.left op.right = some op := by decide

theorem hasType_of_row {op : BinaryOperator} (h : op ∈ table) {l r : Expr} (hl : HasType l op.left)
    (hr : HasType r op.right) (pos : Position) :
    HasType (.binary op.symbol pos l r) op.result := by
  simp only [table, List.mem_cons, List.not_mem_nil, or_false] at h
  rcases h with rfl | rfl | rfl | rfl | rfl | rfl | rfl | rfl | rfl | rfl | rfl | rfl | rfl | rfl
  iterate 5
    · exact .arithmetic (by decide) hl hr
  iterate 4
    · exact .comparison (by decide) hl hr
  · exact .numberEquality (by decide) hl hr
  · exact .numberEquality (by decide) hl hr
  · exact .concatenation hl hr
  · exact .booleanEquality (by decide) hl hr
  · exact .booleanEquality (by decide) hl hr

end BinaryOperator

theorem Binds.hasType {e : Expr} {b : Typed} (h : Binds e b) : HasType e b.type := by
  induction h with
  | @literal l pos =>
    cases l with
    | identifier => exact .identifier
    | string => exact .string
    | number => exact .number
    | void => exact .void
  | @unary s pos e b op _ hop ih =>
    obtain ⟨hrow, rfl, hoperand⟩ := UnaryOperator.lookup?_eq_some hop
    rw [← hoperand] at ih
    exact UnaryOperator.hasType_of_row hrow ih pos
  | @binary s pos l r bl br op _ _ hop ihl ihr =>
    obtain ⟨hrow, rfl, hleft, hright⟩ := BinaryOperator.lookup?_eq_some hop
    rw [← hleft] at ihl
    rw [← hright] at ihr
    exact BinaryOperator.hasType_of_row hrow ihl ihr pos
  | grouping _ ih => exact .grouping ih

/-! ### Expressions with a type -/

theorem exists_binds_unary {s : Symbol} {pos : Position} {e : Expr} {t u : DataType}
    (he : ∃ b, Binds e b ∧ b.type = t)
    (hrow : (UnaryOperator.lookup? s t).map UnaryOperator.result = some u) :
    ∃ b, Binds (.unary s pos e) b ∧ b.type = u := by
  obtain ⟨b, hb, rfl⟩ := he
  obtain ⟨op, hop, rfl⟩ := Option.map_eq_some_iff.1 hrow
  exact ⟨.unary op pos b, .unary hb hop, rfl⟩

theorem exists_binds_binary {s : Symbol} {pos : Position} {l r : Expr} {t u v : DataType}
    (hl : ∃ b, Binds l b ∧ b.type = t) (hr : ∃ b, Binds r b ∧ b.type = u)
    (hrow : (BinaryOperator.lookup? s t u).map BinaryOperator.result = some v) :
    ∃ b, Binds (.binary s pos l r) b ∧ b.type = v := by
  obtain ⟨bl, hbl, rfl⟩ := hl
  obtain ⟨br, hbr, rfl⟩ := hr
  obtain ⟨op, hop, rfl⟩ := Option.map_eq_some_iff.1 hrow
  exact ⟨.binary op pos bl br, .binary hbl hbr hop, rfl⟩

theorem HasType.exists_binds {e : Expr} {t : DataType} (h : HasType e t) :
    ∃ b, Binds e b ∧ b.type = t := by
  induction h with
  | number | string | identifier | void => exact ⟨_, .literal, rfl⟩
  | grouping _ ih =>
    obtain ⟨b, hb, htype⟩ := ih
    exact ⟨.grouping b, .grouping hb, htype⟩
  | negation _ ih => exact exists_binds_unary ih rfl
  | logicalNot _ ih => exact exists_binds_unary ih rfl
  | @arithmetic s _ _ _ _ _ _ ihl ihr | @comparison s _ _ _ _ _ _ ihl ihr
  | @numberEquality s _ _ _ _ _ _ ihl ihr | @booleanEquality s _ _ _ _ _ _ ihl ihr =>
    refine exists_binds_binary ihl ihr ?_
    revert s
    decide
  | concatenation _ _ ihl ihr => exact exists_binds_binary ihl ihr rfl

theorem Binds.bind_eq {e : Expr} {b : Typed} (h : Binds e b) : e.bind = .ok b := by
  induction h with
  | literal => rfl
  | @unary s pos e b op _ hop ih =>
    have hresolve : UnaryOperator.resolve s pos b.type = .ok op :=
      UnaryOperator.resolve_eq_ok_iff.2 hop
    simp only [Expr.bind, ih, bind, Except.bind, hresolve, pure, Except.pure]
  | @binary s pos l r bl br op _ _ hop ihl ihr =>
    have hresolve : BinaryOperator.resolve s pos bl.type br.type = .ok op :=
      BinaryOperator.resolve_eq_ok_iff.2 hop
    simp only [Expr.bind, ihl, ihr, bind, Except.bind, hresolve, pure, Except.pure]
  | grouping _ ih => simp only [Expr.bind, ih, bind, Except.bind, pure, Except.pure]

theorem hasType_iff_bind {e : Expr} {t : DataType} :
    HasType e t ↔ ∃ b, e.bind = .ok b ∧ b.type = t := by
  constructor
  · intro h
    obtain ⟨b, hb, htype⟩ := h.exists_binds
    exact ⟨b, hb.bind_eq, htype⟩
  · rintro ⟨b, hb, rfl⟩
    exact (binds_of_bind hb).hasType

theorem HasType.unique {e : Expr} {t u : DataType} (ht : HasType e t) (hu : HasType e u) :
    t = u := by
  obtain ⟨b, hb, rfl⟩ := hasType_iff_bind.1 ht
  obtain ⟨b', hb', rfl⟩ := hasType_iff_bind.1 hu
  rw [hb] at hb'
  rw [Except.ok.inj hb']

/-- `Mirrors e b`: node for node, `b` has the literals and the operators of `e`, and each operator
is a row of its table for the types of the operands in `b`. -/
inductive Mirrors : Expr → Typed → Prop
  | literal {l : Literal} {pos : Position} : Mirrors (.literal l pos) (.literal l.value)
  | unary {op : UnaryOperator} {pos : Position} {e : Expr} {b : Typed} : Mirrors e b →
    op ∈ UnaryOperator.table → op.operand = b.type →
      Mirrors (.unary op.symbol pos e) (.unary op pos b)
  | binary {op : BinaryOperator} {pos : Position} {l r : Expr} {bl br : Typed} : Mirrors l bl →
    Mirrors r br → op ∈ BinaryOperator.table → op.left = bl.type → op.right = br.type →
      Mirrors (.binary op.symbol pos l r) (.binary op pos bl br)
  | grouping {e : Expr} {b : Typed} : Mirrors e b → Mirrors (.grouping e) (.grouping b)

theorem Binds.mirrors {e : Expr} {b : Typed} (h : Binds e b) : Mirrors e b := by
  induction h with
  | literal => exact .literal
  | unary _ hop ih =>
    obtain ⟨hrow, rfl, hoperand⟩ := UnaryOperator.lookup?_eq_some hop
    exact .unary ih hrow hoperand
  | binary _ _ hop ihl ihr =>
    obtain ⟨hrow, rfl, hleft, hright⟩ := BinaryOperator.lookup?_eq_some hop
    exact .binary ihl ihr hrow hleft hright
  | grouping _ ih => exact .grouping ih

theorem Mirrors.binds {e : Expr} {b : Typed} (h : Mirrors e b) : Binds e b := by
  induction h with
  | literal => exact .literal
  | @unary op pos e b _ hrow hoperand ih =>
    have hop := UnaryOperator.lookup?_of_mem op hrow
    rw [hoperand] at hop
    exact .unary ih hop
  | @binary op pos l r bl br _ _ hrow hleft hright ihl ihr =>
    have hop := BinaryOperator.lookup?_of_mem op hrow
    rw [hleft, hright] at hop
    exact .binary ihl ihr hop
  | grouping _ ih => exact .grouping ih

/-! ### The first fault -/

/-- `Blames e d`: the operands of `e` have types, its operator has no row for them, and `d` says
so. -/
inductive Blames : Expr → Diagnostic → Prop
  | unknownUnary {s : Symbol} {pos : Position} {e : Expr} {t : DataType} :
    HasType e t → s ∉ Typing.unaryOperators →
      Blames (.unary s pos e) (.unknownOperator pos s.text)
  | unary {s : Symbol} {pos : Position} {e : Expr} {t : DataType} :
    HasType e t → s ∈ Typing.unaryOperators → (∀ u, ¬ HasType (.unary s pos e) u) →
      Blames (.unary s pos e)
        (.syntaxError pos ("cannot perform `" ++ s.text ++ "` on " ++ t.name))
  | unknownBinary {s : Symbol} {pos : Position} {l r : Expr} {t u : DataType} :
    HasType l t → HasType r u → s ∉ Typing.binaryOperators →
      Blames (.binary s pos l r) (.unknownOperator pos s.text)
  | sameTypes {s : Symbol} {pos : Position} {l r : Expr} {t : DataType} :
    HasType l t → HasType r t → s ∈ Typing.binaryOperators →
    (∀ v, ¬ HasType (.binary s pos l r) v) →
      Blames (.binary s pos l r)
        (.syntaxError pos ("cannot perform `" ++ s.text ++ "` on " ++ t.name))
  | twoTypes {s : Symbol} {pos : Position} {l r : Expr} {t u : DataType} :
    HasType l t → HasType r u → t ≠ u → s ∈ Typing.binaryOperators →
    (∀ v, ¬ HasType (.binary s pos l r) v) →
      Blames (.binary s pos l r)
        (.syntaxError pos
          ("cannot perform `" ++ s.text ++ "` on " ++ (t.name ++ " and " ++ u.name)))

/-- `FirstFault e d`: `d` blames a part of `e`, and nothing blames a part before it. -/
def FirstFault (e : Expr) (d : Diagnostic) : Prop :=
  ∃ before part after, e.parts = before ++ part :: after ∧
    (∀ earlier ∈ before, ∀ d', ¬ Blames earlier d') ∧ Blames part d

theorem HasType.not_blames {e : Expr} {t : DataType} (h : HasType e t) (d : Diagnostic) :
    ¬ Blames e d := by
  intro hblames
  cases hblames with
  | unary _ _ hnone => exact hnone t h
  | sameTypes _ _ _ hnone => exact hnone t h
  | twoTypes _ _ _ _ hnone => exact hnone t h
  | unknownUnary _ hs => cases h <;> exact hs (by decide)
  | unknownBinary _ _ hs =>
    cases h with
    | arithmetic hmem => exact hs (List.mem_append_left _ (List.mem_append_left _ hmem))
    | comparison hmem => exact hs (List.mem_append_left _ (List.mem_append_right _ hmem))
    | numberEquality hmem => exact hs (List.mem_append_right _ hmem)
    | booleanEquality hmem => exact hs (List.mem_append_right _ hmem)
    | concatenation => exact hs (by decide)

theorem Binds.exists_of_mem_parts {e part : Expr} {b : Typed} (h : Binds e b)
    (hpart : part ∈ e.parts) : ∃ b', Binds part b' := by
  induction h with
  | literal =>
    obtain rfl := List.mem_singleton.1 hpart
    exact ⟨_, .literal⟩
  | unary hb hop ih =>
    rcases List.mem_append.1 hpart with hpart | hpart
    · exact ih hpart
    · obtain rfl := List.mem_singleton.1 hpart
      exact ⟨_, .unary hb hop⟩
  | binary hl hr hop ihl ihr =>
    rcases List.mem_append.1 hpart with hpart | hpart
    · exact ihl hpart
    rcases List.mem_append.1 hpart with hpart | hpart
    · exact ihr hpart
    · obtain rfl := List.mem_singleton.1 hpart
      exact ⟨_, .binary hl hr hop⟩
  | grouping hb ih =>
    rcases List.mem_append.1 hpart with hpart | hpart
    · exact ih hpart
    · obtain rfl := List.mem_singleton.1 hpart
      exact ⟨_, .grouping hb⟩

theorem Binds.not_blames_parts {e : Expr} {b : Typed} (h : Binds e b) :
    ∀ part ∈ e.parts, ∀ d, ¬ Blames part d := by
  intro part hpart d
  obtain ⟨b', hb'⟩ := h.exists_of_mem_parts hpart
  exact hb'.hasType.not_blames d

theorem UnaryOperator.blames_of_resolve {s : Symbol} {pos : Position} {e : Expr} {t : DataType}
    {d : Diagnostic} (he : HasType e t) (h : resolve s pos t = .error d) :
    Blames (.unary s pos e) d := by
  unfold resolve at h
  split at h
  · next hknown =>
    split at h
    · cases h
    · next hnone =>
      cases h
      refine .unary he (isKnown_iff.1 hknown) fun u hu => ?_
      obtain ⟨b, hb, -⟩ := hu.exists_binds
      cases hb with
      | unary hoperand hop =>
        rw [hoperand.hasType.unique he, hnone] at hop
        cases hop
  · next hunknown =>
    cases h
    exact .unknownUnary he (mt isKnown_iff.2 hunknown)

theorem BinaryOperator.blames_of_resolve {s : Symbol} {pos : Position} {l r : Expr}
    {t u : DataType} {d : Diagnostic} (hl : HasType l t) (hr : HasType r u)
    (h : resolve s pos t u = .error d) : Blames (.binary s pos l r) d := by
  unfold resolve at h
  split at h
  · next hknown =>
    split at h
    · cases h
    · next hnone =>
      cases h
      have huntyped : ∀ v, ¬ HasType (.binary s pos l r) v := by
        intro v hv
        obtain ⟨b, hb, -⟩ := hv.exists_binds
        cases hb with
        | binary hbl hbr hop =>
          rw [hbl.hasType.unique hl, hbr.hasType.unique hr, hnone] at hop
          cases hop
      by_cases hsame : t = u
      · subst hsame
        rw [operandNames, if_pos rfl]
        exact .sameTypes hl hr (isKnown_iff.1 hknown) huntyped
      · rw [operandNames, if_neg hsame]
        exact .twoTypes hl hr hsame (isKnown_iff.1 hknown) huntyped
  · next hunknown =>
    cases h
    exact .unknownBinary hl hr (mt isKnown_iff.2 hunknown)

/-- The first fault of a part is that of the whole, if nothing blames what stands before it. -/
theorem FirstFault.of_part {e whole : Expr} {d : Diagnostic} (h : FirstFault e d)
    (front : List Expr) {back : List Expr} (hparts : whole.parts = front ++ (e.parts ++ back))
    (hfront : ∀ earlier ∈ front, ∀ d', ¬ Blames earlier d') : FirstFault whole d := by
  obtain ⟨before, part, after, heq, hbefore, hpart⟩ := h
  have hearlier := List.forall_mem_append.2 ⟨hfront, hbefore⟩
  refine ⟨front ++ before, part, after ++ back, ?_, hearlier, hpart⟩
  rw [hparts, heq]
  simp

theorem firstFault_of_refuses {e : Expr} {d : Diagnostic} (h : Refuses e d) : FirstFault e d := by
  induction h with
  | operand _ ih => exact ih.of_part [] rfl (by simp)
  | unary hb hrow =>
    exact ⟨_, _, [], rfl, hb.not_blames_parts, UnaryOperator.blames_of_resolve hb.hasType hrow⟩
  | left _ ih => exact ih.of_part [] rfl (by simp)
  | right hl _ ih => exact ih.of_part _ rfl hl.not_blames_parts
  | @binary s pos l r bl br d hl hr hrow =>
    refine ⟨l.parts ++ r.parts, _, [], (List.append_assoc ..).symm, ?_,
      BinaryOperator.blames_of_resolve hl.hasType hr.hasType hrow⟩
    exact List.forall_mem_append.2 ⟨hl.not_blames_parts, hr.not_blames_parts⟩
  | grouping _ ih => exact ih.of_part [] rfl (by simp)

theorem Blames.unique {e : Expr} {d d' : Diagnostic} (h : Blames e d) (h' : Blames e d') :
    d = d' := by
  cases h with
  | unknownUnary _ hs =>
    cases h' with
    | unknownUnary => rfl
    | unary _ hs' => exact absurd hs' hs
  | unary ht hs =>
    cases h' with
    | unknownUnary _ hs' => exact absurd hs hs'
    | unary ht' => rw [ht.unique ht']
  | unknownBinary _ _ hs =>
    cases h' with
    | unknownBinary => rfl
    | sameTypes _ _ hs' => exact absurd hs' hs
    | twoTypes _ _ _ hs' => exact absurd hs' hs
  | sameTypes hl hr hs =>
    cases h' with
    | unknownBinary _ _ hs' => exact absurd hs hs'
    | sameTypes hl' => rw [hl.unique hl']
    | twoTypes hl' hr' hne => exact absurd ((hl'.unique hl).trans (hr.unique hr')) hne
  | twoTypes hl hr hne hs =>
    cases h' with
    | unknownBinary _ _ hs' => exact absurd hs hs'
    | sameTypes hl' hr' => exact absurd ((hl.unique hl').trans (hr'.unique hr)) hne
    | twoTypes hl' hr' => rw [hl.unique hl', hr.unique hr']

theorem FirstFault.unique {e : Expr} {d d' : Diagnostic} (h : FirstFault e d)
    (h' : FirstFault e d') : d = d' := by
  obtain ⟨before, part, after, heq, hbefore, hpart⟩ := h
  obtain ⟨before', part', after', heq', hbefore', hpart'⟩ := h'
  -- of two faulty parts in one list, each would stand before the other
  rcases List.append_eq_append_iff.1 (heq.symm.trans heq') with
    ⟨between, rfl, h⟩ | ⟨between, rfl, h⟩
  · cases between with
    | nil =>
      obtain ⟨rfl, -⟩ := List.cons.inj h
      exact hpart.unique hpart'
    | cons first between =>
      obtain ⟨rfl, -⟩ := List.cons.inj h
      exact absurd hpart (hbefore' _ (by simp) d)
  · cases between with
    | nil =>
      obtain ⟨rfl, -⟩ := List.cons.inj h
      exact hpart.unique hpart'
    | cons first between =>
      obtain ⟨rfl, -⟩ := List.cons.inj h
      exact absurd hpart' (hbefore _ (by simp) d')

theorem bind_eq_error_iff_firstFault {e : Expr} {d : Diagnostic} :
    e.bind = .error d ↔ FirstFault e d := by
  constructor
  · exact fun h => firstFault_of_refuses (refuses_of_bind h)
  · intro h
    cases hbind : e.bind with
    | ok b =>
      obtain ⟨before, part, after, heq, -, hpart⟩ := h
      have hmem : part ∈ e.parts := by simp [heq]
      exact absurd hpart ((binds_of_bind hbind).not_blames_parts part hmem d)
    | error d' => rw [h.unique (firstFault_of_refuses (refuses_of_bind hbind))]

/-- Binding decides typing. An expression is bound to what mirrors it node for node, it can be bound
exactly if it has a type, which is then the type of what it is bound to, and otherwise binding stops
with the diagnostic of the first part whose operands have types but whose operator has no row for
them. -/
theorem Expr.bind_decides_typing (e : Expr) :
    (∀ b, e.bind = .ok b ↔ Mirrors e b) ∧
      (∀ t, HasType e t ↔ ∃ b, e.bind = .ok b ∧ b.type = t) ∧
      ∀ d, e.bind = .error d ↔ FirstFault e d := by
  refine ⟨fun b => ⟨?_, ?_⟩, fun t => hasType_iff_bind, fun d => bind_eq_error_iff_firstFault⟩
  · exact fun h => (binds_of_bind h).mirrors
  · exact fun h => h.binds.bind_eq

end ExprLang
