import ExprLang.Proofs.ParserMoves
import Mathlib.Data.List.TakeWhile

/-! # Nested brackets

The brackets of a list of tokens are nested if they are pairs, one inside another or one after
another. A list that is still being read is nested but for the openers whose closers have not come. A
diagnostic is about the token at its position; deleting the tokens that some diagnostics are about
deletes one opener or closer at a time, as long as no two tokens stand at one position. -/

namespace ExprLang

/-! ### What a list of diagnostics says about tokens -/

/-- Whether a diagnostic stands at the position of a token. -/
def Diagnostic.isAt (d : Diagnostic) (t : Token) : Bool := d.pos?.isSome && d.pos? == t.pos?

/-- Whether a diagnostic is about the first token after the expression. -/
def Diagnostic.isUnexpectedToken : Diagnostic → Bool
  | parseError _ problem (some found) => problem == "unexpected token `" ++ found ++ "`"
  | _ => false

namespace Token

/-- Parentheses, curly brackets and the closing square bracket. -/
def isBracket : Token → Bool
  | symbol s _ => [.leftParen, .rightParen, .leftCurly, .rightCurly, .rightSquare].contains s
  | _ => false

/-- The tokens before the one that is reported as unexpected, or all if none is. -/
def beforeUnexpected (ds : List Diagnostic) (ts : List Token) : List Token :=
  ts.takeWhile fun t => !ds.any fun d => d.isUnexpectedToken && d.isAt t

/-- The tokens that are not reported as unmatched delimiters. -/
def withoutUnmatched (ds : List Diagnostic) (ts : List Token) : List Token :=
  ts.filter fun t => !ds.any fun d => d.kind = .unmatchedDelimiter && d.isAt t

end Token

/-- Every bracket of a list of tokens is one of a pair, and the pairs are properly nested. -/
inductive Nested : List Token → Prop
  | nil : Nested []
  | other {t : Token} {ts : List Token} : t.isBracket = false → Nested ts → Nested (t :: ts)
  | pair {delimiter : Delimiter} {p q : Position} {us vs : List Token} : Nested us → Nested vs →
    Nested (.symbol delimiter.opening p :: (us ++ .symbol delimiter.closing q :: vs))

/-- A list of tokens is nested but for some openers, the last of which stands first. -/
inductive NestedBut : List (Delimiter × Position) → List Token → Prop
  | nil {ts : List Token} : Nested ts → NestedBut [] ts
  | opener {delimiter : Delimiter} {p : Position} {opened : List (Delimiter × Position)}
    {us vs : List Token} : NestedBut opened us → Nested vs →
    NestedBut ((delimiter, p) :: opened) (us ++ .symbol delimiter.opening p :: vs)

theorem Nested.append {us vs : List Token} (hu : Nested us) (hv : Nested vs) :
    Nested (us ++ vs) := by
  induction hu with
  | nil => exact hv
  | other ht _ ih => exact .other ht ih
  | @pair delimiter p q us ws hus _ _ ih =>
    have hpair : Nested (.symbol delimiter.opening p ::
        (us ++ .symbol delimiter.closing q :: (ws ++ vs))) := .pair hus ih
    simpa using hpair

theorem Nested.rightSquare_notMem {ts : List Token} (h : Nested ts) (pos : Position) :
    Token.symbol .rightSquare pos ∉ ts := by
  induction h with
  | nil => simp
  | @other t ts ht _ ih =>
    intro hmem
    rcases List.mem_cons.1 hmem with rfl | hmem
    · simp [Token.isBracket] at ht
    · exact ih hmem
  | @pair delimiter p q us vs _ _ ihu ihv =>
    cases delimiter <;> simp [Delimiter.opening, Delimiter.closing, ihu, ihv]

namespace NestedBut

theorem nested {ts : List Token} (h : NestedBut [] ts) : Nested ts := by
  cases h with
  | nil h => exact h

theorem append {opened : List (Delimiter × Position)} {us vs : List Token}
    (h : NestedBut opened us) (hv : Nested vs) : NestedBut opened (us ++ vs) := by
  cases h with
  | nil hu => exact .nil (hu.append hv)
  | opener hrest hlast =>
    rw [List.append_assoc, List.cons_append]
    exact .opener hrest (hlast.append hv)

theorem push {opened : List (Delimiter × Position)} {us : List Token} (h : NestedBut opened us)
    (delimiter : Delimiter) (p : Position) :
    NestedBut ((delimiter, p) :: opened) (us ++ [.symbol delimiter.opening p]) :=
  .opener h .nil

theorem close {delimiter : Delimiter} {p : Position} {opened : List (Delimiter × Position)}
    {us : List Token} (h : NestedBut ((delimiter, p) :: opened) us) (q : Position) :
    NestedBut opened (us ++ [.symbol delimiter.closing q]) := by
  cases h with
  | @opener _ _ _ us vs hrest hlast =>
    rw [List.append_assoc]
    exact hrest.append (.pair hlast .nil)

end NestedBut

/-! ### Deleting reported tokens -/

namespace Diagnostic

theorem isAt_iff {d : Diagnostic} {t : Token} :
    d.isAt t = true ↔ ∃ p, d.pos? = some p ∧ t.pos? = some p := by
  cases hd : d.pos? with
  | none => simp [isAt, hd]
  | some p =>
    have hat : d.isAt t = (some p == t.pos?) := by simp [isAt, hd]
    rw [hat, beq_iff_eq]
    constructor
    · exact fun ht => ⟨p, rfl, ht.symm⟩
    · rintro ⟨q, hq, ht⟩
      rw [ht, hq]

theorem head?_toList_append {s : String} {c : Char} (h : s.toList.head? = some c) (t : String) :
    (s ++ t).toList.head? = some c := by
  rw [String.toList_append, List.head?_append, h]
  rfl

theorem isUnexpectedToken_unexpectedToken (pos : Position) (t : Token) :
    (Parse.unexpectedToken pos t).isUnexpectedToken = true := by
  simp [isUnexpectedToken, Parse.unexpectedToken]

theorem isUnexpectedToken_expectedExpression (trail : TokenTrail) (pos : Position)
    (found : Option Token) :
    (Parse.expectedExpression trail pos found).isUnexpectedToken = false := by
  cases found with
  | none => rfl
  | some t =>
    simp only [Parse.expectedExpression, isUnexpectedToken, Option.map_some, beq_eq_false_iff_ne]
    intro heq
    -- the two messages differ in their first character
    have hexpected : "expected expression".toList.head? = some 'e' := by decide
    have hunexpected : "unexpected token `".toList.head? = some 'u' := by decide
    have hhead := congrArg (fun text : String => text.toList.head?) heq
    simp only [String.append_assoc, head?_toList_append hexpected,
      head?_toList_append hunexpected] at hhead
    simp at hhead

theorem countP_isUnexpectedToken {ds : List Diagnostic}
    (h : ∀ d ∈ ds, d.isUnexpectedToken = false) : ds.countP (·.isUnexpectedToken) = 0 := by
  rw [List.countP_eq_zero]
  intro d hd
  simp [h d hd]

end Diagnostic

namespace Token

theorem beforeUnexpected_eq_self {ds : List Diagnostic}
    (h : ∀ d ∈ ds, d.isUnexpectedToken = false) (ts : List Token) :
    beforeUnexpected ds ts = ts := by
  unfold beforeUnexpected
  rw [List.takeWhile_eq_self_iff]
  intro t _
  simp only [Bool.not_eq_true', List.any_eq_false, Bool.and_eq_true, not_and]
  intro d hd hnamed
  simp [h d hd] at hnamed

theorem withoutUnmatched_append (ds es : List Diagnostic) (ts : List Token) :
    withoutUnmatched (ds ++ es) ts = withoutUnmatched es (withoutUnmatched ds ts) := by
  unfold withoutUnmatched
  rw [List.filter_filter]
  congr 1
  funext t
  rw [List.any_append, Bool.not_or, Bool.and_comm]

theorem withoutUnmatched_append_tokens (ds : List Diagnostic) (us vs : List Token) :
    withoutUnmatched ds (us ++ vs) = withoutUnmatched ds us ++ withoutUnmatched ds vs :=
  List.filter_append ..

/-- Tokens stay if no unmatched delimiter is reported at any of them. -/
theorem withoutUnmatched_eq_self {ds : List Diagnostic} {ts : List Token}
    (h : ∀ d ∈ ds, d.kind = .unmatchedDelimiter → ∀ t ∈ ts, d.isAt t = false) :
    withoutUnmatched ds ts = ts := by
  unfold withoutUnmatched
  rw [List.filter_eq_self]
  intro t ht
  simp only [Bool.not_eq_true', List.any_eq_false, Bool.and_eq_true, decide_eq_true_eq, not_and,
    Bool.not_eq_true]
  exact fun d hd hkind => h d hd hkind t ht

end Token

/-- Tokens at different positions, as far as they have positions. -/
def Token.Distinct (ts : List Token) : Prop := (ts.filterMap Token.pos?).Nodup

theorem Token.Distinct.pos?_ne {us vs : List Token} {t : Token} {p : Position}
    (h : Token.Distinct (us ++ t :: vs)) (ht : t.pos? = some p) :
    ∀ u ∈ us ++ vs, u.pos? ≠ some p := by
  intro u hu hp
  have hsplit : (us ++ t :: vs).filterMap Token.pos? =
      us.filterMap Token.pos? ++ p :: vs.filterMap Token.pos? := by
    rw [List.filterMap_append, List.filterMap_cons_some ht]
  unfold Token.Distinct at h
  rw [hsplit, List.perm_middle.nodup_iff, ← List.filterMap_append] at h
  exact (List.nodup_cons.1 h).1 (List.mem_filterMap.2 ⟨u, hu, hp⟩)

theorem Token.withoutUnmatched_report {us vs : List Token} {t : Token} {p : Position}
    (h : Token.Distinct (us ++ t :: vs)) (ht : t.pos? = some p) (text : String) :
    withoutUnmatched [.unmatchedDelimiter p text] (us ++ t :: vs) = us ++ vs := by
  have hat : (Diagnostic.unmatchedDelimiter p text).isAt t = true :=
    Diagnostic.isAt_iff.2 ⟨p, rfl, ht⟩
  have hsplit : withoutUnmatched [.unmatchedDelimiter p text] (us ++ t :: vs) =
      withoutUnmatched [.unmatchedDelimiter p text] (us ++ vs) := by
    simp [withoutUnmatched, hat, Diagnostic.kind]
  rw [hsplit]
  refine withoutUnmatched_eq_self fun d hd _ u hu => ?_
  rw [List.mem_singleton.1 hd, ← Bool.not_eq_true, Diagnostic.isAt_iff]
  rintro ⟨q, hq, huq⟩
  exact h.pos?_ne ht u hu (huq.trans hq.symm)

/-- Reporting the innermost open delimiter takes its token away. -/
theorem NestedBut.report {delimiter : Delimiter} {p : Position}
    {opened : List (Delimiter × Position)} {ts : List Token}
    (h : NestedBut ((delimiter, p) :: opened) ts) (hts : Token.Distinct ts) (text : String) :
    NestedBut opened (Token.withoutUnmatched [.unmatchedDelimiter p text] ts) := by
  cases h with
  | opener hrest hlast =>
    rw [Token.withoutUnmatched_report hts rfl]
    exact hrest.append hlast

theorem Token.Distinct.sublist {us vs : List Token} (h : Token.Distinct vs) (hu : us.Sublist vs) :
    Token.Distinct us :=
  List.Nodup.sublist (hu.filterMap _) h

end ExprLang
