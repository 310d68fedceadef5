import ExprLang.Source.Cursor
import Mathlib.Data.List.Induction

/-! # Positions and trivia

The position that a text leads to can be counted off: newlines give the line, and the characters
since the last newline give the column. Between tokens stand blanks and comments; skipping them takes
as many as there are and stops at a character that starts neither. -/

namespace ExprLang

namespace Position

/-- The position after a text, counted off from its characters. -/
def ofPrefix (cs : List Char) : Position :=
  ⟨1 + cs.count '\n', 1 + (cs.reverse.takeWhile (· ≠ '\n')).length⟩

@[simp] theorem advanceAll_nil (p : Position) : p.advanceAll [] = p := rfl

@[simp] theorem advanceAll_cons (p : Position) (c : Char) (cs : List Char) :
    p.advanceAll (c :: cs) = (p.advance c).advanceAll cs := rfl

theorem advanceAll_append (p : Position) (cs ds : List Char) :
    p.advanceAll (cs ++ ds) = (p.advanceAll cs).advanceAll ds := by
  unfold advanceAll
  rw [List.foldl_append]

/-- Within a line the column counts the characters. -/
theorem advanceAll_unbroken {cs : List Char} (h : '\n' ∉ cs) (p : Position) :
    p.advanceAll cs = ⟨p.line, p.column + cs.length⟩ := by
  induction cs generalizing p with
  | nil => rfl
  | cons c cs ih =>
    obtain ⟨hc, hcs⟩ := List.ne_and_not_mem_of_not_mem_cons h
    rw [advanceAll_cons, ih hcs, advance, if_neg hc.symm, List.length_cons]
    simp only [Nat.add_assoc, Nat.add_comm 1]

theorem ofPrefix_append_singleton (cs : List Char) (c : Char) :
    ofPrefix (cs ++ [c]) = (ofPrefix cs).advance c := by
  by_cases hc : c = '\n'
  · subst hc
    simp [ofPrefix, advance, Nat.add_assoc]
  · simp [ofPrefix, advance, hc, Nat.add_comm]

theorem advanceAll_ofPrefix (cs ds : List Char) :
    (ofPrefix cs).advanceAll ds = ofPrefix (cs ++ ds) := by
  induction ds using List.reverseRecOn with
  | nil => simp
  | append_singleton ds d ih =>
    rw [advanceAll_append, ih, ← List.append_assoc, ofPrefix_append_singleton]
    rfl

end Position

/-! ### Blanks and comments -/

/-- Blanks and comments. A comment runs through its newline, which may be missing only where the text
reaches the end of the source; the flag tells whether it does. -/
inductive Trivia : Bool → List Char → Prop
  | nil {atEnd : Bool} : Trivia atEnd []
  | blank {atEnd : Bool} {c : Char} {cs : List Char} :
    Text.isBlank c = true → Trivia atEnd cs → Trivia atEnd (c :: cs)
  | comment {atEnd : Bool} {body cs : List Char} :
    '\n' ∉ body → Trivia atEnd cs → Trivia atEnd ('/' :: '/' :: (body ++ '\n' :: cs))
  | lastComment {body : List Char} : '\n' ∉ body → Trivia true ('/' :: '/' :: body)

/-- The rest of a comment, and the trivia after it. -/
def CommentTail (atEnd : Bool) (cs : List Char) : Prop :=
  (∃ body rest, cs = body ++ '\n' :: rest ∧ '\n' ∉ body ∧ Trivia atEnd rest) ∨
    (atEnd = true ∧ '\n' ∉ cs)

/-- What skipping has passed over, by the flag that tells whether it started inside a comment. -/
def Skipped (inComment atEnd : Bool) (cs : List Char) : Prop :=
  if inComment then CommentTail atEnd cs else Trivia atEnd cs

@[simp] theorem skipped_false {atEnd : Bool} {cs : List Char} :
    Skipped false atEnd cs ↔ Trivia atEnd cs := Iff.rfl

/-- A text that starts with neither a blank nor a comment. -/
def Settled (cs : List Char) : Prop :=
  ∀ c rest, cs = c :: rest → Text.isBlank c = false ∧ ¬ (c = '/' ∧ rest.head? = some '/')

theorem settled_nil : Settled [] := fun _ _ h => nomatch h

theorem CommentTail.cons {atEnd : Bool} {c : Char} {cs : List Char} (hc : c ≠ '\n')
    (h : CommentTail atEnd cs) : CommentTail atEnd (c :: cs) := by
  rcases h with ⟨body, rest, rfl, hbody, hrest⟩ | ⟨hend, hcs⟩
  · exact .inl ⟨c :: body, rest, rfl, by simp [hbody, hc.symm], hrest⟩
  · exact .inr ⟨hend, by simp [hcs, hc.symm]⟩

theorem CommentTail.trivia {atEnd : Bool} {cs : List Char}
    (h : CommentTail atEnd ('/' :: cs)) : Trivia atEnd ('/' :: '/' :: cs) := by
  rcases h with ⟨body, rest, heq, hbody, hrest⟩ | ⟨rfl, hcs⟩
  · cases body with
    | nil => simp at heq
    | cons c body =>
      simp only [List.cons_append, List.cons.injEq] at heq
      obtain ⟨rfl, rfl⟩ := heq
      exact .comment (fun hmem => hbody (List.mem_cons_of_mem '/' hmem)) hrest
  · exact .lastComment fun hmem => hcs (List.mem_cons_of_mem '/' hmem)

/-- A comment that was entered at its first slash has its second one next. -/
theorem CommentTail.trivia_of_head {cs gap rest : List Char} (happ : cs = gap ++ rest)
    (hslash : cs.head? = some '/') (h : CommentTail rest.isEmpty gap) :
    Trivia rest.isEmpty ('/' :: gap) := by
  cases gap with
  | nil =>
    rcases h with ⟨body, tail, heq, -, -⟩ | ⟨hend, -⟩
    · simp at heq
    · rw [List.isEmpty_iff.1 hend] at happ
      simp [happ] at hslash
  | cons d gap =>
    have hd : d = '/' := by simpa [happ] using hslash
    subst hd
    exact h.trivia

/-- Skipping passes over blanks and comments only, keeps the position, and leaves none in front. -/
theorem skipTrivia_spec (inComment : Bool) (p : Position) (cs : List Char) :
    ∃ gap, cs = gap ++ (skipTrivia inComment p cs).2 ∧
      (skipTrivia inComment p cs).1 = p.advanceAll gap ∧
      Skipped inComment (skipTrivia inComment p cs).2.isEmpty gap ∧
      Settled (skipTrivia inComment p cs).2 := by
  fun_induction skipTrivia inComment p cs with
  | case1 inComment p =>
    refine ⟨[], rfl, rfl, ?_, settled_nil⟩
    cases inComment with
    | false => exact .nil
    | true => exact .inr ⟨rfl, by simp⟩
  | case2 p c cs ih =>
    obtain ⟨gap, happ, hpos, hskipped, hsettled⟩ := ih
    refine ⟨c :: gap, by rw [List.cons_append, ← happ], hpos, ?_, hsettled⟩
    by_cases hc : c = '\n'
    · subst hc
      exact .inl ⟨[], gap, rfl, by simp, hskipped⟩
    · have hflag : (c != '\n') = true := by simp [hc]
      rw [hflag] at hskipped ⊢
      exact CommentTail.cons hc hskipped
  | case3 p c cs hblank ih =>
    obtain ⟨gap, happ, hpos, hskipped, hsettled⟩ := ih
    exact ⟨c :: gap, by rw [List.cons_append, ← happ], hpos, .blank hblank hskipped, hsettled⟩
  | case4 p c cs hblank hslash ih =>
    obtain ⟨gap, happ, hpos, hskipped, hsettled⟩ := ih
    simp only [Bool.and_eq_true, decide_eq_true_eq, beq_iff_eq] at hslash
    obtain ⟨rfl, hhead⟩ := hslash
    exact ⟨'/' :: gap, by rw [List.cons_append, ← happ], hpos,
      CommentTail.trivia_of_head happ hhead hskipped, hsettled⟩
  | case5 p c cs hblank hslash =>
    refine ⟨[], rfl, rfl, .nil, ?_⟩
    intro d rest heq
    obtain ⟨rfl, rfl⟩ := List.cons.inj heq
    exact ⟨by simpa using hblank, by simpa using hslash⟩

/-! ### Trivia is skipped in one way -/

theorem skipTrivia_comment {body : List Char} (h : '\n' ∉ body) (p : Position) (cs : List Char) :
    skipTrivia true p (body ++ '\n' :: cs) = skipTrivia false (p.advanceAll (body ++ ['\n'])) cs := by
  induction body generalizing p with
  | nil => rfl
  | cons c body ih =>
    have hc : (c != '\n') = true := by
      simpa using fun hc : c = '\n' => h (hc ▸ List.mem_cons_self)
    have hbody : '\n' ∉ body := fun hmem => h (List.mem_cons_of_mem c hmem)
    rw [List.cons_append, skipTrivia, hc, ih hbody]
    rfl

theorem skipTrivia_lastComment {body : List Char} (h : '\n' ∉ body) (p : Position) :
    skipTrivia true p body = (p.advanceAll body, []) := by
  induction body generalizing p with
  | nil => rfl
  | cons c body ih =>
    obtain ⟨hc, hbody⟩ := List.ne_and_not_mem_of_not_mem_cons h
    have hflag : (c != '\n') = true := by simpa using hc.symm
    rw [skipTrivia, hflag, ih hbody]
    rfl

theorem skipTrivia_of_settled {cs : List Char} (h : Settled cs) (p : Position) :
    skipTrivia false p cs = (p, cs) := by
  cases cs with
  | nil => rfl
  | cons c cs =>
    obtain ⟨hblank, hcomment⟩ := h c cs rfl
    have hslash : (decide (c = '/') && cs.head? == some '/') = false := by simpa using hcomment
    simp only [skipTrivia, hblank, hslash, Bool.false_eq_true, if_false]

theorem Trivia.skipTrivia_append {atEnd : Bool} {gap cs : List Char} (h : Trivia atEnd gap)
    (hend : atEnd = true → cs = []) (p : Position) :
    skipTrivia false p (gap ++ cs) = skipTrivia false (p.advanceAll gap) cs := by
  induction h generalizing p with
  | nil => rfl
  | @blank _ c gap hblank _ ih =>
    rw [List.cons_append, skipTrivia, if_pos hblank, ih hend]
    rfl
  | @comment _ body gap hbody _ ih =>
    have hslash : '\n' ∉ '/' :: body := by simp [hbody]
    have hskip := skipTrivia_comment hslash (p.advance '/') (gap ++ cs)
    have hpos : p.advanceAll ('/' :: '/' :: (body ++ '\n' :: gap)) =
        ((p.advance '/').advanceAll ('/' :: body ++ ['\n'])).advanceAll gap := by
      rw [← Position.advanceAll_append]
      simp
    have hstart : '/' :: '/' :: (body ++ '\n' :: gap) ++ cs =
        '/' :: ('/' :: body ++ '\n' :: (gap ++ cs)) := by simp
    rw [hpos, hstart, ← ih hend, ← hskip]
    rfl
  | @lastComment body hbody =>
    have hslash : '\n' ∉ '/' :: body := by simp [hbody]
    rw [hend rfl, List.append_nil]
    exact skipTrivia_lastComment hslash (p.advance '/')

theorem Trivia.skipTrivia_eq {gap rest : List Char} (h : Trivia rest.isEmpty gap)
    (hrest : Settled rest) (p : Position) :
    skipTrivia false p (gap ++ rest) = (p.advanceAll gap, rest) := by
  rw [h.skipTrivia_append List.isEmpty_iff.1, skipTrivia_of_settled hrest]

/-- A text has only one longest run of trivia in front. -/
theorem Trivia.unique {gap gap' rest rest' : List Char} (h : Trivia rest.isEmpty gap)
    (hrest : Settled rest) (h' : Trivia rest'.isEmpty gap') (hrest' : Settled rest')
    (heq : gap ++ rest = gap' ++ rest') : gap = gap' ∧ rest = rest' := by
  have hskip := h.skipTrivia_eq hrest .start
  rw [heq, h'.skipTrivia_eq hrest' .start] at hskip
  have hsame : rest = rest' := (Prod.mk.inj hskip).2.symm
  subst hsame
  exact ⟨List.append_cancel_right heq, rfl⟩

theorem Trivia.not_append_settled {gap rest : List Char} {c : Char} (h : Trivia false gap)
    (hrest : Settled (c :: rest)) : ¬ Trivia true (gap ++ c :: rest) := by
  intro hall
  have hfront : Trivia (c :: rest).isEmpty gap := h
  have hwhole : Trivia ([] : List Char).isEmpty (gap ++ c :: rest) := hall
  obtain ⟨-, heq⟩ := hfront.unique hrest hwhole settled_nil (List.append_nil _).symm
  cases heq

end ExprLang
