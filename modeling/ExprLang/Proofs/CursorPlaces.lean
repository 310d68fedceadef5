import ExprLang.Proofs.Scanning

/-! # Places of a cursor

A cursor keeps the rest of its source and two positions, and moves them along as it reads. All that it
keeps is told by two offsets: that of the next character, and that of the character handed out last.
What each call answers is laid down here on the source and these offsets, without a cursor; whatever
is called, in whatever order, a cursor answers by these rules, which leave it no choice. -/

namespace ExprLang

theorem drop_add_length {s gap rest : List Char} {n : Nat} (h : s.drop n = gap ++ rest) :
    s.drop (n + gap.length) = rest := by
  rw [← List.drop_drop, h, List.drop_left]

theorem positionAt_add_length {s gap rest : List Char} {n : Nat} (h : s.drop n = gap ++ rest) :
    positionAt s (n + gap.length) = (positionAt s n).advanceAll gap := by
  rw [positionAt, positionAt, Position.advanceAll_ofPrefix, List.take_add, h, List.take_left]

namespace Cursor

inductive Call where
  | peek
  | atEnd
  | nextRaw
  | next
deriving DecidableEq, Repr

inductive Answer where
  | char (c? : Option Char)
  | flag (holds : Bool)
deriving DecidableEq, Repr

def call (cursor : Cursor) : Call → Answer × Cursor
  | .peek => (.char cursor.peek?, cursor)
  | .atEnd => (.flag cursor.atEnd, cursor)
  | .nextRaw => (.char cursor.nextRaw.1, cursor.nextRaw.2)
  | .next => (.char cursor.next.1, cursor.next.2)

def afterCalls (cursor : Cursor) (calls : List Call) : Cursor :=
  calls.foldl (fun cursor c => (cursor.call c).2) cursor

def answers (cursor : Cursor) : List Call → List Answer
  | [] => []
  | c :: calls => (cursor.call c).1 :: (cursor.call c).2.answers calls

/-- The calls that take a character; the others only look. -/
def Call.takes : Call → Bool
  | .peek | .atEnd => false
  | .nextRaw | .next => true

theorem afterCalls_filter_takes (cursor : Cursor) (calls : List Call) :
    cursor.afterCalls (calls.filter Call.takes) = cursor.afterCalls calls := by
  induction calls generalizing cursor with
  | nil => rfl
  | cons c calls ih =>
    cases c with
    | peek | atEnd => exact ih cursor
    | nextRaw => exact ih cursor.nextRaw.2
    | next => exact ih cursor.next.2

/-! ### The calls on offsets -/

/-- The offset of the next character, and that of the character handed out last, if there is one. -/
structure Place where
  offset : Nat
  last? : Option Nat

namespace Place

def start : Place := ⟨0, none⟩

/-- The cursor at a place of a source. Its positions are counted off from the text before. -/
def cursor (s : List Char) (p : Place) : Cursor :=
  ⟨s.drop p.offset, positionAt s p.offset, (p.last?.map (positionAt s)).getD ⟨1, 1⟩⟩

end Place

/-- `Step s p c a q`: at the place `p` of the source `s` the call `c` has the answer `a` and leads to
the place `q`. -/
inductive Step (s : List Char) : Place → Call → Answer → Place → Prop
  | peek {p : Place} : Step s p .peek (.char s[p.offset]?) p
  | atEnd {p : Place} : Step s p .atEnd (.flag (decide (s.length ≤ p.offset))) p
  | nextRaw {p : Place} {c : Char} :
    s[p.offset]? = some c →
      Step s p .nextRaw (.char (some c)) ⟨p.offset + 1, some p.offset⟩
  | nextRawAtEnd {p : Place} : s.length ≤ p.offset → Step s p .nextRaw (.char none) p
  | next {p : Place} {gap rest : List Char} {c : Char} :
    s.drop p.offset = gap ++ c :: rest → Trivia false gap → Settled (c :: rest) →
      Step s p .next (.char (some c)) ⟨p.offset + gap.length + 1, some (p.offset + gap.length)⟩
  | nextAtEnd {p : Place} :
    Trivia true (s.drop p.offset) → Step s p .next (.char none) ⟨s.length, p.last?⟩

inductive Steps (s : List Char) : Place → List Call → List Answer → Place → Prop
  | nil {p : Place} : Steps s p [] [] p
  | cons {p q r : Place} {c : Call} {calls : List Call} {a : Answer} {answers : List Answer} :
    Step s p c a q → Steps s q calls answers r → Steps s p (c :: calls) (a :: answers) r

variable {s : List Char} {p q q' : Place} {c : Call} {calls : List Call} {a a' : Answer}

theorem Step.offset_le (h : Step s p c a q) (hp : p.offset ≤ s.length) : q.offset ≤ s.length := by
  cases h with
  | peek | atEnd | nextRawAtEnd => exact hp
  | nextRaw hget =>
    obtain ⟨hlt, -⟩ := List.getElem?_eq_some_iff.1 hget
    exact hlt
  | @next gap rest _ hdrop =>
    have hlength := congrArg List.length hdrop
    rw [List.length_drop, List.length_append, List.length_cons] at hlength
    show p.offset + gap.length + 1 ≤ s.length
    omega
  | nextAtEnd => exact Nat.le_refl _

theorem exists_step (s : List Char) (p : Place) (c : Call) : ∃ a q, Step s p c a q := by
  cases c with
  | peek => exact ⟨_, _, .peek⟩
  | atEnd => exact ⟨_, _, .atEnd⟩
  | nextRaw =>
    cases hget : s[p.offset]? with
    | none => exact ⟨_, _, .nextRawAtEnd (List.getElem?_eq_none_iff.1 hget)⟩
    | some d => exact ⟨_, _, .nextRaw hget⟩
  | next =>
    obtain ⟨gap, happ, -, hgap, hsettled⟩ := skipTrivia_spec false .start (s.drop p.offset)
    generalize (skipTrivia false .start (s.drop p.offset)).2 = rest at happ hgap hsettled
    cases rest with
    | nil =>
      rw [List.append_nil] at happ
      rw [← happ] at hgap
      exact ⟨_, _, .nextAtEnd hgap⟩
    | cons d rest => exact ⟨_, _, .next happ hgap hsettled⟩

theorem Step.unique (h : Step s p c a q) (h' : Step s p c a' q') : a = a' ∧ q = q' := by
  cases h with
  | peek => cases h' with | peek => exact ⟨rfl, rfl⟩
  | atEnd => cases h' with | atEnd => exact ⟨rfl, rfl⟩
  | nextRaw hget =>
    cases h' with
    | nextRaw hget' =>
      obtain rfl := Option.some.inj (hget.symm.trans hget')
      exact ⟨rfl, rfl⟩
    | nextRawAtEnd hend =>
      rw [List.getElem?_eq_none hend] at hget
      cases hget
  | nextRawAtEnd hend =>
    cases h' with
    | nextRaw hget =>
      rw [List.getElem?_eq_none hend] at hget
      cases hget
    | nextRawAtEnd => exact ⟨rfl, rfl⟩
  | @next gap rest d hdrop hgap hsettled =>
    -- both steps stop behind the longest run of trivia, and a text has only one in front
    cases h' with
    | @next gap' rest' d' hdrop' hgap' hsettled' =>
      have hfront : Trivia (d :: rest).isEmpty gap := hgap
      have hfront' : Trivia (d' :: rest').isEmpty gap' := hgap'
      obtain ⟨rfl, heq⟩ := hfront.unique hsettled hfront' hsettled' (hdrop.symm.trans hdrop')
      obtain ⟨rfl, rfl⟩ := List.cons.inj heq
      exact ⟨rfl, rfl⟩
    | nextAtEnd htrivia =>
      rw [hdrop] at htrivia
      exact absurd htrivia (hgap.not_append_settled hsettled)
  | nextAtEnd htrivia =>
    cases h' with
    | next hdrop hgap hsettled =>
      rw [hdrop] at htrivia
      exact absurd htrivia (hgap.not_append_settled hsettled)
    | nextAtEnd => exact ⟨rfl, rfl⟩

/-! ### A cursor at a place -/

theorem nextRaw_cursor {rest : List Char} {d : Char} (h : s.drop p.offset = d :: rest) :
    (p.cursor s).nextRaw = (some d, Place.cursor s ⟨p.offset + 1, some p.offset⟩) := by
  have hfront : s.drop p.offset = [d] ++ rest := h
  have hrest : s.drop (p.offset + 1) = rest := drop_add_length hfront
  have hpos : positionAt s (p.offset + 1) = (positionAt s p.offset).advance d :=
    positionAt_add_length hfront
  simp only [nextRaw, Place.cursor, h, hrest, hpos, Option.map_some, Option.getD_some]

theorem nextRaw_cursor_end (h : s.length ≤ p.offset) :
    (p.cursor s).nextRaw = (none, p.cursor s) := by
  have hrest : s.drop p.offset = [] := List.drop_eq_nil_iff.2 h
  simp only [nextRaw, Place.cursor, hrest]

theorem skip_cursor {gap rest : List Char} (h : s.drop p.offset = gap ++ rest)
    (hgap : Trivia rest.isEmpty gap) (hrest : Settled rest) :
    (p.cursor s).skip = Place.cursor s ⟨p.offset + gap.length, p.last?⟩ := by
  have hskip := hgap.skipTrivia_eq hrest (positionAt s p.offset)
  simp only [skip, Place.cursor, h, hskip, drop_add_length h, positionAt_add_length h]

/-- A cursor answers as its place says, and the place that the call leads to tells all it keeps. -/
theorem Step.call_cursor (h : Step s p c a q) (hp : p.offset ≤ s.length) :
    (p.cursor s).call c = (a, q.cursor s) := by
  cases h with
  | peek =>
    have hhead : (s.drop p.offset).head? = s[p.offset]? := List.head?_drop
    rw [← hhead]
    rfl
  | atEnd =>
    have hempty : (s.drop p.offset).isEmpty = decide (s.length ≤ p.offset) := by
      rw [Bool.eq_iff_iff, List.isEmpty_iff, List.drop_eq_nil_iff, decide_eq_true_iff]
    rw [← hempty]
    rfl
  | nextRaw hget =>
    obtain ⟨hlt, rfl⟩ := List.getElem?_eq_some_iff.1 hget
    rw [call, nextRaw_cursor (List.drop_eq_getElem_cons hlt)]
  | nextRawAtEnd hend => rw [call, nextRaw_cursor_end hend]
  | next hdrop hgap hsettled =>
    rw [call, Cursor.next, skip_cursor hdrop hgap hsettled,
      nextRaw_cursor (drop_add_length hdrop)]
  | nextAtEnd htrivia =>
    have hdrop : s.drop p.offset = s.drop p.offset ++ [] := (List.append_nil _).symm
    have hlength : p.offset + (s.drop p.offset).length = s.length := by
      rw [List.length_drop]
      omega
    rw [call, Cursor.next, skip_cursor hdrop htrivia settled_nil, hlength,
      nextRaw_cursor_end (Nat.le_refl _)]

theorem exists_steps (s : List Char) (p : Place) (calls : List Call) :
    ∃ answers q, Steps s p calls answers q := by
  induction calls generalizing p with
  | nil => exact ⟨[], p, .nil⟩
  | cons c calls ih =>
    obtain ⟨a, q, hstep⟩ := exists_step s p c
    obtain ⟨answers, r, hsteps⟩ := ih q
    exact ⟨a :: answers, r, .cons hstep hsteps⟩

theorem Steps.unique {as as' : List Answer} (h : Steps s p calls as q)
    (h' : Steps s p calls as' q') : as = as' ∧ q = q' := by
  induction h generalizing as' with
  | nil => cases h' with | nil => exact ⟨rfl, rfl⟩
  | cons hstep _ ih =>
    cases h' with
    | cons hstep' hsteps' =>
      obtain ⟨rfl, rfl⟩ := hstep.unique hstep'
      obtain ⟨rfl, rfl⟩ := ih hsteps'
      exact ⟨rfl, rfl⟩

theorem Steps.calls_cursor {as : List Answer} (h : Steps s p calls as q)
    (hp : p.offset ≤ s.length) :
    q.offset ≤ s.length ∧ (p.cursor s).answers calls = as ∧
      (p.cursor s).afterCalls calls = q.cursor s := by
  induction h with
  | nil => exact ⟨hp, rfl, rfl⟩
  | @cons p _ _ c calls _ _ hstep _ ih =>
    have hcall := hstep.call_cursor hp
    obtain ⟨hle, hanswers, hafter⟩ := ih (hstep.offset_le hp)
    refine ⟨hle, ?_, ?_⟩
    · rw [answers, hcall, hanswers]
    · show ((p.cursor s).call c).2.afterCalls calls = _
      rw [hcall, hafter]

/-- Whatever is called on a new cursor, it keeps to one place of its source: the next position is
counted off from the text before the offset, and the last one is that of the character handed out
last. Its answers are the only ones that the rules of the calls allow, and calls that take no
character can be left out. -/
theorem calls_keep_place (source : String) (calls : List Call) :
    ∃ place : Place, place.offset ≤ source.toList.length ∧
      (start source).afterCalls calls = place.cursor source.toList ∧
      (∀ (as : List Answer) (q : Place), Steps source.toList .start calls as q ↔
        as = (start source).answers calls ∧ q = place) ∧
      (start source).afterCalls (calls.filter Call.takes) = (start source).afterCalls calls := by
  obtain ⟨as, place, hsteps⟩ := exists_steps source.toList .start calls
  have hstart : start source = Place.start.cursor source.toList := rfl
  obtain ⟨hle, hanswers, hafter⟩ := hsteps.calls_cursor (Nat.zero_le _)
  rw [← hstart] at hanswers hafter
  refine ⟨place, hle, hafter, ?_, (start source).afterCalls_filter_takes calls⟩
  intro as' q
  constructor
  · intro hsteps'
    rw [hanswers]
    exact hsteps'.unique hsteps
  · rintro ⟨rfl, rfl⟩
    rw [hanswers]
    exact hsteps

-- a call for the next character as it stands can end up between the slashes of a comment
example :
    (start "a //b\n/").answers [.next, .nextRaw, .nextRaw, .next, .peek, .next, .next, .next] =
      [.char 'a', .char ' ', .char '/', .char '/', .char 'b', .char 'b', .char '/', .char none] := by
  decide +kernel

end Cursor

end ExprLang
