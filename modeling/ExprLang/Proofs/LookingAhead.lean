import ExprLang.Proofs.EndOfInput

/-! # Looking ahead

Looking at a stream changes it, since the position of what stands next is remembered, and a token
without a position takes the last one remembered. That is the position which taking the token would
remember as well: a second look, or taking after a look, finds the same and leaves the same stream.
So no answer of a stream depends on the looks before it, and each is told by the tokens and by how
many of them have been taken. -/

namespace ExprLang

namespace Token

theorem lastPos_append_singleton (ts : List Token) (t : Token) :
    lastPos (ts ++ [t]) = t.pos?.getD (lastPos ts) := by
  rw [lastPos, lastPos, List.filterMap_append]
  cases hpos : t.pos? with
  | none =>
    rw [List.filterMap_cons_none hpos, List.filterMap_nil, List.append_nil, Option.getD_none]
  | some p =>
    rw [List.filterMap_cons_some hpos, List.filterMap_nil, List.getLast?_concat]
    rfl

/-- What stands where the tokens end. -/
def ending (tokens : List Token) : Lookahead :=
  match tokens.find? isEndOfFile with
  | some (.endOfFile pos) => .endOfFile pos
  | _ => .endOfStream (lastPos tokens)

end Token

namespace TokenStream

inductive Call where
  | look
  | next
deriving DecidableEq, Repr

def call (s : TokenStream) : Call → Lookahead × TokenStream
  | .look => s.look
  | .next => s.next

def afterCalls (s : TokenStream) (calls : List Call) : TokenStream :=
  calls.foldl (fun s c => (s.call c).2) s

/-- What each call finds, and the token taken last when it is done. -/
def answers (s : TokenStream) : List Call → List (Lookahead × Option Token)
  | [] => []
  | c :: cs => ((s.call c).1, (s.call c).2.trail.previous) :: (s.call c).2.answers cs

theorem afterCalls_append (s : TokenStream) (before after : List Call) :
    s.afterCalls (before ++ after) = (s.afterCalls before).afterCalls after := List.foldl_append

/-! ### A look leaves no trace in what comes after it -/

theorem peek_look (s : TokenStream) : s.look.2.peek = s.peek := by
  obtain ⟨trail, rest⟩ := s
  cases rest with
  | nil => rfl
  | cons t ts =>
    cases t with
    | endOfFile | symbol | keyword | literal | invalid => rfl

theorem look_look (s : TokenStream) : s.look.2.look = s.look := by
  have hpeek := s.peek_look
  simp only [look] at hpeek ⊢
  rw [hpeek]

theorem call_look (s : TokenStream) (c : Call) : s.look.2.call c = s.call c := by
  cases c with
  | look => exact s.look_look
  | next => rw [call, call, next, next, s.look_look]

theorem answers_look (s : TokenStream) (calls : List Call) :
    s.look.2.answers calls = s.answers calls := by
  cases calls with
  | nil => rfl
  | cons c cs => rw [answers, answers, s.call_look]

theorem length_answers (s : TokenStream) (calls : List Call) :
    (s.answers calls).length = calls.length := by
  induction calls generalizing s with
  | nil => rfl
  | cons c cs ih => rw [answers, List.length_cons, List.length_cons, ih]

theorem answers_append (s : TokenStream) (before after : List Call) :
    s.answers (before ++ after) = s.answers before ++ (s.afterCalls before).answers after := by
  induction before generalizing s with
  | nil => rfl
  | cons c cs ih =>
    rw [List.cons_append, answers, ih, answers, List.cons_append]
    rfl

theorem eraseIdx_answers (s : TokenStream) (before after : List Call) :
    (s.answers (before ++ .look :: after)).eraseIdx before.length =
      s.answers (before ++ after) := by
  have hlength := s.length_answers before
  rw [answers_append, answers_append, answers, call, answers_look,
    List.eraseIdx_append_of_length_le (by omega), hlength, Nat.sub_self, List.eraseIdx_cons_zero]

theorem afterCalls_looks (s : TokenStream) (n : Nat) (c : Call) :
    (s.afterCalls (List.replicate n .look)).call c = s.call c := by
  induction n generalizing s with
  | zero => rfl
  | succ n ih => exact (ih s.look.2).trans (s.call_look c)

/-! ### What a stream has reached -/

/-- `Reached tokens k s`: the first `k` tokens have been taken. Whether the stream has looked at the
next one is left open, but not which position it has seen once it looks. -/
structure Reached (tokens : List Token) (k : Nat) (s : TokenStream) : Prop where
  rest : s.rest = tokens.drop k
  previous : s.trail.previous = (tokens.take k).getLast?
  seen : s.peek.pos = Token.lastPos (tokens.take (k + 1))

theorem take_succ_of_drop {tokens ts : List Token} {k : Nat} {t : Token}
    (h : tokens.drop k = t :: ts) : tokens.take (k + 1) = tokens.take k ++ [t] := by
  have hget : tokens[k]? = some t := by rw [← List.head?_drop, h, List.head?_cons]
  rw [List.take_add_one, hget, Option.toList_some]

theorem drop_succ_of_drop {tokens ts : List Token} {k : Nat} {t : Token}
    (h : tokens.drop k = t :: ts) : tokens.drop (k + 1) = ts := by
  rw [← List.tail_drop, h, List.tail_cons]

theorem pos_peek_cons {s : TokenStream} {t : Token} {ts : List Token} (h : s.rest = t :: ts) :
    s.peek.pos = t.pos?.getD s.trail.lastPos := by
  simp only [peek, h]
  cases t with
  | endOfFile | symbol | keyword | literal | invalid => rfl

/-- A stream that has seen nothing but what it has taken. -/
theorem Reached.of_lastPos {tokens : List Token} {k : Nat} {s : TokenStream}
    (hrest : s.rest = tokens.drop k) (hprevious : s.trail.previous = (tokens.take k).getLast?)
    (hlast : s.trail.lastPos = Token.lastPos (tokens.take k)) : Reached tokens k s := by
  refine ⟨hrest, hprevious, ?_⟩
  cases hdrop : tokens.drop k with
  | nil =>
    have hlength : tokens.length ≤ k := List.drop_eq_nil_iff.1 hdrop
    rw [hdrop] at hrest
    rw [List.take_of_length_le hlength] at hlast
    rw [List.take_of_length_le (by omega), ← hlast]
    simp only [peek, hrest, Lookahead.pos]
  | cons t ts =>
    rw [pos_peek_cons (hrest.trans hdrop), hlast, take_succ_of_drop hdrop,
      Token.lastPos_append_singleton]

theorem Reached.look {tokens : List Token} {k : Nat} {s : TokenStream} (h : Reached tokens k s) :
    Reached tokens k s.look.2 :=
  ⟨h.rest, h.previous, by rw [s.peek_look, h.seen]⟩

/-- The tokens that are left begin with one before the end, or they are at the end. -/
theorem drop_cases (tokens : List Token) {k : Nat} (hk : k ≤ (Token.body tokens).length) :
    (k < (Token.body tokens).length ∧ ∃ t ts, tokens.drop k = t :: ts ∧
      (Token.body tokens)[k]? = some t ∧ t.isEndOfFile = false) ∨
    (k = (Token.body tokens).length ∧
      ((tokens.drop k = [] ∧ tokens.find? Token.isEndOfFile = none) ∨
        ∃ pos ts, tokens.drop k = .endOfFile pos :: ts ∧
          tokens.find? Token.isEndOfFile = some (.endOfFile pos))) := by
  induction tokens generalizing k with
  | nil =>
    right
    simp_all [Token.body]
  | cons t ts ih =>
    cases hend : t.isEndOfFile with
    | true =>
      right
      have hbody : Token.body (t :: ts) = [] := by simp [Token.body, hend]
      obtain rfl : k = 0 := by simpa [hbody] using hk
      cases t with
      | endOfFile pos => exact ⟨by rw [hbody]; rfl, .inr ⟨pos, ts, rfl, rfl⟩⟩
      | symbol | keyword | literal | invalid => cases hend
    | false =>
      have hfind : (t :: ts).find? Token.isEndOfFile = ts.find? Token.isEndOfFile := by
        rw [List.find?_cons_of_neg (by simp [hend])]
      rw [Parse.body_cons hend, List.length_cons] at hk ⊢
      cases k with
      | zero => exact .inl ⟨by omega, t, ts, rfl, rfl, hend⟩
      | succ k =>
        rw [List.drop_succ_cons, List.getElem?_cons_succ, hfind, Nat.add_lt_add_iff_right,
          Nat.add_right_cancel_iff]
        exact ih (by omega)

theorem Reached.peek_token {tokens ts : List Token} {k : Nat} {s : TokenStream} {t : Token}
    (h : Reached tokens k s) (hdrop : tokens.drop k = t :: ts) (ht : t.isEndOfFile = false) :
    s.peek = .token t (t.pos?.getD (Token.lastPos (tokens.take k))) := by
  have hseen := h.seen
  rw [take_succ_of_drop hdrop, Token.lastPos_append_singleton] at hseen
  rw [← hseen]
  simp only [peek, h.rest.trans hdrop]
  cases t with
  | endOfFile => cases ht
  | symbol | keyword | literal | invalid => rfl

theorem Reached.peek_ending {tokens : List Token} {s : TokenStream}
    (h : Reached tokens (Token.body tokens).length s) : s.peek = Token.ending tokens := by
  rcases drop_cases tokens (Nat.le_refl _) with
    ⟨hlt, -⟩ | ⟨-, ⟨hdrop, hfind⟩ | ⟨pos, ts, hdrop, hfind⟩⟩
  · exact absurd hlt (Nat.lt_irrefl _)
  · have hlength := List.drop_eq_nil_iff.1 hdrop
    have hseen := h.seen
    rw [List.take_of_length_le (by omega)] at hseen
    simp only [peek, h.rest.trans hdrop, Lookahead.pos, Token.ending, hfind] at hseen ⊢
    rw [hseen]
  · simp only [peek, h.rest.trans hdrop, Token.ending, hfind]

theorem Reached.advance_token {tokens ts : List Token} {k : Nat} {s : TokenStream} {t : Token}
    (h : Reached tokens k s) (hdrop : tokens.drop k = t :: ts) (ht : t.isEndOfFile = false) :
    Reached tokens (k + 1) s.advance := by
  have hrest := h.rest.trans hdrop
  have hadvance : s.advance = ⟨s.trail.after t, ts⟩ := by
    simp only [advance, hrest]
    cases t with
    | endOfFile => cases ht
    | symbol | keyword | literal | invalid => rfl
  rw [hadvance]
  refine .of_lastPos (drop_succ_of_drop hdrop).symm ?_ ?_
  · rw [take_succ_of_drop hdrop, List.getLast?_concat]
    rfl
  · rw [← h.seen, pos_peek_cons hrest]
    rfl

theorem Reached.advance_ending {tokens : List Token} {s : TokenStream}
    (h : Reached tokens (Token.body tokens).length s) : s.advance = s := by
  rcases drop_cases tokens (Nat.le_refl _) with ⟨hlt, -⟩ | ⟨-, ⟨hdrop, -⟩ | ⟨pos, ts, hdrop, -⟩⟩
  · exact absurd hlt (Nat.lt_irrefl _)
  · simp only [advance, h.rest.trans hdrop]
  · simp only [advance, h.rest.trans hdrop]

/-- How many tokens have been taken after several calls on a new stream. -/
def takenBy (tokens : List Token) (calls : List Call) : Nat :=
  min (calls.count .next) (Token.body tokens).length

theorem Reached.next {tokens : List Token} {n : Nat} {s : TokenStream}
    (h : Reached tokens (min n (Token.body tokens).length) s) :
    Reached tokens (min (n + 1) (Token.body tokens).length) s.next.2 := by
  rw [TokenStream.next]
  rcases drop_cases tokens (Nat.min_le_right n _) with ⟨hlt, t, ts, hdrop, -, ht⟩ | ⟨hk, -⟩
  · rw [show min (n + 1) (Token.body tokens).length = min n (Token.body tokens).length + 1 by omega]
    exact h.look.advance_token hdrop ht
  · rw [show min (n + 1) (Token.body tokens).length = (Token.body tokens).length by omega]
    rw [hk] at h
    rw [h.look.advance_ending]
    exact h.look

theorem reached_afterCalls (tokens : List Token) (calls : List Call) :
    Reached tokens (takenBy tokens calls) ((ofList tokens).afterCalls calls) := by
  -- the induction runs over the calls from the last one back, so that the start stays the same
  induction calls using List.reverseRecOn with
  | nil =>
    rw [takenBy, List.count_nil, Nat.zero_min]
    exact .of_lastPos rfl rfl rfl
  | append_singleton calls c ih =>
    rw [afterCalls_append, takenBy, List.count_append]
    cases c with
    | look => exact ih.look
    | next => exact ih.next

/-! ### All calls -/

/-- A look can be put among the calls of a new stream or left out, and all other answers stay the
same. It finds what the next token taken will be, however often one looks in between. The tokens are
taken in their order, each at its own position or else at the nearest one before it; from the end on
nothing changes; and the token taken last is the one before those that are left. -/
theorem looks_are_free (tokens : List Token) :
    (∀ before after : List Call,
      ((ofList tokens).answers (before ++ .look :: after)).eraseIdx before.length =
        (ofList tokens).answers (before ++ after)) ∧
    (∀ (calls : List Call) (n : Nat),
      ((ofList tokens).afterCalls calls).look.1 =
        ((ofList tokens).afterCalls (calls ++ List.replicate n .look)).next.1) ∧
    (∀ (calls : List Call) (t : Token), (Token.body tokens)[calls.count .next]? = some t →
      ((ofList tokens).afterCalls calls).next.1 =
        .token t (t.pos?.getD (Token.lastPos (tokens.take (calls.count .next))))) ∧
    (∀ calls : List Call, (Token.body tokens).length ≤ calls.count .next →
      ((ofList tokens).afterCalls calls).next.1 = Token.ending tokens) ∧
    ∀ calls : List Call,
      ((ofList tokens).afterCalls calls).rest = tokens.drop (takenBy tokens calls) ∧
      ((ofList tokens).afterCalls calls).trail.previous =
        (tokens.take (takenBy tokens calls)).getLast? := by
  refine ⟨(ofList tokens).eraseIdx_answers, ?_, ?_, ?_, ?_⟩
  · intro calls n
    have hnext := ((ofList tokens).afterCalls calls).afterCalls_looks n .next
    rw [call, call] at hnext
    rw [afterCalls_append, hnext, next]
  · intro calls t ht
    have hreached := reached_afterCalls tokens calls
    obtain ⟨hlt, -⟩ := List.getElem?_eq_some_iff.1 ht
    have htaken : takenBy tokens calls = calls.count .next := by
      rw [takenBy]
      omega
    rw [htaken] at hreached
    rcases drop_cases tokens (Nat.le_of_lt hlt) with ⟨-, u, us, hdrop, hu, hend⟩ | ⟨hk, -⟩
    · obtain rfl : t = u := Option.some.inj (ht.symm.trans hu)
      exact hreached.peek_token hdrop hend
    · omega
  · intro calls hover
    have hreached := reached_afterCalls tokens calls
    rw [takenBy, Nat.min_eq_right hover] at hreached
    exact hreached.peek_ending
  · intro calls
    exact ⟨(reached_afterCalls tokens calls).rest, (reached_afterCalls tokens calls).previous⟩

/-- An invalid token at the start and one behind a symbol, and a token after the end. -/
def strewnTokens : List Token :=
  [.invalid (.unknownToken ⟨1, 1⟩ "#"), .symbol .plus ⟨1, 3⟩, .invalid (.unknownToken ⟨1, 5⟩ "$"),
    .endOfFile ⟨2, 1⟩, .symbol .minus ⟨3, 1⟩]

theorem looks_are_free_strewnTokens :
    ((ofList strewnTokens).afterCalls [.look, .look]).next.1 =
      .token (.invalid (.unknownToken ⟨1, 1⟩ "#")) ⟨0, 0⟩ ∧
    ((ofList strewnTokens).afterCalls [.next, .look, .next, .look]).next.1 =
      .token (.invalid (.unknownToken ⟨1, 5⟩ "$")) ⟨1, 3⟩ ∧
    ((ofList strewnTokens).afterCalls [.next, .next, .look, .next, .next]).next.1 =
      .endOfFile ⟨2, 1⟩ := by
  obtain ⟨-, -, htoken, hending, -⟩ := looks_are_free strewnTokens
  exact ⟨htoken [.look, .look] _ rfl, htoken [.next, .look, .next, .look] _ rfl,
    hending [.next, .next, .look, .next, .next] (by decide)⟩

end TokenStream

end ExprLang
