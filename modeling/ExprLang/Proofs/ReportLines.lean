import ExprLang.Proofs.WholeNumbers
import ExprLang.Session.Reader

/-! # Report lines

Reading a JSON text gives back the value that was written, whatever follows the text, so a report is
read back from its line. Control characters are written as escapes: only the newline that ends the
line is one. -/

namespace ExprLang

namespace Json

/-- Induction over a value and all the values inside it. -/
@[elab_as_elim]
theorem nested_induction {motive : Json → Prop} (null : motive null)
    (bool : ∀ flag, motive (bool flag)) (number : ∀ n, motive (number n))
    (string : ∀ text, motive (string text))
    (array : ∀ items, (∀ value ∈ items, motive value) → motive (array items))
    (object : ∀ members, (∀ member ∈ members, motive member.2) → motive (object members))
    (value : Json) : motive value := by
  refine @Json.rec motive (fun items => ∀ value ∈ items, motive value)
    (fun members => ∀ member ∈ members, motive member.2) (fun member => motive member.2)
    null bool number string array object ?_ ?_ ?_ ?_ ?_ value
  · exact fun _ h => absurd h List.not_mem_nil
  · exact fun value items hvalue hitems => List.forall_mem_cons.2 ⟨hvalue, hitems⟩
  · exact fun _ h => absurd h List.not_mem_nil
  · exact fun member members hmember hmembers => List.forall_mem_cons.2 ⟨hmember, hmembers⟩
  · exact fun _ _ hvalue => hvalue

/-! ### Characters of a string -/

theorem hexadecimal_of_lt : ∀ n < 0x20,
    Text.hexadecimal 4 n = ['0', '0', (n / 16).digitChar, (n % 16).digitChar] := by decide

theorem hexDigit?_digitChar : ∀ n < 16, hexDigit? n.digitChar = some n := by decide

theorem readString?_cons {c : Char} (hquote : c ≠ '"') (hescape : c ≠ '\\')
    (hvisible : 0x20 ≤ c.toNat) (cs : List Char) :
    readString? (c :: cs) = (readString? cs).map fun (text, rest) => (c :: text, rest) := by
  have hcontrol : ¬ (c == '\\' || c.toNat < 0x20) = true := by
    simp only [Bool.or_eq_true, beq_iff_eq, decide_eq_true_eq, hescape, false_or]
    omega
  rw [readString?.eq_def]
  split
  · next h => cases h
  · next h => exact absurd (List.cons.inj h).1 hquote
  · next h => exact absurd (List.cons.inj h).1 hescape
  · next h => exact absurd (List.cons.inj h).1 hescape
  · next h =>
    obtain ⟨rfl, rfl⟩ := List.cons.inj h
    rw [if_neg hcontrol]

theorem readString?_simple {letter c : Char} (hletter : letter ≠ 'u')
    (h : simpleEscape? letter = some c) (cs : List Char) :
    readString? ('\\' :: letter :: cs) =
      (readString? cs).map fun (text, rest) => (c :: text, rest) := by
  rw [readString?.eq_def]
  split
  · next heq => cases heq
  · next heq => cases heq
  · next heq =>
    cases heq
    exact absurd rfl hletter
  · next heq =>
    cases heq
    simp [h]
  · next hno heq =>
    cases heq
    exact absurd rfl (hno letter cs rfl)

theorem readString?_code {n : Nat} (h : n < 0x20) (cs : List Char) :
    readString? ('\\' :: 'u' :: (Text.hexadecimal 4 n ++ cs)) =
      (readString? cs).map fun (text, rest) => (Char.ofNat n :: text, rest) := by
  have hhigh : hexDigit? (n / 16).digitChar = some (n / 16) := hexDigit?_digitChar _ (by omega)
  have hlow : hexDigit? (n % 16).digitChar = some (n % 16) := hexDigit?_digitChar _ (by omega)
  have hzero : hexDigit? '0' = some 0 := by decide
  have hunit : codeUnit? '0' '0' (n / 16).digitChar (n % 16).digitChar = some n := by
    simp [codeUnit?, hzero, hhigh, hlow]
    omega
  have hhighSurrogate : isHighSurrogate n = false := by
    simp only [isHighSurrogate, Bool.and_eq_false_iff, decide_eq_false_iff_not]
    omega
  have hchar : ofCodePoint? n = some (Char.ofNat n) := if_pos (.inl (by omega))
  rw [hexadecimal_of_lt n h]
  simp [readString?, hunit, hhighSurrogate, hchar]

/-- How a character is written: with an escape of its own, by its number, or as it stands. -/
theorem escape_cases (c : Char) :
    (∃ letter, letter ≠ 'u' ∧ 0x20 ≤ letter.toNat ∧ simpleEscape? letter = some c ∧
      escape c = ['\\', letter]) ∨
      (c.toNat < 0x20 ∧ escape c = '\\' :: 'u' :: Text.hexadecimal 4 c.toNat) ∨
      (c ≠ '"' ∧ c ≠ '\\' ∧ 0x20 ≤ c.toNat ∧ escape c = [c]) := by
  unfold escape
  iterate 7
    split
    · next h =>
      subst h
      exact .inl ⟨_, by decide, by decide, rfl, rfl⟩
  split
  · next hcontrol => exact .inr (.inl ⟨hcontrol, rfl⟩)
  · next hquote hescape _ _ _ _ _ hvisible =>
    exact .inr (.inr ⟨hquote, hescape, Nat.le_of_not_lt hvisible, rfl⟩)

theorem readString?_escape (c : Char) (cs : List Char) :
    readString? (escape c ++ cs) =
      (readString? cs).map fun (text, rest) => (c :: text, rest) := by
  rcases escape_cases c with
    ⟨letter, hletter, -, h, hc⟩ | ⟨hcontrol, hc⟩ | ⟨hquote, hescape, hvisible, hc⟩
  · rw [hc]
    exact readString?_simple hletter h cs
  · have hread := readString?_code hcontrol cs
    rw [Char.ofNat_toNat] at hread
    rw [hc]
    exact hread
  · rw [hc]
    exact readString?_cons hquote hescape hvisible cs

theorem readString?_flatMap_escape (text rest : List Char) :
    readString? (text.flatMap escape ++ '"' :: rest) = some (text, rest) := by
  induction text with
  | nil => rfl
  | cons c cs ih =>
    rw [List.flatMap_cons, List.append_assoc, readString?_escape, ih]
    rfl

/-! ### Values -/

theorem skipBlanks_cons {c : Char} (h : isBlank c = false) (cs : List Char) :
    skipBlanks (c :: cs) = c :: cs := by
  simp [skipBlanks, h]

def EndsNumber (rest : List Char) : Prop := ∀ c, rest.head? = some c → Decimal.isDigit c = false

theorem EndsNumber.cons {c : Char} (h : Decimal.isDigit c = false) (cs : List Char) :
    EndsNumber (c :: cs) := by
  intro d hd
  obtain rfl := Option.some.inj hd
  exact h

theorem ne_of_isDigit {c d : Char} (hc : Decimal.isDigit c = true)
    (hd : Decimal.isDigit d = false) : c ≠ d := by
  rintro rfl
  rw [hc] at hd
  cases hd

theorem isBlank_of_isDigit {c : Char} (h : Decimal.isDigit c = true) : isBlank c = false := by
  have hne : ∀ d, Decimal.isDigit d = false → (c == d) = false :=
    fun d hd => beq_eq_false_iff_ne.2 (ne_of_isDigit h hd)
  simp only [isBlank, hne ' ' rfl, hne '\t' rfl, hne '\n' rfl, hne '\r' rfl, Bool.or_self]

theorem exists_toDigits_eq_cons (n : Nat) :
    ∃ d ds, Nat.toDigits 10 n = d :: ds ∧ Decimal.isDigit d = true := by
  cases htext : Nat.toDigits 10 n with
  | nil => exact absurd htext (Decimal.toDigits_ne_nil n)
  | cons d ds =>
    have hmem : d ∈ Decimal.toDigits n := by
      rw [Decimal.toDigits, htext]
      exact List.mem_cons_self
    exact ⟨d, ds, rfl, Decimal.isDigit_of_mem_toDigits hmem⟩

theorem readValue?_number (n depth : Nat) {rest : List Char} (hrest : EndsNumber rest) :
    readValue? (depth + 1) (Nat.toDigits 10 n ++ rest) = some (number n, rest) := by
  have hdigits : ∀ c ∈ Nat.toDigits 10 n, Decimal.isDigit c = true :=
    fun c => Decimal.isDigit_of_mem_toDigits
  have htake : rest.takeWhile Decimal.isDigit = [] ∧ rest.dropWhile Decimal.isDigit = rest := by
    cases rest with
    | nil => exact ⟨rfl, rfl⟩
    | cons c cs => simp [hrest c rfl]
  have hread : Decimal.ofDigits (Nat.toDigits 10 n) = n := Decimal.ofDigits_toDigits n
  obtain ⟨d, ds, htext, hd⟩ := exists_toDigits_eq_cons n
  rw [htext] at hdigits hread ⊢
  rw [readValue?, List.cons_append, skipBlanks_cons (isBlank_of_isDigit hd)]
  split
  -- a digit starts no other kind of value
  iterate 6
    · next h => exact absurd (List.cons.inj h).1 (ne_of_isDigit hd rfl)
  rw [← List.cons_append, List.takeWhile_append_of_pos hdigits,
    List.dropWhile_append_of_pos hdigits, htake.1, htake.2, List.append_nil]
  simp only [hread, List.isEmpty_cons, Bool.false_eq_true, if_false]

def ReadsBack (value : Json) : Prop :=
  ∀ (depth : Nat) (rest : List Char), value.render.length ≤ depth → EndsNumber rest →
    readValue? depth (value.render ++ rest) = some (value, rest)

theorem exists_render_eq_cons (value : Json) :
    ∃ c cs, value.render = c :: cs ∧ isBlank c = false ∧ c ≠ ']' := by
  cases value with
  | bool flag => cases flag <;> exact ⟨_, _, rfl, rfl, by decide⟩
  | number n =>
    obtain ⟨d, ds, htext, hd⟩ := exists_toDigits_eq_cons n
    exact ⟨d, ds, htext, isBlank_of_isDigit hd, ne_of_isDigit hd rfl⟩
  | null | string | array | object => exact ⟨_, _, rfl, rfl, by decide⟩

theorem length_render_pos (value : Json) : 0 < value.render.length := by
  obtain ⟨c, cs, h, -⟩ := exists_render_eq_cons value
  simp [h]

theorem ReadsBack.of_succ {value : Json}
    (h : ∀ (depth : Nat) (rest : List Char), value.render.length ≤ depth + 1 → EndsNumber rest →
      readValue? (depth + 1) (value.render ++ rest) = some (value, rest)) : ReadsBack value := by
  intro depth rest hdepth hrest
  have hpos := length_render_pos value
  obtain ⟨n, rfl⟩ : ∃ n, depth = n + 1 := ⟨depth - 1, by omega⟩
  exact h n rest hdepth hrest

/-! Items of an array and members of an object are written and read in one way: as texts with commas
between them. -/

theorem renderItems_eq (items : List Json) :
    renderItems items = [','].intercalate (items.map render) := by
  induction items with
  | nil => rfl
  | cons value items ih =>
    cases items with
    | nil => rw [renderItems, List.map_singleton, List.intercalate_singleton]
    | cons next items =>
      simp [renderItems, ih, List.intercalate_cons_cons]

theorem renderMembers_eq (members : List (String × Json)) :
    renderMembers members = [','].intercalate (members.map renderMember) := by
  induction members with
  | nil => rfl
  | cons member members ih =>
    cases members with
    | nil => rw [renderMembers, List.map_singleton, List.intercalate_singleton]
    | cons next members =>
      simp [renderMembers, ih, List.intercalate_cons_cons]

theorem length_le_intercalate {text : List Char} {texts : List (List Char)} (h : text ∈ texts) :
    text.length ≤ ([','].intercalate texts).length := by
  induction texts with
  | nil => cases h
  | cons first texts ih =>
    cases texts with
    | nil => simp_all
    | cons next texts =>
      rw [List.intercalate_cons_cons]
      simp only [List.length_append, List.length_singleton]
      rcases List.mem_cons.1 h with rfl | h
      · omega
      · have := ih h
        omega

theorem length_le_length_intercalate (texts : List (List Char)) :
    texts.length ≤ ([','].intercalate texts).length + 1 := by
  induction texts with
  | nil => simp
  | cons first texts ih =>
    cases texts with
    | nil => simp
    | cons next texts =>
      rw [List.intercalate_cons_cons]
      simp only [List.length_cons, List.length_append] at ih ⊢
      omega

section Parts

variable {α : Type} {read? : List Char → Option (α × List Char)} {text : α → List Char}

/-- A part is read back from its text, and its text starts with no blank and no closing bracket. -/
structure IsPart (read? : List Char → Option (α × List Char)) (text : α → List Char)
    (closing : Char) (a : α) : Prop where
  starts : ∃ c cs, text a = c :: cs ∧ isBlank c = false ∧ c ≠ closing
  reads : ∀ rest, EndsNumber rest → read? (text a ++ rest) = some (a, rest)

variable {closing : Char} (hdigit : Decimal.isDigit closing = false)
  (hblank : isBlank closing = false) (hcomma : closing ≠ ',')

include hdigit hblank hcomma

theorem readList?_intercalate {a : α} {parts : List α}
    (hparts : ∀ b ∈ a :: parts, IsPart read? text closing b) (rest : List Char) {bound : Nat}
    (hbound : parts.length < bound) :
    readList? read? closing bound ([','].intercalate ((a :: parts).map text) ++ closing :: rest) =
      some (a :: parts, rest) := by
  induction parts generalizing a bound with
  | nil =>
    obtain ⟨bound, rfl⟩ : ∃ n, bound = n + 1 := ⟨bound - 1, by omega⟩
    have hread := (hparts a List.mem_cons_self).reads (closing :: rest) (.cons hdigit rest)
    simp [readList?, hread, skipBlanks_cons hblank]
  | cons b parts ih =>
    obtain ⟨bound, rfl⟩ : ∃ n, bound = n + 1 := ⟨bound - 1, by omega⟩
    obtain ⟨ha, hparts⟩ := List.forall_mem_cons.1 hparts
    have hmore := ih hparts (Nat.lt_of_succ_lt_succ hbound)
    have hread := ha.reads
      (',' :: ([','].intercalate ((b :: parts).map text) ++ closing :: rest)) (.cons rfl _)
    simp only [List.map_cons, List.intercalate_cons_cons, List.append_assoc,
      List.singleton_append] at hread hmore ⊢
    simp [readList?, hread, skipBlanks_cons (c := ',') rfl, hcomma.symm, hmore]

theorem readParts?_intercalate {parts : List α}
    (hparts : ∀ a ∈ parts, IsPart read? text closing a) (rest : List Char) :
    readParts? read? closing ([','].intercalate (parts.map text) ++ closing :: rest) =
      some (parts, rest) := by
  cases parts with
  | nil => simp [readParts?, skipBlanks_cons hblank]
  | cons a parts =>
    obtain ⟨c, cs, hc, hcblank, hclosing⟩ := (hparts a List.mem_cons_self).starts
    have hfirst : ∃ ds, [','].intercalate ((a :: parts).map text) = c :: ds := by
      cases parts with
      | nil => exact ⟨cs, by simp [hc]⟩
      | cons b parts =>
        refine ⟨cs ++ ',' :: [','].intercalate ((b :: parts).map text), ?_⟩
        simp [hc, List.intercalate_cons_cons]
    have hbound : parts.length <
        ([','].intercalate ((a :: parts).map text) ++ closing :: rest).length := by
      have hlength := length_le_length_intercalate ((a :: parts).map text)
      simp only [List.length_map, List.length_cons, List.length_append] at hlength ⊢
      omega
    have hread := readList?_intercalate hdigit hblank hcomma hparts rest hbound
    obtain ⟨ds, hds⟩ := hfirst
    rw [hds, List.cons_append] at hread ⊢
    rw [readParts?, skipBlanks_cons hcblank]
    simp only [hclosing, if_false]
    exact hread

end Parts

theorem readMember?_renderMember {read? : List Char → Option (Json × List Char)} {name : String}
    {value : Json} {rest : List Char} (h : read? (value.render ++ rest) = some (value, rest)) :
    readMember? read? (renderMember (name, value) ++ rest) = some ((name, value), rest) := by
  simp [readMember?, renderMember, renderString, skipBlanks_cons (c := '"') rfl,
    skipBlanks_cons (c := ':') rfl, readString?_flatMap_escape, h]

theorem readValue?_array {items : List Json} (hitems : ∀ value ∈ items, ReadsBack value)
    {depth : Nat} (hdepth : (renderItems items).length ≤ depth) (rest : List Char) :
    readValue? (depth + 1) ((array items).render ++ rest) = some (array items, rest) := by
  have hparts : ∀ value ∈ items, IsPart (readValue? depth) render ']' value := by
    intro value hvalue
    have hlength := length_le_intercalate (List.mem_map_of_mem (f := render) hvalue)
    rw [renderItems_eq] at hdepth
    exact ⟨exists_render_eq_cons value, fun rest => hitems value hvalue depth rest (by omega)⟩
  have hread := readParts?_intercalate rfl rfl (by decide) hparts rest
  simp [readValue?, render, skipBlanks_cons (c := '[') rfl, renderItems_eq, hread]

theorem readValue?_object {members : List (String × Json)}
    (hmembers : ∀ member ∈ members, ReadsBack member.2) {depth : Nat}
    (hdepth : (renderMembers members).length ≤ depth) (rest : List Char) :
    readValue? (depth + 1) ((object members).render ++ rest) = some (object members, rest) := by
  have hparts : ∀ member ∈ members,
      IsPart (readMember? (readValue? depth)) renderMember '\x7d' member := by
    rintro ⟨name, value⟩ hmember
    have hlength := length_le_intercalate (List.mem_map_of_mem (f := renderMember) hmember)
    rw [renderMembers_eq] at hdepth
    simp only [renderMember, List.length_append, List.length_cons] at hlength
    refine ⟨⟨'"', _, rfl, rfl, by decide⟩, fun rest hrest => ?_⟩
    exact readMember?_renderMember (hmembers _ hmember depth rest (by simp only; omega) hrest)
  have hread := readParts?_intercalate rfl rfl (by decide) hparts rest
  simp [readValue?, render, skipBlanks_cons (c := '\x7b') rfl, renderMembers_eq, hread]

theorem readsBack (value : Json) : ReadsBack value := by
  induction value using Json.nested_induction with
  | null => exact .of_succ fun _ _ _ _ => rfl
  | bool flag => cases flag <;> exact .of_succ fun _ _ _ _ => rfl
  | number n => exact .of_succ fun depth _ _ hrest => readValue?_number n depth hrest
  | string text =>
    refine .of_succ fun depth rest _ _ => ?_
    simp [readValue?, render, renderString, skipBlanks_cons (c := '"') rfl,
      readString?_flatMap_escape]
  | array items ih =>
    refine .of_succ fun depth rest hdepth _ => readValue?_array ih ?_ rest
    simp only [render, List.length_cons, List.length_append] at hdepth
    omega
  | object members ih =>
    refine .of_succ fun depth rest hdepth _ => readValue?_object ih ?_ rest
    simp only [render, List.length_cons, List.length_append] at hdepth
    omega

theorem read?_line (value : Json) : read? value.line = some value := by
  have hread := readsBack value (value.render.length + 2) ['\n'] (by omega) (.cons rfl [])
  simp [read?, line, hread, skipBlanks, isBlank]

/-! ### One line -/

/-- A text without control characters below the blank. -/
def Visible (cs : List Char) : Prop := ∀ c ∈ cs, 0x20 ≤ c.toNat

theorem Visible.append {cs ds : List Char} (hcs : Visible cs) (hds : Visible ds) :
    Visible (cs ++ ds) :=
  List.forall_mem_append.2 ⟨hcs, hds⟩

theorem Visible.cons {c : Char} {cs : List Char} (hc : 0x20 ≤ c.toNat) (hcs : Visible cs) :
    Visible (c :: cs) :=
  List.forall_mem_cons.2 ⟨hc, hcs⟩

theorem Visible.of_all {cs : List Char} (h : cs.all (0x20 ≤ ·.toNat) = true) : Visible cs := by
  intro c hc
  simpa using List.all_eq_true.1 h c hc

theorem visible_nil : Visible [] := fun _ h => absurd h List.not_mem_nil

theorem toNat_digitChar : ∀ n < 16, 0x20 ≤ n.digitChar.toNat := by decide

theorem visible_escape (c : Char) : Visible (escape c) := by
  rcases escape_cases c with ⟨letter, -, hletter, -, hc⟩ | ⟨hcontrol, hc⟩ | ⟨-, -, hvisible, hc⟩
  · rw [hc]
    exact .cons (by decide) (.cons hletter visible_nil)
  · have hhigh : 0x20 ≤ (c.toNat / 16).digitChar.toNat := toNat_digitChar _ (by omega)
    have hlow : 0x20 ≤ (c.toNat % 16).digitChar.toNat := toNat_digitChar _ (by omega)
    rw [hc, hexadecimal_of_lt _ hcontrol]
    exact .cons (by decide) (.cons (by decide) (.cons (by decide) (.cons (by decide)
      (.cons hhigh (.cons hlow visible_nil)))))
  · rw [hc]
    exact .cons hvisible visible_nil

theorem visible_renderString (text : String) : Visible (renderString text) := by
  have hbody : Visible (text.toList.flatMap escape) := by
    intro d hd
    obtain ⟨c, -, hescape⟩ := List.mem_flatMap.1 hd
    exact visible_escape c d hescape
  exact .cons (by decide) (hbody.append (.cons (by decide) visible_nil))

theorem visible_toDigits (n : Nat) : Visible (Nat.toDigits 10 n) := by
  intro c hc
  have hdigit : Decimal.isDigit c = true := Decimal.isDigit_of_mem_toDigits hc
  simp only [Decimal.isDigit, Bool.and_eq_true, decide_eq_true_eq, Char.le_def,
    UInt32.le_iff_toNat_le] at hdigit
  exact Nat.le_trans (by decide) hdigit.1

theorem visible_intercalate {texts : List (List Char)} (h : ∀ text ∈ texts, Visible text) :
    Visible ([','].intercalate texts) := by
  induction texts with
  | nil => exact visible_nil
  | cons first texts ih =>
    obtain ⟨hfirst, htexts⟩ := List.forall_mem_cons.1 h
    cases texts with
    | nil => rwa [List.intercalate_singleton]
    | cons next texts =>
      rw [List.intercalate_cons_cons]
      exact (hfirst.append (.cons (by decide) visible_nil)).append (ih htexts)

theorem visible_render (value : Json) : Visible value.render := by
  induction value using Json.nested_induction with
  | null => exact .of_all rfl
  | bool flag => cases flag <;> exact .of_all rfl
  | number n => exact visible_toDigits n
  | string text => exact visible_renderString text
  | array items ih =>
    have hitems : Visible (renderItems items) := by
      rw [renderItems_eq]
      exact visible_intercalate (List.forall_mem_map.2 ih)
    exact .cons (by decide) (hitems.append (.cons (by decide) visible_nil))
  | object members ih =>
    have hmembers : Visible (renderMembers members) := by
      rw [renderMembers_eq]
      refine visible_intercalate (List.forall_mem_map.2 ?_)
      rintro ⟨name, value⟩ hmember
      have hvalue : Visible (':' :: value.render) := .cons (by decide) (ih _ hmember)
      rw [renderMember]
      exact (visible_renderString name).append hvalue
    exact .cons (by decide) (hmembers.append (.cons (by decide) visible_nil))

/-! ### Values that may be null -/

theorem toOption?_number (n? : Option Nat) : (ofOption number n?).toOption? number? = some n? := by
  cases n? <;> rfl

theorem toOption?_string (s? : Option String) :
    (ofOption string s?).toOption? string? = some s? := by
  cases s? <;> rfl

end Json

namespace Report

theorem Entry.ofJson?_toJson (entry : Entry) : Entry.ofJson? entry.toJson = some entry := by
  simp [Entry.ofJson?, Entry.toJson, Json.toOption?_number]

theorem mapM_ofJson?_toJson (entries : List Entry) :
    (entries.map Entry.toJson).mapM Entry.ofJson? = some entries := by
  induction entries with
  | nil => rfl
  | cons entry entries ih =>
    rw [List.map_cons, List.mapM_cons, Entry.ofJson?_toJson, ih]
    rfl

theorem ofJson?_toJson (report : Report) : ofJson? report.toJson = some report := by
  simp only [ofJson?, toJson, Json.toOption?_string, mapM_ofJson?_toJson]
  rfl

theorem toList_line (report : Report) : report.line.toList = report.toJson.render ++ ['\n'] := by
  rw [line, Json.line, String.toList_ofList]

theorem ofLine?_line (report : Report) : ofLine? report.line = some report := by
  rw [ofLine?, line, Json.read?_line]
  exact ofJson?_toJson report

theorem line_injective {report other : Report} (h : other.line = report.line) : other = report := by
  have hread := ofLine?_line other
  rw [h, ofLine?_line report] at hread
  exact (Option.some.inj hread).symm

/-- The line of a report is one line and no more: a newline ends it, and no other control character
is in it. Read as JSON it is the object of the report, from which every member is taken back as it
was, so that different reports have different lines. -/
theorem line_tells_report (report : Report) :
    (∃ body, report.line.toList = body ++ ['\n'] ∧ ∀ c ∈ body, 0x20 ≤ c.toNat) ∧
      Json.read? report.line = some report.toJson ∧ ofLine? report.line = some report ∧
      ∀ other : Report, other.line = report.line → other = report := by
  refine ⟨⟨report.toJson.render, report.toList_line, ?_⟩, ?_, report.ofLine?_line, ?_⟩
  · exact Json.visible_render report.toJson
  · exact Json.read?_line report.toJson
  · exact fun other => line_injective

end Report

end ExprLang
