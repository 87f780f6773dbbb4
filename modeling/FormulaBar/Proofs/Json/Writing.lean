import FormulaBar.Proofs.Json.Spelling
import FormulaBar.Proofs.Text.Lines

/-!
# JSON values are read back

A written value is a row of lexemes with blanks between some of them, whatever its layout. The row
spells its lexemes, no line of it is a comment, and the lexemes are read as the value, however they
are spelled.

1. **Characters** of a lexeme.
2. **Rows** of lexemes, and what they spell.
3. **Comments** do not occur in rows.
4. **Values** are written as rows of their lexemes.
5. **Reading** the lexemes of a value.
-/

namespace FormulaBar.Json

open FormulaBar.Text (Digit Uncommented not_end_of_not_blank)

/-! ## Characters -/

/-- How a lexeme is written. -/
def Lexeme.chars : Lexeme → List Char
  | .openArray => ['[']
  | .closeArray => [']']
  | .openObject => ['{']
  | .closeObject => ['}']
  | .comma => [',']
  | .colon => [':']
  | .null => "null".toList
  | .bool true => "true".toList
  | .bool false => "false".toList
  | .number n => n.chars
  | .string s => quoted s

/-- What is written for a lexeme spells it. -/
theorem spelling_chars (t : Lexeme) : Spelling t t.chars := by
  cases t with
  | openArray => exact .openArray
  | closeArray => exact .closeArray
  | openObject => exact .openObject
  | closeObject => exact .closeObject
  | comma => exact .comma
  | colon => exact .colon
  | null => exact .null
  | bool b => cases b <;> exact .bool _
  | number n => exact .number (numberText_chars n)
  | string s =>
      cases s with
      | some s =>
          have hstring := Spelling.string (stringText_escape s.toList)
          rwa [joinUnits?_chars, Option.map_some, String.ofList_toList] at hstring
      | none =>
          have hhalf : StringText [.ofEscape 0xd800] ['\\', 'u', 'd', '8', '0', '0'] :=
            .digits rfl .nil
          exact .string hhalf

/-- Nothing in a number literal looks like a blank or a slash. -/
theorem not_blank_of_mem_chars {n : Number} {c : Char} (h : c ∈ n.chars) :
    Text.isBlank c = false ∧ c ≠ '/' := by
  have hdigit : ∀ d : Digit, Text.isBlank d.toChar = false ∧ d.toChar ≠ '/' := by
    decide
  have hdigits : ∀ (ds : List Digit), c ∈ ds.map Digit.toChar →
      Text.isBlank c = false ∧ c ≠ '/' := by
    intro ds hc
    obtain ⟨d, -, rfl⟩ := List.mem_map.mp hc
    exact hdigit d
  rw [Number.chars, List.mem_append, List.mem_append, List.mem_append] at h
  rcases h with ((hsign | hwhole) | hfraction) | hexponent
  · split at hsign
    · rw [List.mem_singleton.mp hsign]
      decide
    · cases hsign
  · exact hdigits _ hwhole
  · split at hfraction
    · cases hfraction
    · rcases List.mem_cons.mp hfraction with rfl | hfraction
      · decide
      · exact hdigits _ hfraction
  · split at hexponent
    · cases hexponent
    · next e =>
      rcases List.mem_cons.mp hexponent with rfl | hexponent
      · decide
      · rcases List.mem_cons.mp hexponent with rfl | hexponent
        · split <;> decide
        · exact hdigits _ hexponent

/-- What is written for a character stays on its line. -/
theorem not_end_of_mem_escape {c c' : Char} (h : c' ∈ escape c) : c' ≠ '\n' ∧ c' ≠ '\r' := by
  have hhex : ∀ d : Fin 16, hexChar d ≠ '\n' ∧ hexChar d ≠ '\r' := by
    decide
  rcases escape_cases c with ⟨e, he, hc⟩ | ⟨-, hc⟩ | ⟨-, -, hplain, hc⟩
  · -- no letter of an escape ends a line
    rw [hc] at h
    rcases List.mem_cons.mp h with rfl | h
    · decide
    · cases List.mem_singleton.mp h
      constructor
      · rintro rfl
        cases he
      · rintro rfl
        cases he
  · rw [hc] at h
    simp only [List.mem_cons, List.not_mem_nil, or_false] at h
    rcases h with rfl | rfl | rfl | rfl | rfl | rfl
    · decide
    · decide
    · decide
    · decide
    · exact hhex _
    · exact hhex _
  · rw [hc] at h
    cases List.mem_singleton.mp h
    constructor
    · rintro rfl
      exact hplain (by decide)
    · rintro rfl
      exact hplain (by decide)

theorem not_end_of_mem_text {text : List Char} {c : Char}
    (h : c ∈ text.flatMap escape ++ ['"']) : c ≠ '\n' ∧ c ≠ '\r' := by
  rcases List.mem_append.mp h with h | h
  · obtain ⟨c', -, hc⟩ := List.mem_flatMap.mp h
    exact not_end_of_mem_escape hc
  · rw [List.mem_singleton.mp h]
    decide

theorem not_end_of_all {cs : List Char} (h : (cs.all fun c => c != '\n' && c != '\r') = true) :
    ∀ c ∈ cs, c ≠ '\n' ∧ c ≠ '\r' := by
  simpa using h

/-- A lexeme begins with a character that begins no comment, and does not go beyond its line. -/
theorem Lexeme.exists_chars (t : Lexeme) :
    ∃ c cs, t.chars = c :: cs ∧ Text.isBlank c = false ∧ c ≠ '/' ∧
      ∀ c' ∈ cs, c' ≠ '\n' ∧ c' ≠ '\r' := by
  cases t with
  | openArray | closeArray | openObject | closeObject | comma | colon | null =>
      exact ⟨_, _, rfl, by decide, by decide, not_end_of_all rfl⟩
  | bool b => cases b <;> exact ⟨_, _, rfl, by decide, by decide, not_end_of_all rfl⟩
  | number n =>
      obtain ⟨c, cs, hchars, -⟩ := (numberText_chars n).exists_cons
      have hmem : ∀ c' ∈ c :: cs, Text.isBlank c' = false ∧ c' ≠ '/' := by
        intro c' hc
        exact not_blank_of_mem_chars (hchars ▸ hc)
      obtain ⟨hblank, hslash⟩ := hmem c List.mem_cons_self
      refine ⟨c, cs, hchars, hblank, hslash, ?_⟩
      intro c' hc
      exact not_end_of_not_blank (hmem c' (List.mem_cons_of_mem _ hc)).1
  | string s =>
      cases s with
      | some s => exact ⟨'"', _, rfl, by decide, by decide, fun c' hc => not_end_of_mem_text hc⟩
      | none => exact ⟨_, _, rfl, by decide, by decide, not_end_of_all rfl⟩

/-! ## Rows -/

/-- A row of lexemes, with blanks in front of some of them. After a number something else than a
digit has to follow. -/
inductive Written : List Char → List Lexeme → Prop where
  | nil : Written [] []
  | blank {c : Char} {cs : List Char} {t : Lexeme} {ts : List Lexeme} (hc : c = ' ' ∨ c = '\n')
      (h : Written cs (t :: ts)) : Written (c :: cs) (t :: ts)
  | lexeme (t : Lexeme) {cs : List Char} {ts : List Lexeme} (h : Written cs ts)
      (hend : ∀ n, t = .number n → Delimited cs) : Written (t.chars ++ cs) (t :: ts)

section Rows

variable {cs : List Char} {t : Lexeme} {ts : List Lexeme}

/-- A row spells its lexemes. -/
theorem Written.spelled (h : Written cs ts) : Spelled ts cs := by
  induction h with
  | nil => exact .nil
  | @blank c cs t ts hc h ih =>
      have hblank : isBlank c = true := by
        rcases hc with rfl | rfl <;> rfl
      exact .blank hblank ih
  | lexeme t h hend ih => exact .lexeme (spelling_chars t) ih hend

/-! ## Comments -/

/-- No line of a row is a comment. -/
theorem Written.uncommented (h : Written cs ts) :
    Uncommented true cs ∧ (ts ≠ [] → Uncommented false cs) := by
  induction h with
  | nil => exact ⟨.nil, fun hne => absurd rfl hne⟩
  | blank hc h ih =>
      have hrest : Uncommented false _ := ih.2 (List.cons_ne_nil _ _)
      rcases hc with rfl | rfl
      · have hspace : Uncommented false (' ' :: _) := .blank rfl (by decide) hrest
        exact ⟨hspace.later, fun _ => hspace⟩
      · exact ⟨.newline hrest, fun _ => .newline hrest⟩
  | lexeme t h hend ih =>
      obtain ⟨c, cs', hchars, hblank, hslash, hinner⟩ := t.exists_chars
      have hfirst : Uncommented false (c :: (cs' ++ _)) :=
        .first hblank hslash (ih.1.inner_append hinner)
      rw [hchars]
      exact ⟨hfirst.later, fun _ => hfirst⟩

end Rows

/-! ## Values -/

section Values

variable {rest : List Char} {t : Lexeme} {ts : List Lexeme} (l : Layout) (level : Nat)

theorem written_lineBreak (h : Written rest (t :: ts)) :
    Written (l.lineBreak level ++ rest) (t :: ts) := by
  have hspaces : ∀ n, Written (List.replicate n ' ' ++ rest) (t :: ts) := by
    intro n
    induction n with
    | zero => exact h
    | succ n ih =>
        rw [List.replicate_succ, List.cons_append]
        exact .blank (.inl rfl) ih
  cases l with
  | compact => exact h
  | indented => exact .blank (.inr rfl) (hspaces _)

theorem written_colon (h : Written rest (t :: ts)) :
    Written (l.colon ++ rest) (.colon :: t :: ts) := by
  cases l with
  | compact => exact .lexeme .colon h nofun
  | indented => exact .lexeme .colon (.blank (.inl rfl) h) nofun

theorem delimited_lineBreak (h : Delimited rest) : Delimited (l.lineBreak level ++ rest) := by
  cases l with
  | compact => exact h
  | indented => exact delimited_cons (by decide) _

theorem delimited_itemChars (vs : List Json) (h : Delimited rest) :
    Delimited (itemChars l level vs ++ rest) := by
  cases vs with
  | nil => rwa [itemChars]
  | cons v vs =>
      rw [itemChars]
      exact delimited_cons (by decide) _

theorem delimited_memberChars (ms : List (StringValue × Json)) (h : Delimited rest) :
    Delimited (memberChars l level ms ++ rest) := by
  rcases ms with _ | ⟨⟨name, v⟩, ms⟩
  · rwa [memberChars]
  · rw [memberChars]
    exact delimited_cons (by decide) _

end Values

mutual

/-- A value is written as a row of its lexemes. -/
theorem written_chars (l : Layout) (level : Nat) (v : Json) {rest : List Char} {ts : List Lexeme}
    (h : Written rest ts) (hrest : Delimited rest) :
    Written (chars l level v ++ rest) (v.lexemes ++ ts) := by
  match v with
  | .null => exact .lexeme .null h nofun
  | .bool true => exact .lexeme (.bool true) h nofun
  | .bool false => exact .lexeme (.bool false) h nofun
  | .number n =>
      rw [chars, lexemes]
      exact .lexeme (.number n) h fun _ _ => hrest
  | .string s =>
      rw [chars, lexemes]
      exact .lexeme (.string s) h nofun
  | .array [] => exact .lexeme .openArray (.lexeme .closeArray h nofun) nofun
  | .array (v :: vs) =>
      have hclose : Written (']' :: rest) (.closeArray :: ts) := .lexeme .closeArray h nofun
      have hend := delimited_lineBreak l level (delimited_cons (c := ']') (by decide) rest)
      have hitems := written_itemChars l (level + 1) vs (written_lineBreak l level hclose) hend
      have hfirst := written_chars l (level + 1) v hitems (delimited_itemChars l _ vs hend)
      obtain ⟨t, ts', hts, -⟩ := exists_lexemes v
      rw [hts] at hfirst
      have hopen : Written _ (.openArray :: _) :=
        .lexeme .openArray (written_lineBreak l (level + 1) hfirst) nofun
      simpa [chars, lexemes, hts, Lexeme.chars] using hopen
  | .object [] => exact .lexeme .openObject (.lexeme .closeObject h nofun) nofun
  | .object ((name, v) :: ms) =>
      have hclose : Written ('}' :: rest) (.closeObject :: ts) := .lexeme .closeObject h nofun
      have hend := delimited_lineBreak l level (delimited_cons (c := '}') (by decide) rest)
      have hmembers := written_memberChars l (level + 1) ms (written_lineBreak l level hclose) hend
      have hfirst := written_chars l (level + 1) v hmembers (delimited_memberChars l _ ms hend)
      obtain ⟨t, ts', hts, -⟩ := exists_lexemes v
      rw [hts] at hfirst
      have hname := Written.lexeme (.string name) (written_colon l hfirst) nofun
      have hopen : Written _ (.openObject :: _) :=
        .lexeme .openObject (written_lineBreak l (level + 1) hname) nofun
      simpa [chars, lexemes, hts, Lexeme.chars] using hopen

/-- Further items are written as a row of their lexemes. -/
theorem written_itemChars (l : Layout) (level : Nat) (vs : List Json) {rest : List Char}
    {t : Lexeme} {ts : List Lexeme} (h : Written rest (t :: ts)) (hrest : Delimited rest) :
    Written (itemChars l level vs ++ rest) (itemLexemes vs ++ (t :: ts)) := by
  match vs with
  | [] => exact h
  | v :: vs =>
      have hitems := written_itemChars l level vs h hrest
      have hfirst := written_chars l level v hitems (delimited_itemChars l level vs hrest)
      obtain ⟨t', ts', hts, -⟩ := exists_lexemes v
      rw [hts] at hfirst
      have hcomma : Written _ (.comma :: _) :=
        .lexeme .comma (written_lineBreak l level hfirst) nofun
      simpa [itemChars, itemLexemes, hts, Lexeme.chars] using hcomma

/-- Further members are written as a row of their lexemes. -/
theorem written_memberChars (l : Layout) (level : Nat) (ms : List (StringValue × Json))
    {rest : List Char} {t : Lexeme} {ts : List Lexeme} (h : Written rest (t :: ts))
    (hrest : Delimited rest) :
    Written (memberChars l level ms ++ rest) (memberLexemes ms ++ (t :: ts)) := by
  match ms with
  | [] => exact h
  | (name, v) :: ms =>
      have hmembers := written_memberChars l level ms h hrest
      have hfirst := written_chars l level v hmembers (delimited_memberChars l level ms hrest)
      obtain ⟨t', ts', hts, -⟩ := exists_lexemes v
      rw [hts] at hfirst
      have hname := Written.lexeme (.string name) (written_colon l hfirst) nofun
      have hcomma : Written _ (.comma :: _) :=
        .lexeme .comma (written_lineBreak l level hname) nofun
      simpa [memberChars, memberLexemes, hts, Lexeme.chars] using hcomma

end

/-- The text of a value is a row of its lexemes. -/
theorem written_text (l : Layout) (v : Json) : Written (v.text l).toList v.lexemes := by
  have h := written_chars l 0 v Written.nil delimited_nil
  rw [List.append_nil, List.append_nil] at h
  rwa [text, String.toList_ofList]

/-! ## Reading -/

/-- A value that is not empty begins after the bracket that opens it. -/
theorem readValue_openArray (stack : List Frame) {t : Lexeme} (h : t ≠ .closeArray)
    (ts : List Lexeme) :
    readValue stack (.openArray :: t :: ts) = readValue (.items [] :: stack) (t :: ts) := by
  rw [readValue]
  rintro ts' ⟨⟩
  exact h rfl

mutual

/-- The lexemes of a value are read as this value. -/
theorem readValue_lexemes (stack : List Frame) (v : Json) (ts : List Lexeme) :
    readValue stack (v.lexemes ++ ts) = readRest stack v ts := by
  match v with
  | .null => rw [lexemes, List.singleton_append, readValue]
  | .bool b => rw [lexemes, List.singleton_append, readValue]
  | .number n => rw [lexemes, List.singleton_append, readValue]
  | .string s => rw [lexemes, List.singleton_append, readValue]
  | .array [] => rw [lexemes, List.cons_append, List.singleton_append, readValue]
  | .array (v :: vs) =>
      have hfirst := readValue_lexemes (.items [] :: stack) v
        (itemLexemes vs ++ .closeArray :: ts)
      have hitems := readRest_items stack [] v vs ts
      obtain ⟨t, ts', hts, ht⟩ := exists_lexemes v
      rw [hitems, hts, List.cons_append] at hfirst
      have hsplit : (Json.array (v :: vs)).lexemes ++ ts =
          .openArray :: t :: (ts' ++ (itemLexemes vs ++ .closeArray :: ts)) := by
        simp [lexemes, hts]
      rw [hsplit, readValue_openArray stack ht, hfirst]
      rfl
  | .object [] => rw [lexemes, List.cons_append, List.singleton_append, readValue]
  | .object ((name, v) :: ms) =>
      have hfirst := readValue_lexemes (.members [] name :: stack) v
        (memberLexemes ms ++ .closeObject :: ts)
      have hmembers := readRest_members stack [] name v ms ts
      have hsplit : (Json.object ((name, v) :: ms)).lexemes ++ ts =
          .openObject :: .string name :: .colon ::
            (v.lexemes ++ (memberLexemes ms ++ .closeObject :: ts)) := by
        simp [lexemes]
      rw [hsplit, readValue, hfirst, hmembers]
      rfl

/-- The further items of an array are put behind those that it holds. -/
theorem readRest_items (stack : List Frame) (done : List Json) (v : Json) (vs : List Json)
    (ts : List Lexeme) :
    readRest (.items done :: stack) v (itemLexemes vs ++ .closeArray :: ts) =
      readRest stack (.array (done.reverse ++ v :: vs)) ts := by
  match vs with
  | [] =>
      rw [itemLexemes, List.nil_append, readRest]
      simp
  | next :: vs =>
      have hnext := readValue_lexemes (.items (v :: done) :: stack) next
        (itemLexemes vs ++ .closeArray :: ts)
      have hitems := readRest_items stack (v :: done) next vs ts
      rw [itemLexemes, List.cons_append, readRest, List.append_assoc, hnext, hitems]
      simp

/-- The further members of an object are put behind those that it holds. -/
theorem readRest_members (stack : List Frame) (done : List (StringValue × Json))
    (name : StringValue) (v : Json) (ms : List (StringValue × Json)) (ts : List Lexeme) :
    readRest (.members done name :: stack) v (memberLexemes ms ++ .closeObject :: ts) =
      readRest stack (.object (done.reverse ++ (name, v) :: ms)) ts := by
  match ms with
  | [] =>
      rw [memberLexemes, List.nil_append, readRest]
      simp
  | (next, v') :: ms =>
      have hnext := readValue_lexemes (.members ((name, v) :: done) next :: stack) v'
        (memberLexemes ms ++ .closeObject :: ts)
      have hmembers := readRest_members stack ((name, v) :: done) next v' ms ts
      rw [memberLexemes, List.cons_append, List.cons_append, List.cons_append, readRest,
        List.append_assoc, hnext, hmembers]
      simp

end

/-- A value is read from every text that spells its lexemes. -/
theorem Spelled.parse? {v : Json} {text : String} (h : Spelled v.lexemes text.toList) :
    Json.parse? text = some v := by
  have hread := readValue_lexemes [] v []
  rw [List.append_nil] at hread
  rw [Json.parse?, h.lexemes?]
  show readValue [] v.lexemes = some v
  rw [hread, readRest]

/-- A value is read back from its text, in every layout. -/
theorem parse?_text (l : Layout) (v : Json) : parse? (v.text l) = some v :=
  (written_text l v).spelled.parse?

/-- The text of a value has no comments. -/
theorem stripComments_text (l : Layout) (v : Json) :
    Text.stripComments (v.text l).toList = (v.text l).toList := by
  have hne : v.lexemes ≠ [] := by
    obtain ⟨t, ts, hts, -⟩ := exists_lexemes v
    rw [hts]
    exact List.cons_ne_nil _ _
  exact ((written_text l v).uncommented.2 hne).stripComments

end FormulaBar.Json
