import FormulaBar.Json.Parser
import FormulaBar.Proofs.Json.Literals

/-!
# How JSON texts may be written

A text of a value is a row of its lexemes, each spelled in any of the ways that there are, with
blanks anywhere between them. Every such text is lexed into the lexemes that it spells, whatever
they are.

1. **Lexemes** of a value.
2. **Spellings** of a lexeme.
3. **Rows** of spelled lexemes, and what they are lexed into.
-/

namespace FormulaBar.Json

open FormulaBar.Text (Digit isDigit)
open FormulaBar.Numeral (toChar_of_digit?)

/-! ## Lexemes -/

mutual

/-- The lexemes of a value. -/
def lexemes : Json → List Lexeme
  | .null => [.null]
  | .bool b => [.bool b]
  | .number n => [.number n]
  | .string s => [.string s]
  | .array [] => [.openArray, .closeArray]
  | .array (v :: vs) => .openArray :: (lexemes v ++ (itemLexemes vs ++ [.closeArray]))
  | .object [] => [.openObject, .closeObject]
  | .object ((name, v) :: ms) =>
    .openObject :: .string name :: .colon :: (lexemes v ++ (memberLexemes ms ++ [.closeObject]))

/-- The lexemes of the further items of an array. -/
def itemLexemes : List Json → List Lexeme
  | [] => []
  | v :: vs => .comma :: (lexemes v ++ itemLexemes vs)

/-- The lexemes of the further members of an object. -/
def memberLexemes : List (StringValue × Json) → List Lexeme
  | [] => []
  | (name, v) :: ms => .comma :: .string name :: .colon :: (lexemes v ++ memberLexemes ms)

end

/-- A value has a first lexeme, which closes nothing. -/
theorem exists_lexemes (v : Json) : ∃ t ts, v.lexemes = t :: ts ∧ t ≠ .closeArray := by
  rcases v with _ | b | n | s | (_ | ⟨v, vs⟩) | (_ | ⟨⟨name, v⟩, ms⟩)
  all_goals
    rw [lexemes]
    exact ⟨_, _, rfl, nofun⟩

/-! ## Spellings -/

/-- The ways to spell a lexeme. Punctuation and words have one each. -/
inductive Spelling : Lexeme → List Char → Prop where
  | openArray : Spelling .openArray ['[']
  | closeArray : Spelling .closeArray [']']
  | openObject : Spelling .openObject ['{']
  | closeObject : Spelling .closeObject ['}']
  | comma : Spelling .comma [',']
  | colon : Spelling .colon [':']
  | null : Spelling .null "null".toList
  | bool (b : Bool) : Spelling (.bool b) (toString b).toList
  | number {n : Number} {cs : List Char} (h : NumberText n cs) : Spelling (.number n) cs
  | string {us : List StringUnit} {cs : List Char} (h : StringText us cs) :
      Spelling (.string ((joinUnits? us).map String.ofList)) ('"' :: (cs ++ ['"']))

section Spelling

variable {cs rest : List Char} {t : Lexeme}

/-- What begins with a sign or a digit is read as a number. -/
theorem next?_number {c : Char} (h : c = '-' ∨ isDigit c = true) :
    next? (c :: cs) = (spanNumber? (c :: cs)).map fun (n, rest) => (.number n, rest) := by
  unfold next?
  split
  case h_11 => rfl
  all_goals
    next hcs =>
    cases hcs
    exact absurd h (by decide)

/-- What begins a number separates no lexemes. -/
theorem not_isBlank_of_number {c : Char} (h : c = '-' ∨ isDigit c = true) : isBlank c = false := by
  have hdigit : ∀ d : Digit, isBlank d.toChar = false := by
    decide
  rcases h with rfl | h
  · rfl
  · obtain ⟨d, hd⟩ := Option.isSome_iff_exists.mp h
    rw [← toChar_of_digit? hd]
    exact hdigit d

/-- A spelled lexeme is taken off the front of a text. After a number something has to follow that
does not go on with it. -/
theorem Spelling.next? (h : Spelling t cs) (hend : ∀ n, t = .number n → Delimited rest) :
    next? (cs ++ rest) = some (t, rest) := by
  cases h with
  | openArray | closeArray | openObject | closeObject | comma | colon | null => rfl
  | bool b => cases b <;> rfl
  | number hnumber =>
      obtain ⟨c, cs', rfl, hc⟩ := hnumber.exists_cons
      have hread := hnumber.span (hend _ rfl)
      rw [List.cons_append] at hread ⊢
      rw [next?_number hc, hread]
      rfl
  | string hstring =>
      have hsplit : ∀ cs : List Char, '"' :: (cs ++ ['"']) ++ rest = '"' :: (cs ++ '"' :: rest) := by
        simp
      rw [hsplit, Json.next?, hstring.span]
      rfl

/-- A lexeme begins with no blank. -/
theorem Spelling.exists_cons (h : Spelling t cs) :
    ∃ c cs', cs = c :: cs' ∧ isBlank c = false := by
  cases h with
  | openArray | closeArray | openObject | closeObject | comma | colon | null =>
      exact ⟨_, _, rfl, rfl⟩
  | bool b => cases b <;> exact ⟨_, _, rfl, rfl⟩
  | number hnumber =>
      obtain ⟨c, cs', rfl, hc⟩ := hnumber.exists_cons
      exact ⟨c, cs', rfl, not_isBlank_of_number hc⟩
  | string hstring => exact ⟨_, _, rfl, rfl⟩

end Spelling

/-! ## Rows -/

/-- A row of spelled lexemes, with blanks anywhere between them. -/
inductive Spelled : List Lexeme → List Char → Prop where
  | nil : Spelled [] []
  | blank {c : Char} {cs : List Char} {ts : List Lexeme} (hc : isBlank c = true)
      (h : Spelled ts cs) : Spelled ts (c :: cs)
  | lexeme {t : Lexeme} {cs rest : List Char} {ts : List Lexeme} (hchars : Spelling t cs)
      (h : Spelled ts rest) (hend : ∀ n, t = .number n → Delimited rest) :
      Spelled (t :: ts) (cs ++ rest)

section Rows

variable {cs : List Char} {t : Lexeme} {ts : List Lexeme}

theorem lexemes?_blank {c : Char} (h : isBlank c = true) : lexemes? (c :: cs) = lexemes? cs := by
  rw [lexemes?.eq_def]
  dsimp only
  rw [if_pos h]

theorem lexemes?_next {c : Char} {rest : List Char} (hblank : isBlank c = false)
    (h : next? (c :: cs) = some (t, rest)) :
    lexemes? (c :: cs) = (lexemes? rest).map (t :: ·) := by
  rw [lexemes?.eq_def]
  dsimp only
  rw [hblank, if_neg Bool.false_ne_true]
  split
  · next hnone =>
    rw [h] at hnone
    cases hnone
  · next hsome =>
    rw [h] at hsome
    cases hsome
    rfl

/-- A row is lexed into the lexemes that it spells. -/
theorem Spelled.lexemes? (h : Spelled ts cs) : Json.lexemes? cs = some ts := by
  induction h with
  | nil => rw [Json.lexemes?.eq_def]
  | blank hc h ih => rw [lexemes?_blank hc, ih]
  | lexeme hchars h hend ih =>
      obtain ⟨c, cs', rfl, hblank⟩ := hchars.exists_cons
      have hnext := hchars.next? hend
      rw [List.cons_append] at hnext ⊢
      rw [lexemes?_next hblank hnext, ih]
      rfl

end Rows

end FormulaBar.Json
