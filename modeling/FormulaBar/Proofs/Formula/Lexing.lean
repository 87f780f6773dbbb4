import FormulaBar.Formula.Lexer
import FormulaBar.Proofs.Numeral.Digits

/-!
# Lexing piece by piece

Blanks and operators end whatever lexeme stands before them. So a text that is put together from
pieces has the lexemes of its pieces, if a blank or an operator follows each literal.

1. **Boundaries** and the characters that stand there.
2. **Literals** extend to the next boundary.
3. **Pieces**: the lexemes of a text by its first piece.
-/

namespace FormulaBar.Formula

open FormulaBar.Text (Digit isBlank isDigit spanDigits spanSign length_spanSign_le)
open FormulaBar.Numeral (Decimal exponentPart? exponentDigits? spanDigits_eq isDigit_toChar)

/-! ## Boundaries -/

/-- The text is at its end, or a blank or an operator stands at its front. -/
def Boundary (cs : List Char) : Prop :=
  ∀ c ∈ cs.head?, isBlank c = true ∨ (Operator.ofChar? c).isSome = true

theorem boundary_nil : Boundary [] := by
  intro c hc
  cases hc

theorem boundary_blank {c : Char} (h : isBlank c = true) (cs : List Char) : Boundary (c :: cs) := by
  intro c' hc
  cases hc
  exact .inl h

theorem boundary_operator (op : Operator) (cs : List Char) : Boundary (op.glyph :: cs) := by
  intro c' hc
  cases hc
  rw [Operator.ofChar?_glyph]
  exact .inr rfl

/-- Only the glyph of an operator is read as this operator. -/
theorem eq_glyph {c : Char} {op : Operator} (h : Operator.ofChar? c = some op) : c = op.glyph := by
  unfold Operator.ofChar? at h
  split at h <;> cases h <;> rfl

theorem not_blank_of_isDigit {c : Char} (h : isDigit c = true) : isBlank c = false := by
  have hrange : 48 ≤ c.toNat ∧ c.toNat < 58 := by
    unfold isDigit Text.digit? at h
    split at h
    · assumption
    · cases h
  unfold isBlank
  simp only [Bool.or_eq_false_iff, Bool.and_eq_false_iff, beq_eq_false_iff_ne,
    decide_eq_false_iff_not]
  omega

theorem not_blank_of_isMantissa {c : Char} (h : isMantissa c = true) : isBlank c = false := by
  rcases Bool.or_eq_true_iff.mp h with hdigit | hpoint
  · exact not_blank_of_isDigit hdigit
  · rw [beq_iff_eq.mp hpoint]
    rfl

theorem not_mantissa_glyph (op : Operator) : isMantissa op.glyph = false := by
  cases op <;> rfl

theorem not_operator_of_isMantissa {c : Char} (h : isMantissa c = true) :
    Operator.ofChar? c = none := by
  cases hop : Operator.ofChar? c with
  | none => rfl
  | some op =>
      rw [eq_glyph hop, not_mantissa_glyph] at h
      cases h

/-- A boundary is no place for a character of a literal. -/
theorem Boundary.head {c : Char} {cs : List Char} (h : Boundary (c :: cs)) :
    isMantissa c = false ∧ c ≠ 'e' ∧ c ≠ 'E' := by
  rcases h c rfl with hblank | hop
  · refine ⟨?_, ?_, ?_⟩
    · cases hm : isMantissa c with
      | false => rfl
      | true =>
          rw [not_blank_of_isMantissa hm] at hblank
          cases hblank
    · rintro rfl
      cases hblank
    · rintro rfl
      cases hblank
  · obtain ⟨op, hop⟩ := Option.isSome_iff_exists.mp hop
    rw [eq_glyph hop]
    cases op <;> decide

/-! ## Literals -/

/-- What is read as a decimal is a mantissa and an exponent, which may be left out. -/
theorem exists_mantissa {cs : List Char} {d : Decimal} (h : Decimal.ofChars? cs = some d) :
    ∃ mantissa exponent e, cs = mantissa ++ exponent ∧ mantissa ≠ [] ∧
      (∀ c ∈ mantissa, isMantissa c = true) ∧ exponentPart? exponent = some e := by
  have hdigits : ∀ (ds : List Digit), ∀ c ∈ ds.map Digit.toChar, isMantissa c = true := by
    intro ds c hc
    obtain ⟨d, -, rfl⟩ := List.mem_map.mp hc
    rw [isMantissa, isDigit_toChar]
    rfl
  obtain ⟨whole, rest, hwhole⟩ : ∃ whole rest, spanDigits cs = (whole, rest) := ⟨_, _, rfl⟩
  obtain ⟨hcs, -⟩ := spanDigits_eq hwhole
  unfold Decimal.ofChars? at h
  simp only [hwhole] at h
  split at h
  · next rest' =>
    -- a point, and a fraction behind it
    obtain ⟨fraction, rest, hfraction⟩ : ∃ fraction rest, spanDigits rest' = (fraction, rest) :=
      ⟨_, _, rfl⟩
    obtain ⟨hrest, -⟩ := spanDigits_eq hfraction
    simp only [hfraction] at h
    split at h
    · cases h
    · obtain ⟨e, he, -⟩ := Option.map_eq_some_iff.mp h
      refine ⟨whole.map Digit.toChar ++ '.' :: fraction.map Digit.toChar, rest, e, ?_, ?_, ?_, he⟩
      · rw [hcs, hrest, List.append_assoc]
        rfl
      · simp
      · intro c hc
        rcases List.mem_append.mp hc with hc | hc
        · exact hdigits whole c hc
        · rcases List.mem_cons.mp hc with rfl | hc
          · rfl
          · exact hdigits fraction c hc
  · -- no point
    simp only [List.isEmpty_nil, Bool.and_true] at h
    split at h
    · cases h
    · next hne =>
      obtain ⟨e, he, -⟩ := Option.map_eq_some_iff.mp h
      refine ⟨whole.map Digit.toChar, rest, e, hcs, ?_, hdigits whole, he⟩
      simpa using hne

theorem takeWhile_of_head {p : Char → Bool} {cs : List Char} (h : ∀ c ∈ cs.head?, p c = false) :
    cs.takeWhile p = [] ∧ cs.dropWhile p = cs := by
  cases cs with
  | nil => exact ⟨rfl, rfl⟩
  | cons c cs =>
      have hc := h c rfl
      exact ⟨List.takeWhile_cons_of_neg (by simp [hc]), List.dropWhile_cons_of_neg (by simp [hc])⟩

theorem spanSign_of_ne {c : Char} (hminus : c ≠ '-') (hplus : c ≠ '+') (cs : List Char) :
    spanSign (c :: cs) = (false, c :: cs) := by
  unfold spanSign
  split
  · next h => exact absurd (List.cons.inj h).1 hminus
  · next h => exact absurd (List.cons.inj h).1 hplus
  · rfl

theorem spanSign_append {cs : List Char} (hne : cs ≠ []) (rest : List Char) :
    (spanSign (cs ++ rest)).2 = (spanSign cs).2 ++ rest := by
  obtain ⟨c, cs, rfl⟩ := List.exists_cons_of_ne_nil hne
  by_cases hminus : c = '-'
  · subst hminus
    rfl
  · by_cases hplus : c = '+'
    · subst hplus
      rfl
    · rw [List.cons_append, spanSign_of_ne hminus hplus, spanSign_of_ne hminus hplus]
      rfl

/-- An exponent takes what it is read from. -/
theorem exponentLength_append {cs rest : List Char} {e : Int} (h : exponentPart? cs = some e)
    (hrest : Boundary rest) : exponentLength (cs ++ rest) = cs.length := by
  cases cs with
  | nil =>
      -- no exponent, and what follows is none either
      cases rest with
      | nil => rfl
      | cons c rest =>
          obtain ⟨-, he, hE⟩ := hrest.head
          simp [exponentLength, he, hE]
  | cons c cs =>
      rw [exponentPart?] at h
      split at h
      · next hmark =>
        unfold exponentDigits? at h
        split at h
        · next d ds hspan =>
          obtain ⟨hsign, -⟩ := spanDigits_eq hspan
          rw [List.append_nil] at hsign
          have hne : cs ≠ [] := by
            rintro rfl
            cases hspan
          have hdigits : ∀ c ∈ (spanSign cs).2, isDigit c = true := by
            intro c hc
            rw [hsign] at hc
            obtain ⟨d, -, rfl⟩ := List.mem_map.mp hc
            exact isDigit_toChar d
          have hend : rest.takeWhile isDigit = [] := by
            refine (takeWhile_of_head ?_).1
            intro c hc
            cases rest with
            | nil => cases hc
            | cons c' rest =>
                cases hc
                exact (Bool.or_eq_false_iff.mp hrest.head.1).1
          have htake : ((spanSign cs).2 ++ rest).takeWhile isDigit = (spanSign cs).2 := by
            rw [List.takeWhile_append_of_pos hdigits, hend, List.append_nil]
          have hfull : (spanSign cs).2 ≠ [] := by
            rw [hsign]
            exact List.cons_ne_nil _ _
          have hle := length_spanSign_le cs
          rw [List.cons_append, exponentLength]
          simp only [spanSign_append hne, htake]
          rw [if_pos ⟨hmark, hfull⟩]
          simp only [List.length_append, List.length_cons]
          omega
        · cases h
      · cases h

/-- A mantissa and an exponent make up a literal that extends to the next boundary. -/
theorem literalLength_parts {mantissa exponent rest : List Char} {e : Int}
    (hmantissa : ∀ c ∈ mantissa, isMantissa c = true) (hexponent : exponentPart? exponent = some e)
    (hrest : Boundary rest) :
    literalLength (mantissa ++ exponent ++ rest) = (mantissa ++ exponent).length := by
  have hhead : ∀ c ∈ (exponent ++ rest).head?, isMantissa c = false := by
    intro c hc
    cases exponent with
    | nil =>
        cases rest with
        | nil => cases hc
        | cons c' rest =>
            cases hc
            exact hrest.head.1
    | cons c' exponent =>
        cases hc
        rw [exponentPart?] at hexponent
        split at hexponent
        · next hmark => rcases hmark with rfl | rfl <;> rfl
        · cases hexponent
  obtain ⟨htake, hdrop⟩ := takeWhile_of_head hhead
  unfold literalLength
  rw [List.append_assoc, List.takeWhile_append_of_pos hmantissa,
    List.dropWhile_append_of_pos hmantissa, htake, hdrop, exponentLength_append hexponent hrest,
    List.append_nil, List.length_append]

/-- A literal extends to the next boundary. -/
theorem literalLength_append {cs rest : List Char} {d : Decimal} (h : Decimal.ofChars? cs = some d)
    (hrest : Boundary rest) : literalLength (cs ++ rest) = cs.length := by
  obtain ⟨mantissa, exponent, e, rfl, -, hmantissa, hexponent⟩ := exists_mantissa h
  exact literalLength_parts hmantissa hexponent hrest

/-! ## Pieces -/

theorem lex_nil : lex [] = .ok [] := by
  rw [lex.eq_def]

theorem lex_blank {c : Char} (h : isBlank c = true) (cs : List Char) : lex (c :: cs) = lex cs := by
  rw [lex.eq_def]
  dsimp only
  rw [if_pos h]

theorem lex_blanks {bs : List Char} (h : ∀ c ∈ bs, isBlank c = true) (cs : List Char) :
    lex (bs ++ cs) = lex cs := by
  induction bs with
  | nil => rfl
  | cons b bs ih =>
      have hb : isBlank b = true := h b List.mem_cons_self
      rw [List.cons_append, lex_blank hb, ih (fun c hc => h c (List.mem_cons_of_mem b hc))]

theorem lex_operator (op : Operator) (cs : List Char) :
    lex (op.glyph :: cs) = (lex cs).map (.operator op :: ·) := by
  have hblank : isBlank op.glyph = false := by
    cases op <;> rfl
  rw [lex.eq_def]
  dsimp only
  rw [hblank, Operator.ofChar?_glyph]
  rfl

/-- What is taken for a literal is read as one number, or it is a fault. -/
theorem lex_taken {c : Char} {cs rest : List Char} (hc : isMantissa c = true)
    (hlength : literalLength (c :: cs ++ rest) = (c :: cs).length) :
    lex (c :: cs ++ rest) =
      match Decimal.ofChars? (c :: cs) with
      | some d => (lex rest).map (.number (d.toFloat false) :: ·)
      | none => .error (.invalidNumber (String.ofList (c :: cs))) := by
  have htake : (c :: (cs ++ rest)).take (c :: cs).length = c :: cs := by
    rw [← List.cons_append, List.take_left]
  have hdrop : (c :: (cs ++ rest)).drop (c :: cs).length = rest := by
    rw [← List.cons_append, List.drop_left]
  rw [List.cons_append] at hlength ⊢
  rw [lex.eq_def]
  dsimp only
  rw [not_blank_of_isMantissa hc, not_operator_of_isMantissa hc]
  cases hd : Decimal.ofChars? (c :: cs) with
  | none => simp only [Bool.false_eq_true, if_false, dif_pos hc, hlength, htake, hd]
  | some d => simp only [Bool.false_eq_true, if_false, dif_pos hc, hlength, htake, hdrop, hd]

/-- A literal is one lexeme. -/
theorem lex_literal {cs rest : List Char} {d : Decimal} (h : Decimal.ofChars? cs = some d)
    (hrest : Boundary rest) :
    lex (cs ++ rest) = (lex rest).map (.number (d.toFloat false) :: ·) := by
  obtain ⟨mantissa, exponent, -, hcs, hne, hmantissa, -⟩ := exists_mantissa h
  obtain ⟨c, mantissa, rfl⟩ := List.exists_cons_of_ne_nil hne
  have hc : isMantissa c = true := hmantissa c List.mem_cons_self
  have hlength := literalLength_append h hrest
  obtain ⟨cs', rfl⟩ : ∃ cs', cs = c :: cs' := ⟨mantissa ++ exponent, hcs⟩
  rw [lex_taken hc hlength, h]

/-- A character that begins no lexeme is a fault. -/
theorem lex_unexpected {c : Char} (hblank : isBlank c = false) (hop : Operator.ofChar? c = none)
    (hmantissa : isMantissa c = false) (cs : List Char) :
    lex (c :: cs) = .error (.unexpectedCharacter c) := by
  rw [lex.eq_def]
  dsimp only
  rw [hblank, hop]
  simp only [Bool.false_eq_true, if_false, hmantissa, dif_neg, not_false_eq_true]

end FormulaBar.Formula
