import FormulaBar.Proofs.Formula.NumberTexts

/-!
# The lexer takes the longest literal

A literal has the form

    [0-9.]+ ([eE] [+-]? [0-9]+)?

and of all literals that stand at the front of a text the longest one is taken. Whether it is a
number is asked only then. Nothing here speaks of how the lexer looks ahead.

1. **Literal texts**, and those of them that are numbers.
2. **The longest literal** at the front of a text is what the lexer takes.
3. **Munching**: what becomes of a text, piece by piece.
4. **Texts side by side**: a blank ends whatever stands before it.
-/

namespace FormulaBar.Formula

open FormulaBar.Text (Digit digit? isBlank isDigit spanDigits spanSign)
open FormulaBar.Numeral (Decimal exponentPart? exponentDigits? spanDigits_append NoDigit noDigit_cons
  noDigit_nil)

/-! ## Literal texts -/

/-- `([eE] [+-]? [0-9]+)?` -/
inductive ExponentText : List Char → Prop where
  | absent : ExponentText []
  | present {mark : Char} {sign digits : List Char} (hmark : mark = 'e' ∨ mark = 'E')
      (hsign : sign = [] ∨ sign = ['+'] ∨ sign = ['-']) (hne : digits ≠ [])
      (hdigits : ∀ c ∈ digits, isDigit c = true) : ExponentText (mark :: (sign ++ digits))

/-- `[0-9.]+`, and behind it an exponent or nothing. -/
structure LiteralText (mantissa exponent : List Char) : Prop where
  ne_nil : mantissa ≠ []
  mantissa : ∀ c ∈ mantissa, isDigit c = true ∨ c = '.'
  exponent : ExponentText exponent

/-- A mantissa is that of a number if it has a digit and at most one point. -/
def IsNumber (mantissa : List Char) : Prop :=
  (∃ c ∈ mantissa, isDigit c = true) ∧ mantissa.count '.' ≤ 1

section LiteralTexts

variable {mantissa exponent : List Char}

theorem isMantissa_iff {c : Char} : isMantissa c = true ↔ isDigit c = true ∨ c = '.' := by
  rw [isMantissa, Bool.or_eq_true, beq_iff_eq]

/-- The sign of an exponent ends where its digits begin. -/
theorem spanSign_digits {sign cs : List Char} (hsign : sign = [] ∨ sign = ['+'] ∨ sign = ['-'])
    (hcs : ∃ c ∈ cs.head?, isDigit c = true) : (spanSign (sign ++ cs)).2 = cs := by
  obtain ⟨c, hhead, hc⟩ := hcs
  obtain ⟨cs, rfl⟩ := List.head?_eq_some_iff.mp hhead
  rcases hsign with rfl | rfl | rfl
  · rw [List.nil_append, spanSign_of_ne]
    · rintro rfl
      cases hc
    · rintro rfl
      cases hc
  · rfl
  · rfl

/-- What an exponent is read as, if anything, does not depend on its digits. -/
theorem ExponentText.exists_value (h : ExponentText exponent) :
    ∃ e, exponentPart? exponent = some e := by
  cases h with
  | absent => exact ⟨0, rfl⟩
  | @present mark sign digits hmark hsign hne hdigits =>
      obtain ⟨ds, rfl⟩ := exists_digits hdigits
      cases ds with
      | nil => exact absurd rfl hne
      | cons d ds =>
          have hhead : ∃ c ∈ ((d :: ds).map Digit.toChar).head?, isDigit c = true :=
            ⟨_, rfl, hdigits _ List.mem_cons_self⟩
          have hspan : spanDigits ((d :: ds).map Digit.toChar) = (d :: ds, []) :=
            Numeral.spanDigits_map _
          rw [exponentPart?, if_pos hmark, exponentDigits?, spanSign_digits hsign hhead, hspan]
          exact ⟨_, rfl⟩

/-- No exponent begins like a mantissa goes on. -/
theorem ExponentText.head (h : ExponentText exponent) :
    ∀ c ∈ exponent.head?, digit? c = none ∧ c ≠ '.' := by
  intro c hc
  cases h with
  | absent => cases hc
  | present hmark =>
      cases hc
      rcases hmark with rfl | rfl
      · exact ⟨rfl, by decide⟩
      · exact ⟨rfl, by decide⟩

/-- A mantissa is a row of digits, which ends with the mantissa or at a point. -/
theorem exists_row {cs : List Char} (h : ∀ c ∈ cs, isDigit c = true ∨ c = '.') :
    ∃ (ds : List Digit) (rest : List Char), cs = ds.map Digit.toChar ++ rest ∧
      (rest = [] ∨ ∃ rest', rest = '.' :: rest') := by
  obtain ⟨ds, rest, hspan⟩ : ∃ ds rest, spanDigits cs = (ds, rest) := ⟨_, _, rfl⟩
  obtain ⟨hcs, hrest⟩ := Numeral.spanDigits_eq hspan
  refine ⟨ds, rest, hcs, ?_⟩
  cases rest with
  | nil => exact .inl rfl
  | cons c rest =>
      right
      have hc : digit? c = none := hrest c rfl
      have hmem : c ∈ cs := hcs ▸ List.mem_append_right _ List.mem_cons_self
      rcases h c hmem with hdigit | rfl
      · rw [isDigit, hc] at hdigit
        cases hdigit
      · exact ⟨rest, rfl⟩

theorem count_point_digits (ds : List Digit) : (ds.map Digit.toChar).count '.' = 0 := by
  rw [List.count_eq_zero]
  intro hmem
  obtain ⟨d, -, hd⟩ := List.mem_map.mp hmem
  exact Numeral.toChar_ne d rfl hd

theorem exists_isDigit_iff (ds : List Digit) :
    (∃ c ∈ ds.map Digit.toChar, isDigit c = true) ↔ ds ≠ [] := by
  constructor
  · rintro ⟨c, hc, -⟩ rfl
    cases hc
  · intro hne
    obtain ⟨d, ds, rfl⟩ := List.exists_cons_of_ne_nil hne
    exact ⟨d.toChar, List.mem_cons_self, Numeral.isDigit_toChar d⟩

section Rows

variable (ds fs : List Digit) {rest : List Char}

/-- Digits without a point are a decimal if there are any, and if an exponent follows or nothing. -/
theorem isSome_row (hrest : ∀ c ∈ rest.head?, digit? c = none ∧ c ≠ '.') :
    (Decimal.ofChars? (ds.map Digit.toChar ++ rest)).isSome = true ↔
      ds ≠ [] ∧ (exponentPart? rest).isSome = true := by
  have hspan : spanDigits (ds.map Digit.toChar ++ rest) = (ds, rest) :=
    spanDigits_append ds fun c hc => (hrest c hc).1
  unfold Decimal.ofChars?
  simp only [hspan]
  split
  · next rest' => exact absurd rfl (hrest '.' rfl).2
  · cases ds with
    | nil => simp
    | cons d ds => simp

/-- Digits around a point are a decimal if there are any, and if an exponent follows or nothing. -/
theorem isSome_point (hrest : NoDigit rest) :
    (Decimal.ofChars? (ds.map Digit.toChar ++ '.' :: (fs.map Digit.toChar ++ rest))).isSome = true ↔
      (ds ≠ [] ∨ fs ≠ []) ∧ (exponentPart? rest).isSome = true := by
  have hpoint : NoDigit ('.' :: (fs.map Digit.toChar ++ rest)) := noDigit_cons rfl _
  unfold Decimal.ofChars?
  simp only [spanDigits_append ds hpoint, spanDigits_append fs hrest]
  cases ds with
  | cons d ds => simp
  | nil =>
      cases fs with
      | nil => simp
      | cons f fs => simp

end Rows

/-- A literal is a decimal if its mantissa is that of a number. -/
theorem LiteralText.isSome_iff (h : LiteralText mantissa exponent) :
    (Decimal.ofChars? (mantissa ++ exponent)).isSome = true ↔ IsNumber mantissa := by
  have hexponent : (exponentPart? exponent).isSome = true :=
    Option.isSome_iff_exists.mpr h.exponent.exists_value
  obtain ⟨ds, rest, rfl, rfl | ⟨rest, rfl⟩⟩ := exists_row h.mantissa
  · -- there is no point
    have hne : ds ≠ [] := by
      rintro rfl
      exact h.ne_nil rfl
    rw [List.append_nil, isSome_row ds h.exponent.head, IsNumber, exists_isDigit_iff,
      count_point_digits]
    simp [hne, hexponent]
  · have hrest : ∀ c ∈ rest, isDigit c = true ∨ c = '.' := by
      intro c hc
      exact h.mantissa c (List.mem_append_right _ (List.mem_cons_of_mem _ hc))
    obtain ⟨fs, rest, rfl, rfl | ⟨rest, rfl⟩⟩ := exists_row hrest
    · -- there is one point
      have hend : NoDigit exponent := fun c hc => (h.exponent.head c hc).1
      have hdigit : (∃ c ∈ ds.map Digit.toChar ++ '.' :: fs.map Digit.toChar, isDigit c = true) ↔
          ds ≠ [] ∨ fs ≠ [] := by
        rw [← exists_isDigit_iff ds, ← exists_isDigit_iff fs]
        simp only [List.mem_append, List.mem_cons, or_and_right, exists_or, exists_eq_left]
        rw [show isDigit '.' = false from rfl]
        simp
      rw [List.append_nil, List.append_assoc, List.cons_append, isSome_point ds fs hend, IsNumber,
        hdigit, List.count_append, List.count_cons_self, count_point_digits, count_point_digits]
      simp [hexponent]
    · -- there are two points or more, and the second one begins no exponent
      have hend : NoDigit ('.' :: (rest ++ exponent)) := noDigit_cons rfl _
      have hnone : exponentPart? ('.' :: (rest ++ exponent)) = none := rfl
      have hsplit : ds.map Digit.toChar ++ '.' :: (fs.map Digit.toChar ++ '.' :: rest) ++ exponent =
          ds.map Digit.toChar ++ '.' :: (fs.map Digit.toChar ++ '.' :: (rest ++ exponent)) := by
        simp
      rw [hsplit, isSome_point ds fs hend, hnone, IsNumber, List.count_append, List.count_cons_self,
        List.count_append, List.count_cons_self]
      simp only [Option.isSome_none, Bool.false_eq_true, and_false, false_iff, not_and]
      omega

end LiteralTexts

/-! ## The longest literal -/

/-- A literal stands at the front of a text, and no literal that stands there is longer. -/
structure Longest (mantissa exponent rest : List Char) : Prop where
  literal : LiteralText mantissa exponent
  longest : ∀ m e r, LiteralText m e → mantissa ++ exponent ++ rest = m ++ e ++ r →
    (m ++ e).length ≤ (mantissa ++ exponent).length

section Longest

variable {mantissa exponent rest cs : List Char}

/-- An exponent is measured by its parts and the digits that follow it. -/
theorem exponentLength_parts {mark : Char} {sign digits : List Char}
    (hmark : mark = 'e' ∨ mark = 'E') (hsign : sign = [] ∨ sign = ['+'] ∨ sign = ['-'])
    (hne : digits ≠ []) (hdigits : ∀ c ∈ digits, isDigit c = true) (rest : List Char) :
    exponentLength (mark :: (sign ++ (digits ++ rest))) =
      1 + sign.length + (digits ++ rest.takeWhile isDigit).length := by
  have hhead : ∃ c ∈ (digits ++ rest).head?, isDigit c = true := by
    obtain ⟨d, ds, rfl⟩ := List.exists_cons_of_ne_nil hne
    exact ⟨d, rfl, hdigits d List.mem_cons_self⟩
  have htake : (digits ++ rest).takeWhile isDigit = digits ++ rest.takeWhile isDigit :=
    List.takeWhile_append_of_pos hdigits
  have hfull : digits ++ rest.takeWhile isDigit ≠ [] := by
    simp [hne]
  rw [exponentLength]
  simp only [spanSign_digits hsign hhead, htake]
  have hlength : (sign ++ (digits ++ rest)).length = sign.length + (digits ++ rest).length :=
    List.length_append
  rw [if_pos ⟨hmark, hfull⟩]
  omega

/-- What is taken off as a sign is one, or nothing. -/
theorem exists_exponentSign (cs : List Char) :
    ∃ sign, cs = sign ++ (spanSign cs).2 ∧ (sign = [] ∨ sign = ['+'] ∨ sign = ['-']) := by
  unfold spanSign
  split
  · exact ⟨['-'], rfl, .inr (.inr rfl)⟩
  · exact ⟨['+'], rfl, .inr (.inl rfl)⟩
  · exact ⟨[], rfl, .inl rfl⟩

/-- The digits at the front of a text end where they have been taken off. -/
theorem takeWhile_dropWhile_isDigit (cs : List Char) :
    (cs.dropWhile isDigit).takeWhile isDigit = [] := by
  refine (takeWhile_of_head ?_).1
  intro c hc
  have hdrop := List.head?_dropWhile_not isDigit cs
  rw [Option.mem_def.mp hc] at hdrop
  simpa using hdrop

/-- What is measured as an exponent is one. -/
theorem exists_exponentText (cs : List Char) :
    ∃ e r, cs = e ++ r ∧ ExponentText e ∧ e.length = exponentLength cs := by
  cases cs with
  | nil => exact ⟨[], [], rfl, .absent, rfl⟩
  | cons c cs =>
      by_cases hmark : (c = 'e' ∨ c = 'E') ∧ (spanSign cs).2.takeWhile isDigit ≠ []
      · obtain ⟨sign, hcs, hsign⟩ := exists_exponentSign cs
        generalize (spanSign cs).2 = tail at hmark hcs
        have hdigits : ∀ c ∈ tail.takeWhile isDigit, isDigit c = true := by
          intro c hc
          exact List.mem_takeWhile_imp hc
        have htail : tail = tail.takeWhile isDigit ++ tail.dropWhile isDigit :=
          List.takeWhile_append_dropWhile.symm
        refine ⟨c :: (sign ++ tail.takeWhile isDigit), tail.dropWhile isDigit, ?_,
          .present hmark.1 hsign hmark.2 hdigits, ?_⟩
        · rw [List.cons_append, List.append_assoc, ← htail, ← hcs]
        · have hlength := exponentLength_parts hmark.1 hsign hmark.2 hdigits
            (tail.dropWhile isDigit)
          rw [← htail, ← hcs, takeWhile_dropWhile_isDigit, List.append_nil] at hlength
          rw [hlength, List.length_cons, List.length_append]
          omega
      · refine ⟨[], c :: cs, rfl, .absent, ?_⟩
        rw [exponentLength]
        exact (if_neg hmark).symm

/-- No exponent is longer than what is measured. -/
theorem ExponentText.length_le (h : ExponentText exponent) (rest : List Char) :
    exponent.length ≤ exponentLength (exponent ++ rest) := by
  cases h with
  | absent => exact Nat.zero_le _
  | present hmark hsign hne hdigits =>
      rw [List.cons_append, List.append_assoc, exponentLength_parts hmark hsign hne hdigits]
      simp only [List.length_cons, List.length_append]
      omega

/-- No literal is longer than what is measured. -/
theorem LiteralText.length_le (h : LiteralText mantissa exponent) (rest : List Char) :
    (mantissa ++ exponent).length ≤ literalLength (mantissa ++ exponent ++ rest) := by
  have hmantissa : ∀ c ∈ mantissa, isMantissa c = true := fun c hc =>
    isMantissa_iff.mpr (h.mantissa c hc)
  have hlength := h.exponent.length_le rest
  rw [literalLength, List.append_assoc, List.takeWhile_append_of_pos hmantissa,
    List.dropWhile_append_of_pos hmantissa, List.length_append, List.length_append]
  cases h.exponent with
  | absent => simp only [List.length_nil]; omega
  | @present mark _ _ hmark =>
      -- the mark of an exponent ends the mantissa
      have hhead : ∀ {tail : List Char}, ∀ c ∈ (mark :: tail).head?, isMantissa c = false := by
        rintro tail c ⟨⟩
        rcases hmark with rfl | rfl <;> rfl
      rw [List.cons_append] at hlength ⊢
      rw [(takeWhile_of_head hhead).1, (takeWhile_of_head hhead).2]
      omega

/-- The measured literal is the longest one. -/
theorem exists_longest {c : Char} (h : isMantissa c = true) (cs : List Char) :
    ∃ m e r, c :: cs = m ++ e ++ r ∧ Longest m e r ∧
      literalLength (c :: cs) = (m ++ e).length := by
  obtain ⟨e, r, hdrop, he, hlength⟩ := exists_exponentText ((c :: cs).dropWhile isMantissa)
  have hcs : c :: cs = (c :: cs).takeWhile isMantissa ++ e ++ r := by
    rw [List.append_assoc, ← hdrop, List.takeWhile_append_dropWhile]
  have htaken : literalLength (c :: cs) = ((c :: cs).takeWhile isMantissa ++ e).length := by
    rw [literalLength, List.length_append, hlength]
  have hliteral : LiteralText ((c :: cs).takeWhile isMantissa) e := by
    refine ⟨?_, ?_, he⟩
    · rw [List.takeWhile_cons_of_pos h]
      exact List.cons_ne_nil _ _
    · intro c' hc'
      exact isMantissa_iff.mp (List.mem_takeWhile_imp hc')
  refine ⟨_, e, r, hcs, ⟨hliteral, ?_⟩, htaken⟩
  intro m' e' r' hliteral' hcs'
  have hle := hliteral'.length_le r'
  rwa [← hcs', ← hcs, htaken] at hle

theorem LiteralText.exists_cons (h : LiteralText mantissa exponent) :
    ∃ c cs, mantissa ++ exponent = c :: cs ∧ isMantissa c = true := by
  obtain ⟨c, cs, rfl⟩ := List.exists_cons_of_ne_nil h.ne_nil
  exact ⟨c, cs ++ exponent, rfl, isMantissa_iff.mpr (h.mantissa c List.mem_cons_self)⟩

/-- The longest literal is the measured one. -/
theorem Longest.literalLength_eq (h : Longest mantissa exponent rest) :
    literalLength (mantissa ++ exponent ++ rest) = (mantissa ++ exponent).length := by
  obtain ⟨c, cs, hcs, hc⟩ := h.literal.exists_cons
  obtain ⟨m, e, r, htext, hlongest, hlength⟩ := exists_longest hc (cs ++ rest)
  rw [← List.cons_append, ← hcs] at htext hlength
  have hle : (m ++ e).length ≤ (mantissa ++ exponent).length :=
    h.longest m e r hlongest.literal htext
  have hge : (mantissa ++ exponent).length ≤ literalLength (mantissa ++ exponent ++ rest) :=
    h.literal.length_le rest
  omega

/-- The longest literal is read as one number, or it is a fault. -/
theorem Longest.lex_eq (h : Longest mantissa exponent rest) :
    lex (mantissa ++ exponent ++ rest) =
      match Decimal.ofChars? (mantissa ++ exponent) with
      | some d => (lex rest).map (.number (d.toFloat false) :: ·)
      | none => .error (.invalidNumber (String.ofList (mantissa ++ exponent))) := by
  obtain ⟨c, cs, hcs, hc⟩ := h.literal.exists_cons
  have hlength := h.literalLength_eq
  rw [hcs] at hlength ⊢
  exact lex_taken hc hlength

/-- Alone, every literal is taken whole. -/
theorem LiteralText.isLiteral (h : LiteralText mantissa exponent) :
    IsLiteral (mantissa ++ exponent) := by
  have hlongest : Longest mantissa exponent [] := by
    refine ⟨h, ?_⟩
    intro m e r _ htext
    have hlength := congrArg List.length htext
    simp only [List.length_append, List.length_nil] at hlength ⊢
    omega
  obtain ⟨c, cs, hcs, hc⟩ := h.exists_cons
  have hlength := hlongest.literalLength_eq
  rw [List.append_nil] at hlength
  exact ⟨⟨c, by rw [hcs]; rfl, hc⟩, hlength⟩

/-- A literal is read as a number if its mantissa is that of one. -/
theorem LiteralText.ofChars? (h : LiteralText mantissa exponent) :
    Numeral.ofChars? (mantissa ++ exponent) =
      (Decimal.ofChars? (mantissa ++ exponent)).map (Decimal.toFloat false) := by
  have hread : Numeral.ofChars? (signChars none ++ (mantissa ++ exponent)) = _ :=
    h.isLiteral.ofChars?
  exact hread

end Longest

/-! ## Munching -/

/-- What becomes of a text, from left to right: a blank is skipped, an operator is taken, the longest
literal is taken and is a number or a fault, and any other character is a fault. Each rule takes its
piece off the front and leaves all the rest, so that no character is skipped or read twice, and the
first fault is the last piece that is looked at. -/
inductive Munches : List Char → Except Error (List Lexeme) → Prop where
  | nil : Munches [] (.ok [])
  | blank {c : Char} {cs : List Char} {r : Except Error (List Lexeme)} (hc : isBlank c = true)
      (h : Munches cs r) : Munches (c :: cs) r
  | operator (op : Operator) {cs : List Char} {r : Except Error (List Lexeme)}
      (h : Munches cs r) : Munches (op.glyph :: cs) (r.map (.operator op :: ·))
  | number {mantissa exponent rest : List Char} {v : Float} {r : Except Error (List Lexeme)}
      (hlongest : Longest mantissa exponent rest) (hnumber : IsNumber mantissa)
      (hv : Numeral.ofChars? (mantissa ++ exponent) = some v) (h : Munches rest r) :
      Munches (mantissa ++ exponent ++ rest) (r.map (.number v :: ·))
  | invalid {mantissa exponent rest : List Char} (hlongest : Longest mantissa exponent rest)
      (hnumber : ¬IsNumber mantissa) :
      Munches (mantissa ++ exponent ++ rest)
        (.error (.invalidNumber (String.ofList (mantissa ++ exponent))))
  | unexpected {c : Char} {cs : List Char} (hblank : isBlank c = false)
      (hoperator : ∀ op : Operator, c ≠ op.glyph) (hdigit : isDigit c = false) (hpoint : c ≠ '.') :
      Munches (c :: cs) (.error (.unexpectedCharacter c))

section Munching

variable {cs : List Char}

/-- What becomes of a text is what the lexer makes of it. -/
theorem Munches.lex_eq {r : Except Error (List Lexeme)} (h : Munches cs r) : lex cs = r := by
  induction h with
  | nil => exact lex_nil
  | blank hc _ ih => rw [lex_blank hc, ih]
  | operator op _ ih => rw [lex_operator, ih]
  | number hlongest hnumber hv _ ih =>
      obtain ⟨d, hd⟩ := Option.isSome_iff_exists.mp (hlongest.literal.isSome_iff.mpr hnumber)
      rw [hlongest.literal.ofChars?, hd] at hv
      cases hv
      rw [hlongest.lex_eq, hd, ih]
  | invalid hlongest hnumber =>
      have hnone : Decimal.ofChars? _ = none :=
        Option.not_isSome_iff_eq_none.mp fun hsome =>
          hnumber (hlongest.literal.isSome_iff.mp hsome)
      rw [hlongest.lex_eq, hnone]
  | unexpected hblank hoperator hdigit hpoint =>
      refine lex_unexpected hblank ?_ ?_ _
      · exact Option.eq_none_iff_forall_ne_some.mpr fun op hop => hoperator op (eq_glyph hop)
      · rw [isMantissa, hdigit, beq_eq_false_iff_ne.mpr hpoint]
        rfl

/-- A literal is a number or a fault. -/
theorem Longest.exists_munches {mantissa exponent rest : List Char}
    (hlongest : Longest mantissa exponent rest) (h : ∃ r, Munches rest r) :
    ∃ r, Munches (mantissa ++ exponent ++ rest) r := by
  by_cases hnumber : IsNumber mantissa
  · obtain ⟨r, hr⟩ := h
    obtain ⟨d, hd⟩ := Option.isSome_iff_exists.mp (hlongest.literal.isSome_iff.mpr hnumber)
    have hv : Numeral.ofChars? (mantissa ++ exponent) = some (d.toFloat false) := by
      rw [hlongest.literal.ofChars?, hd]
      rfl
    exact ⟨_, .number hlongest hnumber hv hr⟩
  · exact ⟨_, .invalid hlongest hnumber⟩

/-- Something becomes of every text. -/
theorem exists_munches (cs : List Char) : ∃ r, Munches cs r := by
  induction hn : cs.length using Nat.strongRecOn generalizing cs with
  | ind n ih =>
      cases cs with
      | nil => exact ⟨_, .nil⟩
      | cons c cs =>
          have hlater : ∀ rest : List Char, rest.length ≤ cs.length → ∃ r, Munches rest r := by
            intro rest hle
            exact ih rest.length (by rw [← hn, List.length_cons]; omega) rest rfl
          cases hblank : isBlank c with
          | true =>
              obtain ⟨r, hr⟩ := hlater cs (Nat.le_refl _)
              exact ⟨r, .blank hblank hr⟩
          | false =>
              cases hop : Operator.ofChar? c with
              | some op =>
                  obtain ⟨r, hr⟩ := hlater cs (Nat.le_refl _)
                  rw [eq_glyph hop]
                  exact ⟨_, .operator op hr⟩
              | none =>
                  cases hmantissa : isMantissa c with
                  | true =>
                      obtain ⟨m, e, rest, htext, hlongest, -⟩ := exists_longest hmantissa cs
                      -- a literal has a character, so that the rest is shorter
                      have hlength := congrArg List.length htext
                      have hpos := List.length_pos_iff.mpr hlongest.literal.ne_nil
                      simp only [List.length_append, List.length_cons] at hlength
                      rw [htext]
                      exact hlongest.exists_munches (hlater rest (by omega))
                  | false =>
                      obtain ⟨hdigit, hpoint⟩ := Bool.or_eq_false_iff.mp hmantissa
                      have hoperator : ∀ op : Operator, c ≠ op.glyph := by
                        rintro op rfl
                        rw [Operator.ofChar?_glyph] at hop
                        cases hop
                      exact ⟨_, .unexpected hblank hoperator hdigit (beq_eq_false_iff_ne.mp hpoint)⟩

end Munching

/-! ## Texts side by side -/

section SideBySide

variable {mantissa exponent rest : List Char}

/-- A literal has no blanks. -/
theorem LiteralText.not_blank (h : LiteralText mantissa exponent) :
    ∀ c ∈ mantissa ++ exponent, isBlank c = false := by
  intro c hc
  rcases List.mem_append.mp hc with hc | hc
  · exact not_blank_of_isMantissa (isMantissa_iff.mpr (h.mantissa c hc))
  · cases h.exponent with
    | absent => cases hc
    | present hmark hsign hne hdigits =>
        rcases List.mem_cons.mp hc with rfl | hc
        · rcases hmark with rfl | rfl <;> rfl
        · rcases List.mem_append.mp hc with hc | hc
          · rcases hsign with rfl | rfl | rfl
            · cases hc
            · rw [List.mem_singleton.mp hc]
              rfl
            · rw [List.mem_singleton.mp hc]
              rfl
          · exact not_blank_of_isDigit (hdigits c hc)

/-- The longest literal does not grow when a blank and further text are put behind all that follows
it. -/
theorem Longest.append (h : Longest mantissa exponent rest) {c : Char} (hc : isBlank c = true)
    (cs : List Char) : Longest mantissa exponent (rest ++ c :: cs) := by
  refine ⟨h.literal, ?_⟩
  intro m e r hliteral htext
  -- a literal ends before the blank, and so it stands in the text without what was put behind it
  rw [← List.append_assoc] at htext
  rcases List.append_eq_append_iff.mp htext with ⟨us, hus, hcs⟩ | ⟨us, hus, hr⟩
  · cases us with
    | nil =>
        rw [List.append_nil] at hus
        exact h.longest m e [] hliteral (by rw [List.append_nil, hus])
    | cons u us =>
        have hu : c = u := (List.cons.inj hcs).1
        have hmem : c ∈ m ++ e := by
          rw [hus, hu]
          exact List.mem_append_right _ List.mem_cons_self
        rw [hliteral.not_blank c hmem] at hc
        cases hc
  · exact h.longest m e us hliteral hus

/-- A blank ends whatever stands before it. -/
theorem Munches.lex_append {a : List Char} {r : Except Error (List Lexeme)} (h : Munches a r)
    {c : Char} (hc : isBlank c = true) (b : List Char) :
    lex (a ++ c :: b) = r >>= fun ts => (lex b).map (ts ++ ·) := by
  have hcons : ∀ (t : Lexeme) (r : Except Error (List Lexeme)),
      (r >>= fun ts => (lex b).map (ts ++ ·)).map (t :: ·) =
        r.map (t :: ·) >>= fun ts => (lex b).map (ts ++ ·) := by
    intro t r
    cases r with
    | error e => rfl
    | ok ts => cases lex b <;> rfl
  induction h with
  | nil =>
      rw [List.nil_append, lex_blank hc]
      cases lex b <;> rfl
  | blank hc' _ ih => rw [List.cons_append, lex_blank hc', ih]
  | operator op _ ih => rw [List.cons_append, lex_operator, ih, hcons]
  | number hlongest hnumber hv _ ih =>
      obtain ⟨d, hd⟩ := Option.isSome_iff_exists.mp (hlongest.literal.isSome_iff.mpr hnumber)
      rw [hlongest.literal.ofChars?, hd] at hv
      cases hv
      rw [List.append_assoc _ _ (c :: b), (hlongest.append hc b).lex_eq, hd]
      dsimp only
      rw [ih, hcons]
  | invalid hlongest hnumber =>
      have hfault := (Munches.invalid (hlongest.append hc b) hnumber).lex_eq
      rw [List.append_assoc _ _ (c :: b), hfault]
      rfl
  | unexpected hblank hoperator hdigit hpoint =>
      exact (Munches.unexpected hblank hoperator hdigit hpoint).lex_eq

/-- The lexer skips blanks and takes operators and the longest literals, and it reports the first
fault. Texts on both sides of a blank are lexed each by itself, and of two faults the one on the
left is reported. -/
theorem lex_munches :
    (∀ cs r, lex cs = r ↔ Munches cs r) ∧
    ∀ a b : List Char, ∀ c, isBlank c = true →
      lex (a ++ c :: b) = (do
        let ts ← lex a
        let us ← lex b
        return ts ++ us) := by
  constructor
  · intro cs r
    constructor
    · rintro rfl
      obtain ⟨r, hr⟩ := exists_munches cs
      rwa [hr.lex_eq]
    · exact fun h => h.lex_eq
  · intro a b c hc
    obtain ⟨r, hr⟩ := exists_munches a
    rw [hr.lex_append hc b, hr.lex_eq]
    cases r with
    | error e => rfl
    | ok ts => cases lex b <;> rfl

/-- A mark without digits belongs to no literal, and a second point begins a new one behind an
exponent. The fault on the right is reported, as there is none on the left. -/
theorem lex_dangling_exponent :
    isBlank '\u2003' = true ∧
    Munches "1e5.3.E-".toList (.error (.invalidNumber ".3.")) ∧
    lex ("1e5.3".toList ++ '\u2003' :: "2e+".toList) = .error (.unexpectedCharacter 'e') := by
  have hfirst : lex "1e5.3.E-".toList = .error (.invalidNumber ".3.") := by decide +kernel
  have hleft : lex "1e5.3".toList = .ok [.number 100000, .number 0.3] := by decide +kernel
  have hright : lex "2e+".toList = .error (.unexpectedCharacter 'e') := by decide +kernel
  refine ⟨rfl, (lex_munches.1 _ _).mp hfirst, ?_⟩
  rw [lex_munches.2 _ _ '\u2003' rfl, hleft, hright]
  rfl

end SideBySide

end FormulaBar.Formula
