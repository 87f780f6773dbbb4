import FormulaBar.Proofs.Formula.Items
import FormulaBar.Proofs.Formula.Recognition

/-!
# One number for two readers

A number that is typed into the editor is read whole, a formula lexeme by lexeme. Both readers come
to the same answer on every text that is a literal behind at most one sign, whether the literal is
a number or not.

1. **Literals** as the lexer marks them off.
2. **The reader of numbers** on a signed literal.
3. **The reader of formulas** on a signed literal.
4. **Agreement** of the two.
-/

namespace FormulaBar.Formula

open FormulaBar.Text (Digit isBlank isDigit spanSign trimChars exists_trimChars length_spanSign_le)
open FormulaBar.Numeral (Decimal exponentPart? exponentDigits? infinityIndex isFinite_iff
  index_ofIndex isNegative_ofIndex neg_eq_ofIndex toIndex_le spanDigits_map toChar_of_digit?)

/-! ## Literals -/

/-- The lexer takes the text for one literal. The literal need not be a number, as `1.2.3` is
none. -/
structure IsLiteral (cs : List Char) : Prop where
  head : ∃ c ∈ cs.head?, isMantissa c = true
  whole : literalLength cs = cs.length

section Literals

variable {cs rest : List Char}

theorem exists_digits (h : ∀ c ∈ cs, isDigit c = true) :
    ∃ ds : List Digit, cs = ds.map Digit.toChar := by
  induction cs with
  | nil => exact ⟨[], rfl⟩
  | cons c cs ih =>
      obtain ⟨d, hd⟩ := Option.isSome_iff_exists.mp (h c List.mem_cons_self)
      obtain ⟨ds, hds⟩ := ih fun c hc => h c (List.mem_cons_of_mem _ hc)
      refine ⟨d :: ds, ?_⟩
      rw [List.map_cons, toChar_of_digit? hd, ← hds]

/-- What the lexer takes for an exponent is read as one. -/
theorem exists_exponent (h : exponentLength cs = cs.length) : ∃ e, exponentPart? cs = some e := by
  cases cs with
  | nil => exact ⟨0, rfl⟩
  | cons c cs =>
      rw [exponentLength] at h
      split at h
      · next hmark =>
        have hle := length_spanSign_le cs
        have hlength : ((spanSign cs).2.takeWhile isDigit).length = (spanSign cs).2.length := by
          rw [List.length_cons] at h
          omega
        have htake : (spanSign cs).2.takeWhile isDigit = (spanSign cs).2 :=
          (List.takeWhile_prefix isDigit).eq_of_length hlength
        obtain ⟨ds, hds⟩ : ∃ ds : List Digit, (spanSign cs).2 = ds.map Digit.toChar := by
          apply exists_digits
          intro c hc
          rw [← htake] at hc
          exact List.mem_takeWhile_imp hc
        have hne : (spanSign cs).2 ≠ [] := htake ▸ hmark.2
        rw [exponentPart?, if_pos hmark.1, exponentDigits?, hds, spanDigits_map]
        cases ds with
        | nil => exact absurd hds hne
        | cons d ds => exact ⟨_, rfl⟩
      · cases h

/-- A literal is still taken whole where more text follows it. -/
theorem IsLiteral.append (h : IsLiteral cs) (hrest : Boundary rest) :
    literalLength (cs ++ rest) = cs.length := by
  have hparts : cs.takeWhile isMantissa ++ cs.dropWhile isMantissa = cs :=
    List.takeWhile_append_dropWhile
  obtain ⟨e, he⟩ : ∃ e, exponentPart? (cs.dropWhile isMantissa) = some e := by
    apply exists_exponent
    have hlength := congrArg List.length hparts
    have hwhole := h.whole
    rw [List.length_append] at hlength
    rw [literalLength] at hwhole
    omega
  have hmantissa : ∀ c ∈ cs.takeWhile isMantissa, isMantissa c = true := by
    intro c hc
    exact List.mem_takeWhile_imp hc
  have hlength := literalLength_parts hmantissa he hrest
  rwa [hparts] at hlength

/-- Every decimal is a literal. -/
theorem isLiteral_of_decimal {d : Decimal} (h : Decimal.ofChars? cs = some d) : IsLiteral cs := by
  constructor
  · obtain ⟨mantissa, exponent, -, rfl, hne, hmantissa, -⟩ := exists_mantissa h
    obtain ⟨c, mantissa, rfl⟩ := List.exists_cons_of_ne_nil hne
    exact ⟨c, rfl, hmantissa c List.mem_cons_self⟩
  · have hlength := literalLength_append h boundary_nil
    rwa [List.append_nil] at hlength

theorem IsLiteral.exists_cons (h : IsLiteral cs) :
    ∃ c cs', cs = c :: cs' ∧ isMantissa c = true := by
  obtain ⟨c, hhead, hc⟩ := h.head
  obtain ⟨cs', hcs⟩ := List.head?_eq_some_iff.mp hhead
  exact ⟨c, cs', hcs, hc⟩

theorem literalLength_le (cs : List Char) : literalLength cs ≤ cs.length := by
  have hexponent : ∀ cs, exponentLength cs ≤ cs.length := by
    intro cs
    cases cs with
    | nil => exact Nat.le_refl _
    | cons c cs =>
        have hsign := length_spanSign_le cs
        have hdigits := (List.takeWhile_sublist isDigit (l := (spanSign cs).2)).length_le
        rw [exponentLength, List.length_cons]
        split <;> omega
  have hrest := hexponent (cs.dropWhile isMantissa)
  have hlength := congrArg List.length (List.takeWhile_append_dropWhile (p := isMantissa) (l := cs))
  rw [List.length_append] at hlength
  rw [literalLength]
  omega

/-- A character that is not blank begins a lexeme: it is an operator, or a literal is taken. -/
theorem lex_cons_cases {c : Char} {ts : List Lexeme} (hblank : isBlank c = false)
    (h : lex (c :: cs) = .ok ts) :
    (∃ op ts', ts = .operator op :: ts') ∨
      isMantissa c = true ∧ ∃ v ts', ts = .number v :: ts' ∧
        lex ((c :: cs).drop (literalLength (c :: cs))) = .ok ts' := by
  rw [lex.eq_def] at h
  dsimp only at h
  rw [hblank] at h
  simp only [Bool.false_eq_true, if_false] at h
  split at h
  · next op _ =>
    obtain ⟨ts', -, rfl⟩ := map_eq_ok_iff.mp h
    exact .inl ⟨op, ts', rfl⟩
  · split at h
    · next hc =>
      split at h
      · next d _ =>
        obtain ⟨ts', hrest, rfl⟩ := map_eq_ok_iff.mp h
        exact .inr ⟨hc, _, ts', rfl, hrest⟩
      · cases h
    · cases h

/-- Only blanks have no lexemes. -/
theorem blank_of_lex (h : lex cs = .ok []) : ∀ c ∈ cs, isBlank c = true := by
  induction cs with
  | nil => exact nofun
  | cons c cs ih =>
      cases hc : isBlank c with
      | true =>
          rw [lex_blank hc] at h
          exact List.forall_mem_cons.mpr ⟨hc, ih h⟩
      | false =>
          rcases lex_cons_cases hc h with ⟨op, ts, hts⟩ | ⟨-, v, ts, hts, -⟩
          · cases hts
          · cases hts

/-- A text without blanks whose only lexeme is a number is a literal. -/
theorem isLiteral_of_lex {v : Float} (h : lex cs = .ok [.number v])
    (hblank : ∀ c ∈ cs, isBlank c = false) : IsLiteral cs := by
  cases cs with
  | nil =>
      rw [lex_nil] at h
      cases h
  | cons c cs =>
      have hhead := hblank c List.mem_cons_self
      rcases lex_cons_cases hhead h with ⟨op, ts, hts⟩ | ⟨hc, _, ts, hts, hrest⟩
      · cases hts
      · cases hts
        -- what is left has no lexemes, so that nothing is left
        have hnone : (c :: cs).drop (literalLength (c :: cs)) = [] := by
          rw [List.eq_nil_iff_forall_not_mem]
          intro c' hc'
          have hleft := blank_of_lex hrest c' hc'
          rw [hblank c' (List.mem_of_mem_drop hc')] at hleft
          cases hleft
        have hge := List.drop_eq_nil_iff.mp hnone
        exact ⟨⟨c, rfl, hc⟩, Nat.le_antisymm (literalLength_le (c :: cs)) hge⟩

end Literals

/-! ## The reader of numbers -/

/-- What is typed for a sign that may be left out. -/
def signChars (sign : Option Sign) : List Char := sign.toList.map fun s => s.operator.glyph

section Values

variable {sign : Option Sign} {cs : List Char}

theorem toLower_mantissa {c : Char} (h : isMantissa c = true) : c.toLower = c := by
  rcases Bool.or_eq_true_iff.mp h with hdigit | hpoint
  · obtain ⟨d, hd⟩ := Option.isSome_iff_exists.mp hdigit
    have hdigits : ∀ d : Digit, d.toChar.toLower = d.toChar := by decide
    rw [← toChar_of_digit? hd, hdigits]
  · rw [beq_iff_eq.mp hpoint]
    rfl

/-- No literal is one of the words that begin with a letter. -/
theorem IsLiteral.not_word (h : IsLiteral cs) {words : List (List Char)}
    (hwords : ∀ word ∈ words, word.head?.any isMantissa = false) :
    Numeral.isWord words cs = false := by
  obtain ⟨c, cs, rfl, hc⟩ := h.exists_cons
  rw [Numeral.isWord, List.contains_eq_mem, decide_eq_false_iff_not]
  intro hmem
  have hletter : isMantissa c.toLower = false := hwords _ hmem
  rw [toLower_mantissa hc, hc] at hletter
  cases hletter

theorem spanSign_signChars (h : IsLiteral cs) :
    spanSign (signChars sign ++ cs) = (sign == some .minus, cs) := by
  cases sign with
  | some s => cases s <;> rfl
  | none =>
      obtain ⟨c, cs, rfl, hc⟩ := h.exists_cons
      refine spanSign_of_ne ?_ ?_ cs
      · rintro rfl
        cases hc
      · rintro rfl
        cases hc

/-- A signed literal is read as a number if the literal is a decimal. -/
theorem IsLiteral.ofChars? (h : IsLiteral cs) :
    Numeral.ofChars? (signChars sign ++ cs) =
      (Decimal.ofChars? cs).map (Decimal.toFloat (sign == some .minus)) := by
  have hinfinity : Numeral.isWord ["inf".toList, "infinity".toList] cs = false :=
    h.not_word (by decide +kernel)
  have hnan : Numeral.isWord ["nan".toList] cs = false := h.not_word (by decide +kernel)
  rw [Numeral.ofChars?, spanSign_signChars h, Numeral.ofUnsigned?, hinfinity, hnan]
  rfl

/-- Whether a decimal is too large for a double does not depend on its sign. -/
theorem isFinite_toFloat (negative : Bool) (d : Decimal) :
    (d.toFloat negative).isFinite = true ↔ d.toIndex < infinityIndex := by
  rw [isFinite_iff, Decimal.toFloat, index_ofIndex negative (toIndex_le d)]

theorem neg_toFloat {d : Decimal} (h : (d.toFloat false).isFinite = true) :
    -(d.toFloat false) = d.toFloat true := by
  rw [neg_eq_ofIndex h, Decimal.toFloat, isNegative_ofIndex false (toIndex_le d),
    index_ofIndex false (toIndex_le d)]
  rfl

end Values

/-! ## The reader of formulas -/

section Formulas

variable {sign : Option Sign} {cs front back : List Char}

/-- The lexemes of a signed literal between blanks. -/
theorem IsLiteral.lex (h : IsLiteral cs) (hfront : ∀ c ∈ front, isBlank c = true)
    (hback : ∀ c ∈ back, isBlank c = true) :
    Formula.lex (front ++ (signChars sign ++ cs ++ back)) =
      match Decimal.ofChars? cs with
      | some d => .ok (sign.toList.map Sign.lexeme ++ [.number (d.toFloat false)])
      | none => .error (.invalidNumber (String.ofList cs)) := by
  have hboundary : Boundary back := by
    cases back with
    | nil => exact boundary_nil
    | cons c back => exact boundary_blank (hback c List.mem_cons_self) back
  have hend : Formula.lex back = .ok [] := by
    rw [← List.append_nil back, lex_blanks hback, lex_nil]
  have hliteral : Formula.lex (cs ++ back) =
      match Decimal.ofChars? cs with
      | some d => .ok [.number (d.toFloat false)]
      | none => .error (.invalidNumber (String.ofList cs)) := by
    have hlength := h.append hboundary
    obtain ⟨c, cs, rfl, hc⟩ := h.exists_cons
    rw [lex_taken hc hlength, hend]
    rfl
  rw [lex_blanks hfront, List.append_assoc]
  cases sign with
  | none =>
      refine hliteral.trans ?_
      cases Decimal.ofChars? cs <;> rfl
  | some s =>
      refine (lex_operator s.operator _).trans ?_
      show (Formula.lex (cs ++ back)).map _ = _
      rw [hliteral]
      cases Decimal.ofChars? cs <;> rfl

/-- The tree of a signed number. -/
theorem parseLexemes_signed (sign : Option Sign) (v : Float) :
    parseLexemes (sign.toList.map Sign.lexeme ++ [.number v]) =
      .ok (if sign == some .minus then .neg (.number v) else .number v) := by
  rcases sign with _ | _ | _ <;> rfl

/-- A signed decimal has the value it is read as, unless that is too large. -/
theorem eval_signed (sign : Option Sign) (d : Decimal) :
    (if sign == some .minus then Tree.neg (.number (d.toFloat false))
      else .number (d.toFloat false)).eval.toOption =
      (some (d.toFloat (sign == some .minus))).filter Float.isFinite := by
  have hsign : (d.toFloat true).isFinite = (d.toFloat false).isFinite := by
    rw [Bool.eq_iff_iff, isFinite_toFloat, isFinite_toFloat]
  rw [Option.filter_some]
  cases hfinite : (d.toFloat false).isFinite with
  | true =>
      rw [hfinite] at hsign
      cases sign == some .minus with
      | true => simp [Tree.eval, finite, hfinite, hsign, neg_toFloat hfinite, Except.map,
          Except.toOption]
      | false => simp [Tree.eval, finite, hfinite, Except.toOption]
  | false =>
      rw [hfinite] at hsign
      cases sign == some .minus with
      | true => simp [Tree.eval, finite, hfinite, hsign, Except.map, Except.toOption]
      | false => simp [Tree.eval, finite, hfinite, Except.toOption]

end Formulas

/-! ## Agreement -/

section Agreement

variable {text : String} {sign : Option Sign} {cs : List Char}

/-- Both readers come to the same answer on a signed literal. -/
theorem toOption_evaluateText (htrim : trimChars text.toList = signChars sign ++ cs)
    (h : IsLiteral cs) : (evaluateText text).toOption = Numeral.typed? text := by
  obtain ⟨front, back, htext, hfront, hback⟩ := exists_trimChars text.toList
  rw [htrim] at htext
  rw [Numeral.typed?, htrim, h.ofChars?, evaluateText, htext, evaluateChars, parseChars,
    h.lex hfront hback]
  cases Decimal.ofChars? cs with
  | none => rfl
  | some d =>
      show (parseLexemes (sign.toList.map Sign.lexeme ++ [.number (d.toFloat false)]) >>=
        Tree.eval).toOption = _
      rw [parseLexemes_signed]
      exact eval_signed sign d

/-- A typed number is a literal behind at most one sign, between blanks. -/
theorem exists_signed {v : Float} (h : Numeral.typed? text = some v) :
    ∃ sign cs, trimChars text.toList = signChars sign ++ cs ∧ IsLiteral cs := by
  obtain ⟨hread, hfinite⟩ := Option.filter_eq_some_iff.mp h
  obtain ⟨d, hd, -⟩ := exists_decimal hread hfinite
  have hliteral := isLiteral_of_decimal hd
  generalize trimChars text.toList = typed at hliteral ⊢
  unfold spanSign at hliteral
  split at hliteral
  · exact ⟨some .minus, _, rfl, hliteral⟩
  · exact ⟨some .plus, _, rfl, hliteral⟩
  · exact ⟨none, _, rfl, hliteral⟩

/-- A text that commits a number is a formula of this value. Of the texts that are a literal behind
at most one sign, the ones that commit a number are the formulas that have a value. Every text
without blanks whose only lexeme is a number is a literal. -/
theorem number_readers_agree :
    (∀ text v, Numeral.typed? text = some v → evaluateText text = .ok v) ∧
    (∀ text sign cs, trimChars text.toList = signChars sign ++ cs → IsLiteral cs →
      (∀ v, Numeral.typed? text = some v ↔ evaluateText text = .ok v) ∧
      (Numeral.typed? text = none ↔ ∃ e, evaluateText text = .error e)) ∧
    ∀ cs v, lex cs = .ok [.number v] → (∀ c ∈ cs, isBlank c = false) → IsLiteral cs := by
  have hsigned : ∀ text sign cs, trimChars text.toList = signChars sign ++ cs → IsLiteral cs →
      (∀ v, Numeral.typed? text = some v ↔ evaluateText text = .ok v) ∧
      (Numeral.typed? text = none ↔ ∃ e, evaluateText text = .error e) := by
    intro text sign cs htrim h
    rw [← toOption_evaluateText htrim h]
    cases evaluateText text with
    | ok u => simp [Except.toOption]
    | error e => simp [Except.toOption]
  refine ⟨?_, hsigned, fun cs v => isLiteral_of_lex⟩
  intro text v h
  obtain ⟨sign, cs, htrim, hliteral⟩ := exists_signed h
  exact ((hsigned text sign cs htrim hliteral).1 v).mp h

/-- Zero keeps its sign, and a literal with two points has no value for either reader. -/
theorem number_readers_negative_zero :
    evaluateText " -0.e9\u2003" = .ok (-0) ∧ IsLiteral "0.e9".toList ∧
      Numeral.typed? "+1.2.3" = none ∧ ∃ e, evaluateText "+1.2.3" = .error e := by
  have hzero : Numeral.typed? " -0.e9\u2003" = some (-0) := by decide +kernel
  have hpoints : Numeral.typed? "+1.2.3" = none := by decide +kernel
  have hliteral : IsLiteral "1.2.3".toList := ⟨⟨'1', rfl, rfl⟩, by decide +kernel⟩
  obtain ⟨hcommitted, hsigned, hsingle⟩ := number_readers_agree
  have hagree := hsigned "+1.2.3" (some .plus) "1.2.3".toList (by decide) hliteral
  have hlex : lex "0.e9".toList = .ok [.number 0] := by decide +kernel
  have hblank : ∀ c ∈ "0.e9".toList, isBlank c = false := by simp [isBlank]
  exact ⟨hcommitted _ _ hzero, hsingle _ 0 hlex hblank, hpoints, hagree.2.mp hpoints⟩

end Agreement

end FormulaBar.Formula
