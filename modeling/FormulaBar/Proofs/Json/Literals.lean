import FormulaBar.Json.Lexeme
import FormulaBar.Proofs.Numeral.Digits

/-!
# JSON literals are read back

However a literal is written, it is read as what it stands for.

1. **Numbers**, if what follows cannot be taken for a part of the literal.
2. **Strings**, character by character.
-/

namespace FormulaBar.Json

open FormulaBar.Text (Digit digit? isDigit spanDigits spanSign)
open FormulaBar.Numeral

/-! ## Numbers -/

/-- No number literal goes on at the front of the text. -/
def Delimited (cs : List Char) : Prop :=
  ∀ c ∈ cs.head?, digit? c = none ∧ c ≠ '.' ∧ c ≠ 'e' ∧ c ≠ 'E'

theorem delimited_nil : Delimited [] := by
  intro c hc
  cases hc

theorem delimited_cons {c : Char} (h : digit? c = none ∧ c ≠ '.' ∧ c ≠ 'e' ∧ c ≠ 'E')
    (cs : List Char) : Delimited (c :: cs) := by
  intro c' hc
  cases hc
  exact h

theorem Delimited.noDigit {cs : List Char} (h : Delimited cs) : NoDigit cs := by
  intro c hc
  exact (h c hc).1

section Numbers

variable {rest : List Char}

/-- The digits of a number have no zero in front that would have to stand alone. -/
theorem spanWhole?_append (n : Nat) (hrest : NoDigit rest) :
    spanWhole? (digitText n ++ rest) = some (n, rest) := by
  have hspan : spanDigits (digitText n ++ rest) = (digits n, rest) :=
    spanDigits_append (digits n) hrest
  have hvalue := ofDigits_digits n
  unfold spanWhole?
  rw [hspan]
  cases hdigits : digits n with
  | nil => exact absurd hdigits (digits_ne_nil n)
  | cons d ds =>
      have hzero : ¬(d.val = 0 ∧ ds ≠ []) := by
        rintro ⟨hd, hds⟩
        exact hds (digits_of_zero hdigits hd)
      rw [hdigits] at hvalue
      dsimp only
      rw [if_neg hzero, hvalue]

/-- The point and the digits of a fraction, if there are any. -/
def fractionChars (ds : List Digit) : List Char :=
  if ds = [] then [] else '.' :: ds.map Digit.toChar

theorem spanFraction?_append (ds : List Digit) (hrest : NoDigit rest)
    (hpoint : ∀ c ∈ rest.head?, c ≠ '.') :
    spanFraction? (fractionChars ds ++ rest) = some (ds, rest) := by
  cases ds with
  | nil =>
      cases rest with
      | nil => rfl
      | cons c rest =>
          have hc : c ≠ '.' := hpoint c rfl
          show spanFraction? (c :: rest) = some ([], c :: rest)
          unfold spanFraction?
          split
          · next h => exact absurd (List.cons.inj h).1 hc
          · rfl
  | cons d ds =>
      show spanFraction? ('.' :: ((d :: ds).map Digit.toChar ++ rest)) = some (d :: ds, rest)
      have hspan := spanDigits_append (d :: ds) hrest
      simp only [spanFraction?, hspan]

/-- The sign of an exponent may be left out. -/
def IsSign (sign : List Char) : Prop := sign = [] ∨ sign = ['+'] ∨ sign = ['-']

/-- The exponent that digits stand for behind a sign. -/
def signedExponent (sign : List Char) (ds : List Digit) : Int :=
  if sign = ['-'] then -(ofDigits ds : Int) else ofDigits ds

/-- How an exponent may be written, if there is one. -/
inductive ExponentText : Option Int → List Char → Prop where
  | absent : ExponentText none []
  | present {mark : Char} {sign : List Char} {ds : List Digit} (hmark : mark = 'e' ∨ mark = 'E')
      (hsign : IsSign sign) (hds : ds ≠ []) :
      ExponentText (some (signedExponent sign ds)) (mark :: (sign ++ ds.map Digit.toChar))

theorem spanSign_append {sign cs : List Char} (hsign : IsSign sign)
    (hcs : ∀ c ∈ cs.head?, c ≠ '-' ∧ c ≠ '+') :
    spanSign (sign ++ cs) = (decide (sign = ['-']), cs) := by
  rcases hsign with rfl | rfl | rfl
  · cases cs with
    | nil => rfl
    | cons c cs =>
        obtain ⟨hminus, hplus⟩ := hcs c rfl
        rw [List.nil_append]
        unfold spanSign
        split
        · next h => exact absurd (List.cons.inj h).1 hminus
        · next h => exact absurd (List.cons.inj h).1 hplus
        · rfl
  · rfl
  · rfl

theorem spanExponentDigits?_append {sign : List Char} {ds : List Digit} (hsign : IsSign sign)
    (hds : ds ≠ []) (hrest : NoDigit rest) :
    spanExponentDigits? (sign ++ (ds.map Digit.toChar ++ rest)) =
      some (signedExponent sign ds, rest) := by
  cases ds with
  | nil => exact absurd rfl hds
  | cons d ds =>
      have hhead : ∀ c ∈ ((d :: ds).map Digit.toChar ++ rest).head?, c ≠ '-' ∧ c ≠ '+' := by
        rintro c ⟨⟩
        exact ⟨toChar_ne d rfl, toChar_ne d rfl⟩
      unfold spanExponentDigits?
      rw [spanSign_append hsign hhead]
      dsimp only
      rw [spanDigits_append (d :: ds) hrest]
      simp only [signedExponent, decide_eq_true_eq]

theorem spanExponent?_append {e : Option Int} {cs : List Char} (h : ExponentText e cs)
    (hrest : Delimited rest) : spanExponent? (cs ++ rest) = some (e, rest) := by
  cases h with
  | absent =>
      cases rest with
      | nil => rfl
      | cons c rest =>
          obtain ⟨-, -, he, hE⟩ := hrest c rfl
          show spanExponent? (c :: rest) = some (none, c :: rest)
          unfold spanExponent?
          split
          · next h => exact absurd (List.cons.inj h).1 he
          · next h => exact absurd (List.cons.inj h).1 hE
          · rfl
  | present hmark hsign hds =>
      have hdigits := spanExponentDigits?_append hsign hds hrest.noDigit
      rw [List.cons_append, List.append_assoc]
      rcases hmark with rfl | rfl
      · rw [spanExponent?, hdigits]
        rfl
      · rw [spanExponent?, hdigits]
        rfl

/-- Neither a digit nor a point stands where a fraction has ended. -/
theorem ExponentText.head {e : Option Int} {cs : List Char} (h : ExponentText e cs)
    (hrest : Delimited rest) : ∀ c ∈ (cs ++ rest).head?, digit? c = none ∧ c ≠ '.' := by
  intro c hc
  cases h with
  | absent =>
      obtain ⟨hdigit, hpoint, -⟩ := hrest c hc
      exact ⟨hdigit, hpoint⟩
  | present hmark =>
      cases hc
      rcases hmark with rfl | rfl
      · exact ⟨rfl, by decide⟩
      · exact ⟨rfl, by decide⟩

/-- No digit stands where the whole part has ended. -/
theorem noDigit_fractionChars (ds : List Digit) {cs : List Char} (hcs : NoDigit cs) :
    NoDigit (fractionChars ds ++ cs) := by
  cases ds with
  | nil => exact hcs
  | cons d ds => exact noDigit_cons rfl _

/-- How a number may be written. Its whole part has no zero in front that could be left out. -/
inductive NumberText (n : Number) : List Char → Prop where
  | parts {exponent : List Char} (h : ExponentText n.exponent exponent) :
      NumberText n ((if n.negative then ['-'] else []) ++
        (digitText n.whole ++ (fractionChars n.fraction ++ exponent)))

theorem spanUnsigned?_append (n : Number) {exponent : List Char}
    (h : ExponentText n.exponent exponent) (hrest : Delimited rest) :
    spanUnsigned? n.negative
      (digitText n.whole ++ (fractionChars n.fraction ++ (exponent ++ rest))) =
        some (n, rest) := by
  have hhead := h.head hrest
  have hend : NoDigit (exponent ++ rest) := fun c hc => (hhead c hc).1
  have hwhole := spanWhole?_append n.whole (noDigit_fractionChars n.fraction hend)
  have hfraction := spanFraction?_append n.fraction hend (fun c hc => (hhead c hc).2)
  simp only [spanUnsigned?, hwhole, hfraction, spanExponent?_append h hrest,
    Option.bind_eq_bind, Option.bind_some]
  rfl

/-- The digits of a whole part, the first of which is no sign. -/
theorem exists_digitText (n : Nat) : ∃ d ds, digitText n = Digit.toChar d :: ds := by
  cases hdigits : digits n with
  | nil => exact absurd hdigits (digits_ne_nil _)
  | cons d ds => exact ⟨d, ds.map Digit.toChar, by rw [digitText, hdigits]; rfl⟩

/-- A number literal is read as the number. -/
theorem NumberText.span {n : Number} {cs : List Char} (h : NumberText n cs)
    (hrest : Delimited rest) : spanNumber? (cs ++ rest) = some (n, rest) := by
  obtain ⟨hexponent⟩ := h
  have hread := spanUnsigned?_append n hexponent hrest
  simp only [List.append_assoc]
  cases hneg : n.negative with
  | true =>
      rw [hneg] at hread
      exact hread
  | false =>
      rw [hneg] at hread
      obtain ⟨d, ds, hdigits⟩ := exists_digitText n.whole
      have hd : d.toChar ≠ '-' := toChar_ne d rfl
      rw [hdigits] at hread ⊢
      show spanNumber? (d.toChar :: _) = _
      unfold spanNumber?
      split
      · next h => exact absurd (List.cons.inj h).1 hd
      · exact hread

/-- A number literal begins with its sign or a digit. -/
theorem NumberText.exists_cons {n : Number} {cs : List Char} (h : NumberText n cs) :
    ∃ c cs', cs = c :: cs' ∧ (c = '-' ∨ isDigit c = true) := by
  obtain ⟨-⟩ := h
  cases n.negative with
  | true => exact ⟨_, _, rfl, .inl rfl⟩
  | false =>
      obtain ⟨d, ds, hdigits⟩ := exists_digitText n.whole
      rw [hdigits]
      exact ⟨_, _, rfl, .inr (isDigit_toChar d)⟩

theorem exponentText_chars (e : Int) : ExponentText (some e) (Number.exponentChars e) := by
  have hvalue : e = signedExponent [if e < 0 then '-' else '+'] (digits e.natAbs) := by
    rw [signedExponent, ofDigits_digits]
    by_cases hneg : e < 0
    · rw [if_pos hneg, if_pos rfl]
      omega
    · rw [if_neg hneg, if_neg (by decide)]
      omega
  have hsign : IsSign [if e < 0 then '-' else '+'] := by
    by_cases hneg : e < 0
    · rw [if_pos hneg]
      exact .inr (.inr rfl)
    · rw [if_neg hneg]
      exact .inr (.inl rfl)
  conv => arg 1; rw [hvalue]
  exact .present (.inl rfl) hsign (digits_ne_nil _)

/-- What is written for a number is a literal of it. -/
theorem numberText_chars (n : Number) : NumberText n n.chars := by
  rw [Number.chars, List.append_assoc, List.append_assoc]
  refine NumberText.parts ?_
  cases n.exponent with
  | none => exact .absent
  | some e => exact exponentText_chars e

end Numbers

/-! ## Strings -/

theorem hexValue?_hexChar (d : Fin 16) : hexValue? (hexChar d) = some d.val := by
  revert d
  decide

/-- The escape of a control character stands for it. -/
theorem hexValues?_control {n : Nat} (h : n < 0x20) :
    hexValues? '0' '0' (hexChar (Fin.ofNat 16 (n / 16))) (hexChar (Fin.ofNat 16 n)) = some n := by
  have hvalue : ((0 * 16 + 0) * 16 + n / 16 % 16) * 16 + n % 16 = n := by omega
  have hzero : hexValue? '0' = some 0 := rfl
  simp only [hexValues?, hzero, hexValue?_hexChar, Option.bind_eq_bind, Option.bind_some]
  exact congrArg some hvalue

theorem ofEscape_control {c : Char} (h : c.toNat < 0x20) :
    StringUnit.ofEscape c.toNat = .char c := by
  have hhigh : isHighSurrogate c.toNat = false := decide_eq_false (by omega)
  have hlow : isLowSurrogate c.toNat = false := decide_eq_false (by omega)
  rw [StringUnit.ofEscape, hhigh, hlow, Char.ofNat_toNat]
  rfl

/-- A character is escaped by a letter or by its number, or stands as it is. -/
theorem escape_cases (c : Char) :
    (∃ e, unescape? e = some c ∧ escape c = ['\\', e]) ∨
    (c.toNat < 0x20 ∧ escape c = ['\\', 'u', '0', '0', hexChar (Fin.ofNat 16 (c.toNat / 16)),
      hexChar (Fin.ofNat 16 c.toNat)]) ∨
    (c ≠ '"' ∧ c ≠ '\\' ∧ ¬c.toNat < 0x20 ∧ escape c = [c]) := by
  by_cases hletter : c = '"' ∨ c = '\\' ∨ c = '\x08' ∨ c = '\x0c' ∨ c = '\n' ∨ c = '\r' ∨ c = '\t'
  · left
    rcases hletter with rfl | rfl | rfl | rfl | rfl | rfl | rfl
    · exact ⟨'"', rfl, rfl⟩
    · exact ⟨'\\', rfl, rfl⟩
    · exact ⟨'b', rfl, rfl⟩
    · exact ⟨'f', rfl, rfl⟩
    · exact ⟨'n', rfl, rfl⟩
    · exact ⟨'r', rfl, rfl⟩
    · exact ⟨'t', rfl, rfl⟩
  · right
    simp only [not_or] at hletter
    obtain ⟨hquote, hslash, hb, hf, hn, hr, ht⟩ := hletter
    simp only [escape, if_neg hquote, if_neg hslash, if_neg hb, if_neg hf, if_neg hn, if_neg hr,
      if_neg ht]
    by_cases hcontrol : c.toNat < 0x20
    · rw [if_pos hcontrol]
      exact .inl ⟨hcontrol, rfl⟩
    · rw [if_neg hcontrol]
      exact .inr ⟨hquote, hslash, hcontrol, rfl⟩

section Strings

variable {c : Char} (cs rest : List Char)

theorem spanString?_letter {e : Char} (h : unescape? e = some c) :
    spanString? ('\\' :: e :: cs) =
      (spanString? cs).map fun (units, rest) => (.char c :: units, rest) := by
  rw [spanString?, h]
  rintro a b c' d cs' rfl
  cases h

theorem spanString?_plain (hquote : c ≠ '"') (hslash : c ≠ '\\') (h : ¬c.toNat < 0x20) :
    spanString? (c :: cs) =
      (spanString? cs).map fun (units, rest) => (.char c :: units, rest) := by
  rw [spanString?, if_neg h]
  · exact hquote
  · intro a b c' d cs' hc
    exact absurd hc hslash
  · intro e cs' hc
    exact absurd hc hslash

/-- How the pieces of a string may be written: a character as it stands, by a letter, or any 16-bit
unit by four hexadecimal digits. -/
inductive StringText : List StringUnit → List Char → Prop where
  | nil : StringText [] []
  | plain {c : Char} {us : List StringUnit} {cs : List Char} (hquote : c ≠ '"') (hslash : c ≠ '\\')
      (h : ¬c.toNat < 0x20) (hcs : StringText us cs) : StringText (.char c :: us) (c :: cs)
  | letter {c e : Char} {us : List StringUnit} {cs : List Char} (h : unescape? e = some c)
      (hcs : StringText us cs) : StringText (.char c :: us) ('\\' :: e :: cs)
  | digits {a b c d : Char} {n : Nat} {us : List StringUnit} {cs : List Char}
      (h : hexValues? a b c d = some n) (hcs : StringText us cs) :
      StringText (.ofEscape n :: us) ('\\' :: 'u' :: a :: b :: c :: d :: cs)

/-- The pieces of a string are read up to the closing quotation mark. -/
theorem StringText.span {us : List StringUnit} {cs : List Char} (h : StringText us cs) :
    spanString? (cs ++ '"' :: rest) = some (us, rest) := by
  induction h with
  | nil => rw [List.nil_append, spanString?]
  | plain hquote hslash h _ ih =>
      rw [List.cons_append, spanString?_plain _ hquote hslash h, ih]
      rfl
  | letter h _ ih =>
      rw [List.cons_append, List.cons_append, spanString?_letter _ h, ih]
      rfl
  | digits h _ ih =>
      simp only [List.cons_append, spanString?, h, ih]
      rfl

/-- What is written for a text stands for its characters. -/
theorem stringText_escape (text : List Char) :
    StringText (text.map StringUnit.char) (text.flatMap escape) := by
  induction text with
  | nil => exact .nil
  | cons c text ih =>
      rw [List.map_cons, List.flatMap_cons]
      rcases escape_cases c with ⟨e, he, hc⟩ | ⟨hcontrol, hc⟩ | ⟨hquote, hslash, hplain, hc⟩
      · rw [hc]
        exact .letter he ih
      · rw [hc, ← ofEscape_control hcontrol]
        exact .digits (hexValues?_control hcontrol) ih
      · rw [hc]
        exact .plain hquote hslash hplain ih

theorem joinUnits?_chars (text : List Char) : joinUnits? (text.map StringUnit.char) = some text := by
  induction text with
  | nil => rfl
  | cons c text ih =>
      show (joinUnits? (text.map StringUnit.char)).map (c :: ·) = _
      rw [ih]
      rfl

end Strings

end FormulaBar.Json
