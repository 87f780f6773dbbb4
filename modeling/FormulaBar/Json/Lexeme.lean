import FormulaBar.Json.Value

/-!
# JSON lexemes

1. **Lexemes**: punctuation, the three words, number and string literals.
2. **Numbers**: the literal at the front of a text.
3. **Strings**: the literal at the front of a text, escapes undone. Only the four-digit escapes of
   surrogates that form no pair leave a string without a text.
4. **Lexing**: four blanks separate lexemes.
-/

namespace FormulaBar.Json

open FormulaBar.Text (Digit spanDigits spanSign length_spanDigits length_spanSign_le)

/-- A word of a JSON text. -/
inductive Lexeme where
  | openArray
  | closeArray
  | openObject
  | closeObject
  | comma
  | colon
  | null
  | bool (b : Bool)
  | number (n : Number)
  | string (s : StringValue)
deriving Repr, DecidableEq

/-! ## Numbers -/

/-- The whole part at the front of a text: zero alone, or digits that begin with another one. -/
def spanWhole? (cs : List Char) : Option (Nat × List Char) :=
  match spanDigits cs with
  | ([], _) => none
  | (d :: ds, rest) =>
    if d.val = 0 ∧ ds ≠ [] then none else some (Numeral.ofDigits (d :: ds), rest)

/-- The fraction at the front of a text: nothing, or a point and at least one digit. -/
def spanFraction? : List Char → Option (List Digit × List Char)
  | '.' :: cs =>
    match spanDigits cs with
    | ([], _) => none
    | (d :: ds, rest) => some (d :: ds, rest)
  | cs => some ([], cs)

/-- The exponent after its mark: an optional sign and at least one digit. -/
def spanExponentDigits? (cs : List Char) : Option (Int × List Char) :=
  match spanDigits (spanSign cs).2 with
  | ([], _) => none
  | (d :: ds, rest) =>
    let n : Int := Numeral.ofDigits (d :: ds)
    some (if (spanSign cs).1 then -n else n, rest)

/-- The exponent at the front of a text: nothing, or a mark and what follows it. -/
def spanExponent? (cs : List Char) : Option (Option Int × List Char) :=
  match cs with
  | 'e' :: rest => (spanExponentDigits? rest).map fun (e, rest) => (some e, rest)
  | 'E' :: rest => (spanExponentDigits? rest).map fun (e, rest) => (some e, rest)
  | cs => some (none, cs)

/-- The number literal at the front of a text whose sign has been taken off. -/
def spanUnsigned? (negative : Bool) (cs : List Char) : Option (Number × List Char) := do
  let (whole, cs) ← spanWhole? cs
  let (fraction, cs) ← spanFraction? cs
  let (exponent, cs) ← spanExponent? cs
  return (⟨negative, whole, fraction, exponent⟩, cs)

/-- The number literal at the front of a text. -/
def spanNumber? : List Char → Option (Number × List Char)
  | '-' :: cs => spanUnsigned? true cs
  | cs => spanUnsigned? false cs

/-! ## Strings -/

/-- The value of a hexadecimal digit. -/
def hexValue? (c : Char) : Option Nat :=
  let n := c.toNat
  if 48 ≤ n ∧ n < 58 then some (n - 48)
  else if 97 ≤ n ∧ n < 103 then some (n - 87)
  else if 65 ≤ n ∧ n < 71 then some (n - 55)
  else none

/-- The value of four hexadecimal digits. -/
def hexValues? (a b c d : Char) : Option Nat := do
  let a ← hexValue? a
  let b ← hexValue? b
  let c ← hexValue? c
  let d ← hexValue? d
  return ((a * 16 + b) * 16 + c) * 16 + d

/-- The character of a one-letter escape. -/
def unescape? : Char → Option Char
  | '"' => some '"'
  | '\\' => some '\\'
  | '/' => some '/'
  | 'b' => some '\x08'
  | 'f' => some '\x0c'
  | 'n' => some '\n'
  | 'r' => some '\r'
  | 't' => some '\t'
  | _ => none

/-- Whether a 16-bit unit is the first half of a surrogate pair. -/
def isHighSurrogate (n : Nat) : Bool := decide (0xD800 ≤ n ∧ n < 0xDC00)

/-- Whether a 16-bit unit is the second half of a surrogate pair. -/
def isLowSurrogate (n : Nat) : Bool := decide (0xDC00 ≤ n ∧ n < 0xE000)

/-- The character that a surrogate pair stands for. -/
def joinSurrogates (high low : Nat) : Char :=
  Char.ofNat (0x10000 + (high - 0xD800) * 0x400 + (low - 0xDC00))

/-- A piece of a string literal: a character, or half of a surrogate pair. -/
inductive StringUnit where
  | char (c : Char)
  | half (n : Nat)
deriving Repr, DecidableEq

/-- The piece that a four-digit escape stands for. -/
def StringUnit.ofEscape (n : Nat) : StringUnit :=
  if isHighSurrogate n || isLowSurrogate n then .half n else .char (Char.ofNat n)

/-- The pieces of a string literal whose opening quotation mark has been taken off, and what follows
the closing one. -/
def spanString? : List Char → Option (List StringUnit × List Char)
  | [] => none
  | '"' :: cs => some ([], cs)
  | '\\' :: 'u' :: a :: b :: c :: d :: cs =>
    match hexValues? a b c d with
    | none => none
    | some n => (spanString? cs).map fun (units, rest) => (.ofEscape n :: units, rest)
  | '\\' :: e :: cs =>
    match unescape? e with
    | none => none
    | some c => (spanString? cs).map fun (units, rest) => (.char c :: units, rest)
  | c :: cs =>
    if c.toNat < 0x20 then none
    else (spanString? cs).map fun (units, rest) => (.char c :: units, rest)

/-- The text of the pieces: adjacent halves are joined, and a half that has no partner leaves no
text. -/
def joinUnits? : List StringUnit → Option (List Char)
  | [] => some []
  | .char c :: us => (joinUnits? us).map (c :: ·)
  | .half high :: .half low :: us =>
    if isHighSurrogate high && isLowSurrogate low then
      (joinUnits? us).map (joinSurrogates high low :: ·)
    else none
  | .half _ :: _ => none

/-! ## Lexing -/

/-- The blanks between lexemes. -/
def isBlank (c : Char) : Bool := c == ' ' || c == '\t' || c == '\n' || c == '\r'

/-- The lexeme at the front of a text, and what follows it. -/
def next? : List Char → Option (Lexeme × List Char)
  | '[' :: cs => some (.openArray, cs)
  | ']' :: cs => some (.closeArray, cs)
  | '{' :: cs => some (.openObject, cs)
  | '}' :: cs => some (.closeObject, cs)
  | ',' :: cs => some (.comma, cs)
  | ':' :: cs => some (.colon, cs)
  | 'n' :: 'u' :: 'l' :: 'l' :: cs => some (.null, cs)
  | 't' :: 'r' :: 'u' :: 'e' :: cs => some (.bool true, cs)
  | 'f' :: 'a' :: 'l' :: 's' :: 'e' :: cs => some (.bool false, cs)
  | '"' :: cs =>
    (spanString? cs).map fun (units, rest) =>
      (.string ((joinUnits? units).map String.ofList), rest)
  | cs => (spanNumber? cs).map fun (n, rest) => (.number n, rest)

theorem length_spanWhole?_lt {cs rest : List Char} {n : Nat}
    (h : spanWhole? cs = some (n, rest)) : rest.length < cs.length := by
  have hlen := length_spanDigits cs
  unfold spanWhole? at h
  split at h
  · cases h
  · next d ds r hd =>
    rw [hd] at hlen
    split at h
    · cases h
    · cases h
      simp only [List.length_cons] at hlen
      omega

theorem length_spanFraction?_le {cs rest : List Char} {ds : List Digit}
    (h : spanFraction? cs = some (ds, rest)) : rest.length ≤ cs.length := by
  unfold spanFraction? at h
  split at h
  · next cs =>
    have hlen := length_spanDigits cs
    split at h
    · cases h
    · next hd =>
      rw [hd] at hlen
      cases h
      simp only [List.length_cons] at hlen ⊢
      omega
  · cases h
    exact Nat.le_refl _

theorem length_spanExponentDigits?_le {cs rest : List Char} {e : Int}
    (h : spanExponentDigits? cs = some (e, rest)) : rest.length ≤ cs.length := by
  have hsign := length_spanSign_le cs
  have hlen := length_spanDigits (spanSign cs).2
  unfold spanExponentDigits? at h
  split at h
  · cases h
  · next hd =>
    rw [hd] at hlen
    cases h
    simp only at hlen
    omega

theorem length_spanExponent?_le {cs rest : List Char} {e : Option Int}
    (h : spanExponent? cs = some (e, rest)) : rest.length ≤ cs.length := by
  unfold spanExponent? at h
  split at h
  · obtain ⟨⟨n, r⟩, hn, he⟩ := Option.map_eq_some_iff.1 h
    cases he
    exact Nat.le_succ_of_le (length_spanExponentDigits?_le hn)
  · obtain ⟨⟨n, r⟩, hn, he⟩ := Option.map_eq_some_iff.1 h
    cases he
    exact Nat.le_succ_of_le (length_spanExponentDigits?_le hn)
  · cases h
    exact Nat.le_refl _

theorem length_spanUnsigned?_lt {negative : Bool} {cs rest : List Char} {n : Number}
    (h : spanUnsigned? negative cs = some (n, rest)) : rest.length < cs.length := by
  simp only [spanUnsigned?, Option.bind_eq_bind, Option.bind_eq_some_iff] at h
  obtain ⟨⟨w, r₁⟩, hw, ⟨f, r₂⟩, hf, ⟨e, r₃⟩, he, hr⟩ := h
  cases hr
  have h₁ := length_spanWhole?_lt hw
  have h₂ := length_spanFraction?_le hf
  have h₃ := length_spanExponent?_le he
  simp only at h₁ h₂ h₃ ⊢
  omega

theorem length_spanNumber?_lt {cs rest : List Char} {n : Number}
    (h : spanNumber? cs = some (n, rest)) : rest.length < cs.length := by
  unfold spanNumber? at h
  split at h
  · exact Nat.lt_succ_of_lt (length_spanUnsigned?_lt h)
  · exact length_spanUnsigned?_lt h

theorem length_spanString?_lt {cs rest : List Char} {us : List StringUnit}
    (h : spanString? cs = some (us, rest)) : rest.length < cs.length := by
  fun_induction spanString? cs generalizing us with
  | case1 => cases h
  | case2 => cases h; simp
  | case3 => cases h
  | case4 a b c d cs n hn ih =>
    obtain ⟨⟨us', r⟩, hr, he⟩ := Option.map_eq_some_iff.1 h
    cases he
    have := ih hr
    simp only [List.length_cons]
    omega
  | case5 => cases h
  | case6 e cs hu c hc ih =>
    obtain ⟨⟨us', r⟩, hr, he⟩ := Option.map_eq_some_iff.1 h
    cases he
    have := ih hr
    simp only [List.length_cons]
    omega
  | case7 => cases h
  | case8 c cs h₁ h₂ h₃ hc ih =>
    obtain ⟨⟨us', r⟩, hr, he⟩ := Option.map_eq_some_iff.1 h
    cases he
    have := ih hr
    simp only [List.length_cons]
    omega

/-- A lexeme takes at least one character. -/
theorem length_next?_lt {cs rest : List Char} {t : Lexeme} (h : next? cs = some (t, rest)) :
    rest.length < cs.length := by
  unfold next? at h
  split at h
  case h_10 =>
    obtain ⟨⟨us, r⟩, hr, he⟩ := Option.map_eq_some_iff.1 h
    cases he
    exact Nat.lt_succ_of_lt (length_spanString?_lt hr)
  case h_11 =>
    obtain ⟨⟨n, r⟩, hr, he⟩ := Option.map_eq_some_iff.1 h
    cases he
    exact length_spanNumber?_lt hr
  all_goals
    cases h
    simp only [List.length_cons]
    omega

/-- The lexemes of a text. -/
def lexemes? : List Char → Option (List Lexeme)
  | [] => some []
  | c :: cs =>
    if isBlank c then lexemes? cs
    else
      match _h : next? (c :: cs) with
      | none => none
      | some (t, rest) => (lexemes? rest).map (t :: ·)
termination_by cs => cs.length
decreasing_by
  · simp
  · exact length_next?_lt _h

end FormulaBar.Json
