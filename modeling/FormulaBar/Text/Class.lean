/-!
# Character classes of typed text

1. **Blank**: the Unicode property `White_Space`, which separates lexemes and is trimmed from the
   ends of typed text.
2. **Control**: the general category `Cc`, which never enters a text buffer.
3. **Digit**: the ten ASCII digits, as numbers below ten.
4. **Sign**: a plus or minus at the front of a numeral.
-/

namespace FormulaBar.Text

/-! ## Blank -/

/-- The characters with the Unicode property `White_Space`. -/
def isBlank (c : Char) : Bool :=
  let n := c.toNat
  (9 ≤ n && n ≤ 13) || n == 0x20 || n == 0x85 || n == 0xA0 || n == 0x1680 ||
    (0x2000 ≤ n && n ≤ 0x200A) || n == 0x2028 || n == 0x2029 || n == 0x202F ||
    n == 0x205F || n == 0x3000

/-- Drops the blanks at both ends. -/
def trimChars (cs : List Char) : List Char :=
  ((cs.dropWhile isBlank).reverse.dropWhile isBlank).reverse

/-- Drops the blanks at both ends of a text. -/
def trim (s : String) : String := String.ofList (trimChars s.toList)

/-! ## Control -/

/-- The characters of general category `Cc`. -/
def isControl (c : Char) : Bool :=
  c.toNat < 0x20 || (0x7F ≤ c.toNat && c.toNat ≤ 0x9F)

/-! ## Digit -/

/-- A decimal digit. -/
abbrev Digit := Fin 10

/-- The ASCII character of a digit. -/
def Digit.toChar (d : Digit) : Char := Char.ofNat (48 + d.val)

/-- The digit that an ASCII character stands for. -/
def digit? (c : Char) : Option Digit :=
  if h : 48 ≤ c.toNat ∧ c.toNat < 58 then some ⟨c.toNat - 48, by omega⟩ else none

/-- Whether a character is an ASCII digit. -/
def isDigit (c : Char) : Bool := (digit? c).isSome

/-- The digits at the front of a text, and what follows them. -/
def spanDigits : List Char → List Digit × List Char
  | [] => ([], [])
  | c :: cs =>
    match digit? c with
    | some d => (d :: (spanDigits cs).1, (spanDigits cs).2)
    | none => ([], c :: cs)

theorem digit?_toChar (d : Digit) : digit? d.toChar = some d := by
  revert d; decide

/-- Every character is either among the digits taken or left. -/
theorem length_spanDigits (cs : List Char) :
    (spanDigits cs).1.length + (spanDigits cs).2.length = cs.length := by
  induction cs with
  | nil => rfl
  | cons c cs ih =>
    simp only [spanDigits]
    cases digit? c with
    | none => simp
    | some d => simp only [List.length_cons]; omega

/-! ## Sign -/

/-- Takes one sign off the front of a text, and says whether it is a minus. -/
def spanSign : List Char → Bool × List Char
  | '-' :: cs => (true, cs)
  | '+' :: cs => (false, cs)
  | cs => (false, cs)

theorem length_spanSign_le (cs : List Char) : (spanSign cs).2.length ≤ cs.length := by
  unfold spanSign
  split <;> simp

end FormulaBar.Text
