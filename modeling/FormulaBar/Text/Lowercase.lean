import FormulaBar.Text.CaseTable

/-!
# Lowercase

1. **Characters**: the lowercase form of a letter, which is two characters for a capital I with a
   dot.
2. **Sigma**: a capital sigma at the end of a word has a form of its own.
3. **Texts**: every character in turn, sigmas by their context.
4. **Containment** of one text in another.
-/

namespace FormulaBar.Text

/-! ## Characters -/

/-- Whether a run holds a character. -/
def CaseRun.has (r : CaseRun) (n : Nat) : Bool :=
  decide (r.first ≤ n) && decide (n ≤ r.last) && (n - r.first) % r.step == 0

/-- The lowercase form of a character whose form does not depend on the context. -/
def lowerChar (c : Char) : List Char :=
  let n := c.toNat
  if n < 0x80 then [c.toLower]
  else if n = 0x130 then ['i', '\u0307']
  else
    match caseRuns.find? fun r => r.has n with
    | some r => [Char.ofNat (n + r.shift).toNat]
    | none => [c]

/-! ## Sigma -/

/-- Whether a character lies in one of some ranges. -/
def inRanges (ranges : List (Nat × Nat)) (c : Char) : Bool :=
  ranges.any fun range => decide (range.1 ≤ c.toNat) && decide (c.toNat ≤ range.2)

/-- Whether the first character that is not ignorable for case is a cased one. -/
def meetsCased (cs : List Char) : Bool :=
  match cs.dropWhile (inRanges caseIgnorableRanges) with
  | c :: _ => inRanges casedRanges c
  | [] => false

/-- The lowercase form of a sigma after the characters `before`, nearest first, and in front of
`after`: final if it ends a word. -/
def lowerSigma (before after : List Char) : Char :=
  if meetsCased before && !meetsCased after then 'ς' else 'σ'

/-! ## Texts -/

/-- The lowercase form of `cs` after the characters `before`, nearest first. -/
def lowerFrom (before : List Char) : List Char → List Char
  | [] => []
  | c :: cs =>
    if c = 'Σ' then lowerSigma before cs :: lowerFrom (c :: before) cs
    else lowerChar c ++ lowerFrom (c :: before) cs

/-- The lowercase form of a text. -/
def lower (cs : List Char) : List Char := lowerFrom [] cs

/-! ## Containment -/

/-- Whether `part` occurs in a text without a break. -/
def contains (part : List Char) : List Char → Bool
  | [] => part.isEmpty
  | c :: cs => part.isPrefixOf (c :: cs) || contains part cs

end FormulaBar.Text
