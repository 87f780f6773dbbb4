import FormulaBar.Proofs.Formula.Rendering
import FormulaBar.Proofs.Text.Lines
import Mathlib.Data.List.Chain

/-!
# Formulas that are written by hand

A formula is written as a row of operators and typed numbers. Its text needs no spaces, as long as
no number stands beside another one, and has the lexemes of the stream that the row stands for.

1. **Typed numbers** are decimals between blanks.
2. **Items** of a row, with their characters and their contents.
3. **Lexing** a row.
4. **Evaluation**: the text of a row has the value of its stream.
-/

namespace FormulaBar.Formula

open FormulaBar.Text (isBlank isControl trimChars exists_trimChars spanSign)
open FormulaBar.Numeral (Decimal isNegative isFinite_iff index_ofIndex isNegative_ofIndex
  infinityIndex toIndex_le)

/-! ## Typed numbers -/

/-- A finite number is written as a decimal behind its sign, not as a word. -/
theorem exists_decimal {negative : Bool} {cs : List Char} {v : Float}
    (h : Numeral.ofUnsigned? negative cs = some v) (hv : v.isFinite = true) :
    ∃ d, Decimal.ofChars? cs = some d ∧ d.toFloat negative = v := by
  unfold Numeral.ofUnsigned? at h
  split at h
  · -- the word for infinity
    cases h
    rw [isFinite_iff, index_ofIndex negative (Nat.le_refl _)] at hv
    exact absurd hv (Nat.lt_irrefl _)
  · split at h
    · -- the word for what is not a number
      cases h
      exact absurd hv (by decide)
    · exact Option.map_eq_some_iff.mp h

theorem spanSign_of_not_operator {cs : List Char} (h : ∀ c ∈ cs, Operator.ofChar? c = none) :
    spanSign cs = (false, cs) := by
  cases cs with
  | nil => rfl
  | cons c cs =>
      have hc := h c List.mem_cons_self
      refine spanSign_of_ne ?_ ?_ cs
      · rintro rfl
        cases hc
      · rintro rfl
        cases hc

/-! ## Items -/

/-- A number that can be typed: a text without operators and control characters that is read as a
finite number. -/
structure Literal where
  text : String
  value : Float
  typed : Numeral.typed? text = some value
  plain : ∀ c ∈ text.toList, Operator.ofChar? c = none ∧ isControl c = false

namespace Literal

theorem finite (l : Literal) : l.value.isFinite = true :=
  (Option.filter_eq_some_iff.mp l.typed).2

/-- A typed number is a decimal between blanks. -/
theorem exists_core (l : Literal) :
    ∃ front core back d, l.text.toList = front ++ (core ++ back) ∧
      (∀ c ∈ front, isBlank c = true) ∧ (∀ c ∈ back, isBlank c = true) ∧
      Decimal.ofChars? core = some d ∧ d.toFloat false = l.value := by
  obtain ⟨front, back, htext, hfront, hback⟩ := exists_trimChars l.text.toList
  have hread : Numeral.ofChars? (trimChars l.text.toList) = some l.value :=
    (Option.filter_eq_some_iff.mp l.typed).1
  have hplain : ∀ c ∈ trimChars l.text.toList, Operator.ofChar? c = none := by
    intro c hc
    refine (l.plain c ?_).1
    rw [htext]
    exact List.mem_append_right _ (List.mem_append_left _ hc)
  rw [Numeral.ofChars?, spanSign_of_not_operator hplain] at hread
  obtain ⟨d, hd, hvalue⟩ := exists_decimal hread l.finite
  exact ⟨front, _, back, d, htext, hfront, hback, hd, hvalue⟩

theorem not_negative (l : Literal) : isNegative l.value = false := by
  obtain ⟨-, -, -, d, -, -, -, -, hvalue⟩ := l.exists_core
  rw [← hvalue]
  exact isNegative_ofIndex false (toIndex_le d)

/-- There is more to a typed number than blanks. -/
theorem trim_not_empty (l : Literal) : (Text.trim l.text).isEmpty = false := by
  cases hempty : (Text.trim l.text).isEmpty with
  | false => rfl
  | true =>
      have hchars : trimChars l.text.toList = [] := by
        have htoList := congrArg String.toList (String.isEmpty_iff.mp hempty)
        rwa [Text.trim, String.toList_ofList] at htoList
      have htyped := l.typed
      rw [Numeral.typed?, hchars] at htyped
      cases htyped

/-- A typed number is one lexeme. -/
theorem lex_append (l : Literal) {rest : List Char} (hrest : Boundary rest) :
    lex (l.text.toList ++ rest) = (lex rest).map (.number l.value :: ·) := by
  obtain ⟨front, core, back, d, htext, hfront, hback, hd, hvalue⟩ := l.exists_core
  have hboundary : Boundary (back ++ rest) := by
    cases back with
    | nil => exact hrest
    | cons c back => exact boundary_blank (hback c List.mem_cons_self) _
  rw [htext, List.append_assoc, List.append_assoc, lex_blanks hfront, lex_literal hd hboundary,
    lex_blanks hback, hvalue]

end Literal

/-- A piece of a formula that is written by hand. -/
inductive Item where
  | operator (op : Operator)
  | literal (l : Literal)

namespace Item

/-- What is typed for an item. -/
def chars : Item → List Char
  | .operator op => [op.glyph]
  | .literal l => l.text.toList

/-- What an item stands for. -/
def content : Item → Content
  | .operator op => .operator op
  | .literal l => .number (Text.trim l.text) l.value

/-- Two items can stand side by side, which two numbers cannot. -/
def Separate : Item → Item → Prop
  | .literal _, .literal _ => False
  | _, _ => True

theorem finite (item : Item) : item.content.value.isFinite = true := by
  cases item with
  | operator op => exact (by decide : (0 : Float).isFinite = true)
  | literal l => exact l.finite

end Item

/-! ## Lexing -/

variable {w : List Item}

/-- A row of items is lexed into what its contents stand for. -/
theorem lex_items (hw : w.IsChain Item.Separate) :
    lex (w.flatMap Item.chars) = .ok (w.flatMap fun item => lexemes item.content) := by
  induction w with
  | nil => exact lex_nil
  | cons item w ih =>
      have htail := ih hw.tail
      rw [List.flatMap_cons, List.flatMap_cons]
      cases item with
      | operator op =>
          refine (lex_operator op _).trans ?_
          rw [List.append_eq, List.nil_append, htail]
          rfl
      | literal l =>
          have hboundary : Boundary (w.flatMap Item.chars) := by
            cases w with
            | nil => exact boundary_nil
            | cons next w =>
                cases next with
                | operator op => exact boundary_operator op _
                | literal l' => exact absurd (List.isChain_cons_cons.mp hw).1 id
          have hlexemes : lexemes (Item.literal l).content = [.number l.value] := by
            show (if isNegative l.value then _ else _) = _
            rw [l.not_negative]
            rfl
          rw [hlexemes]
          refine (l.lex_append hboundary).trans ?_
          rw [htail]
          rfl

/-! ## Evaluation -/

/-- The text of a row has the value of the stream that it stands for. -/
theorem evaluate_items (hw : w.IsChain Item.Separate) (hne : w ≠ []) {tokens : List Token}
    (htokens : tokens.map Token.content = w.map Item.content) :
    evaluate tokens = .ofExcept (evaluateText (String.ofList (w.flatMap Item.chars))) := by
  have hfinite : ∀ t ∈ tokens, t.content.value.isFinite = true := by
    intro t ht
    have hmem : t.content ∈ w.map Item.content := htokens ▸ List.mem_map_of_mem ht
    obtain ⟨item, -, hitem⟩ := List.mem_map.mp hmem
    rw [← hitem]
    exact item.finite
  have hterms : (tokens.flatMap fun t => lexemes t.content) =
      w.flatMap fun item => lexemes item.content := by
    have hmaps := congrArg (List.flatMap lexemes) htokens
    rwa [List.flatMap_map, List.flatMap_map] at hmaps
  have hlex : lex (infixChars tokens) = lex (w.flatMap Item.chars) := by
    rw [lex_infixChars hfinite, lex_items hw, hterms]
  have hvalue : evaluateChars (infixChars tokens) = evaluateChars (w.flatMap Item.chars) := by
    simp only [evaluateChars, parseChars, hlex]
  rw [evaluateText, String.toList_ofList, ← hvalue]
  cases tokens with
  | nil =>
      -- a row that is not empty stands for some token
      exact absurd (List.map_eq_nil_iff.mp htokens.symm) hne
  | cons t ts => rfl

end FormulaBar.Formula
