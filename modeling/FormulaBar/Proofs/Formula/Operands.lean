import FormulaBar.Proofs.Formula.SignedValues

/-!
# Values as operands

What the text of a stream makes of its values. A value without a sign bit is one operand and
nothing else, so that no operand can precede it. A value with one is a sign and an operand: apart
from operands and from `^` that makes no difference, but behind an operand it is subtracted, and
before `^` the power is taken of the number without its sign.

1. **Neighbours**: no phrase has two numbers in a row.
2. **Results** of rows of lexemes.
3. **Powers** of single values.
4. **Streams**.
-/

namespace FormulaBar.Formula

open FormulaBar.Numeral (isNegative)

/-! ## Neighbours -/

/-- Whether a lexeme is a number. -/
def Lexeme.isNumber : Lexeme → Bool
  | .number _ => true
  | .operator _ => false

/-- No two numbers stand next to each other. -/
def Scattered (ts : List Lexeme) : Prop :=
  ts.IsChain fun t u => ¬(t.isNumber = true ∧ u.isNumber = true)

section Scattered

variable {us vs : List Lexeme}

theorem Scattered.cons_operator (h : Scattered us) (op : Operator) :
    Scattered (.operator op :: us) := by
  refine List.isChain_cons.mpr ⟨?_, h⟩
  rintro t - ⟨hop, -⟩
  cases hop

theorem Scattered.append (hus : Scattered us) (hvs : Scattered vs)
    (hhead : ∀ t ∈ vs.head?, t.isNumber = false) : Scattered (us ++ vs) := by
  refine List.isChain_append.mpr ⟨hus, hvs, ?_⟩
  rintro t - u hu ⟨-, hnumber⟩
  rw [hhead u hu] at hnumber
  cases hnumber

theorem Scattered.signs (h : Scattered us) (ss : List Sign) :
    Scattered (ss.map Sign.lexeme ++ us) := by
  induction ss with
  | nil => exact h
  | cons s ss ih => exact ih.cons_operator s.operator

/-- What may follow an operand begins with an operator. -/
theorem Derivation.rest_head {l : Level} {ts : List Lexeme} (d : Derivation (.rest l) ts) :
    ∀ t ∈ ts.head?, t.isNumber = false := by
  intro t ht
  cases d with
  | noTerm | noFactor => cases ht
  | term | factor | adjacent =>
      cases ht
      rfl

theorem Derivation.scattered {c : Category} {ts : List Lexeme} (d : Derivation c ts) :
    Scattered ts := by
  induction d with
  | sum first more ih₁ ih₂ | product first more ih₁ ih₂ => exact ih₁.append ih₂ more.rest_head
  | noTerm | noFactor => exact .nil
  | term s next more ih₁ ih₂ => exact (ih₁.append ih₂ more.rest_head).cons_operator s.operator
  | factor s next more ih₁ ih₂ => exact (ih₁.append ih₂ more.rest_head).cons_operator s.operator
  | adjacent next more ih₁ ih₂ => exact ih₁.append ih₂ more.rest_head
  | unary signs operand ih => exact ih.signs signs
  | plain base ih => exact ih
  | raised base exponent ih₁ ih₂ =>
      refine ih₁.append (ih₂.cons_operator .pow) ?_
      rintro t ⟨⟩
      rfl
  | number v => exact .singleton _
  | group body ih =>
      refine Scattered.cons_operator (ih.append (.singleton _) ?_) .lparen
      rintro t ⟨⟩
      rfl

end Scattered

/-! ## Results -/

/-- The result of a row of lexemes. An empty row has none. -/
def rowResult (row : List Lexeme) : Evaluation :=
  match row with
  | [] => .blank
  | _ => .ofExcept (parseLexemes row >>= Tree.eval)

/-- A result without the position that a fault names. -/
def Evaluation.unplaced : Evaluation → Evaluation
  | .invalid cause => .invalid cause.unplaced
  | result => result

section Results

variable {tokens : List Token}

theorem rowResult_of_ne_nil {row : List Lexeme} (h : row ≠ []) :
    rowResult row = .ofExcept (parseLexemes row >>= Tree.eval) := by
  cases row with
  | nil => exact absurd rfl h
  | cons t ts => rfl

theorem unplaced_ofExcept (x : Except Error Float) :
    (Evaluation.ofExcept x).unplaced = .ofExcept (x.mapError Error.unplaced) := by
  cases x <;> rfl

theorem evaluate_eq_rowResult (h : ∀ t ∈ tokens, t.content.value.isFinite = true) :
    evaluate tokens = rowResult ((tokens.map Token.content).flatMap lexemes) := by
  cases tokens with
  | nil => rfl
  | cons t ts =>
      have hlength := length_le_length_flatMap ((t :: ts).map Token.content)
      have hne : ((t :: ts).map Token.content).flatMap lexemes ≠ [] :=
        List.ne_nil_of_length_pos (Nat.lt_of_lt_of_le (Nat.succ_pos _) hlength)
      rw [rowResult_of_ne_nil hne, List.flatMap_map]
      show Evaluation.ofExcept (evaluateChars (infixChars (t :: ts))) = _
      rw [evaluateChars, parseChars, lex_infixChars h]
      rfl

/-- Where negative values stand apart, both readings have one result. -/
theorem unplaced_rowResult {contents : List Content} (h : Apart contents)
    (hlength : (contents.flatMap lexemes).length ≤ maxLexemes) :
    (rowResult (contents.flatMap lexemes)).unplaced =
      (rowResult (contents.map operand)).unplaced := by
  cases contents with
  | nil => rfl
  | cons content contents =>
      have hpos := length_le_length_flatMap (content :: contents)
      have hne : (content :: contents).flatMap lexemes ≠ [] :=
        List.ne_nil_of_length_pos (Nat.lt_of_lt_of_le (Nat.succ_pos _) hpos)
      have hne' : (content :: contents).map operand ≠ [] := List.cons_ne_nil _ _
      rw [rowResult_of_ne_nil hne, rowResult_of_ne_nil hne', unplaced_ofExcept, unplaced_ofExcept,
        parseLexemes_twin h hlength]

/-- A row in which two numbers stand next to each other has no value. -/
theorem rowResult_isInvalid {us vs : List Lexeme} (v w : Float) :
    (rowResult (us ++ .number v :: .number w :: vs)).isInvalid = true := by
  have hne : us ++ .number v :: .number w :: vs ≠ [] :=
    List.append_ne_nil_of_right_ne_nil us (List.cons_ne_nil _ _)
  rw [rowResult_of_ne_nil hne]
  cases hparse : parseLexemes (us ++ .number v :: .number w :: vs) with
  | error e => rfl
  | ok tree =>
      obtain ⟨-, -, d, -, -⟩ := parseLexemes_eq_ok_iff.mp hparse
      have hnot := (List.isChain_append_cons_cons.mp d.scattered).2.1
      exact absurd ⟨rfl, rfl⟩ hnot

end Results

/-! ## Powers -/

/-- One value raised to another. A sign bit of the base stays outside of the power. -/
def raise (base exponent : Float) : Except Error Float :=
  if isNegative base then (finite ((-base).pow exponent)).map (- ·) else finite (base.pow exponent)

section Powers

variable {base exponent content : Content}

/-- A value is read as a number, or as a number behind its sign. -/
theorem lexemes_of_value (h : content.operator? = none) :
    lexemes content =
      if isNegative content.value then [.operator .sub, .number (-content.value)]
      else [.number content.value] := by
  rw [lexemes, h]

theorem eval_pow {left right : Tree} {v w : Float} (hleft : left.eval = .ok v)
    (hright : right.eval = .ok w) : (Tree.binary .pow left right).eval = finite (v.pow w) := by
  rw [Tree.eval, hleft, hright]
  rfl

theorem rowResult_power (hbase : base.operator? = none) (hexponent : exponent.operator? = none)
    (hv : base.value.isFinite = true) (hw : exponent.value.isFinite = true) :
    rowResult (lexemes base ++ caret :: lexemes exponent) =
      .ofExcept (raise base.value exponent.value) := by
  have hnumber : ∀ {v : Float}, v.isFinite = true → (Tree.number v).eval = .ok v :=
    fun hfinite => if_pos hfinite
  have hnegative : ∀ {v : Float}, v.isFinite = true → (Tree.neg (.number (-v))).eval = .ok v := by
    intro v hfinite
    rw [Tree.eval, hnumber (Numeral.isFinite_neg hfinite), Except.map,
      Numeral.neg_neg_of_finite hfinite]
  rw [lexemes_of_value hbase, lexemes_of_value hexponent, raise]
  cases isNegative base.value with
  | false =>
      cases isNegative exponent.value with
      | false => exact congrArg Evaluation.ofExcept (eval_pow (hnumber hv) (hnumber hw))
      | true => exact congrArg Evaluation.ofExcept (eval_pow (hnumber hv) (hnegative hw))
  | true =>
      have hv := Numeral.isFinite_neg hv
      cases isNegative exponent.value with
      | false =>
          exact congrArg (fun x => Evaluation.ofExcept (x.map (- ·)))
            (eval_pow (hnumber hv) (hnumber hw))
      | true =>
          exact congrArg (fun x => Evaluation.ofExcept (x.map (- ·)))
            (eval_pow (hnumber hv) (hnegative hw))

end Powers

/-! ## Streams -/

/-- What a stream of finite values makes of them.

A value whose sign bit is clear is read as one number, one whose sign bit is set as a minus sign and
a number. So a stream without sign bits is read token by token, and so is one in which negative
values stand apart from operands in front of them and from `^` behind them, as long as their signs
do not make it too long and but for the positions that faults name. Behind a value, a value
without a sign bit makes a stream invalid. A value is itself raised to a power if its sign bit is
clear; otherwise the power of its negation is negated. -/
theorem evaluate_operands (tokens : List Token)
    (hfinite : ∀ t ∈ tokens, t.content.value.isFinite = true) :
    let contents := tokens.map Token.content
    evaluate tokens = rowResult (contents.flatMap lexemes) ∧
    ((∀ content ∈ contents, isNegative content.value = false) →
      evaluate tokens = rowResult (contents.map operand)) ∧
    (contents.IsChain Fits →
      contents.length + contents.countP (fun content => isNegative content.value) ≤ maxLexemes →
      (evaluate tokens).unplaced = (rowResult (contents.map operand)).unplaced) ∧
    (∀ before first second after, contents = before ++ first :: second :: after →
      first.operator? = none → second.operator? = none → isNegative second.value = false →
      (evaluate tokens).isInvalid = true) ∧
    ∀ base exponent, contents = [base, .operator .pow, exponent] →
      base.operator? = none → exponent.operator? = none →
      evaluate tokens = .ofExcept (raise base.value exponent.value) := by
  intro contents
  have hread : evaluate tokens = rowResult (contents.flatMap lexemes) :=
    evaluate_eq_rowResult hfinite
  have hvalues : ∀ content ∈ contents, content.value.isFinite = true :=
    List.forall_mem_map.mpr hfinite
  refine ⟨hread, ?_, ?_, ?_, ?_⟩
  · intro hclear
    have hrow : contents.flatMap lexemes = contents.map operand := by
      rw [List.map_eq_flatMap]
      exact List.flatMap_congr fun content hmem => lexemes_of_not_negative (hclear content hmem)
    rw [hread, hrow]
  · intro hchain hlength
    have hlexemes : (contents.flatMap lexemes).length =
        contents.length + contents.countP fun content => isNegative content.value := by
      rw [List.flatMap_map, length_lexemes, List.length_map, List.countP_map]
      rfl
    rw [← hlexemes] at hlength
    rw [hread]
    exact unplaced_rowResult ⟨hvalues, hchain⟩ hlength
  · intro before first second after hcontents hfirst hsecond hclear
    obtain ⟨us, v, hus⟩ : ∃ us v, lexemes first = us ++ [.number v] := by
      rw [lexemes_of_value hfirst]
      split
      · exact ⟨[.operator .sub], _, rfl⟩
      · exact ⟨[], _, rfl⟩
    have hrow : contents.flatMap lexemes = (before.flatMap lexemes ++ us) ++
        .number v :: .number second.value :: after.flatMap lexemes := by
      rw [hcontents, List.flatMap_append, List.flatMap_cons, List.flatMap_cons, hus,
        lexemes_of_value hsecond, hclear]
      simp
    rw [hread, hrow]
    exact rowResult_isInvalid v second.value
  · intro base exponent hcontents hbase hexponent
    have hrow : contents.flatMap lexemes = lexemes base ++ caret :: lexemes exponent := by
      rw [hcontents, List.flatMap_cons, List.flatMap_cons, List.flatMap_singleton]
      rfl
    rw [hread, hrow]
    exact rowResult_power hbase hexponent (hvalues base (by simp [hcontents]))
      (hvalues exponent (by simp [hcontents]))

/-- A debt behind a minus sign is one operand. -/
theorem evaluate_minus_debt :
    let two : Token := ⟨⟨1⟩, .ofValue 2⟩
    let minus : Token := ⟨⟨2⟩, .operator .sub⟩
    let debt : Token := ⟨⟨3⟩, .variable "debt" "finance" (-3) "d"⟩
    (evaluate [two, minus, debt]).unplaced = .value 5 := by
  intro two minus debt
  have hchain : [two.content, minus.content, debt.content].IsChain Fits := by
    have hfirst : Fits two.content minus.content := ⟨by decide, by decide⟩
    have hsecond : Fits minus.content debt.content := ⟨by decide, by decide⟩
    exact .cons_cons hfirst (.cons_cons hsecond (.singleton _))
  rw [(evaluate_operands [two, minus, debt] (by decide)).2.2.1 hchain (by decide)]
  decide +kernel

/-- A debt behind a number is not: it is subtracted, where two operands in a row would be a
fault. In front of a number it makes one, but its sign counts for the position. -/
theorem evaluate_neighbouring_debt :
    let three : Token := ⟨⟨1⟩, .ofValue 3⟩
    let debt : Token := ⟨⟨2⟩, .variable "debt" "finance" (-2) "d"⟩
    (∀ t ∈ [three, debt], t.content.value.isFinite = true) ∧
      evaluate [three, debt] = .value 1 ∧
      rowResult ([three, debt].map fun t => operand t.content) =
        .invalid (.unexpectedLexeme 1 (.number (-2))) ∧
      evaluate [debt, three] = .invalid (.unexpectedLexeme 2 (.number 3)) ∧
      rowResult ([debt, three].map fun t => operand t.content) =
        .invalid (.unexpectedLexeme 1 (.number 3)) := by
  intro three debt
  have hfinite : ∀ t ∈ [three, debt], t.content.value.isFinite = true := by decide
  have hfinite' : ∀ t ∈ [debt, three], t.content.value.isFinite = true := by decide
  refine ⟨hfinite, ?_, ?_, ?_, ?_⟩
  · rw [evaluate_eq_rowResult hfinite]
    decide +kernel
  · decide +kernel
  · rw [evaluate_eq_rowResult hfinite']
    decide +kernel
  · decide +kernel

end FormulaBar.Formula
