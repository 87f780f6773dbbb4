import FormulaBar.Formula.Evaluation
import FormulaBar.Proofs.Formula.Lexing
import FormulaBar.Proofs.Numeral.Plain

/-!
# What the infix text of a stream keeps

The text is lexed into exactly what the terms of the stream stand for, since single spaces keep them
apart and every finite value is read back from its numeral. So a stream is evaluated by its
operators and values alone.

1. **Terms**: the lexemes of a content, and where its text is at fault.
2. **Streams**, term by term.
3. **Length**: only the number of lexemes makes a formula too long.
4. **Evaluation**: what the result of a stream depends on.
-/

namespace FormulaBar.Formula

open FormulaBar.Numeral (isNegative plainChars plainChars_of_finite plainChars_of_not_finite)
open FormulaBar.Text (isBlank)

/-! ## Terms -/

/-- What a content stands for in a formula: an operator, or a number behind its minus sign. -/
def lexemes (content : Content) : List Lexeme :=
  match content.operator? with
  | some op => [.operator op]
  | none =>
    if isNegative content.value then [.operator .sub, .number (-content.value)]
    else [.number content.value]

theorem termChars_eq (content : Content) :
    termChars content =
      match content.operator? with
      | some op => [op.glyph]
      | none => plainChars content.value := by
  cases content <;> rfl

/-- An operator counts as zero. -/
theorem value_of_operator {content : Content} {op : Operator} (h : content.operator? = some op) :
    content.value = 0 := by
  cases content with
  | operator => rfl
  | number => cases h
  | _ => cases h

theorem not_negative_zero : isNegative 0 = false := by
  decide

section Term

variable {content : Content} {rest : List Char}

/-- A term of finite value is lexed into what it stands for. -/
theorem lex_term (h : content.value.isFinite = true) (hrest : Boundary rest) :
    lex (termChars content ++ rest) = (lex rest).map (lexemes content ++ ·) := by
  rw [termChars_eq, lexemes]
  cases content.operator? with
  | some op => exact lex_operator op rest
  | none =>
      obtain ⟨cs, d, hchars, -, hd, hvalue⟩ := plainChars_of_finite h
      have hliteral := lex_literal hd hrest
      dsimp only
      rw [hchars]
      by_cases hsign : isNegative content.value = true
      · -- the minus sign is a lexeme of its own
        simp only [if_pos hsign] at hvalue ⊢
        rw [List.cons_append]
        refine (lex_operator .sub (cs ++ rest)).trans ?_
        rw [hliteral, hvalue]
        cases lex rest <;> rfl
      · simp only [if_neg hsign] at hvalue ⊢
        rw [hliteral, hvalue]
        rfl

/-- The letter at which the word for a value that is not finite is refused. -/
def wordLetter (v : Float) : Char := if v.isNaN then 'N' else 'i'

theorem lex_term_of_not_finite (h : ¬content.value.isFinite = true) :
    lex (termChars content ++ rest) =
      .error (.unexpectedCharacter (wordLetter content.value)) := by
  have hvalue : content.operator? = none := by
    cases hop : content.operator? with
    | none => rfl
    | some op =>
        rw [value_of_operator hop] at h
        exact absurd (by decide) h
  have hN (cs : List Char) : lex ('N' :: cs) = .error (.unexpectedCharacter 'N') :=
    lex_unexpected (by decide) (by decide) (by decide) cs
  have hi (cs : List Char) : lex ('i' :: cs) = .error (.unexpectedCharacter 'i') :=
    lex_unexpected (by decide) (by decide) (by decide) cs
  rw [termChars_eq, hvalue]
  dsimp only
  rw [plainChars_of_not_finite h, wordLetter]
  by_cases hnan : content.value.isNaN = true
  · rw [if_pos hnan, if_pos hnan]
    exact hN _
  · rw [if_neg hnan, if_neg hnan]
    by_cases hsign : isNegative content.value = true
    · -- the minus sign is read before the letter
      rw [if_pos hsign]
      refine (lex_operator .sub _).trans ?_
      rw [List.append_eq, List.cons_append, hi]
      rfl
    · rw [if_neg hsign]
      exact hi _

end Term

/-! ## Streams -/

section Stream

variable {tokens : List Token}

/-- What follows the first term of a stream begins at a boundary. -/
theorem exists_infixChars_cons (t : Token) (ts : List Token) :
    ∃ rest, infixChars (t :: ts) = termChars t.content ++ rest ∧ Boundary rest ∧
      lex rest = lex (infixChars ts) := by
  cases ts with
  | nil => exact ⟨[], by simp [infixChars, List.intercalate], boundary_nil, rfl⟩
  | cons u us =>
      have hspace : isBlank ' ' = true := by decide
      refine ⟨' ' :: infixChars (u :: us), ?_, boundary_blank hspace _, lex_blank hspace _⟩
      simp [infixChars, List.intercalate]

/-- The text of a stream of finite values is lexed into what its terms stand for. -/
theorem lex_infixChars (h : ∀ t ∈ tokens, t.content.value.isFinite = true) :
    lex (infixChars tokens) = .ok (tokens.flatMap fun t => lexemes t.content) := by
  induction tokens with
  | nil => exact lex_nil
  | cons t ts ih =>
      have hhead : t.content.value.isFinite = true := h t List.mem_cons_self
      have htail := ih (fun u hu => h u (List.mem_cons_of_mem t hu))
      obtain ⟨rest, hchars, hrest, hlex⟩ := exists_infixChars_cons t ts
      rw [hchars, lex_term hhead hrest, hlex, htail]
      rfl

/-- The first value that is not finite makes the text of a stream faulty. -/
theorem lex_infixChars_of_not_finite {t : Token}
    (h : (tokens.find? fun t => !t.content.value.isFinite) = some t) :
    lex (infixChars tokens) = .error (.unexpectedCharacter (wordLetter t.content.value)) := by
  induction tokens with
  | nil => cases h
  | cons u us ih =>
      obtain ⟨rest, hchars, hrest, hlex⟩ := exists_infixChars_cons u us
      rw [hchars]
      by_cases hu : u.content.value.isFinite = true
      · -- the fault is further on
        rw [List.find?_cons_of_neg (by simp [hu])] at h
        rw [lex_term hu hrest, hlex, ih h]
        rfl
      · rw [List.find?_cons_of_pos (by simp [hu])] at h
        cases h
        exact lex_term_of_not_finite hu

/-- A stream stands for one lexeme for each token, and one more for each sign. -/
theorem length_lexemes (tokens : List Token) :
    (tokens.flatMap fun t => lexemes t.content).length =
      tokens.length + tokens.countP fun t => isNegative t.content.value := by
  have hterm (content : Content) :
      (lexemes content).length = 1 + if isNegative content.value then 1 else 0 := by
    rw [lexemes]
    cases hop : content.operator? with
    | some op => rw [value_of_operator hop, not_negative_zero]; rfl
    | none => cases isNegative content.value <;> rfl
  induction tokens with
  | nil => rfl
  | cons t ts ih =>
      rw [List.flatMap_cons, List.length_append, ih, hterm, List.length_cons, List.countP_cons]
      omega

end Stream

/-! ## Length -/

section Length

variable {α β : Type} {inner : Inner}

/-- A step does not find the formula too long. -/
def NotTooLong (x : Except Error α) : Prop := x ≠ .error .tooLong

theorem NotTooLong.bind {x : Except Error α} {f : α → Except Error β} (hx : NotTooLong x)
    (hf : ∀ a, NotTooLong (f a)) : NotTooLong (x >>= f) := by
  cases x with
  | error e =>
      intro h
      cases h
      exact hx rfl
  | ok a => exact hf a

theorem NotTooLong.map {x : Except Error α} (hx : NotTooLong x) (f : α → β) :
    NotTooLong (x.map f) := by
  cases x with
  | error e =>
      intro h
      cases h
      exact hx rfl
  | ok a =>
      intro h
      cases h

/-- The deeper sub-parsers do not find the formula too long. -/
structure Inner.NotTooLong (inner : Inner) : Prop where
  group : ∀ pos ts, Formula.NotTooLong (inner.group pos ts)
  exponent : ∀ pos ts, Formula.NotTooLong (inner.exponent pos ts)

theorem notTooLong_primary (h : inner.NotTooLong) (pos : Nat) (ts : List Lexeme) :
    NotTooLong (primary inner pos ts) := by
  unfold primary
  split
  · exact nofun
  · exact nofun
  · next ts =>
    split
    · next e hgroup =>
      -- the fault is the one of what stands in the parentheses
      rw [← hgroup]
      exact h.group (pos + 1) ts
    · exact nofun
    · exact nofun
    · exact nofun
  · exact nofun

theorem notTooLong_power (h : inner.NotTooLong) (pos : Nat) (ts : List Lexeme) :
    NotTooLong (power inner pos ts) := by
  unfold power
  split
  · exact (h.exponent _ _).map _
  · exact notTooLong_primary h pos ts

theorem notTooLong_unary (h : inner.NotTooLong) (pos : Nat) (ts : List Lexeme) :
    NotTooLong (unary inner pos ts) :=
  (notTooLong_power h _ _).map _

theorem notTooLong_factors (h : inner.NotTooLong) (n : Nat) (left : Tree) (pos : Nat)
    (ts : List Lexeme) : NotTooLong (factors inner n left pos ts) := by
  induction n generalizing left pos ts with
  | zero => exact nofun
  | succ n ih =>
      unfold factors
      split
      · exact (notTooLong_unary h _ _).bind fun _ => ih _ _ _
      · exact (notTooLong_unary h _ _).bind fun _ => ih _ _ _
      · exact (notTooLong_unary h _ _).bind fun _ => ih _ _ _
      · exact nofun

theorem notTooLong_product (h : inner.NotTooLong) (pos : Nat) (ts : List Lexeme) :
    NotTooLong (product inner pos ts) :=
  (notTooLong_unary h pos ts).bind fun _ => notTooLong_factors h _ _ _ _

theorem notTooLong_terms (h : inner.NotTooLong) (n : Nat) (left : Tree) (pos : Nat)
    (ts : List Lexeme) : NotTooLong (terms inner n left pos ts) := by
  induction n generalizing left pos ts with
  | zero => exact nofun
  | succ n ih =>
      unfold terms
      split
      · exact (notTooLong_product h _ _).bind fun _ => ih _ _ _
      · exact (notTooLong_product h _ _).bind fun _ => ih _ _ _
      · exact nofun

theorem notTooLong_sum (h : inner.NotTooLong) (pos : Nat) (ts : List Lexeme) :
    NotTooLong (sum inner pos ts) :=
  (notTooLong_product h pos ts).bind fun _ => notTooLong_terms h _ _ _ _

theorem notTooLong_nested (n : Nat) : (nested n).NotTooLong := by
  induction n with
  | zero => exact ⟨fun _ _ => nofun, fun _ _ => nofun⟩
  | succ n ih => exact ⟨notTooLong_sum ih, notTooLong_unary ih⟩

/-- A list of lexemes is too long exactly if it has more than the limit. -/
theorem parseLexemes_tooLong_iff {ts : List Lexeme} :
    parseLexemes ts = .error .tooLong ↔ maxLexemes < ts.length := by
  unfold parseLexemes
  constructor
  · intro h
    by_cases hempty : ts = []
    · rw [if_pos hempty] at h
      cases h
    · rw [if_neg hempty] at h
      by_cases hlong : maxLexemes < ts.length
      · exact hlong
      · -- the sub-parsers find other faults
        have hsum := notTooLong_sum (notTooLong_nested maxDepth) 0 ts
        rw [if_neg hlong] at h
        split at h
        · next hfault =>
          rw [hfault] at hsum
          cases h
          exact absurd rfl hsum
        · cases h
        · cases h
        · cases h
  · intro h
    have hne : ts ≠ [] := by
      rintro rfl
      exact Nat.not_lt_zero _ h
    rw [if_neg hne, if_pos h]

theorem notTooLong_finite (v : Float) : NotTooLong (finite v) := by
  unfold finite
  split <;> exact nofun

theorem notTooLong_apply (op : BinaryOp) (left right : Float) :
    NotTooLong (op.apply left right) := by
  cases op with
  | div =>
      unfold BinaryOp.apply
      dsimp only
      split
      · exact nofun
      · exact notTooLong_finite _
  | add | sub | mul | pow => exact notTooLong_finite _

theorem notTooLong_eval (tree : Tree) : NotTooLong tree.eval := by
  induction tree with
  | number v => exact notTooLong_finite v
  | neg operand ih => exact ih.map _
  | binary op left right ihl ihr =>
      exact ihl.bind fun l => ihr.bind fun r => notTooLong_apply op l r

theorem evaluateChars_tooLong_iff {cs : List Char} {ts : List Lexeme} (h : lex cs = .ok ts) :
    evaluateChars cs = .error .tooLong ↔ maxLexemes < ts.length := by
  have hparse : parseChars cs = parseLexemes ts := by
    rw [parseChars, h]
    rfl
  rw [evaluateChars, hparse, ← parseLexemes_tooLong_iff]
  cases parseLexemes ts with
  | error e =>
      constructor <;> (intro h; cases h; rfl)
  | ok tree =>
      constructor
      · intro heval
        exact absurd heval (notTooLong_eval tree)
      · intro hok
        cases hok

end Length

/-! ## Evaluation -/

theorem evaluate_eq_invalid_iff {tokens : List Token} {e : Error} :
    evaluate tokens = .invalid e ↔
      tokens ≠ [] ∧ evaluateChars (infixChars tokens) = .error e := by
  cases tokens with
  | nil =>
      constructor
      · intro h
        cases h
      · intro h
        exact absurd rfl h.1
  | cons t ts =>
      show Evaluation.ofExcept _ = _ ↔ _
      rw [Evaluation.ofExcept_eq_invalid_iff]
      exact ⟨fun h => ⟨List.cons_ne_nil t ts, h⟩, And.right⟩

/-- The operator and the value of a term are all that is written of it. -/
theorem evaluate_congr {tokens others : List Token}
    (h : others.map (fun t => (t.content.operator?, t.content.value)) =
      tokens.map (fun t => (t.content.operator?, t.content.value))) :
    evaluate others = evaluate tokens := by
  have hterms (ts : List Token) : (ts.map fun t => termChars t.content) =
      (ts.map fun t => (t.content.operator?, t.content.value)).map fun term =>
        match term.1 with
        | some op => [op.glyph]
        | none => plainChars term.2 := by
    rw [List.map_map]
    exact List.map_congr_left fun t _ => termChars_eq t.content
  have hchars : infixChars others = infixChars tokens := by
    unfold infixChars
    rw [hterms, hterms, h]
  cases tokens with
  | nil =>
      cases others with
      | nil => rfl
      | cons => cases h
  | cons =>
      cases others with
      | nil => cases h
      | cons => exact congrArg (fun cs => Evaluation.ofExcept (evaluateChars cs)) hchars

/-- A stream is evaluated by its operators and values alone. Finite values are all read back, each
sign bit that is set costs a lexeme, and the first value that is not finite is the fault. -/
theorem evaluate_rendered (tokens : List Token) :
    ((∀ t ∈ tokens, t.content.value.isFinite = true) →
      lex (infixChars tokens) = .ok (tokens.flatMap fun t => lexemes t.content) ∧
      (evaluate tokens = .invalid .tooLong ↔
        maxLexemes < tokens.length + tokens.countP fun t => isNegative t.content.value)) ∧
    (∀ others : List Token,
      others.map (fun t => (t.content.operator?, t.content.value)) =
        tokens.map (fun t => (t.content.operator?, t.content.value)) →
      evaluate others = evaluate tokens) ∧
    ∀ t, (tokens.find? fun t => !t.content.value.isFinite) = some t →
      evaluate tokens =
        .invalid (.unexpectedCharacter (if t.content.value.isNaN then 'N' else 'i')) := by
  refine ⟨?_, ?_, ?_⟩
  · intro hfinite
    have hlex := lex_infixChars hfinite
    refine ⟨hlex, ?_⟩
    rw [← length_lexemes, ← evaluateChars_tooLong_iff hlex, evaluate_eq_invalid_iff]
    constructor
    · exact And.right
    · intro h
      refine ⟨?_, h⟩
      -- nothing is not too long
      rintro rfl
      rw [evaluateChars_tooLong_iff hlex] at h
      exact Nat.not_lt_zero _ h
  · intro others h
    exact evaluate_congr h
  · intro t h
    rw [evaluate_eq_invalid_iff]
    refine ⟨?_, ?_⟩
    · rintro rfl
      cases h
    · rw [evaluateChars, parseChars, lex_infixChars_of_not_finite h]
      rfl

/-- A negative value is read back behind its sign whatever it is called, and an infinite one is
refused. -/
theorem evaluate_rendered_signed :
    let minusTwo : Token := ⟨⟨1⟩, .number "-2" (-2)⟩
    let debt : Token := ⟨⟨2⟩, .variable "debt" "finance" (-2) "d"⟩
    let times : Token := ⟨⟨3⟩, .operator .mul⟩
    let rate : Token := ⟨⟨4⟩, .variable "rate" "finance" 3 "r"⟩
    let limit : Token := ⟨⟨5⟩, .variable "limit" "finance" (-(1 / 0)) "l"⟩
    lex (infixChars [minusTwo, times, rate]) =
      .ok [.operator .sub, .number 2, .operator .mul, .number 3] ∧
    evaluate [debt, times, rate] = evaluate [minusTwo, times, rate] ∧
    evaluate [minusTwo, times, limit] = .invalid (.unexpectedCharacter 'i') := by
  intro minusTwo debt times rate limit
  refine ⟨?_, ?_, ?_⟩
  · have hlex := ((evaluate_rendered [minusTwo, times, rate]).1 (by decide)).1
    have hterms : ([minusTwo, times, rate].flatMap fun t => lexemes t.content) =
        [.operator .sub, .number 2, .operator .mul, .number 3] := by decide
    rw [hlex, hterms]
  · exact (evaluate_rendered [minusTwo, times, rate]).2.1 [debt, times, rate] rfl
  · have hword : limit.content.value.isNaN = false := by decide
    have hfault := (evaluate_rendered [minusTwo, times, limit]).2.2 limit (by decide)
    rw [hfault, hword]
    rfl

end FormulaBar.Formula
