import FormulaBar.Proofs.Formula.Grammar

/-!
# The grammar is unambiguous

A row of lexemes has at most one derivation. The induction compares two derivations that may stop
at different places of the same text; that both end where they stop is what brings them together.

1. **Signs** in front of an operand can be told from it.
2. **Uniqueness** of the phrase at the front of a text, and of the derivation of a whole text.
-/

namespace FormulaBar.Formula

/-! ## Signs -/

/-- Whether a text begins with a sign. -/
def signed : List Lexeme → Bool
  | .operator .add :: _ | .operator .sub :: _ => true
  | _ => false

theorem signed_sign (s : Sign) (ts : List Lexeme) : signed (s.lexeme :: ts) = true := by
  cases s <;> rfl

/-- Every text is a run of signs in front of one that begins with none. -/
theorem exists_signs (ts : List Lexeme) :
    ∃ (ss : List Sign) (us : List Lexeme), ts = ss.map Sign.lexeme ++ us ∧ signed us = false := by
  induction ts with
  | nil => exact ⟨[], [], rfl, rfl⟩
  | cons t ts ih =>
      rcases ih with ⟨ss, us, rfl, hus⟩
      cases ht : signed (t :: (ss.map Sign.lexeme ++ us)) with
      | false => exact ⟨[], _, rfl, ht⟩
      | true =>
          rcases t with v | op
          · cases ht
          · cases op with
            | add => exact ⟨.plus :: ss, us, rfl, hus⟩
            | sub => exact ⟨.minus :: ss, us, rfl, hus⟩
            | mul | div | pow | lparen | rparen => cases ht

/-- A text is split into signs and the rest in one way only. -/
theorem signs_unique {ss ss' : List Sign} {ts ts' : List Lexeme} (hts : signed ts = false)
    (hts' : signed ts' = false) (h : ss.map Sign.lexeme ++ ts = ss'.map Sign.lexeme ++ ts') :
    ss = ss' ∧ ts = ts' := by
  induction ss generalizing ss' with
  | nil =>
      cases ss' with
      | nil => exact ⟨rfl, h⟩
      | cons s' ss' =>
          have hs : ts = s'.lexeme :: (ss'.map Sign.lexeme ++ ts') := h
          rw [hs, signed_sign] at hts
          cases hts
  | cons s ss ih =>
      cases ss' with
      | nil =>
          have hs : s.lexeme :: (ss.map Sign.lexeme ++ ts) = ts' := h
          rw [← hs, signed_sign] at hts'
          cases hts'
      | cons s' ss' =>
          rcases List.cons.inj h with ⟨hs, htail⟩
          rcases ih htail with ⟨rfl, hts⟩
          exact ⟨by rw [Sign.lexeme_injective hs], hts⟩

/-- A power begins with a number or a parenthesis, and so with no sign. -/
theorem Derivation.not_signed {c : Category} {ts : List Lexeme} (d : Derivation c ts)
    (hc : c = .whole .power ∨ c = .whole .primary) (ws : List Lexeme) :
    signed (ts ++ ws) = false := by
  induction d generalizing ws with
  | sum | noTerm | term | product | noFactor | factor | adjacent | unary => simp at hc
  | plain base ih => exact ih (Or.inr rfl) ws
  | raised base exponent ih _ =>
      rw [List.append_assoc]
      exact ih (Or.inr rfl) _
  | number v => rfl
  | group body _ => rfl

/-! ## Uniqueness -/

namespace Derivation

/-- Any other derivation of the category at the front of a text that this one is at the front of is
the same one, when each of them ends where it stops. -/
def FrontUnique {c : Category} {us : List Lexeme} (d : Derivation c us) : Prop :=
  ∀ {us' ws ws' : List Lexeme} (d' : Derivation c us'), us ++ ws = us' ++ ws' →
    c.level.Ends ws → c.level.Ends ws' → us = us' ∧ d ≍ d'

variable {us us' vs vs' ws ws' : List Lexeme}

/-- Two phrases in a row: where the first ones have been found to be the same, so are the second. -/
theorem FrontUnique.pair {c₁ c₂ : Category} {d₁ : Derivation c₁ us} {d₂ : Derivation c₂ vs}
    (h₁ : d₁.FrontUnique) (h₂ : d₂.FrontUnique) (d₁' : Derivation c₁ us')
    (d₂' : Derivation c₂ vs') (h : us ++ (vs ++ ws) = us' ++ (vs' ++ ws'))
    (hmiddle : c₁.level.Ends (vs ++ ws)) (hmiddle' : c₁.level.Ends (vs' ++ ws'))
    (hend : c₂.level.Ends ws) (hend' : c₂.level.Ends ws') :
    us = us' ∧ vs = vs' ∧ d₁ ≍ d₁' ∧ d₂ ≍ d₂' := by
  rcases h₁ d₁' h hmiddle hmiddle' with ⟨rfl, hfirst⟩
  rcases h₂ d₂' (List.append_cancel_left h) hend hend' with ⟨rfl, hsecond⟩
  exact ⟨rfl, rfl, hfirst, hsecond⟩

theorem FrontUnique.sum {first : Derivation (.whole .product) us}
    {more : Derivation (.rest .sum) vs} (h₁ : first.FrontUnique) (h₂ : more.FrontUnique) :
    (sum first more).FrontUnique := by
  intro us' ws ws' d' h hend hend'
  cases d' with
  | sum first' more' =>
      simp only [List.append_assoc] at h
      rcases h₁.pair h₂ first' more' h (more.ends_terms hend) (more'.ends_terms hend') hend
        hend' with ⟨rfl, rfl, ⟨⟩, ⟨⟩⟩
      exact ⟨rfl, HEq.rfl⟩

/-- No term can follow where a sum ends. -/
theorem FrontUnique.noTerm : noTerm.FrontUnique := by
  intro us' ws ws' d' h hend hend'
  cases d' with
  | noTerm => exact ⟨rfl, HEq.rfl⟩
  | term s' next' more' =>
      subst h
      cases s' <;> cases hend

theorem FrontUnique.term {s : Sign} {next : Derivation (.whole .product) us}
    {more : Derivation (.rest .sum) vs} (h₁ : next.FrontUnique) (h₂ : more.FrontUnique) :
    (term s next more).FrontUnique := by
  intro us' ws ws' d' h hend hend'
  cases d' with
  | noTerm =>
      subst h
      cases s <;> cases hend'
  | term s' next' more' =>
      simp only [List.cons_append, List.append_assoc, List.cons.injEq] at h
      rcases h with ⟨hs, h⟩
      rcases h₁.pair h₂ next' more' h (more.ends_terms hend) (more'.ends_terms hend') hend
        hend' with ⟨rfl, rfl, ⟨⟩, ⟨⟩⟩
      cases Sign.lexeme_injective hs
      exact ⟨rfl, HEq.rfl⟩

theorem FrontUnique.product {first : Derivation (.whole .unary) us}
    {more : Derivation (.rest .product) vs} (h₁ : first.FrontUnique) (h₂ : more.FrontUnique) :
    (product first more).FrontUnique := by
  intro us' ws ws' d' h hend hend'
  cases d' with
  | product first' more' =>
      simp only [List.append_assoc] at h
      rcases h₁.pair h₂ first' more' h (more.ends_factors hend) (more'.ends_factors hend') hend
        hend' with ⟨rfl, rfl, ⟨⟩, ⟨⟩⟩
      exact ⟨rfl, HEq.rfl⟩

/-- No factor can follow where a product ends. -/
theorem FrontUnique.noFactor : noFactor.FrontUnique := by
  intro us' ws ws' d' h hend hend'
  cases d' with
  | noFactor => exact ⟨rfl, HEq.rfl⟩
  | factor s' next' more' =>
      subst h
      cases s' <;> cases hend
  | adjacent next' more' =>
      subst h
      cases hend

theorem FrontUnique.factor {s : Scaling} {next : Derivation (.whole .unary) us}
    {more : Derivation (.rest .product) vs} (h₁ : next.FrontUnique) (h₂ : more.FrontUnique) :
    (factor s next more).FrontUnique := by
  intro us' ws ws' d' h hend hend'
  cases d' with
  | noFactor =>
      subst h
      cases s <;> cases hend'
  | factor s' next' more' =>
      simp only [List.cons_append, List.append_assoc, List.cons.injEq] at h
      rcases h with ⟨hs, h⟩
      rcases h₁.pair h₂ next' more' h (more.ends_factors hend) (more'.ends_factors hend') hend
        hend' with ⟨rfl, rfl, ⟨⟩, ⟨⟩⟩
      cases Scaling.lexeme_injective hs
      exact ⟨rfl, HEq.rfl⟩
  | adjacent next' more' =>
      -- a scaling is no parenthesis
      cases s <;> cases (List.cons.inj h).1

theorem FrontUnique.adjacent {next : Derivation (.whole .unary) (opening :: us)}
    {more : Derivation (.rest .product) vs} (h₁ : next.FrontUnique) (h₂ : more.FrontUnique) :
    (adjacent next more).FrontUnique := by
  intro us' ws ws' d' h hend hend'
  cases d' with
  | noFactor =>
      subst h
      cases hend'
  | factor s' next' more' => cases s' <;> cases (List.cons.inj h).1
  | @adjacent us' vs' next' more' =>
      have h' : opening :: us ++ (vs ++ ws) = opening :: us' ++ (vs' ++ ws') := by
        simpa only [List.cons_append, List.append_assoc] using h
      rcases h₁.pair h₂ next' more' h' (more.ends_factors hend) (more'.ends_factors hend') hend
        hend' with ⟨⟨⟩, rfl, ⟨⟩, ⟨⟩⟩
      exact ⟨rfl, HEq.rfl⟩

theorem FrontUnique.unary {signs : List Sign} {operand : Derivation (.whole .power) us}
    (h₁ : operand.FrontUnique) : (unary signs operand).FrontUnique := by
  intro us' ws ws' d' h hend hend'
  cases d' with
  | unary signs' operand' =>
      simp only [List.append_assoc] at h
      have hsigned := operand.not_signed (Or.inl rfl) ws
      have hsigned' := operand'.not_signed (Or.inl rfl) ws'
      rcases signs_unique hsigned hsigned' h with ⟨rfl, hrest⟩
      rcases h₁ operand' hrest hend hend' with ⟨⟨⟩, ⟨⟩⟩
      exact ⟨rfl, HEq.rfl⟩

/-- A power without an exponent does not end before the sign of one. -/
theorem FrontUnique.plain {base : Derivation (.whole .primary) us} (h₁ : base.FrontUnique) :
    (plain base).FrontUnique := by
  intro us' ws ws' d' h hend hend'
  cases d' with
  | plain base' =>
      rcases h₁ base' h (Level.ends_primary ws) (Level.ends_primary ws') with ⟨rfl, ⟨⟩⟩
      exact ⟨rfl, HEq.rfl⟩
  | raised base' exponent' =>
      simp only [List.append_assoc] at h
      rcases h₁ base' h (Level.ends_primary ws) (Level.ends_primary _) with ⟨rfl, -⟩
      rw [List.append_cancel_left h] at hend
      cases hend

theorem FrontUnique.raised {base : Derivation (.whole .primary) us}
    {exponent : Derivation (.whole .unary) vs} (h₁ : base.FrontUnique)
    (h₂ : exponent.FrontUnique) : (raised base exponent).FrontUnique := by
  intro us' ws ws' d' h hend hend'
  cases d' with
  | plain base' =>
      simp only [List.append_assoc] at h
      rcases h₁ base' h (Level.ends_primary _) (Level.ends_primary ws') with ⟨rfl, -⟩
      rw [← List.append_cancel_left h] at hend'
      cases hend'
  | raised base' exponent' =>
      simp only [List.append_assoc] at h
      rcases h₁ base' h (Level.ends_primary _) (Level.ends_primary _) with ⟨rfl, ⟨⟩⟩
      -- both go on with the sign of the power
      rcases List.cons.inj (List.append_cancel_left h) with ⟨-, hexponents⟩
      rcases h₂ exponent' hexponents hend hend' with ⟨rfl, ⟨⟩⟩
      exact ⟨rfl, HEq.rfl⟩

theorem FrontUnique.number (v : Float) : (number v).FrontUnique := by
  intro us' ws ws' d' h hend hend'
  cases d' with
  | number v' =>
      cases h
      exact ⟨rfl, HEq.rfl⟩
  | group body' => cases (List.cons.inj h).1

theorem FrontUnique.group {body : Derivation (.whole .sum) us} (h₁ : body.FrontUnique) :
    (group body).FrontUnique := by
  intro us' ws ws' d' h hend hend'
  cases d' with
  | number v' => cases (List.cons.inj h).1
  | group body' =>
      simp only [List.cons_append, List.append_assoc, List.cons.injEq, true_and] at h
      -- a closing parenthesis ends a sum
      rcases h₁ body' h rfl rfl with ⟨rfl, ⟨⟩⟩
      exact ⟨rfl, HEq.rfl⟩

theorem front_unique {c : Category} (d : Derivation c us) : d.FrontUnique := by
  induction d with
  | sum _ _ ih₁ ih₂ => exact ih₁.sum ih₂
  | noTerm => exact FrontUnique.noTerm
  | term _ _ _ ih₁ ih₂ => exact ih₁.term ih₂
  | product _ _ ih₁ ih₂ => exact ih₁.product ih₂
  | noFactor => exact FrontUnique.noFactor
  | factor _ _ _ ih₁ ih₂ => exact ih₁.factor ih₂
  | adjacent _ _ ih₁ ih₂ => exact ih₁.adjacent ih₂
  | unary _ _ ih => exact ih.unary
  | plain _ ih => exact ih.plain
  | raised _ _ ih₁ ih₂ => exact ih₁.raised ih₂
  | number v => exact FrontUnique.number v
  | group _ ih => exact ih.group

/-- A text has at most one derivation. -/
theorem unique {c : Category} {ts : List Lexeme} (d d' : Derivation c ts) : d = d' :=
  eq_of_heq (d.front_unique d' rfl c.level.ends_nil c.level.ends_nil).2

end Derivation

end FormulaBar.Formula
