import FormulaBar.Proofs.Formula.Unambiguity

/-!
# The parser recognises the grammar

A sub-parser *recognises* a level of the grammar within a number of levels of nesting if it reads
exactly the phrases of that level. The proof climbs the levels from primaries to sums, each level
over the one below, and then goes round by induction on the nesting that is left.

1. **Equations** of the two loops.
2. **Recognition** and its five levels.
3. **Nesting**.
4. **Whole texts**: what `parse` accepts, and the tree that it gives.
-/

namespace FormulaBar.Formula

/-! ## Equations -/

section Equations

variable {inner : Inner} {fuel pos : Nat} {left : Tree} {ts : List Lexeme}

/-- A step that succeeds is made of two steps that do. -/
theorem bind_eq_ok_iff {α β : Type} {x : Except Error α} {f : α → Except Error β} {b : β} :
    x >>= f = .ok b ↔ ∃ a, x = .ok a ∧ f a = .ok b := by
  cases x with
  | error e =>
      constructor
      · intro h
        cases h
      · rintro ⟨a, ha, -⟩
        cases ha
  | ok a =>
      constructor
      · intro h
        exact ⟨a, rfl, h⟩
      · rintro ⟨a', ha, h⟩
        cases ha
        exact h

theorem map_eq_ok_iff {α β : Type} {x : Except Error α} {f : α → β} {b : β} :
    x.map f = .ok b ↔ ∃ a, x = .ok a ∧ f a = b := by
  cases x with
  | error e => simp [Except.map]
  | ok a => simp [Except.map]

theorem power_end {base : Tree} {pos' : Nat} {ws : List Lexeme}
    (h : primary inner pos ts = .ok (base, pos', ws)) (hend : Level.power.Ends ws) :
    power inner pos ts = .ok (base, pos', ws) := by
  unfold power
  split
  · next base' pos₁ vs hbase =>
    rw [h] at hbase
    cases hbase
    cases hend
  · exact h

theorem power_caret {base : Tree} {pos' : Nat} {vs : List Lexeme}
    (h : primary inner pos ts = .ok (base, pos', caret :: vs)) :
    power inner pos ts =
      (inner.exponent (pos' + 1) vs).map fun (tree, rest) => (.binary .pow base tree, rest) := by
  simp only [power, h]

/-- The signs at the front of a text are counted off, and what follows them is left. -/
theorem signs_append {ss : List Sign} (hts : signed ts = false) {negate : Bool} :
    signs negate pos (ss.map Sign.lexeme ++ ts) =
      (negate ^^ negates ss, pos + ss.length, ts) := by
  induction ss generalizing negate pos with
  | nil =>
      rcases ts with _ | ⟨v | op, ts⟩
      · simp [signs, negates]
      · simp [signs, negates]
      · cases op with
        | add | sub => cases hts
        | mul | div | pow | lparen | rparen => simp [signs, negates]
  | cons s ss ih =>
      have hpos : pos + 1 + ss.length = pos + (ss.length + 1) := by omega
      cases s with
      | plus =>
          have h : signs negate (pos + 1) (ss.map Sign.lexeme ++ ts) = _ := ih
          rwa [hpos, ← negates_plus] at h
      | minus =>
          have h : signs (!negate) (pos + 1) (ss.map Sign.lexeme ++ ts) = _ := ih
          rwa [hpos, Bool.not_xor, ← Bool.xor_not, ← negates_minus] at h

theorem unary_append {ss : List Sign} (hts : signed ts = false) :
    unary inner pos (ss.map Sign.lexeme ++ ts) =
      (power inner (pos + ss.length) ts).map fun (tree, rest) =>
        (if negates ss then .neg tree else tree, rest) := by
  simp only [unary, signs_append hts, Bool.false_xor]

theorem terms_sign (s : Sign) :
    terms inner (fuel + 1) left pos (s.lexeme :: ts) =
      product inner (pos + 1) ts >>= fun (right, pos, ts) =>
        terms inner fuel (.binary s.op left right) pos ts := by
  cases s <;> rfl

theorem terms_end (h : Level.sum.Ends ts) :
    terms inner fuel left pos ts = .ok (left, pos, ts) := by
  rcases fuel with _ | fuel
  · rfl
  · rcases ts with _ | ⟨v | op, ts⟩
    · rfl
    · rfl
    · cases op with
      | add | sub => cases h
      | mul | div | pow | lparen | rparen => rfl

theorem factors_scaling (s : Scaling) :
    factors inner (fuel + 1) left pos (s.lexeme :: ts) =
      unary inner (pos + 1) ts >>= fun (right, pos, ts) =>
        factors inner fuel (.binary s.op left right) pos ts := by
  cases s <;> rfl

theorem factors_opening :
    factors inner (fuel + 1) left pos (opening :: ts) =
      unary inner pos (opening :: ts) >>= fun (right, pos, ts) =>
        factors inner fuel (.binary .mul left right) pos ts := rfl

theorem factors_end (h : Level.product.Ends ts) :
    factors inner fuel left pos ts = .ok (left, pos, ts) := by
  rcases fuel with _ | fuel
  · rfl
  · rcases ts with _ | ⟨v | op, ts⟩
    · rfl
    · rfl
    · cases op with
      | mul | div | lparen => cases h
      | add | sub | pow | rparen => rfl

end Equations

/-! ## Recognition -/

/-- A sub-parser that reads exactly the phrases of a level that lie within `n` levels: it takes
such a phrase off the front of the text, up to where it ends, and gives its tree. -/
structure Recognizes (l : Level) (n : Nat) (p : SubParser) : Prop where
  sound : ∀ {pos ts tree pos' ws}, p pos ts = .ok (tree, pos', ws) →
    ∃ us, ∃ d : Derivation (.whole l) us, d.Within n ∧ l.Ends ws ∧ ts = us ++ ws ∧
      tree = d.tree ∧ pos' = pos + us.length
  complete : ∀ {us ws pos} (d : Derivation (.whole l) us), d.Within n → l.Ends ws →
    p pos (us ++ ws) = .ok (d.tree, pos + us.length, ws)

section Levels

variable {inner : Inner} {n : Nat}

theorem recognizes_primary (hgroup : Recognizes .sum n inner.group) :
    Recognizes .primary (n + 1) (primary inner) where
  sound := by
    intro pos ts tree pos' ws h
    rcases ts with _ | ⟨v | op, ts⟩
    · cases h
    · cases h
      exact ⟨[.number v], .number v, by simp, Level.ends_primary _, rfl, rfl, rfl⟩
    · cases op with
      | add | sub | mul | div | pow | rparen => cases h
      | lparen =>
          simp only [primary] at h
          split at h
          · cases h
          · cases h
          · next body pos₁ rest hbody =>
            cases h
            rcases hgroup.sound hbody with ⟨us, d, hd, -, rfl, rfl, rfl⟩
            refine ⟨_, d.group, by simpa using hd, Level.ends_primary _, by simp, rfl, ?_⟩
            simp only [List.length_cons, List.length_append, List.length_nil]
            omega
          · cases h
  complete := by
    intro us ws pos d hd hend
    cases d with
    | number v => rfl
    | @group us body =>
        have hbody : inner.group (pos + 1) (us ++ closing :: ws) = _ :=
          hgroup.complete body (Derivation.within_group.mp hd) rfl
        simp only [List.cons_append, List.append_assoc, List.nil_append, primary, hbody]
        simp only [List.length_cons, List.length_append, List.length_nil]
        have hpos : pos + 1 + us.length + 1 = pos + (us.length + (0 + 1) + 1) := by omega
        rw [hpos]
        rfl

theorem recognizes_power (hgroup : Recognizes .sum n inner.group)
    (hexponent : Recognizes .unary n inner.exponent) :
    Recognizes .power (n + 1) (power inner) where
  sound := by
    intro pos ts tree pos' ws h
    cases hbase : primary inner pos ts with
    | error e =>
        rw [power, hbase] at h
        cases h
    | ok r =>
        rcases r with ⟨base, pos₁, rest⟩
        rcases (recognizes_primary hgroup).sound hbase with ⟨us, d₁, hd₁, -, rfl, rfl, rfl⟩
        rcases Level.ends_power_or_caret rest with hend | ⟨vs, rfl⟩
        · rw [power_end hbase hend] at h
          cases h
          exact ⟨us, d₁.plain, hd₁, hend, rfl, rfl, rfl⟩
        · rw [power_caret hbase] at h
          rcases map_eq_ok_iff.mp h with ⟨⟨exponent, pos₂, ws'⟩, hexp, heq⟩
          cases heq
          rcases hexponent.sound hexp with ⟨vs, d₂, hd₂, hend, rfl, rfl, rfl⟩
          refine ⟨_, d₁.raised d₂, Derivation.within_raised.mpr ⟨hd₁, hd₂⟩, hend, ?_, rfl, ?_⟩
          · rw [List.append_assoc, List.cons_append]
          · simp only [List.length_cons, List.length_append]
            omega
  complete := by
    intro us ws pos d hd hend
    cases d with
    | plain base =>
        exact power_end ((recognizes_primary hgroup).complete base hd (Level.ends_primary _)) hend
    | @raised us vs base exponent =>
        rcases Derivation.within_raised.mp hd with ⟨hd₁, hd₂⟩
        have hbase : primary inner pos (us ++ caret :: (vs ++ ws)) = _ :=
          (recognizes_primary hgroup).complete base hd₁ (Level.ends_primary _)
        rw [List.append_assoc, List.cons_append, power_caret hbase,
          hexponent.complete exponent hd₂ hend]
        simp only [Except.map, List.length_cons, List.length_append]
        have hpos : pos + us.length + 1 + vs.length = pos + (us.length + (vs.length + 1)) := by
          omega
        rw [hpos]
        rfl

theorem recognizes_unary (hpower : Recognizes .power (n + 1) (power inner)) :
    Recognizes .unary (n + 1) (unary inner) where
  sound := by
    intro pos ts tree pos' ws h
    rcases exists_signs ts with ⟨ss, us, rfl, hus⟩
    rw [unary_append hus] at h
    rcases map_eq_ok_iff.mp h with ⟨⟨operand, pos₁, ws'⟩, hop, heq⟩
    cases heq
    rcases hpower.sound hop with ⟨us, d, hd, hend, rfl, rfl, rfl⟩
    refine ⟨_, d.unary ss, Derivation.within_unary.mpr hd, hend, ?_, rfl, ?_⟩
    · rw [List.append_assoc]
    · simp only [List.length_append, List.length_map]
      omega
  complete := by
    intro us ws pos d hd hend
    cases d with
    | @unary us ss operand =>
        rw [List.append_assoc, unary_append (operand.not_signed (Or.inl rfl) ws),
          hpower.complete operand (Derivation.within_unary.mp hd) hend]
        simp only [Except.map, List.length_append, List.length_map, Nat.add_assoc]
        rfl

theorem factors_sound (hunary : Recognizes .unary (n + 1) (unary inner)) {fuel pos pos' : Nat}
    {left tree : Tree} {ts ws : List Lexeme} (hfuel : ts.length ≤ fuel)
    (hts : Level.unary.Ends ts) (h : factors inner fuel left pos ts = .ok (tree, pos', ws)) :
    ∃ us, ∃ d : Derivation (.rest .product) us, d.Within (n + 1) ∧ Level.product.Ends ws ∧
      ts = us ++ ws ∧ tree = d.tree left ∧ pos' = pos + us.length := by
  induction fuel generalizing left pos ts with
  | zero =>
      cases ts with
      | nil =>
          cases h
          exact ⟨[], .noFactor, Derivation.within_noFactor, trivial, rfl, rfl, rfl⟩
      | cons t ts => cases hfuel
  | succ fuel ih =>
      rcases hts.product_or_factor with hend | ⟨s, ts, rfl⟩ | ⟨ts, rfl⟩
      · -- the product ends here
        rw [factors_end hend] at h
        cases h
        exact ⟨[], .noFactor, Derivation.within_noFactor, hend, rfl, rfl, rfl⟩
      · -- a scaling and a further factor
        rw [factors_scaling] at h
        rcases bind_eq_ok_iff.mp h with ⟨⟨right, pos₁, ts₁⟩, hright, hrest⟩
        rcases hunary.sound hright with ⟨us, d₁, hd₁, hend₁, rfl, rfl, rfl⟩
        have hfuel₁ : ts₁.length ≤ fuel := by
          simp only [List.length_cons, List.length_append] at hfuel
          omega
        rcases ih hfuel₁ hend₁ hrest with ⟨vs, d₂, hd₂, hend, rfl, rfl, rfl⟩
        refine ⟨_, d₁.factor s d₂, Derivation.within_factor.mpr ⟨Nat.succ_pos n, hd₁, hd₂⟩, hend,
          ?_, rfl, ?_⟩
        · simp only [List.cons_append, List.append_assoc]
        · simp only [List.length_cons, List.length_append]
          omega
      · -- a factor that starts with a parenthesis
        rw [factors_opening] at h
        rcases bind_eq_ok_iff.mp h with ⟨⟨right, pos₁, ts₁⟩, hright, hrest⟩
        rcases hunary.sound hright with ⟨us, d₁, hd₁, hend₁, hts₁, rfl, rfl⟩
        rcases us with _ | ⟨u, us⟩
        · cases d₁.length_pos rfl
        · rw [List.cons_append] at hts₁
          rcases List.cons.inj hts₁ with ⟨rfl, rfl⟩
          have hfuel₁ : ts₁.length ≤ fuel := by
            simp only [List.length_cons, List.length_append] at hfuel
            omega
          rcases ih hfuel₁ hend₁ hrest with ⟨vs, d₂, hd₂, hend, rfl, rfl, rfl⟩
          refine ⟨_, d₁.adjacent d₂, Derivation.within_adjacent.mpr ⟨hd₁, hd₂⟩, hend, ?_, rfl, ?_⟩
          · simp only [List.cons_append, List.append_assoc]
          · simp only [List.length_cons, List.length_append]
            omega

theorem factors_complete (hunary : Recognizes .unary (n + 1) (unary inner)) {fuel pos : Nat}
    {left : Tree} {us ws : List Lexeme} (d : Derivation (.rest .product) us)
    (hd : d.Within (n + 1)) (hend : Level.product.Ends ws) (hfuel : us.length ≤ fuel) :
    factors inner fuel left pos (us ++ ws) = .ok (d.tree left, pos + us.length, ws) := by
  induction fuel generalizing left pos us with
  | zero =>
      cases d with
      | noFactor => exact factors_end hend
      | factor | adjacent => cases hfuel
  | succ fuel ih =>
      cases d with
      | noFactor => exact factors_end hend
      | @factor us vs s next more =>
          rcases Derivation.within_factor.mp hd with ⟨-, hnext, hmore⟩
          have hfuel' : vs.length ≤ fuel := by
            simp only [List.length_cons, List.length_append] at hfuel
            omega
          have hpos : pos + 1 + us.length + vs.length = pos + ((us.length + vs.length) + 1) := by
            omega
          rw [List.cons_append, List.append_assoc, factors_scaling,
            hunary.complete next hnext (more.ends_factors hend)]
          refine bind_eq_ok_iff.mpr ⟨_, rfl, ?_⟩
          rw [List.length_cons, List.length_append, ← hpos]
          exact ih more hmore hfuel'
      | @adjacent us vs next more =>
          rcases Derivation.within_adjacent.mp hd with ⟨hnext, hmore⟩
          have hfuel' : vs.length ≤ fuel := by
            simp only [List.length_cons, List.length_append] at hfuel
            omega
          have hpos : pos + (us.length + 1) + vs.length = pos + ((us.length + vs.length) + 1) := by
            omega
          have hright : unary inner pos (opening :: us ++ (vs ++ ws)) = _ :=
            hunary.complete next hnext (more.ends_factors hend)
          rw [List.cons_append] at hright
          rw [List.cons_append, List.append_assoc, factors_opening, hright]
          refine bind_eq_ok_iff.mpr ⟨_, rfl, ?_⟩
          rw [List.length_cons, List.length_cons, List.length_append, ← hpos]
          exact ih more hmore hfuel'

theorem recognizes_product (hunary : Recognizes .unary (n + 1) (unary inner)) :
    Recognizes .product (n + 1) (product inner) where
  sound := by
    intro pos ts tree pos' ws h
    rcases bind_eq_ok_iff.mp h with ⟨⟨first, pos₁, ts₁⟩, hfirst, hrest⟩
    rcases hunary.sound hfirst with ⟨us, d₁, hd₁, hend₁, rfl, rfl, rfl⟩
    rcases factors_sound hunary (Nat.le_refl _) hend₁ hrest with ⟨vs, d₂, hd₂, hend, rfl, rfl, rfl⟩
    refine ⟨_, d₁.product d₂, Derivation.within_product.mpr ⟨hd₁, hd₂⟩, hend, ?_, rfl, ?_⟩
    · rw [List.append_assoc]
    · rw [List.length_append, Nat.add_assoc]
  complete := by
    intro us ws pos d hd hend
    cases d with
    | @product us vs first more =>
        rcases Derivation.within_product.mp hd with ⟨hfirst, hmore⟩
        rw [List.append_assoc, product, hunary.complete first hfirst (more.ends_factors hend),
          List.length_append, ← Nat.add_assoc]
        refine bind_eq_ok_iff.mpr ⟨_, rfl, ?_⟩
        exact factors_complete hunary more hmore hend (by simp)

theorem terms_sound (hproduct : Recognizes .product (n + 1) (product inner)) {fuel pos pos' : Nat}
    {left tree : Tree} {ts ws : List Lexeme} (hfuel : ts.length ≤ fuel)
    (hts : Level.product.Ends ts) (h : terms inner fuel left pos ts = .ok (tree, pos', ws)) :
    ∃ us, ∃ d : Derivation (.rest .sum) us, d.Within (n + 1) ∧ Level.sum.Ends ws ∧
      ts = us ++ ws ∧ tree = d.tree left ∧ pos' = pos + us.length := by
  induction fuel generalizing left pos ts with
  | zero =>
      cases ts with
      | nil =>
          cases h
          exact ⟨[], .noTerm, Derivation.within_noTerm, trivial, rfl, rfl, rfl⟩
      | cons t ts => cases hfuel
  | succ fuel ih =>
      rcases hts.sum_or_sign with hend | ⟨s, ts, rfl⟩
      · -- the sum ends here
        rw [terms_end hend] at h
        cases h
        exact ⟨[], .noTerm, Derivation.within_noTerm, hend, rfl, rfl, rfl⟩
      · -- a sign and a further term
        rw [terms_sign] at h
        rcases bind_eq_ok_iff.mp h with ⟨⟨right, pos₁, ts₁⟩, hright, hrest⟩
        rcases hproduct.sound hright with ⟨us, d₁, hd₁, hend₁, rfl, rfl, rfl⟩
        have hfuel₁ : ts₁.length ≤ fuel := by
          simp only [List.length_cons, List.length_append] at hfuel
          omega
        rcases ih hfuel₁ hend₁ hrest with ⟨vs, d₂, hd₂, hend, rfl, rfl, rfl⟩
        refine ⟨_, d₁.term s d₂, Derivation.within_term.mpr ⟨Nat.succ_pos n, hd₁, hd₂⟩, hend,
          ?_, rfl, ?_⟩
        · simp only [List.cons_append, List.append_assoc]
        · simp only [List.length_cons, List.length_append]
          omega

theorem terms_complete (hproduct : Recognizes .product (n + 1) (product inner)) {fuel pos : Nat}
    {left : Tree} {us ws : List Lexeme} (d : Derivation (.rest .sum) us)
    (hd : d.Within (n + 1)) (hend : Level.sum.Ends ws) (hfuel : us.length ≤ fuel) :
    terms inner fuel left pos (us ++ ws) = .ok (d.tree left, pos + us.length, ws) := by
  induction fuel generalizing left pos us with
  | zero =>
      cases d with
      | noTerm => exact terms_end hend
      | term => cases hfuel
  | succ fuel ih =>
      cases d with
      | noTerm => exact terms_end hend
      | @term us vs s next more =>
          rcases Derivation.within_term.mp hd with ⟨-, hnext, hmore⟩
          have hfuel' : vs.length ≤ fuel := by
            simp only [List.length_cons, List.length_append] at hfuel
            omega
          have hpos : pos + 1 + us.length + vs.length = pos + ((us.length + vs.length) + 1) := by
            omega
          rw [List.cons_append, List.append_assoc, terms_sign,
            hproduct.complete next hnext (more.ends_terms hend)]
          refine bind_eq_ok_iff.mpr ⟨_, rfl, ?_⟩
          rw [List.length_cons, List.length_append, ← hpos]
          exact ih more hmore hfuel'

theorem recognizes_sum (hproduct : Recognizes .product (n + 1) (product inner)) :
    Recognizes .sum (n + 1) (sum inner) where
  sound := by
    intro pos ts tree pos' ws h
    rcases bind_eq_ok_iff.mp h with ⟨⟨first, pos₁, ts₁⟩, hfirst, hrest⟩
    rcases hproduct.sound hfirst with ⟨us, d₁, hd₁, hend₁, rfl, rfl, rfl⟩
    rcases terms_sound hproduct (Nat.le_refl _) hend₁ hrest with ⟨vs, d₂, hd₂, hend, rfl, rfl, rfl⟩
    refine ⟨_, d₁.sum d₂, Derivation.within_sum.mpr ⟨hd₁, hd₂⟩, hend, ?_, rfl, ?_⟩
    · rw [List.append_assoc]
    · rw [List.length_append, Nat.add_assoc]
  complete := by
    intro us ws pos d hd hend
    cases d with
    | @sum us vs first more =>
        rcases Derivation.within_sum.mp hd with ⟨hfirst, hmore⟩
        rw [List.append_assoc, sum, hproduct.complete first hfirst (more.ends_terms hend),
          List.length_append, ← Nat.add_assoc]
        refine bind_eq_ok_iff.mpr ⟨_, rfl, ?_⟩
        exact terms_complete hproduct more hmore hend (by simp)

end Levels

/-! ## Nesting -/

/-- With `n` levels left, parentheses and exponents hold what lies within `n` levels. -/
theorem recognizes_nested (n : Nat) :
    Recognizes .sum n (nested n).group ∧ Recognizes .unary n (nested n).exponent := by
  induction n with
  | zero =>
      have hnone : ∀ l, Recognizes l 0 fun _ _ => .error .tooDeep := by
        intro l
        constructor
        · intro pos ts tree pos' ws h
          cases h
        · intro us ws pos d hd
          exact absurd hd d.not_within_zero
      exact ⟨hnone .sum, hnone .unary⟩
  | succ n ih =>
      have hunary := recognizes_unary (recognizes_power ih.1 ih.2)
      exact ⟨recognizes_sum (recognizes_product hunary), hunary⟩

/-! ## Whole texts -/

/-- The lexemes that the parser accepts are those with a derivation that is neither too long nor
too deep, and its tree is what the parser gives. -/
theorem parseLexemes_eq_ok_iff {ts : List Lexeme} {e : Tree} :
    parseLexemes ts = .ok e ↔ 1 ≤ ts.length ∧ ts.length ≤ maxLexemes ∧
      ∃ d : Derivation (.whole .sum) ts, d.Within (maxDepth + 1) ∧ d.tree = e := by
  have hsum : Recognizes .sum (maxDepth + 1) (sum (nested maxDepth)) :=
    (recognizes_nested (maxDepth + 1)).1
  constructor
  · intro h
    unfold parseLexemes at h
    split at h
    · cases h
    · next hne =>
      split at h
      · cases h
      · next hlen =>
        have hpos : 1 ≤ ts.length := List.length_pos_iff.mpr hne
        refine ⟨hpos, Nat.not_lt.mp hlen, ?_⟩
        split at h
        · cases h
        · next tree pos hread =>
          cases h
          rcases hsum.sound hread with ⟨us, d, hd, -, hts, rfl, -⟩
          rw [List.append_nil] at hts
          subst hts
          exact ⟨d, hd, rfl⟩
        · cases h
        · cases h
  · rintro ⟨hpos, hlen, d, hd, rfl⟩
    have hread : sum (nested maxDepth) 0 (ts ++ []) = _ := hsum.complete d hd trivial
    rw [List.append_nil] at hread
    have hne : ts ≠ [] := List.ne_nil_of_length_pos hpos
    simp only [parseLexemes, if_neg hne, if_neg (Nat.not_lt.mpr hlen), hread]

theorem parse_of_lex {text : String} {ts : List Lexeme} (h : lex text.toList = .ok ts) :
    parse text = parseLexemes ts := by
  rw [parse, parseChars, h]
  rfl

/-- A text with the lexemes `ts` has the tree `e` exactly if there are between 1 and 4096 of them
and they have a derivation with that tree in which no lexeme lies under more than 256 parentheses
and exponents. There is no other derivation of them. -/
theorem parse_eq_ok_iff {text : String} {ts : List Lexeme} (hlex : lex text.toList = .ok ts) :
    (∀ e, parse text = .ok e ↔ 1 ≤ ts.length ∧ ts.length ≤ 4096 ∧
      ∃ d : Derivation (.whole .sum) ts, (∀ k ∈ d.depths, k ≤ 256) ∧ d.tree = e) ∧
    ∀ d d' : Derivation (.whole .sum) ts, d = d' := by
  constructor
  · intro e
    rw [parse_of_lex hlex, parseLexemes_eq_ok_iff]
    simp only [Derivation.Within, maxDepth, maxLexemes, Nat.lt_succ_iff]
  · exact Derivation.unique

/-- A derivation of `-2 (3 ^ +1)`. -/
def signedProduct : Derivation (.whole .sum)
    [.operator .sub, .number 2, .operator .lparen, .number 3, .operator .pow, .operator .add,
      .number 1, .operator .rparen] :=
  .sum (.product (.unary [.minus] (.plain (.number 2)))
    (.adjacent (.unary [] (.plain (.group (.sum (.product (.unary []
      (.raised (.number 3) (.unary [.plus] (.plain (.number 1))))) .noFactor) .noTerm))))
      .noFactor)) .noTerm

/-- A sign binds tighter than a multiplication that is left out. -/
theorem parse_signedProduct :
    lex "-2 (3 ^ +1)".toList = .ok signedProduct.lexemes ∧
      parse "-2 (3 ^ +1)" =
        .ok (.binary .mul (.neg (.number 2)) (.binary .pow (.number 3) (.number 1))) := by
  have hlex : lex "-2 (3 ^ +1)".toList = .ok signedProduct.lexemes := by
    have h : (lex "-2 (3 ^ +1)".toList).toOption = some signedProduct.lexemes := by
      decide +kernel
    cases hr : lex "-2 (3 ^ +1)".toList with
    | error e =>
        rw [hr] at h
        cases h
    | ok ts =>
        rw [hr] at h
        exact congrArg Except.ok (Option.some.inj h)
  have hdepths : ∀ k ∈ signedProduct.depths, k ≤ 256 := by decide
  exact ⟨hlex, ((parse_eq_ok_iff hlex).1 _).mpr
    ⟨by decide, by decide, signedProduct, hdepths, rfl⟩⟩

end FormulaBar.Formula
