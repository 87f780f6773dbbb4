import FormulaBar.Formula.Parser

/-!
# The grammar of formulas

    sum     := product (('+' | '-') product)*
    product := unary (('*' | '/') unary | unary-that-starts-with-'(')*
    unary   := ('+' | '-')* power
    power   := primary ('^' unary)?
    primary := NUMBER | '(' sum ')'

1. **Categories**: a level of the grammar as a whole, and the starred part of a level.
2. **Derivations**: the derivation trees of a row of lexemes, one constructor for each alternative.
3. **Reading a derivation**: the tree that it stands for, and how deep each of its lexemes lies.
4. **Ends**: which lexemes can go on with a phrase, and so cannot follow it.

Nothing here mentions a parser. That a row of lexemes has at most one derivation is
`Derivation.unique`; which derivations the parser finds is the subject of the next module.
-/

namespace FormulaBar.Formula

/-! ## Categories -/

/-- A sign, before an operand or between two terms. -/
inductive Sign where
  | plus
  | minus
deriving Repr, DecidableEq

namespace Sign

/-- The operator that a sign is written as. -/
def operator : Sign → Operator
  | .plus => .add
  | .minus => .sub

/-- What a sign between two terms does. -/
def op : Sign → BinaryOp
  | .plus => .add
  | .minus => .sub

/-- The lexeme of a sign. -/
def lexeme (s : Sign) : Lexeme := .operator s.operator

theorem lexeme_injective {s s' : Sign} (h : s.lexeme = s'.lexeme) : s = s' := by
  cases s <;> cases s' <;> first | rfl | cases h

end Sign

/-- A written sign between two factors. -/
inductive Scaling where
  | times
  | over
deriving Repr, DecidableEq

namespace Scaling

/-- The operator that a scaling is written as. -/
def operator : Scaling → Operator
  | .times => .mul
  | .over => .div

/-- What a scaling does. -/
def op : Scaling → BinaryOp
  | .times => .mul
  | .over => .div

/-- The lexeme of a scaling. -/
def lexeme (s : Scaling) : Lexeme := .operator s.operator

theorem lexeme_injective {s s' : Scaling} (h : s.lexeme = s'.lexeme) : s = s' := by
  cases s <;> cases s' <;> first | rfl | cases h

end Scaling

/-- The levels of the grammar, from the loosest to the tightest. -/
inductive Level where
  | sum
  | product
  | unary
  | power
  | primary
deriving Repr, DecidableEq

/-- What a derivation is a derivation of. -/
inductive Category where
  /-- A phrase of a level. -/
  | whole (l : Level)
  /-- The starred part of a level: what may follow the first operand. -/
  | rest (l : Level)
deriving Repr, DecidableEq

/-- The level that a category belongs to. -/
def Category.level : Category → Level
  | .whole l => l
  | .rest l => l

/-! ## Derivations -/

/-- The lexeme of an opening parenthesis. -/
abbrev opening : Lexeme := .operator .lparen

/-- The lexeme of a closing parenthesis. -/
abbrev closing : Lexeme := .operator .rparen

/-- The lexeme of a power. -/
abbrev caret : Lexeme := .operator .pow

/-- The derivation trees of a category with a given row of lexemes at their leaves. -/
inductive Derivation : Category → List Lexeme → Type where
  | sum {us vs : List Lexeme} (first : Derivation (.whole .product) us)
      (more : Derivation (.rest .sum) vs) : Derivation (.whole .sum) (us ++ vs)
  | noTerm : Derivation (.rest .sum) []
  | term {us vs : List Lexeme} (s : Sign) (next : Derivation (.whole .product) us)
      (more : Derivation (.rest .sum) vs) : Derivation (.rest .sum) (s.lexeme :: (us ++ vs))
  | product {us vs : List Lexeme} (first : Derivation (.whole .unary) us)
      (more : Derivation (.rest .product) vs) : Derivation (.whole .product) (us ++ vs)
  | noFactor : Derivation (.rest .product) []
  | factor {us vs : List Lexeme} (s : Scaling) (next : Derivation (.whole .unary) us)
      (more : Derivation (.rest .product) vs) :
      Derivation (.rest .product) (s.lexeme :: (us ++ vs))
  /-- A multiplication that is left out before a unary that starts with a parenthesis. -/
  | adjacent {us vs : List Lexeme} (next : Derivation (.whole .unary) (opening :: us))
      (more : Derivation (.rest .product) vs) :
      Derivation (.rest .product) (opening :: (us ++ vs))
  | unary {us : List Lexeme} (signs : List Sign) (operand : Derivation (.whole .power) us) :
      Derivation (.whole .unary) (signs.map Sign.lexeme ++ us)
  | plain {us : List Lexeme} (base : Derivation (.whole .primary) us) :
      Derivation (.whole .power) us
  | raised {us vs : List Lexeme} (base : Derivation (.whole .primary) us)
      (exponent : Derivation (.whole .unary) vs) :
      Derivation (.whole .power) (us ++ caret :: vs)
  | number (v : Float) : Derivation (.whole .primary) [.number v]
  | group {us : List Lexeme} (body : Derivation (.whole .sum) us) :
      Derivation (.whole .primary) (opening :: (us ++ [closing]))

/-! ## Reading a derivation -/

/-- What a category stands for: a phrase for a tree, and a starred part for what it makes of the
tree of all that stands before it. -/
@[reducible] def Category.Meaning : Category → Type
  | .whole _ => Tree
  | .rest _ => Tree → Tree

/-- A run of signs negates if it has an odd number of minus signs. -/
def negates (signs : List Sign) : Bool := signs.count .minus % 2 = 1

theorem negates_plus (signs : List Sign) : negates (.plus :: signs) = negates signs := by
  simp [negates]

theorem negates_minus (signs : List Sign) : negates (.minus :: signs) = !negates signs := by
  simp only [negates, List.count_cons_self]
  rcases Nat.mod_two_eq_zero_or_one (signs.count .minus) with h | h <;>
    simp [Nat.add_mod, h]

namespace Derivation

/-- The tree of a derivation. Sums and products nest to the left, as the starred parts hand on what
stands before them, and powers to the right; a run of signs is at most one negation. -/
def tree : {c : Category} → {ts : List Lexeme} → Derivation c ts → c.Meaning
  | _, _, .sum first more => more.tree first.tree
  | _, _, .noTerm => fun left => left
  | _, _, .term s next more => fun left => more.tree (.binary s.op left next.tree)
  | _, _, .product first more => more.tree first.tree
  | _, _, .noFactor => fun left => left
  | _, _, .factor s next more => fun left => more.tree (.binary s.op left next.tree)
  | _, _, .adjacent next more => fun left => more.tree (.binary .mul left next.tree)
  | _, _, .unary signs operand => if negates signs then Tree.neg operand.tree else operand.tree
  | _, _, .plain base => base.tree
  | _, _, .raised base exponent => Tree.binary .pow base.tree exponent.tree
  | _, _, .number v => Tree.number v
  | _, _, .group body => body.tree

/-- How many parentheses and exponents enclose each lexeme, from left to right. A parenthesis lies
outside of what it encloses, and so does the sign of a power. -/
def depths : {c : Category} → {ts : List Lexeme} → Derivation c ts → List Nat
  | _, _, .sum first more => first.depths ++ more.depths
  | _, _, .noTerm => []
  | _, _, .term _ next more => 0 :: (next.depths ++ more.depths)
  | _, _, .product first more => first.depths ++ more.depths
  | _, _, .noFactor => []
  | _, _, .factor _ next more => 0 :: (next.depths ++ more.depths)
  | _, _, .adjacent next more => next.depths ++ more.depths
  | _, _, .unary signs operand => signs.map (fun _ => 0) ++ operand.depths
  | _, _, .plain base => base.depths
  | _, _, .raised base exponent => base.depths ++ 0 :: exponent.depths.map (· + 1)
  | _, _, .number _ => [0]
  | _, _, .group body => 0 :: (body.depths.map (· + 1) ++ [0])

/-- The lexemes of a derivation. -/
abbrev lexemes {c : Category} {ts : List Lexeme} (_ : Derivation c ts) : List Lexeme := ts

/-- Every lexeme has its depth. -/
theorem length_depths {c : Category} {ts : List Lexeme} (d : Derivation c ts) :
    d.depths.length = ts.length := by
  induction d with
  | sum _ _ ih₁ ih₂ | product _ _ ih₁ ih₂ => simp [depths, ih₁, ih₂]
  | noTerm | noFactor | number => rfl
  | term _ _ _ ih₁ ih₂ | factor _ _ _ ih₁ ih₂ => simp [depths, ih₁, ih₂]
  | adjacent _ _ ih₁ ih₂ => simp [depths, ih₁, ih₂]; omega
  | unary _ _ ih => simp [depths, ih]
  | plain _ ih => simpa [depths] using ih
  | raised _ _ ih₁ ih₂ => simp [depths, ih₁, ih₂]
  | group _ ih => simp [depths, ih]

/-- No lexeme lies under `n` or more parentheses and exponents. -/
def Within (n : Nat) {c : Category} {ts : List Lexeme} (d : Derivation c ts) : Prop :=
  ∀ k ∈ d.depths, k < n

/-! ### Depth, one alternative after the other -/

section Within

variable {us vs : List Lexeme} {n : Nat}

/-- Lexemes may lie as deep as `n`, one level deeper one level more. -/
theorem forall_mem_deeper {ks : List Nat} :
    (∀ k ∈ ks.map (· + 1), k < n + 1) ↔ ∀ k ∈ ks, k < n := by
  simp only [List.forall_mem_map, Nat.add_lt_add_iff_right]

@[simp] theorem within_sum {first : Derivation (.whole .product) us}
    {more : Derivation (.rest .sum) vs} :
    (sum first more).Within n ↔ first.Within n ∧ more.Within n :=
  List.forall_mem_append

@[simp] theorem within_noTerm : noTerm.Within n := by
  intro k hk
  cases hk

@[simp] theorem within_term {s : Sign} {next : Derivation (.whole .product) us}
    {more : Derivation (.rest .sum) vs} :
    (term s next more).Within n ↔ 0 < n ∧ next.Within n ∧ more.Within n := by
  show (∀ k ∈ 0 :: (next.depths ++ more.depths), k < n) ↔ _
  rw [List.forall_mem_cons, List.forall_mem_append]
  rfl

@[simp] theorem within_product {first : Derivation (.whole .unary) us}
    {more : Derivation (.rest .product) vs} :
    (product first more).Within n ↔ first.Within n ∧ more.Within n :=
  List.forall_mem_append

@[simp] theorem within_noFactor : noFactor.Within n := by
  intro k hk
  cases hk

@[simp] theorem within_factor {s : Scaling} {next : Derivation (.whole .unary) us}
    {more : Derivation (.rest .product) vs} :
    (factor s next more).Within n ↔ 0 < n ∧ next.Within n ∧ more.Within n := by
  show (∀ k ∈ 0 :: (next.depths ++ more.depths), k < n) ↔ _
  rw [List.forall_mem_cons, List.forall_mem_append]
  rfl

@[simp] theorem within_adjacent {next : Derivation (.whole .unary) (opening :: us)}
    {more : Derivation (.rest .product) vs} :
    (adjacent next more).Within n ↔ next.Within n ∧ more.Within n :=
  List.forall_mem_append

@[simp] theorem within_plain {base : Derivation (.whole .primary) us} :
    (plain base).Within n ↔ base.Within n := Iff.rfl

/-- An exponent lies one level deeper than its base. -/
@[simp] theorem within_raised {base : Derivation (.whole .primary) us}
    {exponent : Derivation (.whole .unary) vs} :
    (raised base exponent).Within (n + 1) ↔ base.Within (n + 1) ∧ exponent.Within n := by
  show (∀ k ∈ base.depths ++ 0 :: exponent.depths.map (· + 1), k < n + 1) ↔ _
  rw [List.forall_mem_append, List.forall_mem_cons, forall_mem_deeper]
  exact and_congr_right fun _ => and_iff_right (Nat.succ_pos n)

@[simp] theorem within_number {v : Float} : (number v).Within (n + 1) := by
  intro k hk
  rw [List.mem_singleton.mp hk]
  exact Nat.succ_pos n

/-- What a parenthesis holds lies one level deeper. -/
@[simp] theorem within_group {body : Derivation (.whole .sum) us} :
    (group body).Within (n + 1) ↔ body.Within n := by
  show (∀ k ∈ 0 :: (body.depths.map (· + 1) ++ [0]), k < n + 1) ↔ _
  rw [List.forall_mem_cons, List.forall_mem_append, forall_mem_deeper, List.forall_mem_singleton]
  have hzero : 0 < n + 1 := Nat.succ_pos n
  exact ⟨fun h => h.2.1, fun h => ⟨hzero, h, hzero⟩⟩

/-- Signs lie no deeper than their operand. -/
@[simp] theorem within_unary {signs : List Sign} {operand : Derivation (.whole .power) us} :
    (unary signs operand).Within (n + 1) ↔ operand.Within (n + 1) := by
  show (∀ k ∈ signs.map (fun _ => 0) ++ operand.depths, k < n + 1) ↔ _
  rw [List.forall_mem_append, List.forall_mem_map]
  exact and_iff_right fun _ _ => Nat.succ_pos n

end Within

/-- A phrase has a lexeme. -/
theorem length_pos {c : Category} {ts : List Lexeme} (d : Derivation c ts) {l : Level}
    (hc : c = .whole l) : 0 < ts.length := by
  induction d generalizing l with
  | sum first more ih _ | product first more ih _ =>
      have := ih rfl
      rw [List.length_append]
      omega
  | noTerm | noFactor | term | factor | adjacent => cases hc
  | unary signs operand ih =>
      have := ih rfl
      rw [List.length_append]
      omega
  | plain base ih => exact ih rfl
  | raised | number | group => simp only [List.length_append, List.length_cons]; omega

/-- No phrase lies within no level at all. -/
theorem not_within_zero {l : Level} {ts : List Lexeme} (d : Derivation (.whole l) ts) :
    ¬ d.Within 0 := by
  intro h
  have hpos : 0 < d.depths.length := by
    rw [d.length_depths]
    exact d.length_pos rfl
  exact absurd (h _ (List.getElem_mem hpos)) (Nat.not_lt_zero _)

end Derivation

/-! ## Ends -/

/-- Whether a phrase of a level can go on with a lexeme. -/
def Level.continuedBy : Level → Lexeme → Bool
  | .primary, _ => false
  | .power, t | .unary, t => t = caret
  | .product, t => t ∈ [caret, .operator .mul, .operator .div, opening]
  | .sum, t =>
    t ∈ [caret, .operator .mul, .operator .div, opening, .operator .add, .operator .sub]

/-- A phrase of the level ends where these lexemes begin. -/
def Level.Ends (l : Level) : List Lexeme → Prop
  | [] => True
  | t :: _ => l.continuedBy t = false

section Ends

variable {us vs ws : List Lexeme}

theorem Level.ends_nil (l : Level) : l.Ends [] := trivial

/-- A primary ends anywhere. -/
theorem Level.ends_primary (ws : List Lexeme) : Level.primary.Ends ws := by
  cases ws with
  | nil => trivial
  | cons t ws => rfl

/-- What ends a sum ends every term of it. -/
theorem Level.Ends.product (h : Level.sum.Ends ws) : Level.product.Ends ws := by
  cases ws with
  | nil => trivial
  | cons t ws =>
      simp only [Level.Ends, Level.continuedBy, List.mem_cons, decide_eq_false_iff_not,
        not_or] at h ⊢
      simp [h]

/-- What ends a product ends every factor of it. -/
theorem Level.Ends.unary (h : Level.product.Ends ws) : Level.unary.Ends ws := by
  cases ws with
  | nil => trivial
  | cons t ws =>
      simp only [Level.Ends, Level.continuedBy, List.mem_cons, decide_eq_false_iff_not,
        not_or] at h ⊢
      simp [h]

/-- A text ends a power, or is the sign of one. -/
theorem Level.ends_power_or_caret (ws : List Lexeme) :
    Level.power.Ends ws ∨ ∃ vs, ws = caret :: vs := by
  rcases ws with _ | ⟨v | op, ws⟩
  · exact Or.inl trivial
  · exact Or.inl rfl
  · cases op with
    | pow => exact Or.inr ⟨ws, rfl⟩
    | add | sub | mul | div | lparen | rparen => exact Or.inl rfl

/-- What ends a product ends the sum that it is in, or is a sign. -/
theorem Level.Ends.sum_or_sign (h : Level.product.Ends ws) :
    Level.sum.Ends ws ∨ ∃ s vs, ws = Sign.lexeme s :: vs := by
  rcases ws with _ | ⟨v | op, ws⟩
  · exact Or.inl trivial
  · exact Or.inl rfl
  · cases op with
    | add => exact Or.inr ⟨.plus, ws, rfl⟩
    | sub => exact Or.inr ⟨.minus, ws, rfl⟩
    | rparen => exact Or.inl rfl
    | mul | div | pow | lparen => cases h

/-- What ends a unary ends the product that it is in, or is one of the ways to go on with it. -/
theorem Level.Ends.product_or_factor (h : Level.unary.Ends ws) :
    Level.product.Ends ws ∨ (∃ s vs, ws = Scaling.lexeme s :: vs) ∨ ∃ vs, ws = opening :: vs := by
  rcases ws with _ | ⟨v | op, ws⟩
  · exact Or.inl trivial
  · exact Or.inl rfl
  · cases op with
    | add | sub | rparen => exact Or.inl rfl
    | mul => exact Or.inr (Or.inl ⟨.times, ws, rfl⟩)
    | div => exact Or.inr (Or.inl ⟨.over, ws, rfl⟩)
    | lparen => exact Or.inr (Or.inr ⟨ws, rfl⟩)
    | pow => cases h

/-- A term ends before the further terms. -/
theorem Derivation.ends_terms (more : Derivation (.rest .sum) vs) (h : Level.sum.Ends ws) :
    Level.product.Ends (vs ++ ws) := by
  cases more with
  | noTerm => exact h.product
  | term s next more => cases s <;> rfl

/-- A factor ends before the further factors. -/
theorem Derivation.ends_factors (more : Derivation (.rest .product) vs)
    (h : Level.product.Ends ws) : Level.unary.Ends (vs ++ ws) := by
  cases more with
  | noFactor => exact h.unary
  | factor s next more => cases s <;> rfl
  | adjacent next more => rfl

end Ends

end FormulaBar.Formula
