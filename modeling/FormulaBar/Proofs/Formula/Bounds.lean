import FormulaBar.Proofs.Formula.Procedures
import Mathlib.Combinatorics.Enumerative.DyckWord

/-!
# Bounds of the parser

Every call of a procedure comes to an end within the text, and the tree that it returns has no more
nodes than the lexemes that it has taken. So a tree of the parser is small, and its evaluation does
not nest deeply. Every node has a lexeme of its own: a number its literal, an operation its sign or
the parenthesis that stands for one, a negation one of its signs.

1. **Sizes** of trees, and evaluation with a bounded number of calls under one another.
2. **Nodes of a derivation** are no more than its lexemes.
3. **Parentheses of a derivation** are balanced.
4. **Bounds** of the procedures and of the parser.
-/

namespace FormulaBar.Formula

/-! ## Sizes -/

/-- How many nodes a tree has. -/
def Tree.size : Tree → Nat
  | .number _ => 1
  | .neg operand => operand.size + 1
  | .binary _ left right => left.size + right.size + 1

/-- The value of an expression, if no more than `n` calls of the evaluation stand under one
another. -/
def Tree.evalWithin : Nat → Tree → Option (Except Error Float)
  | 0, _ => none
  | _ + 1, .number v => some (finite v)
  | n + 1, .neg operand => do
    let v ← operand.evalWithin n
    some (v.map (- ·))
  | n + 1, .binary op left right => do
    match ← left.evalWithin n with
    | .error e => some (.error e)
    | .ok l =>
      let r ← right.evalWithin n
      some (r >>= op.apply l)

/-- The evaluation calls itself no deeper than there are nodes. -/
theorem Tree.evalWithin_of_size_le {n : Nat} {tree : Tree} (h : tree.size ≤ n) :
    tree.evalWithin n = some tree.eval := by
  induction tree generalizing n with
  | number v =>
      obtain ⟨n, rfl⟩ := Nat.exists_eq_add_of_le' h
      rfl
  | neg operand ih =>
      obtain ⟨n, rfl⟩ := Nat.exists_eq_add_of_le' (Nat.le_trans (Nat.le_add_left 1 _) h)
      rw [evalWithin, ih (Nat.le_of_succ_le_succ h)]
      rfl
  | binary op left right ihl ihr =>
      obtain ⟨n, rfl⟩ := Nat.exists_eq_add_of_le' (Nat.le_trans (Nat.le_add_left 1 _) h)
      have hsum : left.size + right.size ≤ n := Nat.le_of_succ_le_succ h
      rw [evalWithin, ihl (by omega), ihr (by omega), eval]
      cases left.eval <;> rfl

/-! ## Nodes of a derivation -/

/-- A tree has no more nodes than a phrase has lexemes. A parenthesis that the phrase starts with is
one to spare, as no node of the tree needs it: it can stand for a multiplication before it. -/
def Tree.Covered (tree : Tree) (ts : List Lexeme) : Prop :=
  tree.size ≤ ts.length ∧ (ts.head? = some opening → tree.size < ts.length)

/-- What a category stands for has a lexeme for every node that is not of the tree before it. -/
def Category.Covered : (c : Category) → List Lexeme → c.Meaning → Prop
  | .whole _, ts, tree => Tree.Covered tree ts
  | .rest _, ts, more => ∀ left, (more left).size ≤ left.size + ts.length

section Covered

variable {us vs : List Lexeme}

/-- The further operands of a sum or a product add their lexemes. -/
theorem Tree.Covered.append {first : Tree} (hfirst : first.Covered us) (hus : 0 < us.length)
    {more : Tree → Tree} (hmore : ∀ left, (more left).size ≤ left.size + vs.length) :
    (more first).Covered (us ++ vs) := by
  have hsize := hmore first
  obtain ⟨hle, hlt⟩ := hfirst
  constructor
  · rw [List.length_append]
    omega
  · intro hhead
    rw [List.head?_append_of_ne_nil us (List.ne_nil_of_length_pos hus)] at hhead
    have := hlt hhead
    rw [List.length_append]
    omega

/-- A run of signs that negates is not empty, so the negation has a lexeme of its own. -/
theorem Tree.Covered.signed {operand : Tree} (h : operand.Covered us) (signs : List Sign) :
    Tree.Covered (if negates signs then .neg operand else operand)
      (signs.map Sign.lexeme ++ us) := by
  cases signs with
  | nil => exact h
  | cons s signs =>
      have hle := h.1
      have hsize : (if negates (s :: signs) then Tree.neg operand else operand).size ≤
          operand.size + 1 := by
        split
        · exact Nat.le_refl _
        · exact Nat.le_succ _
      constructor
      · simp only [List.map_cons, List.cons_append, List.length_cons, List.length_append]
        omega
      · intro hhead
        cases s <;> cases hhead

/-- A further operand has its operation, and all of its lexemes but one that stands for the
operation. -/
theorem size_further (op : BinaryOp) {next : Tree} {k : Nat} (hnext : next.size + 1 ≤ k)
    {more : Tree → Tree} (hmore : ∀ left, (more left).size ≤ left.size + vs.length) (left : Tree) :
    (more (.binary op left next)).size ≤ left.size + (k + vs.length) := by
  have hsize := hmore (.binary op left next)
  rw [Tree.size] at hsize
  omega

end Covered

/-- The tree of a derivation has a lexeme for each of its nodes. -/
theorem Derivation.covered {c : Category} {ts : List Lexeme} (d : Derivation c ts) :
    c.Covered ts d.tree := by
  induction d with
  | sum first more ihfirst ihmore | product first more ihfirst ihmore =>
      exact Tree.Covered.append ihfirst (first.length_pos rfl) ihmore
  | noTerm | noFactor =>
      intro left
      exact Nat.le_refl _
  | @term us vs s next more ihnext ihmore | @factor us vs s next more ihnext ihmore =>
      intro left
      have h := size_further s.op (Nat.succ_le_succ ihnext.1) ihmore left
      rwa [Nat.succ_add, ← List.length_append] at h
  | @adjacent us vs next more ihnext ihmore =>
      -- the parenthesis that the factor starts with pays for the multiplication
      intro left
      have h := size_further .mul (ihnext.2 rfl) ihmore left
      rwa [List.length_cons, Nat.succ_add, ← List.length_append] at h
  | unary signs operand ih => exact Tree.Covered.signed ih signs
  | plain base ih => exact ih
  | @raised us vs base exponent ihbase ihexponent =>
      have hmore : ∀ left, (Tree.binary .pow left exponent.tree).size ≤
          left.size + (caret :: vs).length := by
        intro left
        have hle := ihexponent.1
        rw [Tree.size, List.length_cons]
        omega
      exact Tree.Covered.append ihbase (base.length_pos rfl) hmore
  | number v =>
      refine ⟨Nat.le_refl 1, ?_⟩
      intro hhead
      cases hhead
  | @group us body ih =>
      have hlt : body.tree.size < (opening :: (us ++ [closing])).length := by
        have hle := ih.1
        rw [List.length_cons, List.length_append]
        omega
      exact ⟨Nat.le_of_lt hlt, fun _ => hlt⟩

/-! ## Parentheses of a derivation -/

/-- Which way a parenthesis goes. -/
def paren? : Lexeme → Option DyckStep
  | .operator .lparen => some .U
  | .operator .rparen => some .D
  | _ => none

/-- The parentheses of a derivation: a group nests those of what it holds. -/
def Derivation.parens : {c : Category} → {ts : List Lexeme} → Derivation c ts → DyckWord
  | _, _, .sum first more => first.parens + more.parens
  | _, _, .noTerm => 0
  | _, _, .term _ next more => next.parens + more.parens
  | _, _, .product first more => first.parens + more.parens
  | _, _, .noFactor => 0
  | _, _, .factor _ next more => next.parens + more.parens
  | _, _, .adjacent next more => next.parens + more.parens
  | _, _, .unary _ operand => operand.parens
  | _, _, .plain base => base.parens
  | _, _, .raised base exponent => base.parens + exponent.parens
  | _, _, .number _ => 0
  | _, _, .group body => body.parens.nest

theorem filterMap_paren_signs (signs : List Sign) :
    (signs.map Sign.lexeme).filterMap paren? = [] := by
  rw [List.filterMap_map, List.filterMap_eq_nil_iff]
  rintro (_ | _) _ <;> rfl

/-- They are all of the parentheses among the lexemes, from left to right. -/
theorem Derivation.toList_parens {c : Category} {ts : List Lexeme} (d : Derivation c ts) :
    d.parens.toList = ts.filterMap paren? := by
  induction d with
  | sum first more ih₁ ih₂ | product first more ih₁ ih₂ =>
      rw [List.filterMap_append, ← ih₁, ← ih₂]
      rfl
  | noTerm | noFactor | number => rfl
  | term s next more ih₁ ih₂ | factor s next more ih₁ ih₂ =>
      rw [List.filterMap_cons_none (by cases s <;> rfl), List.filterMap_append, ← ih₁, ← ih₂]
      rfl
  | @adjacent us vs next more ih₁ ih₂ =>
      have happend : (opening :: us ++ vs).filterMap paren? =
          (opening :: us).filterMap paren? ++ vs.filterMap paren? := List.filterMap_append
      rw [← ih₁, ← ih₂] at happend
      exact happend.symm
  | unary signs operand ih =>
      rw [List.filterMap_append, filterMap_paren_signs, List.nil_append, ← ih]
      rfl
  | plain base ih => exact ih
  | raised base exponent ih₁ ih₂ =>
      rw [List.filterMap_append, List.filterMap_cons_none rfl, ← ih₁, ← ih₂]
      rfl
  | group body ih =>
      rw [List.filterMap_cons_some (f := paren?) rfl, List.filterMap_append, ← ih]
      rfl

/-! ## Bounds -/

/-- What a sub-parser returns lies behind its start and within the text, and its tree has no more
nodes than the lexemes in between. -/
theorem Recognizes.bounds {l : Level} {n : Nat} {f : SubParser} (h : Recognizes l n f)
    {ts : List Lexeme} {pos pos' : Nat} {tree : Tree}
    (hread : outcome (f pos (ts.drop pos)) = .ok (tree, pos')) :
    pos < pos' ∧ pos' ≤ ts.length ∧ tree.size ≤ pos' - pos := by
  obtain ⟨⟨tree, pos', ws⟩, hf, heq⟩ := map_eq_ok_iff.mp hread
  cases heq
  obtain ⟨us, d, -, -, hsplit, rfl, rfl⟩ := h.sound hf
  have hpos := d.length_pos rfl
  have hlength := congrArg List.length hsplit
  rw [List.length_drop, List.length_append] at hlength
  refine ⟨Nat.lt_add_of_pos_right hpos, ?_, ?_⟩
  · show pos + us.length ≤ ts.length
    omega
  · rw [Nat.add_sub_cancel_left]
    exact d.covered.1

/-- A call of any of the procedures, at any position and depth, comes to one outcome, that of the
sub-parser of its level, and never reads outside of the text. What it returns is a position behind
its own and within the text, and a tree with no more nodes than there are lexemes in between.

So a tree of the parser has 4096 nodes at most, no more calls of its evaluation stand under one
another, and the parentheses of the text are balanced. -/
theorem parser_bounds :
    (∀ (ts : List Lexeme) (l : Level) (pos depth : Nat), ∃ r,
      (∀ r', Evaluates ts ((Procedure.level l).body ts.length pos depth) r' ↔ r' = r) ∧
      r = outcome (subParser (nested (maxDepth - depth)) l pos (ts.drop pos)) ∧
      ∀ tree pos', r = .ok (tree, pos') →
        pos < pos' ∧ pos' ≤ ts.length ∧ tree.size ≤ pos' - pos) ∧
    ∀ text tree, parse text = .ok tree → tree.size ≤ 4096 ∧
      tree.evalWithin 4096 = some tree.eval ∧
      ∃ ts, lex text.toList = .ok ts ∧ ∃ word : DyckWord, word.toList = ts.filterMap paren? := by
  constructor
  · intro ts l pos depth
    have hevaluates := follows_subParser ts depth l pos
    refine ⟨_, ?_, rfl, fun tree pos' => (recognizes_subParser _ l).bounds⟩
    intro r'
    constructor
    · intro h
      exact h.unique hevaluates
    · rintro rfl
      exact hevaluates
  · intro text tree h
    obtain ⟨ts, hlex, hparse⟩ := bind_eq_ok_iff.mp h
    obtain ⟨-, hlength, d, -, rfl⟩ := parseLexemes_eq_ok_iff.mp hparse
    have hsize : Tree.size d.tree ≤ 4096 := Nat.le_trans d.covered.1 hlength
    exact ⟨hsize, Tree.evalWithin_of_size_le hsize, ts, hlex, d.parens, d.toList_parens⟩

/-- Two signs and a group: `-` and `+` fold into one negation, and the group is a factor. -/
theorem parser_bounds_signedGroup :
    parse "-+2(3)" = .ok (.binary .mul (.neg (.number 2)) (.number 3)) ∧
      ∃ word : DyckWord, word.toList = [.U, .D] := by
  have hparse : parse "-+2(3)" = .ok (.binary .mul (.neg (.number 2)) (.number 3)) := by
    decide +kernel
  have hlex : lex "-+2(3)".toList = .ok [.operator .sub, .operator .add, .number 2,
      .operator .lparen, .number 3, .operator .rparen] := by decide +kernel
  obtain ⟨-, -, ts, hts, hword⟩ := parser_bounds.2 _ _ hparse
  cases hlex.symm.trans hts
  exact ⟨hparse, hword⟩

end FormulaBar.Formula
