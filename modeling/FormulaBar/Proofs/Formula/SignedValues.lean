import FormulaBar.Proofs.Formula.Recognition
import FormulaBar.Proofs.Formula.Rendering
import Mathlib.Data.List.Chain

/-!
# Negative values as operands

A negative value, one whose sign bit is set, is written as a sign and a number. Whether it might as
well be one number is decided by what stands next to it: behind an operand its sign would subtract,
and before `^` the power would be taken first. Where neither is the case, the two readings of a
stream lead the parser through the same steps, which are followed here from the primaries up to
whole rows. Minus zero is negative, too.

1. **Contents** as single lexemes, and what may stand next to each other.
2. **Faults** without their positions, which count the signs.
3. **Twin readings**: outcomes of the parser on the two readings that belong together.
4. **Sub-parsers**, one level after the other with one argument for both loops, and then round by
   induction on the nesting.
5. **Whole rows**.
-/

namespace FormulaBar.Formula

open FormulaBar.Numeral (isNegative)

/-! ## Contents -/

/-- A content as a single lexeme, a value with its sign. -/
def operand (content : Content) : Lexeme :=
  match content.operator? with
  | some op => .operator op
  | none => .number content.value

/-- Whether an operand ends with a lexeme. -/
def Lexeme.endsOperand : Lexeme → Bool
  | .number _ => true
  | .operator op => op = .rparen

/-- Two contents may stand next to each other: the second is not a negative value behind an operand,
and the first is not a negative value before `^`. -/
def Fits (first second : Content) : Prop :=
  ((operand first).endsOperand = true → isNegative second.value = false) ∧
    (isNegative first.value = true → operand second ≠ caret)

/-- All values are finite, and negative ones stand apart from operands and from `^`. -/
structure Apart (contents : List Content) : Prop where
  finite : ∀ content ∈ contents, content.value.isFinite = true
  chain : contents.IsChain Fits

/-- The first content is not a negative value. -/
def Unsigned (contents : List Content) : Prop :=
  ∀ content ∈ contents.head?, isNegative content.value = false

section Contents

variable {content : Content} {contents front rest : List Content}

theorem lexemes_of_not_negative (h : isNegative content.value = false) :
    lexemes content = [operand content] := by
  rw [lexemes, operand, h]
  cases content.operator? <;> rfl

theorem length_lexemes_pos (content : Content) : 0 < (lexemes content).length := by
  rw [lexemes]
  split
  · exact Nat.one_pos
  · split <;> exact Nat.succ_pos _

theorem length_le_length_flatMap (contents : List Content) :
    contents.length ≤ (contents.flatMap lexemes).length := by
  induction contents with
  | nil => exact Nat.le_refl _
  | cons content contents ih =>
      have hpos := length_lexemes_pos content
      rw [List.flatMap_cons, List.length_append, List.length_cons]
      omega

/-- A negative value is a number in one reading, and a sign and a number in the other. -/
theorem readings_of_negative (h : isNegative content.value = true) :
    operand content = .number content.value ∧
      lexemes content = [.operator .sub, .number (-content.value)] := by
  have hop : content.operator? = none := by
    cases hop : content.operator? with
    | none => rfl
    | some op =>
        rw [value_of_operator hop, not_negative_zero] at h
        cases h
  rw [lexemes, operand, hop, h]
  exact ⟨rfl, rfl⟩

theorem Apart.of_append (h : Apart (front ++ rest)) : Apart rest :=
  ⟨fun content hmem => h.finite content (List.mem_append_right front hmem),
    h.chain.right_of_append⟩

theorem Apart.tail (h : Apart (content :: contents)) : Apart contents := by
  have h : Apart ([content] ++ contents) := h
  exact h.of_append

/-- No negative value stands behind an operand. -/
theorem Apart.unsigned (h : Apart (content :: contents))
    (hend : (operand content).endsOperand = true) : Unsigned contents := by
  intro next hnext
  obtain ⟨rest, rfl⟩ : ∃ rest, contents = next :: rest := List.head?_eq_some_iff.mp hnext
  exact (List.isChain_cons_cons.mp h.chain).1.1 hend

theorem unsigned_nil : Unsigned [] := nofun

theorem Unsigned.flatMap_cons (h : Unsigned (content :: contents)) :
    (content :: contents).flatMap lexemes = operand content :: contents.flatMap lexemes := by
  rw [List.flatMap_cons, lexemes_of_not_negative (h content rfl)]
  rfl

end Contents

/-! ## Faults -/

/-- A fault without the position that it names. -/
def Error.unplaced : Error → Error
  | .unexpectedLexeme _ found => .unexpectedLexeme 0 found
  | .unmatchedClosingParen _ => .unmatchedClosingParen 0
  | e => e

/-! ## Twin readings -/

/-- Outcomes of a sub-parser on the two readings of some contents: the same fault, or two trees of
one value with the same contents left, from which none has been taken apart. -/
inductive Twin (contents : List Content) : Except Error Reading → Except Error Reading → Prop
  | fault {e e' : Error} (h : e.unplaced = e'.unplaced) : Twin contents (.error e) (.error e')
  | read {tree tree' : Tree} {pos pos' : Nat} {front rest : List Content}
      (hcontents : contents = front ++ rest) (hfront : front ≠ []) (hrest : Unsigned rest)
      (heval : tree.eval = tree'.eval) :
      Twin contents (.ok (tree, pos, rest.map operand)) (.ok (tree', pos', rest.flatMap lexemes))

/-- A sub-parser does the same on both readings of contents. -/
def Agrees (p : SubParser) : Prop :=
  ∀ contents pos pos', Apart contents →
    Twin contents (p pos (contents.map operand)) (p pos' (contents.flatMap lexemes))

section Twin

variable {contents front rest : List Content} {x x' : Except Error Reading}

/-- What a later part of the contents leaves, the contents leave. -/
theorem Twin.widen (h : Twin rest x x') (hcontents : contents = front ++ rest) :
    Twin contents x x' := by
  cases h with
  | fault h => exact .fault h
  | @read tree tree' pos pos' front₂ rest₂ hsplit hfront hrest heval =>
      have hsplit : contents = (front ++ front₂) ++ rest₂ := by
        rw [hcontents, hsplit, List.append_assoc]
      exact .read hsplit (List.append_ne_nil_of_right_ne_nil front hfront) hrest heval

/-- Twins go on as twins when each way to go on from what has been read does. -/
theorem Twin.bind {f f' : Reading → Except Error Reading} (h : Twin rest x x')
    (hf : ∀ {tree tree' pos pos' front₂ rest₂}, rest = front₂ ++ rest₂ → front₂ ≠ [] →
      Unsigned rest₂ → tree.eval = tree'.eval →
      Twin contents (f (tree, pos, rest₂.map operand)) (f' (tree', pos', rest₂.flatMap lexemes))) :
    Twin contents (x >>= f) (x' >>= f') := by
  cases h with
  | fault h => exact .fault h
  | read hsplit hfront hrest heval => exact hf hsplit hfront hrest heval

/-- Making a tree of what has been read keeps twins. -/
theorem Twin.map (h : Twin contents x x') (g g' : Tree → Tree)
    (hg : ∀ {tree tree' : Tree}, tree.eval = tree'.eval → (g tree).eval = (g' tree').eval) :
    Twin contents (x.map fun (tree, rest) => (g tree, rest))
      (x'.map fun (tree, rest) => (g' tree, rest)) := by
  cases h with
  | fault h => exact .fault h
  | read hsplit hfront hrest heval => exact .read hsplit hfront hrest (hg heval)

theorem eval_binary_congr {op : BinaryOp} {left left' right right' : Tree}
    (hleft : left.eval = left'.eval) (hright : right.eval = right'.eval) :
    (Tree.binary op left right).eval = (Tree.binary op left' right').eval := by
  rw [Tree.eval, Tree.eval, hleft, hright]

theorem eval_neg_congr {tree tree' : Tree} (h : tree.eval = tree'.eval) :
    (Tree.neg tree).eval = (Tree.neg tree').eval := by
  rw [Tree.eval, Tree.eval, h]

end Twin

/-! ## Sub-parsers -/

section Levels

variable {inner : Inner} {contents : List Content}

theorem twin_primary (hgroup : Agrees inner.group) (pos pos' : Nat) (h : Apart contents)
    (hhead : Unsigned contents) :
    Twin contents (primary inner pos (contents.map operand))
      (primary inner pos' (contents.flatMap lexemes)) := by
  cases contents with
  | nil => exact .fault rfl
  | cons content rest =>
      rw [hhead.flatMap_cons, List.map_cons]
      have hunsigned := h.unsigned
      generalize operand content = t at hunsigned ⊢
      rcases t with v | op
      · have hsplit : content :: rest = [content] ++ rest := rfl
        exact .read hsplit (List.cons_ne_nil _ _) (hunsigned rfl) rfl
      · cases op with
        | add | sub | mul | div | pow | rparen => exact .fault rfl
        | lparen =>
            have hbody := hgroup rest (pos + 1) (pos' + 1) h.tail
            simp only [primary]
            generalize inner.group (pos + 1) (rest.map operand) = x at hbody ⊢
            generalize inner.group (pos' + 1) (rest.flatMap lexemes) = x' at hbody ⊢
            cases hbody with
            | fault hfault => exact .fault hfault
            | @read tree tree' pos₁ pos₁' front₂ rest₂ hsplit hfront hrest heval =>
                cases rest₂ with
                | nil => exact .fault rfl
                | cons next rest₃ =>
                    have happ : Apart (next :: rest₃) := by
                      have := h.tail
                      rw [hsplit] at this
                      exact this.of_append
                    have hunsigned₃ := happ.unsigned
                    rw [hrest.flatMap_cons, List.map_cons]
                    generalize operand next = t at hunsigned₃ ⊢
                    rcases t with v | op
                    · exact .fault rfl
                    · cases op with
                      | add | sub | mul | div | pow | lparen => exact .fault rfl
                      | rparen =>
                          have hsplit : content :: rest =
                              (content :: (front₂ ++ [next])) ++ rest₃ := by
                            rw [hsplit, List.cons_append, List.append_assoc,
                              List.singleton_append]
                          exact .read hsplit (List.cons_ne_nil _ _) (hunsigned₃ rfl) heval

/-- A row of contents ends a power if its first content is not `^`. -/
theorem ends_power (hhead : Unsigned contents)
    (hcaret : ∀ content ∈ contents.head?, operand content ≠ caret) :
    Level.power.Ends (contents.map operand) ∧ Level.power.Ends (contents.flatMap lexemes) := by
  cases contents with
  | nil => exact ⟨trivial, trivial⟩
  | cons content rest =>
      rw [hhead.flatMap_cons]
      have hne : operand content ≠ caret := hcaret content rfl
      exact ⟨decide_eq_false hne, decide_eq_false hne⟩

theorem twin_power (hgroup : Agrees inner.group) (hexponent : Agrees inner.exponent)
    (pos pos' : Nat) (h : Apart contents) (hhead : Unsigned contents) :
    Twin contents (power inner pos (contents.map operand))
      (power inner pos' (contents.flatMap lexemes)) := by
  have hbase := twin_primary hgroup pos pos' h hhead
  generalize hx : primary inner pos (contents.map operand) = x at hbase
  generalize hx' : primary inner pos' (contents.flatMap lexemes) = x' at hbase
  cases hbase with
  | fault hfault =>
      simp only [power, hx, hx']
      exact .fault hfault
  | @read tree tree' pos₁ pos₁' front rest hsplit hfront hrest heval =>
      by_cases hcaret : ∀ content ∈ rest.head?, operand content ≠ caret
      · have hends := ends_power hrest hcaret
        rw [power_end hx hends.1, power_end hx' hends.2]
        exact .read hsplit hfront hrest heval
      · simp only [not_forall, not_not] at hcaret
        obtain ⟨next, hnext, hcaret⟩ := hcaret
        obtain ⟨rest, rfl⟩ := List.head?_eq_some_iff.mp hnext
        rw [hrest.flatMap_cons, hcaret] at hx'
        rw [List.map_cons, hcaret] at hx
        rw [power_caret hx, power_caret hx']
        have hsplit : contents = (front ++ [next]) ++ rest := by
          rw [hsplit, List.append_assoc, List.singleton_append]
        have happ : Apart rest := by
          rw [hsplit] at h
          exact h.of_append
        exact ((hexponent rest _ _ happ).widen hsplit).map (.binary .pow tree) (.binary .pow tree')
          fun hexp => eval_binary_congr heval hexp

theorem exists_sign {t : Lexeme} {ts : List Lexeme} (h : signed (t :: ts) = true) :
    ∃ s : Sign, t = s.lexeme := by
  rcases t with v | op
  · cases h
  · cases op with
    | add => exact ⟨.plus, rfl⟩
    | sub => exact ⟨.minus, rfl⟩
    | mul | div | pow | lparen | rparen => cases h

/-- Whether a text begins with a sign is told from its first lexeme. -/
theorem signed_cons (t : Lexeme) (us vs : List Lexeme) : signed (t :: us) = signed (t :: vs) := by
  rcases t with v | op
  · rfl
  · cases op <;> rfl

/-- Contents are signs in front of some that begin with none. -/
theorem exists_signs_contents (contents : List Content) :
    ∃ (ss : List Sign) (front rest : List Content), contents = front ++ rest ∧
      contents.map operand = ss.map Sign.lexeme ++ rest.map operand ∧
      contents.flatMap lexemes = ss.map Sign.lexeme ++ rest.flatMap lexemes ∧
      signed (rest.map operand) = false := by
  induction contents with
  | nil => exact ⟨[], [], [], rfl, rfl, rfl, rfl⟩
  | cons content contents ih =>
      cases hsigned : signed ((content :: contents).map operand) with
      | false => exact ⟨[], [], content :: contents, rfl, rfl, rfl, hsigned⟩
      | true =>
          obtain ⟨ss, front, rest, hsplit, hmap, hflat, hrest⟩ := ih
          obtain ⟨s, hs⟩ := exists_sign hsigned
          have hnot : isNegative content.value = false := by
            by_contra hneg
            rw [(readings_of_negative (by simpa using hneg)).1] at hs
            cases s <;> cases hs
          refine ⟨s :: ss, content :: front, rest, ?_, ?_, ?_, hrest⟩
          · rw [hsplit, List.cons_append]
          · rw [List.map_cons, hs, hmap, List.map_cons, List.cons_append]
          · rw [List.flatMap_cons, lexemes_of_not_negative hnot, hs, hflat, List.map_cons]
            rfl

theorem negates_append_minus (ss : List Sign) : negates (ss ++ [.minus]) = !negates ss := by
  rw [← negates_minus, negates, negates, List.count_append, List.count_cons, List.count_cons,
    List.count_nil, Nat.zero_add]

/-- A negative value under signs is the number without its sign under one more. -/
theorem eval_negative {v : Float} (hfinite : v.isFinite = true) (ss : List Sign) :
    (if negates ss then Tree.neg (.number v) else .number v).eval =
      (if negates (ss ++ [.minus]) then Tree.neg (.number (-v)) else .number (-v)).eval := by
  have hv : (Tree.number v).eval = .ok v := if_pos hfinite
  have hneg : (Tree.number (-v)).eval = .ok (-v) := if_pos (Numeral.isFinite_neg hfinite)
  rw [negates_append_minus]
  cases negates ss with
  | false =>
      show (Tree.number v).eval = (Tree.neg (.number (-v))).eval
      rw [hv, Tree.eval, hneg, Except.map, Numeral.neg_neg_of_finite hfinite]
  | true =>
      show (Tree.neg (.number v)).eval = (Tree.number (-v)).eval
      rw [hneg, Tree.eval, hv, Except.map]

/-- Signs in front of contents of which none is taken apart first. -/
theorem twin_signs (hgroup : Agrees inner.group) (hexponent : Agrees inner.exponent)
    (pos pos' : Nat) (ss : List Sign) (h : Apart contents) (hhead : Unsigned contents)
    (hsigned : signed (contents.map operand) = false) :
    Twin contents (unary inner pos (ss.map Sign.lexeme ++ contents.map operand))
      (unary inner pos' (ss.map Sign.lexeme ++ contents.flatMap lexemes)) := by
  have hsigned' : signed (contents.flatMap lexemes) = false := by
    cases contents with
    | nil => rfl
    | cons content rest =>
        rw [hhead.flatMap_cons, signed_cons _ _ (rest.map operand)]
        exact hsigned
  rw [unary_append hsigned, unary_append hsigned']
  refine (twin_power hgroup hexponent _ _ h hhead).map
    (fun tree => if negates ss then .neg tree else tree)
    (fun tree => if negates ss then .neg tree else tree) ?_
  intro tree tree' heval
  cases negates ss with
  | false => exact heval
  | true => exact eval_neg_congr heval

/-- Signs in front of a negative value, whose own sign joins them. -/
theorem twin_negative {value : Content} {rest : List Content} (pos pos' : Nat) (ss : List Sign)
    (h : Apart (value :: rest)) (hneg : isNegative value.value = true) :
    Twin (value :: rest) (unary inner pos (ss.map Sign.lexeme ++ (value :: rest).map operand))
      (unary inner pos' (ss.map Sign.lexeme ++ (value :: rest).flatMap lexemes)) := by
  obtain ⟨hone, htwo⟩ := readings_of_negative hneg
  have hrest : Unsigned rest := by
    apply h.unsigned
    rw [hone]
    rfl
  have hcaret : ∀ content ∈ rest.head?, operand content ≠ caret := by
    intro next hnext
    obtain ⟨rest, rfl⟩ := List.head?_eq_some_iff.mp hnext
    exact (List.isChain_cons_cons.mp h.chain).1.2 hneg
  have hends := ends_power hrest hcaret
  have hflat : ss.map Sign.lexeme ++ (value :: rest).flatMap lexemes =
      (ss ++ [Sign.minus]).map Sign.lexeme ++
        (.number (-value.value) :: rest.flatMap lexemes) := by
    rw [List.flatMap_cons, htwo, List.map_append, List.append_assoc]
    rfl
  have hnumber : ∀ (v : Float) (ts : List Lexeme), signed (.number v :: ts) = false :=
    fun _ _ => rfl
  rw [hflat, unary_append (hnumber _ _), List.map_cons, hone, unary_append (hnumber _ _),
    power_end rfl hends.1, power_end rfl hends.2]
  have hsplit : value :: rest = [value] ++ rest := rfl
  exact .read hsplit (List.cons_ne_nil _ _) hrest
    (eval_negative (h.finite value List.mem_cons_self) ss)

theorem twin_unary (hgroup : Agrees inner.group) (hexponent : Agrees inner.exponent) :
    Agrees (unary inner) := by
  intro contents pos pos' h
  obtain ⟨ss, front, rest, rfl, hmap, hflat, hsigned⟩ := exists_signs_contents contents
  have happ := h.of_append
  rw [hmap, hflat]
  refine Twin.widen ?_ rfl
  by_cases hhead : Unsigned rest
  · exact twin_signs hgroup hexponent pos pos' ss happ hhead hsigned
  · simp only [Unsigned, not_forall] at hhead
    obtain ⟨value, hvalue, hneg⟩ := hhead
    obtain ⟨rest, rfl⟩ := List.head?_eq_some_iff.mp hvalue
    exact twin_negative pos pos' ss happ (by simpa using hneg)

/-- Both readings of contents are short enough for the steps that two loops have left. -/
def Fueled (contents : List Content) (fuel fuel' : Nat) : Prop :=
  contents.length ≤ fuel ∧ (contents.flatMap lexemes).length ≤ fuel'

theorem Fueled.exists_succ {content : Content} {fuel fuel' : Nat}
    (hhead : Unsigned (content :: contents)) (h : Fueled (content :: contents) fuel fuel') :
    ∃ k, fuel' = k + 1 := by
  have hlength := h.2
  rw [hhead.flatMap_cons, List.length_cons] at hlength
  exact Nat.exists_eq_add_one_of_ne_zero (by omega)

/-- Reading some contents leaves a step less to do. -/
theorem Fueled.rest {front rest : List Content} {fuel fuel' : Nat}
    (h : Fueled contents (fuel + 1) (fuel' + 1)) (hsplit : contents = front ++ rest)
    (hfront : front ≠ []) : Fueled rest fuel fuel' := by
  obtain ⟨content, front, rfl⟩ := List.exists_cons_of_ne_nil hfront
  have hpos := length_lexemes_pos content
  obtain ⟨hone, htwo⟩ := h
  rw [hsplit] at hone htwo
  simp only [List.cons_append, List.length_cons, List.length_append, List.flatMap_cons,
    List.flatMap_append] at hone htwo
  constructor <;> omega

/-- What two loops do on both readings of what is left of some contents: they begin with its first
content, after which they stop or go on behind one more operand. -/
theorem twin_loop {loop : Nat → Tree → SubParser}
    (hnil : ∀ fuel left pos, loop fuel left pos [] = .ok (left, pos, []))
    (hcons : ∀ {contents rest : List Content} {content : Content} {fuel fuel' pos pos' : Nat}
      {left left' : Tree}, Apart (content :: rest) → Unsigned (content :: rest) →
      Twin contents (.ok (left, pos, operand content :: rest.map operand))
        (.ok (left', pos', operand content :: rest.flatMap lexemes)) →
      (∀ (op : BinaryOp) {right right' : Tree} {pos pos' : Nat} {before after : List Content},
        content :: rest = before ++ after → before ≠ [] → Unsigned after →
        right.eval = right'.eval →
        Twin contents (loop fuel (.binary op left right) pos (after.map operand))
          (loop fuel' (.binary op left' right') pos' (after.flatMap lexemes))) →
      Twin contents (loop (fuel + 1) left pos (operand content :: rest.map operand))
        (loop (fuel' + 1) left' pos' (operand content :: rest.flatMap lexemes)))
    {contents front rest : List Content} {fuel fuel' pos pos' : Nat} {left left' : Tree}
    (hsplit : contents = front ++ rest) (hfront : front ≠ []) (h : Apart rest)
    (hhead : Unsigned rest) (hfuel : Fueled rest fuel fuel') (heval : left.eval = left'.eval) :
    Twin contents (loop fuel left pos (rest.map operand))
      (loop fuel' left' pos' (rest.flatMap lexemes)) := by
  induction fuel generalizing fuel' pos pos' left left' front rest with
  | zero =>
      obtain rfl : rest = [] := List.length_eq_zero_iff.mp (Nat.le_zero.mp hfuel.1)
      rw [List.flatMap_nil, List.map_nil, hnil, hnil]
      exact .read hsplit hfront unsigned_nil heval
  | succ fuel ih =>
      cases rest with
      | nil =>
          rw [List.flatMap_nil, List.map_nil, hnil, hnil]
          exact .read hsplit hfront unsigned_nil heval
      | cons content rest =>
          obtain ⟨fuel', rfl⟩ := hfuel.exists_succ hhead
          have hdone : Twin contents (.ok (left, pos, (content :: rest).map operand))
              (.ok (left', pos', (content :: rest).flatMap lexemes)) :=
            .read hsplit hfront hhead heval
          rw [hhead.flatMap_cons, List.map_cons] at hdone ⊢
          refine hcons h hhead hdone ?_
          intro op right right' pos pos' before after hcut hbefore hafter hright
          have happ : Apart after := by
            rw [hcut] at h
            exact h.of_append
          have hsplit : contents = (front ++ before) ++ after := by
            rw [hsplit, hcut, List.append_assoc]
          exact ih hsplit (List.append_ne_nil_of_left_ne_nil hfront _) happ hafter
            (hfuel.rest hcut hbefore) (eval_binary_congr heval hright)

theorem twin_factors (hunary : Agrees (unary inner)) {front rest : List Content}
    {fuel fuel' pos pos' : Nat} {left left' : Tree} (hsplit : contents = front ++ rest)
    (hfront : front ≠ []) (h : Apart rest) (hhead : Unsigned rest) (hfuel : Fueled rest fuel fuel')
    (heval : left.eval = left'.eval) :
    Twin contents (factors inner fuel left pos (rest.map operand))
      (factors inner fuel' left' pos' (rest.flatMap lexemes)) := by
  have hnil : ∀ fuel left pos, factors inner fuel left pos [] = .ok (left, pos, []) :=
    fun _ _ _ => factors_end (Level.ends_nil _)
  refine twin_loop hnil ?_ hsplit hfront h hhead hfuel heval
  intro contents rest content fuel fuel' pos pos' left left' h hhead hdone hnext
  have hfactor := hunary rest (pos + 1) (pos' + 1) h.tail
  have hadjacent := hunary (content :: rest) pos pos' h
  rw [hhead.flatMap_cons, List.map_cons] at hadjacent
  generalize operand content = t at hdone hadjacent ⊢
  rcases t with v | op
  · exact hdone
  · cases op with
    | add | sub | pow | rparen => exact hdone
    | mul =>
        refine hfactor.bind ?_
        intro _ _ _ _ front₂ _ hcut _
        exact hnext .mul (congrArg (content :: ·) hcut) (List.cons_ne_nil content front₂)
    | div =>
        refine hfactor.bind ?_
        intro _ _ _ _ front₂ _ hcut _
        exact hnext .div (congrArg (content :: ·) hcut) (List.cons_ne_nil content front₂)
    | lparen => exact hadjacent.bind fun hcut hbefore => hnext .mul hcut hbefore

theorem twin_product (hunary : Agrees (unary inner)) : Agrees (product inner) := by
  intro contents pos pos' h
  refine (hunary contents pos pos' h).bind ?_
  intro tree tree' pos₁ pos₁' front rest hsplit hfront hrest heval
  have happ : Apart rest := by
    rw [hsplit] at h
    exact h.of_append
  exact twin_factors hunary hsplit hfront happ hrest
    ⟨Nat.le_of_eq (List.length_map operand).symm, Nat.le_refl _⟩ heval

theorem twin_terms (hproduct : Agrees (product inner)) {front rest : List Content}
    {fuel fuel' pos pos' : Nat} {left left' : Tree} (hsplit : contents = front ++ rest)
    (hfront : front ≠ []) (h : Apart rest) (hhead : Unsigned rest) (hfuel : Fueled rest fuel fuel')
    (heval : left.eval = left'.eval) :
    Twin contents (terms inner fuel left pos (rest.map operand))
      (terms inner fuel' left' pos' (rest.flatMap lexemes)) := by
  have hnil : ∀ fuel left pos, terms inner fuel left pos [] = .ok (left, pos, []) :=
    fun _ _ _ => terms_end (Level.ends_nil _)
  refine twin_loop hnil ?_ hsplit hfront h hhead hfuel heval
  intro contents rest content fuel fuel' pos pos' left left' h hhead hdone hnext
  have hterm := hproduct rest (pos + 1) (pos' + 1) h.tail
  generalize operand content = t at hdone ⊢
  rcases t with v | op
  · exact hdone
  · cases op with
    | mul | div | pow | lparen | rparen => exact hdone
    | add =>
        refine hterm.bind ?_
        intro _ _ _ _ front₂ _ hcut _
        exact hnext .add (congrArg (content :: ·) hcut) (List.cons_ne_nil content front₂)
    | sub =>
        refine hterm.bind ?_
        intro _ _ _ _ front₂ _ hcut _
        exact hnext .sub (congrArg (content :: ·) hcut) (List.cons_ne_nil content front₂)

theorem twin_sum (hproduct : Agrees (product inner)) : Agrees (sum inner) := by
  intro contents pos pos' h
  refine (hproduct contents pos pos' h).bind ?_
  intro tree tree' pos₁ pos₁' front rest hsplit hfront hrest heval
  have happ : Apart rest := by
    rw [hsplit] at h
    exact h.of_append
  exact twin_terms hproduct hsplit hfront happ hrest
    ⟨Nat.le_of_eq (List.length_map operand).symm, Nat.le_refl _⟩ heval

end Levels

theorem twin_nested (n : Nat) : Agrees (nested n).group ∧ Agrees (nested n).exponent := by
  induction n with
  | zero => exact ⟨fun _ _ _ _ => .fault rfl, fun _ _ _ _ => .fault rfl⟩
  | succ n ih =>
      have hunary := twin_unary ih.1 ih.2
      exact ⟨twin_sum (twin_product hunary), hunary⟩

/-! ## Whole rows -/

/-- Both readings of a row have one value or one fault, unless the signs make it too long. -/
theorem parseLexemes_twin {contents : List Content} (h : Apart contents)
    (hlength : (contents.flatMap lexemes).length ≤ maxLexemes) :
    (parseLexemes (contents.flatMap lexemes) >>= Tree.eval).mapError Error.unplaced =
      (parseLexemes (contents.map operand) >>= Tree.eval).mapError Error.unplaced := by
  cases contents with
  | nil => rfl
  | cons content contents =>
      have hmore := length_le_length_flatMap (content :: contents)
      have hpos : 0 < ((content :: contents).flatMap lexemes).length :=
        Nat.lt_of_lt_of_le (Nat.succ_pos _) hmore
      have hshort : ¬maxLexemes < ((content :: contents).map operand).length := by
        rw [List.length_map]
        exact Nat.not_lt.mpr (Nat.le_trans hmore hlength)
      have hne : (content :: contents).map operand ≠ [] := List.cons_ne_nil _ _
      have hsum : Twin _ (sum (nested maxDepth) 0 _) (sum (nested maxDepth) 0 _) :=
        (twin_nested (maxDepth + 1)).1 (content :: contents) 0 0 h
      rw [parseLexemes, parseLexemes, if_neg (List.ne_nil_of_length_pos hpos),
        if_neg (Nat.not_lt.mpr hlength), if_neg hne, if_neg hshort]
      generalize sum (nested maxDepth) 0 ((content :: contents).map operand) = x at hsum ⊢
      generalize sum (nested maxDepth) 0 ((content :: contents).flatMap lexemes) = x' at hsum ⊢
      cases hsum with
      | fault hfault => exact congrArg Except.error hfault.symm
      | @read tree tree' pos pos' front rest hsplit hfront hrest heval =>
          cases rest with
          | nil =>
              show Except.mapError _ tree'.eval = Except.mapError _ tree.eval
              rw [heval]
          | cons next rest =>
              rw [hrest.flatMap_cons, List.map_cons]
              rcases operand next with v | op
              · rfl
              · cases op <;> rfl

end FormulaBar.Formula
