import FormulaBar.Proofs.Formula.Faults

/-!
# The parser as procedures over positions

A procedure of the parser is called with a position in the text and the depth that it stands at. It
reads lexemes by their positions and calls other procedures, and a loop is a procedure that calls
itself. No measure says beforehand how long that goes on, and nothing keeps a position within the
text: a call has an outcome only if it comes to an end and never reads outside of the text.

1. **Programs**: what a procedure does next, and the outcome that it comes to.
2. **Procedures**.
3. **Agreement**: every call has the outcome of the sub-parser that it stands for.
-/

namespace FormulaBar.Formula

/-! ## Programs -/

/-- The procedures of the parser: one for each level, and the loops, which go on from what has been
read so far. -/
inductive Procedure where
  | level (l : Level)
  | signs (negate : Bool)
  | factors (left : Tree)
  | terms (left : Tree)

/-- What a procedure returns: a tree and the position after it, or a fault. -/
abbrev Outcome := Except Error (Tree × Nat)

/-- What a procedure does next. A fault of what it calls is its own. -/
inductive Program where
  | done (r : Outcome)
  | read (pos : Nat) (next : Lexeme → Program)
  | call (p : Procedure) (pos depth : Nat) (next : Tree → Nat → Program)

namespace Program

/-- Returns a tree and the position after it. -/
def ret (tree : Tree) (pos : Nat) : Program := .done (.ok (tree, pos))

/-- Stops with a fault. -/
def fail (e : Error) : Program := .done (.error e)

/-- Looks at a position, which may be the end of a text of the given length. -/
def look (length pos : Nat) (next : Option Lexeme → Program) : Program :=
  if pos < length then .read pos fun t => next (some t) else next none

/-- Goes one level deeper. -/
def deeper (depth : Nat) (next : Nat → Program) : Program :=
  if maxDepth ≤ depth then fail .tooDeep else next (depth + 1)

end Program

/-! ## Procedures -/

open Program in
/-- What a procedure does in a text of the given length. -/
def Procedure.body (length : Nat) : Procedure → Nat → Nat → Program
  | .level .sum, pos, depth =>
    .call (.level .product) pos depth fun left pos => .call (.terms left) pos depth ret
  | .terms left, pos, depth =>
    look length pos fun
      | some (.operator .add) =>
        .call (.level .product) (pos + 1) depth fun right pos =>
          .call (.terms (.binary .add left right)) pos depth ret
      | some (.operator .sub) =>
        .call (.level .product) (pos + 1) depth fun right pos =>
          .call (.terms (.binary .sub left right)) pos depth ret
      | _ => ret left pos
  | .level .product, pos, depth =>
    .call (.level .unary) pos depth fun left pos => .call (.factors left) pos depth ret
  | .factors left, pos, depth =>
    look length pos fun
      | some (.operator .mul) =>
        .call (.level .unary) (pos + 1) depth fun right pos =>
          .call (.factors (.binary .mul left right)) pos depth ret
      | some (.operator .div) =>
        .call (.level .unary) (pos + 1) depth fun right pos =>
          .call (.factors (.binary .div left right)) pos depth ret
      | some (.operator .lparen) =>
        -- nothing is read here: the factor begins with the parenthesis
        .call (.level .unary) pos depth fun right pos =>
          .call (.factors (.binary .mul left right)) pos depth ret
      | _ => ret left pos
  | .level .unary, pos, depth => .call (.signs false) pos depth ret
  | .signs negate, pos, depth =>
    look length pos fun
      | some (.operator .sub) => .call (.signs (!negate)) (pos + 1) depth ret
      | some (.operator .add) => .call (.signs negate) (pos + 1) depth ret
      | _ =>
        .call (.level .power) pos depth fun tree pos =>
          ret (if negate then .neg tree else tree) pos
  | .level .power, pos, depth =>
    .call (.level .primary) pos depth fun base pos =>
      look length pos fun
        | some (.operator .pow) =>
          deeper depth fun depth =>
            .call (.level .unary) (pos + 1) depth fun exponent pos =>
              ret (.binary .pow base exponent) pos
        | _ => ret base pos
  | .level .primary, pos, depth =>
    look length pos fun
      | none => fail .unexpectedEnd
      | some (.number v) => ret (.number v) (pos + 1)
      | some (.operator .lparen) =>
        deeper depth fun depth =>
          .call (.level .sum) (pos + 1) depth fun tree pos =>
            look length pos fun
              | none => fail .missingClosingParen
              | some (.operator .rparen) => ret tree (pos + 1)
              | some t => fail (.unexpectedLexeme pos t)
      | some t => fail (.unexpectedLexeme pos t)

/-- The outcome that a program comes to over a text. There is none if it reads outside of the text,
or if its calls never come to an end. -/
inductive Evaluates (ts : List Lexeme) : Program → Outcome → Prop where
  | done (r : Outcome) : Evaluates ts (.done r) r
  | read {pos : Nat} {next : Lexeme → Program} {r : Outcome} (h : pos < ts.length)
      (hnext : Evaluates ts (next ts[pos]) r) : Evaluates ts (.read pos next) r
  | call {p : Procedure} {pos depth pos' : Nat} {tree : Tree} {next : Tree → Nat → Program}
      {r : Outcome} (hcall : Evaluates ts (p.body ts.length pos depth) (.ok (tree, pos')))
      (hnext : Evaluates ts (next tree pos') r) : Evaluates ts (.call p pos depth next) r
  | fault {p : Procedure} {pos depth : Nat} {next : Tree → Nat → Program} {e : Error}
      (hcall : Evaluates ts (p.body ts.length pos depth) (.error e)) :
      Evaluates ts (.call p pos depth next) (.error e)

/-- A program has one outcome at most. -/
theorem Evaluates.unique {ts : List Lexeme} {program : Program} {r r' : Outcome}
    (h : Evaluates ts program r) (h' : Evaluates ts program r') : r = r' := by
  induction h generalizing r' with
  | done r =>
      cases h'
      rfl
  | read _ _ ih =>
      cases h' with
      | read _ hnext' => exact ih hnext'
  | call _ _ ihcall ihnext =>
      cases h' with
      | call hcall' hnext' =>
          cases ihcall hcall'
          exact ihnext hnext'
      | fault hcall' => cases ihcall hcall'
  | fault _ ihcall =>
      cases h' with
      | call hcall' _ => cases ihcall hcall'
      | fault hcall' => exact ihcall hcall'

/-! ## Agreement -/

/-- The sub-parser of a level over the ones one level deeper. -/
def subParser (inner : Inner) : Level → SubParser
  | .sum => sum inner
  | .product => product inner
  | .unary => unary inner
  | .power => power inner
  | .primary => primary inner

/-- What of a reading is returned. -/
def Reading.returned (r : Reading) : Tree × Nat := (r.1, r.2.1)

/-- What is returned for what a sub-parser has read. -/
def outcome (r : Except Error Reading) : Outcome := r.map Reading.returned

section Agreement

variable {ts : List Lexeme} {pos depth : Nat} {r : Outcome}

theorem evaluates_look {next : Option Lexeme → Program} (h : Evaluates ts (next ts[pos]?) r) :
    Evaluates ts (.look ts.length pos next) r := by
  unfold Program.look
  split
  · next hpos =>
    rw [List.getElem?_eq_getElem hpos] at h
    exact .read hpos h
  · next hpos =>
    rwa [List.getElem?_eq_none (Nat.not_lt.mp hpos)] at h

/-- A call goes on where the sub-parser that it stands for has stopped. -/
theorem evaluates_call {p : Procedure} {x : Except Error Reading} {next : Tree → Nat → Program}
    {f : Reading → Except Error Reading}
    (h : Evaluates ts (p.body ts.length pos depth) (outcome x))
    (hnext : ∀ tree pos' ws, x = .ok (tree, pos', ws) →
      Evaluates ts (next tree pos') (outcome (f (tree, pos', ws)))) :
    Evaluates ts (.call p pos depth next) (outcome (x >>= f)) := by
  cases x with
  | error e => exact .fault h
  | ok reading =>
      obtain ⟨tree, pos', ws⟩ := reading
      exact .call h (hnext tree pos' ws rfl)

theorem map_eq_bind {α β : Type} (x : Except Error α) (g : α → β) :
    x.map g = x >>= fun a => .ok (g a) := by
  cases x <;> rfl

/-- A call whose outcome is returned as it is. -/
theorem evaluates_ret {p : Procedure} (h : Evaluates ts (p.body ts.length pos depth) r) :
    Evaluates ts (.call p pos depth .ret) r := by
  cases r with
  | error e => exact .fault h
  | ok x => exact .call h (.done _)

/-- What a sub-parser leaves is the text from the position that it has come to. -/
theorem Recognizes.rest_eq {l : Level} {n : Nat} {f : SubParser} (h : Recognizes l n f)
    {tree : Tree} {pos' : Nat} {ws : List Lexeme}
    (hread : f pos (ts.drop pos) = .ok (tree, pos', ws)) : ws = ts.drop pos' := by
  obtain ⟨us, -, -, -, hsplit, -, rfl⟩ := h.sound hread
  rw [← List.drop_drop, hsplit, List.drop_left]

/-- The lexeme at a position, and the text behind it. -/
theorem getElem?_of_drop {ws : List Lexeme} (h : ts.drop pos = ws) :
    ts[pos]? = ws.head? ∧ ts.drop (pos + 1) = ws.tail := by
  rw [← h, List.head?_drop, List.tail_drop]
  exact ⟨rfl, rfl⟩

/-- A procedure comes to what a sub-parser makes of the text from the same position on. -/
def Follows (ts : List Lexeme) (depth : Nat) (p : Procedure) (f : SubParser) : Prop :=
  ∀ pos, Evaluates ts (p.body ts.length pos depth) (outcome (f pos (ts.drop pos)))

/-- Going one level deeper agrees with the sub-parsers that stand there. -/
structure InnerFollows (ts : List Lexeme) (depth : Nat) (inner : Inner) : Prop where
  group : ∀ {pos next} {f : Reading → Except Error Reading},
    (∀ tree pos' ws, inner.group pos (ts.drop pos) = .ok (tree, pos', ws) →
      Evaluates ts (next tree pos') (outcome (f (tree, pos', ws)))) →
    Evaluates ts (.deeper depth fun depth => .call (.level .sum) pos depth next)
      (outcome (inner.group pos (ts.drop pos) >>= f))
  exponent : ∀ {pos next} {f : Reading → Except Error Reading},
    (∀ tree pos' ws, inner.exponent pos (ts.drop pos) = .ok (tree, pos', ws) →
      Evaluates ts (next tree pos') (outcome (f (tree, pos', ws)))) →
    Evaluates ts (.deeper depth fun depth => .call (.level .unary) pos depth next)
      (outcome (inner.exponent pos (ts.drop pos) >>= f))

section Levels

variable {inner : Inner} {n : Nat}

theorem follows_primary (hinner : InnerFollows ts depth inner)
    (hgroup : Recognizes .sum n inner.group) :
    Follows ts depth (.level .primary) (primary inner) := by
  intro pos
  rw [Procedure.body]
  refine evaluates_look ?_
  cases hts : ts.drop pos with
  | nil =>
      rw [(getElem?_of_drop hts).1]
      exact .done _
  | cons t ws =>
      obtain ⟨hget, hrest⟩ := getElem?_of_drop hts
      rw [hget]
      rcases t with v | op
      · exact .done _
      · cases op with
        | add | sub | mul | div | pow | rparen => exact .done _
        | lparen =>
            rw [primary_opening, show ws = ts.drop (pos + 1) from hrest.symm]
            refine hinner.group ?_
            intro tree pos' us hread
            -- behind the body the closing parenthesis is looked for
            refine evaluates_look ?_
            rw [(getElem?_of_drop (hgroup.rest_eq hread).symm).1]
            rcases us with _ | ⟨v | op, us⟩
            · exact .done _
            · exact .done _
            · cases op <;> exact .done _

theorem follows_power (hinner : InnerFollows ts depth inner) (hgroup : Recognizes .sum n inner.group) :
    Follows ts depth (.level .power) (power inner) := by
  intro pos
  rw [power_eq]
  refine evaluates_call (follows_primary hinner hgroup pos) ?_
  intro base pos' ws hread
  obtain ⟨hget, hrest⟩ := getElem?_of_drop ((recognizes_primary hgroup).rest_eq hread).symm
  refine evaluates_look ?_
  rw [hget]
  rcases ws with _ | ⟨v | op, ws⟩
  · exact .done _
  · exact .done _
  · cases op with
    | add | sub | mul | div | lparen | rparen => exact .done _
    | pow =>
        show Evaluates ts _ (outcome ((inner.exponent (pos' + 1) ws).map _))
        rw [map_eq_bind, show ws = ts.drop (pos' + 1) from hrest.symm]
        exact hinner.exponent fun _ _ _ _ => .done _

/-- A power is read where the signs end. -/
theorem evaluates_unsigned (hpower : Follows ts depth (.level .power) (power inner)) (negate : Bool)
    (pos : Nat) :
    Evaluates ts
      (.call (.level .power) pos depth fun tree pos => .ret (if negate then .neg tree else tree) pos)
      (outcome ((power inner pos (ts.drop pos)).map fun (tree, rest) =>
        (if negate then .neg tree else tree, rest))) := by
  rw [map_eq_bind]
  exact evaluates_call (hpower pos) fun _ _ _ _ => .done _

/-- The signs are run through one by one. -/
theorem evaluates_signs (hpower : Follows ts depth (.level .power) (power inner))
    {us : List Lexeme} (hus : ts.drop pos = us) (negate : Bool) :
    Evaluates ts ((Procedure.signs negate).body ts.length pos depth)
      (outcome ((power inner (signs negate pos us).2.1 (signs negate pos us).2.2).map
        fun (tree, rest) => (if (signs negate pos us).1 then .neg tree else tree, rest))) := by
  induction us generalizing pos negate with
  | nil =>
      rw [Procedure.body]
      refine evaluates_look ?_
      rw [(getElem?_of_drop hus).1, ← hus]
      have hend := evaluates_unsigned hpower negate pos
      rw [hus] at hend ⊢
      exact hend
  | cons t us ih =>
      obtain ⟨hget, hrest⟩ := getElem?_of_drop hus
      have hend := evaluates_unsigned hpower negate pos
      rw [hus] at hend
      rw [Procedure.body]
      refine evaluates_look ?_
      rw [hget]
      rcases t with v | op
      · exact hend
      · cases op with
        | sub => exact evaluates_ret (ih hrest (!negate))
        | add => exact evaluates_ret (ih hrest negate)
        | mul | div | pow | lparen | rparen => exact hend

theorem follows_unary (hpower : Follows ts depth (.level .power) (power inner)) :
    Follows ts depth (.level .unary) (unary inner) := by
  intro pos
  exact evaluates_ret (evaluates_signs hpower rfl false)

/-- Whatever is read takes a lexeme at least. -/
theorem Recognizes.length_lt {l : Level} {f : SubParser} (h : Recognizes l n f)
    {us ws : List Lexeme} {tree : Tree} {pos' : Nat} (hread : f pos us = .ok (tree, pos', ws)) :
    ws.length < us.length := by
  obtain ⟨vs, d, -, -, rfl, -, -⟩ := h.sound hread
  have hpos := d.length_pos rfl
  rw [List.length_append]
  omega

/-- The loop over the factors goes on as long as the sub-parser does, which has fuel enough. -/
theorem evaluates_factors (hunary : Follows ts depth (.level .unary) (unary inner))
    (hreads : Recognizes .unary (n + 1) (unary inner)) {fuel : Nat} {us : List Lexeme}
    (hus : ts.drop pos = us) (hfuel : us.length ≤ fuel) (left : Tree) :
    Evaluates ts ((Procedure.factors left).body ts.length pos depth)
      (outcome (factors inner fuel left pos us)) := by
  induction fuel generalizing pos us left with
  | zero =>
      obtain rfl := List.eq_nil_of_length_eq_zero (Nat.le_zero.mp hfuel)
      rw [Procedure.body]
      refine evaluates_look ?_
      rw [(getElem?_of_drop hus).1]
      exact .done _
  | succ fuel ih =>
      -- a further factor is read, and the loop goes on behind it
      have hnext : ∀ (op : BinaryOp) (start : Nat) (vs : List Lexeme), ts.drop start = vs →
          vs.length ≤ fuel + 1 →
          Evaluates ts
            (.call (.level .unary) start depth fun right pos =>
              .call (.factors (.binary op left right)) pos depth .ret)
            (outcome (unary inner start vs >>= fun r =>
              factors inner fuel (.binary op left r.1) r.2.1 r.2.2)) := by
        rintro op start vs rfl hlength
        refine evaluates_call (hunary start) ?_
        intro right pos' ws hread
        have hlt := hreads.length_lt hread
        exact evaluates_ret (ih (hreads.rest_eq hread).symm (by omega) (.binary op left right))
      rw [Procedure.body]
      refine evaluates_look ?_
      rw [(getElem?_of_drop hus).1]
      rcases us with _ | ⟨v | op, us⟩
      · exact .done _
      · exact .done _
      · have hrest : ts.drop (pos + 1) = us := (getElem?_of_drop hus).2
        have hless : us.length ≤ fuel + 1 := Nat.le_of_succ_le hfuel
        cases op with
        | mul => exact hnext .mul _ us hrest hless
        | div => exact hnext .div _ us hrest hless
        | lparen => exact hnext .mul _ _ hus hfuel
        | add | sub | pow | rparen => exact .done _

theorem follows_product (hunary : Follows ts depth (.level .unary) (unary inner))
    (hreads : Recognizes .unary (n + 1) (unary inner)) :
    Follows ts depth (.level .product) (product inner) := by
  intro pos
  refine evaluates_call (hunary pos) ?_
  intro left pos' ws hread
  exact evaluates_ret
    (evaluates_factors hunary hreads (hreads.rest_eq hread).symm (Nat.le_refl _) left)

theorem evaluates_terms (hproduct : Follows ts depth (.level .product) (product inner))
    (hreads : Recognizes .product (n + 1) (product inner)) {fuel : Nat} {us : List Lexeme}
    (hus : ts.drop pos = us) (hfuel : us.length ≤ fuel) (left : Tree) :
    Evaluates ts ((Procedure.terms left).body ts.length pos depth)
      (outcome (terms inner fuel left pos us)) := by
  induction fuel generalizing pos us left with
  | zero =>
      obtain rfl := List.eq_nil_of_length_eq_zero (Nat.le_zero.mp hfuel)
      rw [Procedure.body]
      refine evaluates_look ?_
      rw [(getElem?_of_drop hus).1]
      exact .done _
  | succ fuel ih =>
      have hnext : ∀ (op : BinaryOp) (vs : List Lexeme), ts.drop (pos + 1) = vs →
          vs.length ≤ fuel →
          Evaluates ts
            (.call (.level .product) (pos + 1) depth fun right pos =>
              .call (.terms (.binary op left right)) pos depth .ret)
            (outcome (product inner (pos + 1) vs >>= fun r =>
              terms inner fuel (.binary op left r.1) r.2.1 r.2.2)) := by
        rintro op vs rfl hlength
        refine evaluates_call (hproduct (pos + 1)) ?_
        intro right pos' ws hread
        have hlt := hreads.length_lt hread
        exact evaluates_ret (ih (hreads.rest_eq hread).symm (by omega) (.binary op left right))
      rw [Procedure.body]
      refine evaluates_look ?_
      rw [(getElem?_of_drop hus).1]
      rcases us with _ | ⟨v | op, us⟩
      · exact .done _
      · exact .done _
      · have hrest : ts.drop (pos + 1) = us := (getElem?_of_drop hus).2
        have hless : us.length ≤ fuel := Nat.le_of_succ_le_succ hfuel
        cases op with
        | add => exact hnext .add us hrest hless
        | sub => exact hnext .sub us hrest hless
        | mul | div | pow | lparen | rparen => exact .done _

theorem follows_sum (hproduct : Follows ts depth (.level .product) (product inner))
    (hreads : Recognizes .product (n + 1) (product inner)) :
    Follows ts depth (.level .sum) (sum inner) := by
  intro pos
  refine evaluates_call (hproduct pos) ?_
  intro left pos' ws hread
  exact evaluates_ret
    (evaluates_terms hproduct hreads (hreads.rest_eq hread).symm (Nat.le_refl _) left)

end Levels

/-! ### Nesting -/

/-- The sub-parsers of all levels read phrases of these levels. -/
theorem recognizes_subParser (n : Nat) (l : Level) :
    Recognizes l (n + 1) (subParser (nested n) l) := by
  obtain ⟨hgroup, hexponent⟩ := recognizes_nested n
  have hpower := recognizes_power hgroup hexponent
  have hunary := recognizes_unary hpower
  have hproduct := recognizes_product hunary
  cases l with
  | primary => exact recognizes_primary hgroup
  | power => exact hpower
  | unary => exact hunary
  | product => exact hproduct
  | sum => exact recognizes_sum hproduct

/-- If going deeper agrees with the sub-parsers there, all levels agree with theirs. -/
theorem follows_level {n : Nat} (hinner : InnerFollows ts depth (nested n)) (l : Level) :
    Follows ts depth (.level l) (subParser (nested n) l) := by
  have hpower := follows_power hinner (recognizes_nested n).1
  have hunary := follows_unary hpower
  have hproduct := follows_product hunary (recognizes_subParser n .unary)
  cases l with
  | primary => exact follows_primary hinner (recognizes_nested n).1
  | power => exact hpower
  | unary => exact hunary
  | product => exact hproduct
  | sum => exact follows_sum hproduct (recognizes_subParser n .product)

/-- Going deeper agrees with the sub-parsers that have as many levels left as there are below the
greatest depth. -/
theorem innerFollows_nested (ts : List Lexeme) (depth : Nat) :
    InnerFollows ts depth (nested (maxDepth - depth)) := by
  induction hn : maxDepth - depth generalizing depth with
  | zero =>
      have hdeep : maxDepth ≤ depth := Nat.sub_eq_zero_iff_le.mp hn
      constructor
      · intro pos next f _
        rw [Program.deeper, if_pos hdeep]
        exact .done _
      · intro pos next f _
        rw [Program.deeper, if_pos hdeep]
        exact .done _
  | succ n ih =>
      have hdeep : ¬maxDepth ≤ depth := by omega
      have hinner := ih (depth + 1) (by omega)
      constructor
      · intro pos next f hnext
        rw [Program.deeper, if_neg hdeep]
        exact evaluates_call (follows_level hinner .sum pos) hnext
      · intro pos next f hnext
        rw [Program.deeper, if_neg hdeep]
        exact evaluates_call (follows_level hinner .unary pos) hnext

/-- A call of a procedure has the outcome of the sub-parser that it stands for. -/
theorem follows_subParser (ts : List Lexeme) (depth : Nat) (l : Level) :
    Follows ts depth (.level l) (subParser (nested (maxDepth - depth)) l) :=
  follows_level (innerFollows_nested ts depth) l

end Agreement

end FormulaBar.Formula
