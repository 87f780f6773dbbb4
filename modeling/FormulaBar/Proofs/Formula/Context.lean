import FormulaBar.Proofs.Formula.Procedures

/-!
# The parser in context

What stands before the start of a call shifts the positions that it reports, and what it is nested
in can make it give up. Nothing else about its surroundings counts.

A call in a longer text and at a greater depth *trails* the call in the text by itself: it reads the
same lexemes and makes the same calls, further on and deeper. The two part only where a parenthesis
or an exponent goes one level deeper, as only there the depth is looked at.

1. **Shifted** outcomes.
2. **Trailing programs**: one step of a procedure, in two places.
3. **Trailing runs**.
4. **Calls** of the levels.
-/

namespace FormulaBar.Formula

/-! ## Shifted outcomes -/

/-- The same fault with `k` more lexemes before it. -/
def Error.shift (k : Nat) : Error → Error
  | .unexpectedLexeme position found => .unexpectedLexeme (k + position) found
  | .unmatchedClosingParen position => .unmatchedClosingParen (k + position)
  | e => e

/-- The same outcome with `k` more lexemes before it. -/
def Outcome.shift (k : Nat) : Outcome → Outcome
  | .ok (tree, pos) => .ok (tree, k + pos)
  | .error e => .error (e.shift k)

@[simp]
theorem Error.shift_zero (e : Error) : e.shift 0 = e := by
  cases e <;> simp [shift]

@[simp]
theorem Outcome.shift_zero (r : Outcome) : r.shift 0 = r := by
  rcases r with e | ⟨tree, pos⟩ <;> simp [shift]

/-- An outcome with `k` more lexemes before it, or that of a run which gives up since it stands
`gap` levels deeper. -/
def Outcome.TrailedBy (k gap : Nat) (r r' : Outcome) : Prop :=
  r' = r.shift k ∨ 0 < gap ∧ r' = .error .tooDeep

/-! ## Trailing programs -/

/-- The second program does what the first does, `k` lexemes further on and `gap` levels deeper. It
may give up at any time if it stands deeper at all. -/
inductive Program.TrailedBy (k gap : Nat) : Program → Program → Prop where
  | done (r : Outcome) : TrailedBy k gap (.done r) (.done (r.shift k))
  | read {pos : Nat} {next next' : Lexeme → Program} (h : ∀ t, TrailedBy k gap (next t) (next' t)) :
      TrailedBy k gap (.read pos next) (.read (k + pos) next')
  | call {p : Procedure} {pos depth : Nat} {next next' : Tree → Nat → Program}
      (h : ∀ tree pos, TrailedBy k gap (next tree pos) (next' tree (k + pos))) :
      TrailedBy k gap (.call p pos depth next) (.call p (k + pos) (gap + depth) next')
  | tooDeep (program : Program) (h : 0 < gap) : TrailedBy k gap program (.fail .tooDeep)

namespace Program

variable {k gap length pos depth : Nat}

theorem trailed_ret (tree : Tree) (pos : Nat) :
    TrailedBy k gap (ret tree pos) (ret tree (k + pos)) :=
  .done (.ok (tree, pos))

/-- Both look at the same lexeme, or at the end of their texts. -/
theorem trailed_look {next next' : Option Lexeme → Program}
    (h : ∀ t, TrailedBy k gap (next t) (next' t)) :
    TrailedBy k gap (look length pos next) (look (k + length) (k + pos) next') := by
  unfold look
  by_cases hpos : pos < length
  · rw [if_pos hpos, if_pos (Nat.add_lt_add_left hpos k)]
    exact .read fun t => h (some t)
  · rw [if_neg hpos, if_neg (fun hlt => hpos (Nat.lt_of_add_lt_add_left hlt))]
    exact h none

/-- Where one more level is too deep for both, they fail alike. Where it is for the second only,
that one stands deeper. -/
theorem trailed_deeper {next next' : Nat → Program}
    (h : ∀ depth, TrailedBy k gap (next depth) (next' (gap + depth))) :
    TrailedBy k gap (deeper depth next) (deeper (gap + depth) next') := by
  unfold deeper
  by_cases hdeep : maxDepth ≤ depth
  · rw [if_pos hdeep, if_pos (Nat.le_add_left_of_le hdeep)]
    exact .done (.error .tooDeep)
  · rw [if_neg hdeep]
    split
    · next hdeep' => exact .tooDeep _ (by omega)
    · exact h (depth + 1)

end Program

/-- A procedure does the same wherever it is called: further on in a longer text, and deeper. -/
def Procedure.Uniform (p : Procedure) : Prop :=
  ∀ k gap length pos depth, Program.TrailedBy k gap (p.body length pos depth)
    (p.body (k + length) (k + pos) (gap + depth))

section Uniform

open Program

/-- An operand is read, and the loop goes on behind it. -/
theorem trailed_operand {k gap : Nat} {p : Procedure} {loop : Tree → Procedure} {pos depth : Nat} :
    TrailedBy k gap
      (.call p pos depth fun right pos => .call (loop right) pos depth ret)
      (.call p (k + pos) (gap + depth) fun right pos =>
        .call (loop right) pos (gap + depth) ret) := by
  refine .call ?_
  intro right pos
  exact .call trailed_ret

theorem uniform_terms (left : Tree) : (Procedure.terms left).Uniform := by
  intro k gap length pos depth
  rw [Procedure.body, Procedure.body]
  refine trailed_look ?_
  intro t
  rcases t with _ | v | op
  · exact trailed_ret left pos
  · exact trailed_ret left pos
  · cases op with
    | add | sub => exact trailed_operand
    | mul | div | pow | lparen | rparen => exact trailed_ret left pos

theorem uniform_factors (left : Tree) : (Procedure.factors left).Uniform := by
  intro k gap length pos depth
  rw [Procedure.body, Procedure.body]
  refine trailed_look ?_
  intro t
  rcases t with _ | v | op
  · exact trailed_ret left pos
  · exact trailed_ret left pos
  · cases op with
    | mul | div | lparen => exact trailed_operand
    | add | sub | pow | rparen => exact trailed_ret left pos

theorem uniform_signs (negate : Bool) : (Procedure.signs negate).Uniform := by
  intro k gap length pos depth
  have hend : TrailedBy k gap
      (.call (.level .power) pos depth fun tree pos =>
        ret (if negate then .neg tree else tree) pos)
      (.call (.level .power) (k + pos) (gap + depth) fun tree pos =>
        ret (if negate then .neg tree else tree) pos) :=
    .call fun tree pos => trailed_ret _ pos
  rw [Procedure.body, Procedure.body]
  refine trailed_look ?_
  intro t
  rcases t with _ | v | op
  · exact hend
  · exact hend
  · cases op with
    | add | sub => exact .call trailed_ret
    | mul | div | pow | lparen | rparen => exact hend

theorem uniform_power : (Procedure.level .power).Uniform := by
  intro k gap length pos depth
  refine .call ?_
  intro base pos
  refine trailed_look ?_
  intro t
  rcases t with _ | v | op
  · exact trailed_ret base pos
  · exact trailed_ret base pos
  · cases op with
    | pow =>
        refine trailed_deeper ?_
        intro depth
        exact .call fun exponent pos => trailed_ret _ pos
    | add | sub | mul | div | lparen | rparen => exact trailed_ret base pos

theorem uniform_primary : (Procedure.level .primary).Uniform := by
  intro k gap length pos depth
  rw [Procedure.body, Procedure.body]
  refine trailed_look ?_
  intro t
  rcases t with _ | v | op
  · exact .done (.error .unexpectedEnd)
  · exact trailed_ret (.number v) (pos + 1)
  · cases op with
    | add | sub | mul | div | pow | rparen => exact .done (.error (.unexpectedLexeme pos _))
    | lparen =>
        refine trailed_deeper ?_
        intro depth
        refine .call ?_
        intro tree pos
        -- behind the body the closing parenthesis is looked for
        refine trailed_look ?_
        intro t
        rcases t with _ | v | op
        · exact .done (.error .missingClosingParen)
        · exact .done (.error (.unexpectedLexeme pos (.number v)))
        · cases op with
          | rparen => exact trailed_ret tree (pos + 1)
          | add | sub | mul | div | pow | lparen =>
              exact .done (.error (.unexpectedLexeme pos _))

theorem Procedure.uniform (p : Procedure) : p.Uniform := by
  cases p with
  | terms left => exact uniform_terms left
  | factors left => exact uniform_factors left
  | signs negate => exact uniform_signs negate
  | level l =>
      cases l with
      | primary => exact uniform_primary
      | power => exact uniform_power
      | unary =>
          intro k gap length pos depth
          exact .call trailed_ret
      | product | sum =>
          intro k gap length pos depth
          exact trailed_operand

/-- A procedure within a longer text trails the one in the text by itself. -/
theorem body_trailed (p : Procedure) (before ts : List Lexeme) (gap pos depth : Nat) :
    TrailedBy before.length gap (p.body ts.length pos depth)
      (p.body (before ++ ts).length (before.length + pos) (gap + depth)) := by
  rw [List.length_append]
  exact p.uniform before.length gap ts.length pos depth

end Uniform

/-! ## Trailing runs -/

/-- A program that trails another comes to an outcome if that one does, and to the same one unless
it gives up. -/
theorem Evaluates.trailed {before ts : List Lexeme} {gap : Nat} {program program' : Program}
    {r : Outcome} (h : Evaluates ts program r)
    (htrailed : program.TrailedBy before.length gap program') :
    ∃ r', Evaluates (before ++ ts) program' r' ∧ r.TrailedBy before.length gap r' := by
  -- along the run of the first program: whatever it calls is trailed in turn
  induction h generalizing program' with
  | done r =>
      cases htrailed with
      | tooDeep _ hgap => exact ⟨_, .done _, .inr ⟨hgap, rfl⟩⟩
      | done => exact ⟨_, .done _, .inl rfl⟩
  | @read pos next r hpos _ ih =>
      cases htrailed with
      | tooDeep _ hgap => exact ⟨_, .done _, .inr ⟨hgap, rfl⟩⟩
      | read hnext =>
          have hpos' : before.length + pos < (before ++ ts).length := by
            rw [List.length_append]
            exact Nat.add_lt_add_left hpos _
          have hget : (before ++ ts)[before.length + pos] = ts[pos] := by
            rw [List.getElem_append_right (Nat.le_add_right _ _)]
            simp only [Nat.add_sub_cancel_left]
          obtain ⟨r', hr', hr⟩ := ih (hnext ts[pos])
          rw [← hget] at hr'
          exact ⟨r', .read hpos' hr', hr⟩
  | @call p pos depth pos' tree next r _ _ ihcall ihnext =>
      cases htrailed with
      | tooDeep _ hgap => exact ⟨_, .done _, .inr ⟨hgap, rfl⟩⟩
      | call hnext =>
          -- what is called comes back with the same tree, or gives up
          obtain ⟨_, hcalled, rfl | ⟨hgap, rfl⟩⟩ :=
            ihcall (body_trailed p before ts gap pos depth)
          · obtain ⟨r', hr', hr⟩ := ihnext (hnext tree pos')
            exact ⟨r', .call hcalled hr', hr⟩
          · exact ⟨_, .fault hcalled, .inr ⟨hgap, rfl⟩⟩
  | @fault p pos depth next e _ ihcall =>
      cases htrailed with
      | tooDeep _ hgap => exact ⟨_, .done _, .inr ⟨hgap, rfl⟩⟩
      | call _ =>
          obtain ⟨_, hcalled, rfl | ⟨hgap, rfl⟩⟩ :=
            ihcall (body_trailed p before ts gap pos depth)
          · exact ⟨_, .fault hcalled, .inl rfl⟩
          · exact ⟨_, .fault hcalled, .inr ⟨hgap, rfl⟩⟩

/-! ## Calls of the levels -/

namespace Level

/-- What the sub-parser of a level makes of a text, called at a position and a depth. -/
def parse (l : Level) (ts : List Lexeme) (pos depth : Nat) : Outcome :=
  outcome (subParser (nested (maxDepth - depth)) l pos (ts.drop pos))

/-- It is what the procedure of the level comes to. -/
theorem evaluates_iff {l : Level} {ts : List Lexeme} {pos depth : Nat} {r : Outcome} :
    Evaluates ts ((Procedure.level l).body ts.length pos depth) r ↔ r = l.parse ts pos depth := by
  have h : Evaluates ts ((Procedure.level l).body ts.length pos depth) (l.parse ts pos depth) :=
    follows_subParser ts depth l pos
  constructor
  · intro hr
    exact hr.unique h
  · rintro rfl
    exact h

/-- A call in a longer text and at a greater depth trails the call in the text by itself. -/
theorem parse_trailed (l : Level) (before ts : List Lexeme) (pos depth gap : Nat) :
    (l.parse ts pos depth).TrailedBy before.length gap
      (l.parse (before ++ ts) (before.length + pos) (gap + depth)) := by
  have hself := evaluates_iff.mpr (Eq.refl (l.parse ts pos depth))
  obtain ⟨r, hr, htrailed⟩ := hself.trailed (body_trailed (.level l) before ts gap pos depth)
  rwa [evaluates_iff.mp hr] at htrailed

/-- Every call of a level comes to one outcome. A call at a smaller depth comes to the same one,
unless the call was nested too deeply. With other lexemes before its start a call comes to the same
one too, but for its positions, which count those lexemes.

So the limit on the depth does no more than to make a call give up, and what stands anywhere in a
text is read as it is by itself. -/
theorem parse_in_context :
    (∀ (l : Level) (ts : List Lexeme) (pos depth : Nat) (r : Outcome),
      Evaluates ts ((Procedure.level l).body ts.length pos depth) r ↔ r = l.parse ts pos depth) ∧
    (∀ (l : Level) (ts : List Lexeme) (pos depth depth' : Nat), depth ≤ depth' →
      l.parse ts pos depth' ≠ .error .tooDeep →
      l.parse ts pos depth = l.parse ts pos depth') ∧
    ∀ (l : Level) (before ts : List Lexeme) (pos depth : Nat),
      l.parse (before ++ ts) (before.length + pos) depth =
        (l.parse ts pos depth).shift before.length := by
  refine ⟨fun _ _ _ _ _ => evaluates_iff, ?_, ?_⟩
  · intro l ts pos depth depth' hle hne
    obtain ⟨gap, rfl⟩ := Nat.exists_eq_add_of_le' hle
    have htrailed := l.parse_trailed [] ts pos depth gap
    rw [List.nil_append, List.length_nil, Nat.zero_add] at htrailed
    rcases htrailed with h | ⟨-, h⟩
    · rw [h, Outcome.shift_zero]
    · exact absurd h hne
  · intro l before ts pos depth
    have htrailed := l.parse_trailed before ts pos depth 0
    rw [Nat.zero_add] at htrailed
    rcases htrailed with h | ⟨hgap, -⟩
    · exact h
    · exact absurd hgap (Nat.lt_irrefl 0)

/-- A group that lacks its exponent: `(3 ^ )`. -/
def openPower : List Lexeme := [opening, .number 3, caret, closing]

/-- What is wrong with it is found at any depth up to 254, and in the same place wherever it stands.
One level deeper the exponent is not come to. -/
theorem openPower_in_context :
    (0 ≤ 254 ∧ sum.parse openPower 0 254 ≠ .error .tooDeep) ∧
      sum.parse openPower 0 0 = .error (.unexpectedLexeme 3 closing) ∧
      sum.parse ([.number 2, .operator .add] ++ openPower) 2 0 =
        .error (.unexpectedLexeme 5 closing) ∧
      sum.parse openPower 0 255 = .error .tooDeep := by
  have hdeep : sum.parse openPower 0 254 = .error (.unexpectedLexeme 3 closing) := rfl
  have hne : sum.parse openPower 0 254 ≠ .error .tooDeep := by
    rw [hdeep]
    exact nofun
  have hself : sum.parse openPower 0 0 = .error (.unexpectedLexeme 3 closing) :=
    (parse_in_context.2.1 _ _ _ _ _ (by decide) hne).trans hdeep
  have hwithin := parse_in_context.2.2 sum [.number 2, .operator .add] openPower 0 0
  rw [hself] at hwithin
  exact ⟨⟨by decide, hne⟩, hself, hwithin, rfl⟩

end Level

end FormulaBar.Formula
