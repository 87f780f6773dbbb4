import FormulaBar.Proofs.Formula.Recognition
import FormulaBar.Proofs.Formula.Scanning

/-!
# The parser stops where scanning does

A sub-parser goes from lexeme to lexeme just as a scan does. It stops with a fault at the first
lexeme that leads too deep or that cannot stand where it does, or else at the end of the text.

1. **Verdicts**: the fault that scanning finds in a text.
2. **Faring**: how a sub-parser goes along with a scan.
3. **Sub-parsers**, from primaries to sums, each over the one below, and then round by induction on
   the nesting that is left.
4. **Whole texts**: the fault of a text is the verdict on it.
-/

namespace FormulaBar.Formula

/-! ## Verdicts -/

/-- The fault of a text that is scanned from a state at a position, with `limit` levels allowed. -/
def verdict (limit : Nat) (q : Scan) (pos : Nat) : List Lexeme → Option Error
  | [] =>
    if limit < q.depth then some .tooDeep
    else if q.filled = false then some .unexpectedEnd
    else if q.outer = [] then none
    else some .missingClosingParen
  | t :: ts =>
    if limit < q.depth then some .tooDeep
    else
      match q.step t with
      | some q' => verdict limit q' (pos + 1) ts
      | none =>
        if t = closing ∧ q.filled = true then some (.unmatchedClosingParen pos)
        else some (.unexpectedLexeme pos t)

section Verdict

variable {limit pos : Nat} {q q' : Scan} {t : Lexeme} {ts us : List Lexeme}

theorem verdict_tooDeep (h : limit < q.depth) : verdict limit q pos ts = some .tooDeep := by
  cases ts with
  | nil => exact if_pos h
  | cons t ts => exact if_pos h

theorem verdict_step (hdepth : q.depth ≤ limit) (hstep : q.step t = some q') :
    verdict limit q pos (t :: ts) = verdict limit q' (pos + 1) ts := by
  rw [verdict, if_neg (Nat.not_lt.mpr hdepth), hstep]

theorem verdict_unexpected (hdepth : q.depth ≤ limit) (hstep : q.step t = none)
    (hother : ¬(t = closing ∧ q.filled = true)) :
    verdict limit q pos (t :: ts) = some (.unexpectedLexeme pos t) := by
  rw [verdict, if_neg (Nat.not_lt.mpr hdepth), hstep]
  exact if_neg hother

theorem verdict_unmatched (hdepth : q.depth ≤ limit) (hstep : q.step closing = none)
    (hfilled : q.filled = true) :
    verdict limit q pos (closing :: ts) = some (.unmatchedClosingParen pos) := by
  rw [verdict, if_neg (Nat.not_lt.mpr hdepth), hstep]
  exact if_pos ⟨rfl, hfilled⟩

theorem verdict_end (hdepth : q.depth ≤ limit) (hfilled : q.filled = false) :
    verdict limit q pos [] = some .unexpectedEnd := by
  rw [verdict, if_neg (Nat.not_lt.mpr hdepth), if_pos hfilled]

theorem verdict_missing (hdepth : q.depth ≤ limit) (hfilled : q.filled = true)
    (hopen : q.outer ≠ []) : verdict limit q pos [] = some .missingClosingParen := by
  rw [verdict, if_neg (Nat.not_lt.mpr hdepth), if_neg (by simp [hfilled]), if_neg hopen]

theorem verdict_none (hdepth : q.depth ≤ limit) (hfilled : q.filled = true)
    (hclosed : q.outer = []) : verdict limit q pos [] = none := by
  rw [verdict, if_neg (Nat.not_lt.mpr hdepth), if_neg (by simp [hfilled]), if_pos hclosed]

end Verdict

/-! ## Faring -/

/-- A sub-parser goes along with a scan from a state on, `limit` levels deep at most, until its part
of the text is `Done` or there is a fault. -/
inductive Fares (limit : Nat) (Done : Scan → List Lexeme → Prop) :
    Scan → Nat → List Lexeme → Except Error Reading → Prop where
  | tooDeep {q : Scan} {pos : Nat} {ts : List Lexeme} (hdepth : limit < q.depth) :
      Fares limit Done q pos ts (.error .tooDeep)
  | done {q : Scan} {pos : Nat} {ts : List Lexeme} {tree : Tree} (hdepth : q.depth ≤ limit)
      (hdone : Done q ts) : Fares limit Done q pos ts (.ok (tree, pos, ts))
  | stuck {q : Scan} {pos : Nat} {t : Lexeme} {ts : List Lexeme} (hdepth : q.depth ≤ limit)
      (hstep : q.step t = none) (hother : ¬(t = closing ∧ q.filled = true)) :
      Fares limit Done q pos (t :: ts) (.error (.unexpectedLexeme pos t))
  | missing {q : Scan} {pos : Nat} (hdepth : q.depth ≤ limit) (hfilled : q.filled = true)
      (hopen : q.outer ≠ []) : Fares limit Done q pos [] (.error .missingClosingParen)
  | ended {q : Scan} {pos : Nat} (hdepth : q.depth ≤ limit) (hfilled : q.filled = false) :
      Fares limit Done q pos [] (.error .unexpectedEnd)
  | next {q q' : Scan} {pos : Nat} {t : Lexeme} {ts : List Lexeme} {r : Except Error Reading}
      (hdepth : q.depth ≤ limit) (hstep : q.step t = some q')
      (h : Fares limit Done q' (pos + 1) ts r) : Fares limit Done q pos (t :: ts) r

namespace Fares

variable {limit pos : Nat} {Done Done' : Scan → List Lexeme → Prop} {q q' : Scan} {t : Lexeme}
  {ts : List Lexeme} {r : Except Error Reading}

/-- What goes on where a sub-parser is done goes on with the scan. -/
theorem bind {f : Reading → Except Error Reading} (h : Fares limit Done q pos ts r)
    (hf : ∀ q' tree pos' ws, q'.depth ≤ limit → Done q' ws → ws.length ≤ ts.length →
      Fares limit Done' q' pos' ws (f (tree, pos', ws))) :
    Fares limit Done' q pos ts (r >>= f) := by
  induction h with
  | tooDeep hdepth => exact .tooDeep hdepth
  | done hdepth hdone => exact hf _ _ _ _ hdepth hdone (Nat.le_refl _)
  | stuck hdepth hstep hother => exact .stuck hdepth hstep hother
  | missing hdepth hfilled hopen => exact .missing hdepth hfilled hopen
  | ended hdepth hfilled => exact .ended hdepth hfilled
  | next hdepth hstep _ ih =>
      refine .next hdepth hstep (ih ?_)
      intro q' tree pos' ws hdepth' hdone hlength
      exact hf q' tree pos' ws hdepth' hdone (Nat.le_succ_of_le hlength)

/-- The tree makes no difference. -/
theorem map (h : Fares limit Done q pos ts r) (g : Tree → Tree) :
    Fares limit Done q pos ts (r.map fun (tree, rest) => (g tree, rest)) := by
  induction h with
  | tooDeep hdepth => exact .tooDeep hdepth
  | done hdepth hdone => exact .done hdepth hdone
  | stuck hdepth hstep hother => exact .stuck hdepth hstep hother
  | missing hdepth hfilled hopen => exact .missing hdepth hfilled hopen
  | ended hdepth hfilled => exact .ended hdepth hfilled
  | next hdepth hstep _ ih => exact .next hdepth hstep ih

/-- A sub-parser that is not done before a lexeme has gone on with it. -/
theorem of_step (h : Fares limit Done q pos (t :: ts) r) (hdepth : q.depth ≤ limit)
    (hstep : q.step t = some q') (hdone : ¬ Done q (t :: ts)) :
    Fares limit Done q' (pos + 1) ts r := by
  cases h with
  | tooDeep hdeep => exact absurd hdeep (Nat.not_lt.mpr hdepth)
  | done _ hdone' => exact absurd hdone' hdone
  | stuck _ hstuck =>
      rw [hstep] at hstuck
      cases hstuck
  | next _ hstep' h =>
      rw [hstep] at hstep'
      cases hstep'
      exact h

end Fares

/-! ## Sub-parsers -/

/-- Where a phrase of a level has been read, given the parentheses that were open before. -/
def Stops (l : Level) (outer : List Nat) (q : Scan) (ws : List Lexeme) : Prop :=
  q.filled = true ∧ q.outer = outer ∧ l.Ends ws

/-- What follows on the sum in a parenthesis. -/
def afterGroup : Reading → Except Error Reading
  | (_, _, []) => .error .missingClosingParen
  | (tree, pos, .operator .rparen :: ts) => .ok (tree, pos + 1, ts)
  | (_, pos, t :: _) => .error (.unexpectedLexeme pos t)

/-- What follows on a primary. -/
def afterPrimary (inner : Inner) : Reading → Except Error Reading
  | (base, pos, .operator .pow :: ts) =>
    (inner.exponent (pos + 1) ts).map fun (tree, rest) => (.binary .pow base tree, rest)
  | reading => .ok reading

/-- The sub-parsers one level deeper go along with scans that are one level deeper, where `n` levels
are left. -/
structure Inner.Fares (limit n : Nat) (inner : Inner) : Prop where
  group : ∀ q pos ts, q.filled = false → q.powers = 0 → q.depth + n = limit + 1 →
    Formula.Fares limit (Stops .sum q.outer) q pos ts (inner.group pos ts)
  exponent : ∀ q pos ts, q.filled = false → q.depth + n = limit + 1 →
    Formula.Fares limit (Stops .unary q.outer) q pos ts (inner.exponent pos ts)

section SubParsers

variable {inner : Inner} {limit n pos : Nat} {q : Scan} {ts : List Lexeme}

theorem primary_opening :
    primary inner pos (opening :: ts) = inner.group (pos + 1) ts >>= afterGroup := by
  cases hgroup : inner.group (pos + 1) ts with
  | error e =>
      simp only [primary, hgroup]
      rfl
  | ok r =>
      obtain ⟨tree, pos', ws⟩ := r
      show _ = afterGroup (tree, pos', ws)
      simp only [primary, hgroup, afterGroup]
      rcases ws with _ | ⟨v | op, ws⟩
      · rfl
      · rfl
      · cases op <;> rfl

theorem afterPrimary_end {base : Tree} (hend : Level.power.Ends ts) :
    afterPrimary inner (base, pos, ts) = .ok (base, pos, ts) := by
  rcases ts with _ | ⟨v | op, ts⟩
  · rfl
  · rfl
  · cases op with
    | pow => cases hend
    | add | sub | mul | div | lparen | rparen => rfl

theorem power_eq : power inner pos ts = primary inner pos ts >>= afterPrimary inner := by
  cases hbase : primary inner pos ts with
  | error e =>
      rw [power, hbase]
      rfl
  | ok r =>
      obtain ⟨base, pos', ws⟩ := r
      show _ = afterPrimary inner (base, pos', ws)
      rcases Level.ends_power_or_caret ws with hend | ⟨vs, rfl⟩
      · rw [power_end hbase hend, afterPrimary_end hend]
      · rw [power_caret hbase]
        rfl

/-- The parenthesis is closed, or another lexeme stands where it should be closed. -/
theorem fares_afterGroup {outer : List Nat} {powers : Nat} (hdepth : q.depth ≤ limit)
    (hstops : Stops .sum (powers :: outer) q ts)
    (hclosed : (⟨outer, powers, true⟩ : Scan).depth ≤ limit) (tree : Tree) :
    Fares limit (fun q' _ => q' = ⟨outer, powers, true⟩) q pos ts (afterGroup (tree, pos, ts)) := by
  obtain ⟨hfilled, houter, hend⟩ := hstops
  rcases ts with _ | ⟨v | op, ts⟩
  · exact .missing hdepth hfilled (by simp [houter])
  · exact .stuck hdepth (Scan.step_number_of_filled hfilled v) (by simp)
  · cases op with
    | rparen => exact .next hdepth (Scan.step_closing houter hfilled) (.done hclosed rfl)
    | add | sub | mul | div | pow | lparen => cases hend

theorem fares_primary (hinner : inner.Fares limit n) (hfilled : q.filled = false)
    (hdepth : q.depth + n = limit) (hsigned : signed ts = false) :
    Fares limit (fun q' _ => q' = { q with filled := true }) q pos ts (primary inner pos ts) := by
  have hle : q.depth ≤ limit := hdepth ▸ Nat.le_add_right _ _
  rcases ts with _ | ⟨v | op, ts⟩
  · exact .ended hle hfilled
  · exact .next hle (Scan.step_number hfilled v) (.done hle rfl)
  · cases op with
    | add | sub => cases hsigned
    | mul | div | pow =>
        refine .stuck hle ?_ (by simp)
        simp only [Scan.step, hfilled]
        rfl
    | rparen =>
        refine .stuck hle ?_ (by simp [hfilled])
        simp only [Scan.step, hfilled]
        split <;> rfl
    | lparen =>
        have hopening := q.depth_opening
        rw [Scan.due_of_not_filled hfilled] at hopening
        rw [primary_opening]
        refine .next hle (Scan.step_opening hfilled) ?_
        refine (hinner.group _ _ _ rfl rfl (by omega)).bind ?_
        intro q' tree pos' ws hle' hstops _
        exact fares_afterGroup hle' hstops hle tree

theorem fares_power (hinner : inner.Fares limit n) (hfilled : q.filled = false)
    (hdepth : q.depth + n = limit) (hsigned : signed ts = false) :
    Fares limit (Stops .unary q.outer) q pos ts (power inner pos ts) := by
  rw [power_eq]
  refine (fares_primary hinner hfilled hdepth hsigned).bind ?_
  rintro q' tree pos' ws hle' rfl _
  rcases Level.ends_power_or_caret ws with hend | ⟨vs, rfl⟩
  · rw [afterPrimary_end hend]
    exact .done hle' ⟨rfl, rfl, hend⟩
  · -- an exponent follows, one level deeper
    have hdepth' : (⟨q.outer, q.powers + 1, false⟩ : Scan).depth + n = limit + 1 := by
      show q.powers + 1 + q.ground + n = limit + 1
      have h : q.powers + q.ground + n = limit := hdepth
      omega
    exact .next hle' (Scan.step_caret rfl) ((hinner.exponent _ _ _ rfl hdepth').map _)

/-- Signs in front of an operand leave the state as it is. -/
theorem Fares.signs {Done : Scan → List Lexeme → Prop} {r : Except Error Reading}
    (hfilled : q.filled = false) (hle : q.depth ≤ limit) (ss : List Sign)
    (h : Fares limit Done q (pos + ss.length) ts r) :
    Fares limit Done q pos (ss.map Sign.lexeme ++ ts) r := by
  induction ss generalizing pos with
  | nil => exact h
  | cons s ss ih =>
      have hstep : q.step s.lexeme = some q := by
        rw [Scan.step_sign, Scan.due_of_not_filled hfilled]
      refine .next hle hstep (ih ?_)
      have hpos : pos + 1 + ss.length = pos + (ss.length + 1) := by omega
      rw [hpos]
      exact h

theorem fares_unary (hinner : inner.Fares limit n) (hfilled : q.filled = false)
    (hdepth : q.depth + n = limit) :
    Fares limit (Stops .unary q.outer) q pos ts (unary inner pos ts) := by
  obtain ⟨ss, us, rfl, hus⟩ := exists_signs ts
  rw [unary_append hus]
  refine .signs hfilled (hdepth ▸ Nat.le_add_right _ _) ss ?_
  exact (fares_power hinner hfilled hdepth hus).map fun tree =>
    if negates ss then .neg tree else tree

/-- The further factors of a product, none of which stands in an exponent that was begun before. -/
theorem fares_factors (hinner : inner.Fares limit n) {outer : List Nat}
    (hground : (⟨outer, 0, false⟩ : Scan).depth + n = limit) {fuel : Nat} {left : Tree}
    (hle : q.depth ≤ limit) (hstops : Stops .unary outer q ts) (hfuel : ts.length ≤ fuel) :
    Fares limit (Stops .product outer) q pos ts (factors inner fuel left pos ts) := by
  induction fuel generalizing q left pos ts with
  | zero =>
      rw [List.eq_nil_of_length_eq_zero (Nat.le_zero.mp hfuel)]
      exact .done hle ⟨hstops.1, hstops.2.1, trivial⟩
  | succ fuel ih =>
      obtain ⟨hfilled, rfl, hend⟩ := hstops
      have hdue := Scan.due_of_filled hfilled
      have hnext : ∀ pos ts, Fares limit (Stops .unary q.outer) ⟨q.outer, 0, false⟩ pos ts
          (unary inner pos ts) := fun _ _ => fares_unary hinner rfl hground
      rcases hend.product_or_factor with hend | ⟨s, ts, rfl⟩ | ⟨ts, rfl⟩
      · -- the product ends here
        rw [factors_end hend]
        exact .done hle ⟨hfilled, rfl, hend⟩
      · -- a scaling and a further factor
        have hstep : q.step s.lexeme = some ⟨q.outer, 0, false⟩ := by
          rw [Scan.step_scaling hfilled, hdue]
        rw [factors_scaling]
        refine .next hle hstep ((hnext _ _).bind ?_)
        intro q' tree pos' ws hle' hstops' hlength
        exact ih hle' hstops' (Nat.le_trans hlength (Nat.le_of_succ_le_succ hfuel))
      · -- a factor that starts with a parenthesis: it is read from the state in front of an operand,
        -- of which the parenthesis makes the same as of the state behind the last factor
        have hstep : q.step opening = some ⟨0 :: q.outer, 0, false⟩ := by
          rw [← q.step_due_opening, hdue]
          rfl
        have hopen := (hnext pos (opening :: ts)).of_step (hground ▸ Nat.le_add_right _ _) rfl nofun
        rw [factors_opening]
        refine .next hle hstep (hopen.bind ?_)
        intro q' tree pos' ws hle' hstops' hlength
        exact ih hle' hstops' (Nat.le_trans hlength (Nat.le_of_succ_le_succ hfuel))

theorem fares_product (hinner : inner.Fares limit n) (hfilled : q.filled = false)
    (hpowers : q.powers = 0) (hdepth : q.depth + n = limit) :
    Fares limit (Stops .product q.outer) q pos ts (product inner pos ts) := by
  have hground : (⟨q.outer, 0, false⟩ : Scan).depth + n = limit := by
    rw [Scan.depth_outer hpowers, hdepth]
  refine (fares_unary hinner hfilled hdepth).bind ?_
  intro q' tree pos' ws hle' hstops _
  exact fares_factors hinner hground hle' hstops (Nat.le_refl _)

theorem fares_terms (hinner : inner.Fares limit n) {outer : List Nat}
    (hground : (⟨outer, 0, false⟩ : Scan).depth + n = limit) {fuel : Nat} {left : Tree}
    (hle : q.depth ≤ limit) (hstops : Stops .product outer q ts) (hfuel : ts.length ≤ fuel) :
    Fares limit (Stops .sum outer) q pos ts (terms inner fuel left pos ts) := by
  induction fuel generalizing q left pos ts with
  | zero =>
      rw [List.eq_nil_of_length_eq_zero (Nat.le_zero.mp hfuel)]
      exact .done hle ⟨hstops.1, hstops.2.1, trivial⟩
  | succ fuel ih =>
      obtain ⟨hfilled, rfl, hend⟩ := hstops
      rcases hend.sum_or_sign with hend | ⟨s, ts, rfl⟩
      · -- the sum ends here
        rw [terms_end hend]
        exact .done hle ⟨hfilled, rfl, hend⟩
      · -- a sign and a further term
        have hstep : q.step s.lexeme = some ⟨q.outer, 0, false⟩ := by
          rw [Scan.step_sign, Scan.due_of_filled hfilled]
        have hnext : Fares limit (Stops .product q.outer) ⟨q.outer, 0, false⟩ (pos + 1) ts
            (product inner (pos + 1) ts) := fares_product hinner rfl rfl hground
        rw [terms_sign]
        refine .next hle hstep (hnext.bind ?_)
        intro q' tree pos' ws hle' hstops' hlength
        exact ih hle' hstops' (Nat.le_trans hlength (Nat.le_of_succ_le_succ hfuel))

theorem fares_sum (hinner : inner.Fares limit n) (hfilled : q.filled = false)
    (hpowers : q.powers = 0) (hdepth : q.depth + n = limit) :
    Fares limit (Stops .sum q.outer) q pos ts (sum inner pos ts) := by
  have hground : (⟨q.outer, 0, false⟩ : Scan).depth + n = limit := by
    rw [Scan.depth_outer hpowers, hdepth]
  refine (fares_product hinner hfilled hpowers hdepth).bind ?_
  intro q' tree pos' ws hle' hstops _
  exact fares_terms hinner hground hle' hstops (Nat.le_refl _)

end SubParsers

/-- Where no level is left, going deeper is the fault. -/
theorem fares_nested (limit n : Nat) : (nested n).Fares limit n := by
  induction n with
  | zero =>
      have hdeep : ∀ {q : Scan}, q.depth + 0 = limit + 1 → limit < q.depth := by
        intro q hdepth
        omega
      constructor
      · intro q pos ts _ _ hdepth
        exact .tooDeep (hdeep hdepth)
      · intro q pos ts _ hdepth
        exact .tooDeep (hdeep hdepth)
  | succ n ih =>
      constructor
      · intro q pos ts hfilled hpowers hdepth
        exact fares_sum ih hfilled hpowers (by omega)
      · intro q pos ts hfilled hdepth
        exact fares_unary ih hfilled (by omega)

/-! ## Whole texts -/

/-- What follows on the sum that a text begins with. -/
def afterSum : Except Error Reading → Except Error Tree
  | .error e => .error e
  | .ok (tree, _, []) => .ok tree
  | .ok (_, pos, .operator .rparen :: _) => .error (.unmatchedClosingParen pos)
  | .ok (_, pos, t :: _) => .error (.unexpectedLexeme pos t)

/-- The fault of a text is the verdict on it. -/
theorem Fares.afterSum_eq_error_iff {limit pos : Nat} {q : Scan} {ts : List Lexeme}
    {r : Except Error Reading} (h : Fares limit (Stops .sum []) q pos ts r) {e : Error} :
    afterSum r = .error e ↔ verdict limit q pos ts = some e := by
  induction h with
  | tooDeep hdepth =>
      rw [verdict_tooDeep hdepth]
      simp [afterSum]
  | @done q pos ts tree hdepth hdone =>
      obtain ⟨hfilled, houter, hend⟩ := hdone
      rcases ts with _ | ⟨v | op, ts⟩
      · rw [verdict_none hdepth hfilled houter]
        simp [afterSum]
      · rw [verdict_unexpected hdepth (Scan.step_number_of_filled hfilled v) (by simp)]
        simp [afterSum]
      · cases op with
        | rparen =>
            have hstep : q.step closing = none := by simp only [Scan.step, houter]
            rw [verdict_unmatched hdepth hstep hfilled]
            simp [afterSum]
        | add | sub | mul | div | pow | lparen => cases hend
  | stuck hdepth hstep hother =>
      rw [verdict_unexpected hdepth hstep hother]
      simp [afterSum]
  | missing hdepth hfilled hopen =>
      rw [verdict_missing hdepth hfilled hopen]
      simp [afterSum]
  | ended hdepth hfilled =>
      rw [verdict_end hdepth hfilled]
      simp [afterSum]
  | next hdepth hstep _ ih => rw [verdict_step hdepth hstep, ih]

theorem fares_text (limit : Nat) (ts : List Lexeme) :
    Fares limit (Stops .sum []) .start 0 ts (sum (nested limit) 0 ts) :=
  fares_sum (q := .start) (fares_nested limit limit) rfl rfl (Nat.zero_add _)

/-- A text that is neither empty nor too long is refused with the verdict on it. -/
theorem parseLexemes_eq_error_iff {ts : List Lexeme} (hpos : 1 ≤ ts.length)
    (hlength : ts.length ≤ maxLexemes) {e : Error} :
    parseLexemes ts = .error e ↔ verdict maxDepth .start 0 ts = some e := by
  have hne : ts ≠ [] := List.ne_nil_of_length_pos hpos
  rw [← (fares_text maxDepth ts).afterSum_eq_error_iff, parseLexemes, if_neg hne,
    if_neg (Nat.not_lt.mpr hlength)]
  exact Iff.rfl

/-- A text without a fault has a derivation, however many levels it takes. -/
theorem exists_derivation {limit : Nat} {ts : List Lexeme}
    (h : verdict limit .start 0 ts = none) : Nonempty (Derivation (.whole .sum) ts) := by
  have hfault : ∀ e, afterSum (sum (nested limit) 0 ts) ≠ .error e := by
    intro e he
    rw [(fares_text limit ts).afterSum_eq_error_iff, h] at he
    cases he
  cases hread : sum (nested limit) 0 ts with
  | error e => exact absurd (congrArg afterSum hread) (hfault e)
  | ok r =>
      obtain ⟨tree, pos, ws⟩ := r
      rw [hread] at hfault
      rcases ws with _ | ⟨v | op, ws⟩
      · have hsum : Recognizes .sum (limit + 1) (sum (nested limit)) :=
          (recognizes_nested (limit + 1)).1
        obtain ⟨us, d, -, -, hts, -, -⟩ := hsum.sound hread
        rw [List.append_nil] at hts
        exact hts ▸ ⟨d⟩
      · exact absurd rfl (hfault _)
      · cases op <;> exact absurd rfl (hfault _)

end FormulaBar.Formula
