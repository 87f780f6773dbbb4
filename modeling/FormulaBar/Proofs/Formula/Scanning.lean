import FormulaBar.Proofs.Formula.Grammar

/-!
# Scanning a formula from the left

What may follow the front part of a formula depends on little of it: on whether an operand has just
ended, and on how many exponents have been begun in each parenthesis that is still open. A state
keeps just that, and goes from lexeme to lexeme.

1. **States**, and what a lexeme makes of one.
2. **Scans** of a row of lexemes, with the depth at which each of them is found.
3. **Derivations** can be scanned, and each of their lexemes is found at its depth.
-/

namespace FormulaBar.Formula

/-! ## States -/

/-- What is kept of the front part of a formula. -/
structure Scan where
  /-- For each open parenthesis, from the inside out, in how many exponents it stands of those that
  were begun in the one around it. -/
  outer : List Nat
  /-- In how many exponents one stands of those that were begun in the innermost parenthesis. -/
  powers : Nat
  /-- Whether an operand has just ended. -/
  filled : Bool
deriving Repr, DecidableEq

/-- How many levels deeper the lexemes lie that follow on a lexeme. -/
def Lexeme.rise : Lexeme → Nat
  | .operator .lparen | .operator .pow => 1
  | _ => 0

namespace Scan

/-- The state in front of a formula. -/
def start : Scan := ⟨[], 0, false⟩

/-- How many parentheses and exponents enclose what stands outside of all exponents that were begun
in the innermost parenthesis. -/
def ground (q : Scan) : Nat := q.outer.foldr (fun powers n => powers + n + 1) 0

/-- How many parentheses and exponents enclose what comes next. -/
def depth (q : Scan) : Nat := q.powers + q.ground

/-- The state in front of a further operand. An operand that has just ended ends the exponents that
it stands in. -/
def due (q : Scan) : Scan := if q.filled then ⟨q.outer, 0, false⟩ else q

/-- What a lexeme makes of a state, if it can stand there. -/
def step (q : Scan) : Lexeme → Option Scan
  | .number _ => if q.filled then none else some { q with filled := true }
  | .operator .lparen => some ⟨q.due.powers :: q.outer, 0, false⟩
  | .operator .rparen =>
    match q.outer with
    | [] => none
    | powers :: outer => if q.filled then some ⟨outer, powers, true⟩ else none
  | .operator .add | .operator .sub => some q.due
  | .operator .mul | .operator .div => if q.filled then some q.due else none
  | .operator .pow => if q.filled then some ⟨q.outer, q.powers + 1, false⟩ else none

/-- What a row of lexemes makes of a state. -/
def run (q : Scan) (ts : List Lexeme) : Option Scan := ts.foldlM step q

variable {q q' q₁ q₂ : Scan} {t : Lexeme} {us vs ws ts : List Lexeme} {ks ls : List Nat}

theorem run_append : q.run (us ++ vs) = (q.run us).bind fun q' => q'.run vs := List.foldlM_append

theorem run_cons : q.run (t :: ts) = (q.step t).bind fun q' => q'.run ts := List.foldlM_cons

theorem run_singleton : q.run [t] = q.step t := by
  rw [run_cons]
  exact Option.bind_fun_some _

theorem run_snoc (h : q.run us = some q₁) : q.run (us ++ [t]) = q₁.step t := by
  rw [run_append, h, Option.bind_some, run_singleton]

theorem exists_of_run_snoc (h : q.run (us ++ [t]) = some q') :
    ∃ q₁, q.run us = some q₁ ∧ q₁.step t = some q' := by
  rw [run_append] at h
  obtain ⟨q₁, hrun, hstep⟩ := Option.bind_eq_some_iff.mp h
  rw [run_singleton] at hstep
  exact ⟨q₁, hrun, hstep⟩

theorem depth_of_powers (h : q.powers = 0) : q.depth = q.ground := by
  rw [depth, h, Nat.zero_add]

theorem depth_outer (h : q.powers = 0) : (⟨q.outer, 0, false⟩ : Scan).depth = q.depth := by
  rw [depth_of_powers h, depth_of_powers rfl]
  rfl

theorem ground_of_outer (h : q'.outer = q.outer) : q'.ground = q.ground := by
  rw [ground, ground, h]

@[simp] theorem due_outer (q : Scan) : q.due.outer = q.outer := by
  unfold due
  split <;> rfl

theorem due_of_filled (h : q.filled = true) : q.due = ⟨q.outer, 0, false⟩ := if_pos h

theorem due_of_not_filled (h : q.filled = false) : q.due = q := by
  rw [due, h]
  rfl

theorem step_number (h : q.filled = false) (v : Float) :
    q.step (.number v) = some { q with filled := true } := by
  rw [step, h]
  rfl

theorem step_number_of_filled (h : q.filled = true) (v : Float) : q.step (.number v) = none :=
  if_pos h

/-- Behind an operand a sign stands between two terms, and else in front of one. -/
theorem step_sign (q : Scan) (s : Sign) : q.step s.lexeme = some q.due := by
  cases s <;> rfl

theorem step_scaling (h : q.filled = true) (s : Scaling) : q.step s.lexeme = some q.due := by
  cases s <;> exact if_pos h

theorem step_caret (h : q.filled = true) :
    q.step caret = some ⟨q.outer, q.powers + 1, false⟩ := if_pos h

theorem step_closing {powers : Nat} {outer : List Nat} (houter : q.outer = powers :: outer)
    (h : q.filled = true) : q.step closing = some ⟨outer, powers, true⟩ := by
  simp only [step, houter, if_pos h]

theorem step_opening (h : q.filled = false) :
    q.step opening = some ⟨q.powers :: q.outer, 0, false⟩ := by
  show some (⟨q.due.powers :: q.outer, 0, false⟩ : Scan) = _
  rw [due_of_not_filled h]

/-- A parenthesis behind an operand opens where one in front of a further operand does. -/
theorem step_due_opening (q : Scan) : q.due.step opening = q.step opening := by
  cases hfilled : q.filled with
  | false => rw [due_of_not_filled hfilled]
  | true =>
      rw [due_of_filled hfilled]
      show some _ = some (⟨q.due.powers :: q.outer, 0, false⟩ : Scan)
      rw [due_of_filled hfilled]
      rfl

theorem depth_due_le (q : Scan) : q.due.depth ≤ q.depth := by
  unfold due
  split
  · exact Nat.add_le_add_right (Nat.zero_le _) _
  · exact Nat.le_refl _

/-- An opening parenthesis leads one level deeper than the operand that it begins. -/
theorem depth_opening (q : Scan) :
    (⟨q.due.powers :: q.outer, 0, false⟩ : Scan).depth = q.due.depth + 1 := by
  simp only [depth, ground, due_outer, List.foldr_cons]
  omega

/-- A closing parenthesis leads out of the exponents within it, and out of itself. -/
theorem depth_closing_lt {powers : Nat} {outer : List Nat} (h : q.outer = powers :: outer) :
    (⟨outer, powers, true⟩ : Scan).depth < q.depth := by
  simp only [depth, ground, h, List.foldr_cons]
  omega

/-- Only an opening parenthesis and the sign of a power lead deeper, and only by one level. -/
theorem depth_step_le (h : q.step t = some q') : q'.depth ≤ q.depth + t.rise := by
  have hdue := q.depth_due_le
  rcases t with v | op
  · simp only [step] at h
    split at h
    · cases h
    · cases h
      exact Nat.le_refl _
  · cases op with
    | add | sub =>
        cases h
        exact hdue
    | mul | div =>
        simp only [step] at h
        split at h
        · cases h
          exact hdue
        · cases h
    | lparen =>
        cases h
        rw [depth_opening]
        exact Nat.succ_le_succ hdue
    | rparen =>
        simp only [step] at h
        split at h
        · cases h
        · next powers outer houter =>
          split at h
          · cases h
            exact Nat.le_of_lt (depth_closing_lt houter)
          · cases h
    | pow =>
        simp only [step] at h
        split at h
        · cases h
          show q.powers + 1 + q.ground ≤ q.powers + q.ground + 1
          omega
        · cases h

/-- An operand ends with a number or with a closing parenthesis. -/
theorem filled_step (h : q.step t = some q') :
    q'.filled = true ↔ t = closing ∨ ∃ v, t = .number v := by
  have hdue : q.due.filled = false := by
    unfold due
    split
    · rfl
    · next hfilled => simpa using hfilled
  rcases t with v | op
  · simp only [step] at h
    split at h <;> cases h
    simp
  · cases op with
    | add | sub =>
        cases h
        simp [hdue]
    | mul | div | pow =>
        simp only [step] at h
        split at h <;> cases h
        simp [hdue]
    | lparen =>
        cases h
        simp
    | rparen =>
        simp only [step] at h
        split at h
        · cases h
        · split at h <;> cases h
          simp

end Scan

/-! ## Scans -/

/-- A row of lexemes leads from one state to another, and each lexeme is found at a depth. -/
inductive Scans : Scan → List Lexeme → List Nat → Scan → Prop where
  | nil (q : Scan) : Scans q [] [] q
  | cons {q q₁ q' : Scan} {t : Lexeme} {ts : List Lexeme} {k : Nat} {ks : List Nat}
      (hstep : q.step t = some q₁) (hdepth : q₁.depth = k + t.rise) (h : Scans q₁ ts ks q') :
      Scans q (t :: ts) (k :: ks) q'

namespace Scans

variable {q q' q₁ : Scan} {t : Lexeme} {us vs ws ts : List Lexeme} {ks ls : List Nat}

theorem append (h : Scans q us ks q₁) (h' : Scans q₁ vs ls q') :
    Scans q (us ++ vs) (ks ++ ls) q' := by
  induction h with
  | nil => exact h'
  | cons hstep hdepth _ ih => exact .cons hstep hdepth (ih h')

theorem run (h : Scans q us ks q') : q.run us = some q' := by
  induction h with
  | nil => rfl
  | cons hstep _ _ ih => rw [Scan.run_cons, hstep, Option.bind_some, ih]

/-- What a row makes of a state depends only on what its first lexeme makes of it. -/
theorem of_step (h : Scans q (t :: ts) ks q') (hstep : q₁.step t = q.step t) :
    Scans q₁ (t :: ts) ks q' := by
  cases h with
  | cons hstep' hdepth h => exact .cons (hstep.trans hstep') hdepth h

/-- Each lexeme of a row is found at its depth. -/
theorem depth_eq (h : Scans q (us ++ t :: vs) ks q') :
    ∃ q₁ k, q.run (us ++ [t]) = some q₁ ∧ ks[us.length]? = some k ∧ q₁.depth = k + t.rise := by
  induction us generalizing q ks with
  | nil =>
      cases h with
      | cons hstep hdepth h =>
          refine ⟨_, _, ?_, rfl, hdepth⟩
          rw [List.nil_append, Scan.run_singleton, hstep]
  | cons u us ih =>
      cases h with
      | cons hstep _ h =>
          obtain ⟨q₁, k, hrun, hk, hdepth⟩ := ih h
          refine ⟨q₁, k, ?_, hk, hdepth⟩
          rw [List.cons_append, Scan.run_cons, hstep, Option.bind_some, hrun]

end Scans

/-! ## Derivations -/

/-- The states in which a phrase of a category can begin. -/
def Category.Fits : Category → Scan → Prop
  | .whole .sum, q | .whole .product, q => q.filled = false ∧ q.powers = 0
  | .whole _, q => q.filled = false
  | .rest _, q => q.filled = true

/-- How deep a phrase of a category lies that begins in a state. -/
def Category.base : Category → Scan → Nat
  | .whole _, q => q.depth
  | .rest _, q => q.ground

namespace Derivation

/-- From every state in which it can begin, the phrase of a derivation is scanned with the depths
that its lexemes have in it. An operand has ended then, in the parentheses that were open before. -/
def Scanned {c : Category} {ts : List Lexeme} (d : Derivation c ts) : Prop :=
  ∀ q, c.Fits q → ∃ q', Scans q ts (d.depths.map (· + c.base q)) q' ∧ q'.filled = true ∧
    q'.outer = q.outer ∧ (c = .whole .primary → q'.powers = q.powers)

variable {us vs : List Lexeme} {l l' : Level} {q : Scan}

theorem map_add_succ (ks : List Nat) (n : Nat) :
    (ks.map (· + 1)).map (· + n) = ks.map (· + (n + 1)) := by
  rw [List.map_map]
  refine List.map_congr_left fun k _ => ?_
  show k + 1 + n = k + (n + 1)
  omega

/-- An operand and what follows it outside of all exponents. -/
theorem Scanned.pair {first : Derivation (.whole l) us} {more : Derivation (.rest l') vs}
    (h₁ : first.Scanned) (h₂ : more.Scanned) (hfits : (Category.whole l).Fits q)
    (hpowers : q.powers = 0) :
    ∃ q', Scans q (us ++ vs) ((first.depths ++ more.depths).map (· + q.ground)) q' ∧
      q'.filled = true ∧ q'.outer = q.outer := by
  obtain ⟨q₁, hscans₁, hfilled₁, houter₁, -⟩ := h₁ q hfits
  obtain ⟨q₂, hscans₂, hfilled₂, houter₂, -⟩ := h₂ q₁ hfilled₁
  have hbase : (Category.whole l).base q = q.ground := Scan.depth_of_powers hpowers
  have hbase₁ : (Category.rest l').base q₁ = q.ground := Scan.ground_of_outer houter₁
  rw [hbase] at hscans₁
  rw [hbase₁] at hscans₂
  refine ⟨q₂, ?_, hfilled₂, houter₂.trans houter₁⟩
  rw [List.map_append]
  exact hscans₁.append hscans₂

/-- What goes on with a phrase goes on outside of all exponents. -/
theorem Scanned.further {next : Derivation (.whole l) us} {more : Derivation (.rest l') vs}
    (h₁ : next.Scanned) (h₂ : more.Scanned) (hfits : (Category.whole l).Fits q.due)
    (hfilled : q.filled = true) {t : Lexeme} (hstep : q.step t = some q.due) (hrise : t.rise = 0) :
    ∃ q', Scans q (t :: (us ++ vs)) ((0 :: (next.depths ++ more.depths)).map (· + q.ground)) q' ∧
      q'.filled = true ∧ q'.outer = q.outer := by
  have hpowers : q.due.powers = 0 := by rw [Scan.due_of_filled hfilled]
  have hground : q.due.ground = q.ground := Scan.ground_of_outer (Scan.due_outer q)
  obtain ⟨q', hscans, hfilled', houter⟩ := h₁.pair h₂ hfits hpowers
  rw [hground] at hscans
  refine ⟨q', .cons hstep ?_ hscans, hfilled', houter.trans (Scan.due_outer q)⟩
  rw [Scan.depth_of_powers hpowers, hground, hrise]
  show q.ground = 0 + q.ground + 0
  omega

theorem scanned_sum {first : Derivation (.whole .product) us} {more : Derivation (.rest .sum) vs}
    (h₁ : first.Scanned) (h₂ : more.Scanned) : (sum first more).Scanned := by
  intro q hfits
  obtain ⟨q', hscans, hfilled, houter⟩ := h₁.pair h₂ hfits hfits.2
  have hbase : (Category.whole .sum).base q = q.ground := Scan.depth_of_powers hfits.2
  rw [hbase]
  exact ⟨q', hscans, hfilled, houter, nofun⟩

theorem scanned_noTerm : noTerm.Scanned := by
  intro q hfits
  exact ⟨q, .nil q, hfits, rfl, nofun⟩

theorem scanned_term (s : Sign) {next : Derivation (.whole .product) us}
    {more : Derivation (.rest .sum) vs} (h₁ : next.Scanned) (h₂ : more.Scanned) :
    (term s next more).Scanned := by
  intro q hfits
  have hdue := Scan.due_of_filled (q := q) hfits
  have hrise : s.lexeme.rise = 0 := by cases s <;> rfl
  obtain ⟨q', hscans, hfilled, houter⟩ :=
    h₁.further h₂ (by rw [hdue]; exact ⟨rfl, rfl⟩) hfits (q.step_sign s) hrise
  exact ⟨q', hscans, hfilled, houter, nofun⟩

theorem scanned_product {first : Derivation (.whole .unary) us}
    {more : Derivation (.rest .product) vs} (h₁ : first.Scanned) (h₂ : more.Scanned) :
    (product first more).Scanned := by
  intro q hfits
  obtain ⟨q', hscans, hfilled, houter⟩ := h₁.pair h₂ (q := q) hfits.1 hfits.2
  have hbase : (Category.whole .product).base q = q.ground := Scan.depth_of_powers hfits.2
  rw [hbase]
  exact ⟨q', hscans, hfilled, houter, nofun⟩

theorem scanned_noFactor : noFactor.Scanned := by
  intro q hfits
  exact ⟨q, .nil q, hfits, rfl, nofun⟩

theorem scanned_factor (s : Scaling) {next : Derivation (.whole .unary) us}
    {more : Derivation (.rest .product) vs} (h₁ : next.Scanned) (h₂ : more.Scanned) :
    (factor s next more).Scanned := by
  intro q hfits
  have hfilled : q.filled = true := hfits
  have hrise : s.lexeme.rise = 0 := by cases s <;> rfl
  obtain ⟨q', hscans, hfilled', houter⟩ :=
    h₁.further h₂ (by rw [Scan.due_of_filled hfilled]; rfl) hfilled (Scan.step_scaling hfilled s)
      hrise
  exact ⟨q', hscans, hfilled', houter, nofun⟩

theorem scanned_adjacent {next : Derivation (.whole .unary) (opening :: us)}
    {more : Derivation (.rest .product) vs} (h₁ : next.Scanned) (h₂ : more.Scanned) :
    (adjacent next more).Scanned := by
  intro q hfits
  have hdue := Scan.due_of_filled (q := q) hfits
  obtain ⟨q', hscans, hfilled, houter⟩ :=
    h₁.pair h₂ (q := q.due) (by rw [hdue]; rfl) (by rw [hdue])
  refine ⟨q', ?_, hfilled, houter.trans (Scan.due_outer q), nofun⟩
  rw [Scan.ground_of_outer (Scan.due_outer q)] at hscans
  exact hscans.of_step q.step_due_opening.symm

/-- Signs lie where their operand does. -/
theorem scans_signs (signs : List Sign) (hfilled : q.filled = false) :
    Scans q (signs.map Sign.lexeme) ((signs.map fun _ => 0).map (· + q.depth)) q := by
  induction signs with
  | nil => exact .nil q
  | cons s signs ih =>
      have hstep : q.step s.lexeme = some q := by
        rw [Scan.step_sign, Scan.due_of_not_filled hfilled]
      have hrise : s.lexeme.rise = 0 := by cases s <;> rfl
      refine .cons hstep ?_ ih
      rw [hrise]
      show q.depth = 0 + q.depth + 0
      omega

theorem scanned_unary (signs : List Sign) {operand : Derivation (.whole .power) us}
    (h : operand.Scanned) : (unary signs operand).Scanned := by
  intro q hfits
  obtain ⟨q', hscans, hfilled, houter, -⟩ := h q hfits
  refine ⟨q', ?_, hfilled, houter, nofun⟩
  show Scans q _ ((signs.map (fun _ => 0) ++ operand.depths).map (· + q.depth)) q'
  rw [List.map_append]
  exact (scans_signs signs hfits).append hscans

theorem scanned_plain {base : Derivation (.whole .primary) us} (h : base.Scanned) :
    (plain base).Scanned := by
  intro q hfits
  obtain ⟨q', hscans, hfilled, houter, -⟩ := h q hfits
  exact ⟨q', hscans, hfilled, houter, nofun⟩

theorem scanned_raised {base : Derivation (.whole .primary) us}
    {exponent : Derivation (.whole .unary) vs} (h₁ : base.Scanned) (h₂ : exponent.Scanned) :
    (raised base exponent).Scanned := by
  intro q hfits
  obtain ⟨q₁, hscans₁, hfilled₁, houter₁, hpowers₁⟩ := h₁ q hfits
  -- the exponent lies one level deeper than the base
  have hdepth : (⟨q₁.outer, q₁.powers + 1, false⟩ : Scan).depth = q.depth + 1 := by
    rw [hpowers₁ rfl, houter₁]
    show q.powers + 1 + q.ground = q.powers + q.ground + 1
    omega
  obtain ⟨q₂, hscans₂, hfilled₂, houter₂, -⟩ := h₂ ⟨q₁.outer, q₁.powers + 1, false⟩ rfl
  refine ⟨q₂, ?_, hfilled₂, houter₂.trans houter₁, nofun⟩
  show Scans q _ ((base.depths ++ 0 :: exponent.depths.map (· + 1)).map (· + q.depth)) q₂
  rw [List.map_append, List.map_cons, map_add_succ]
  refine hscans₁.append (.cons (Scan.step_caret hfilled₁) ?_ ?_)
  · rw [hdepth, Nat.zero_add]
    rfl
  · rw [← hdepth]
    exact hscans₂

theorem scanned_number (v : Float) : (number v).Scanned := by
  intro q hfits
  refine ⟨{ q with filled := true }, .cons (Scan.step_number hfits v) ?_ (.nil _), rfl, rfl,
    fun _ => rfl⟩
  show q.depth = 0 + q.depth + 0
  omega

theorem scanned_group {body : Derivation (.whole .sum) us} (h : body.Scanned) :
    (group body).Scanned := by
  intro q hfits
  have hdue := Scan.due_of_not_filled (q := q) hfits
  have hdepth := q.depth_opening
  rw [hdue] at hdepth
  obtain ⟨q₁, hscans, hfilled, houter, -⟩ := h ⟨q.powers :: q.outer, 0, false⟩ ⟨rfl, rfl⟩
  have hclose : q₁.step closing = some ⟨q.outer, q.powers, true⟩ :=
    Scan.step_closing houter hfilled
  refine ⟨⟨q.outer, q.powers, true⟩, ?_, rfl, rfl, fun _ => rfl⟩
  show Scans q _ ((0 :: (body.depths.map (· + 1) ++ [0])).map (· + q.depth)) _
  rw [List.map_cons, List.map_append, map_add_succ, ← hdepth, Nat.zero_add]
  refine .cons (Scan.step_opening hfits) hdepth (hscans.append (.cons hclose ?_ (.nil _)))
  show q.depth = 0 + q.depth + 0
  omega

/-- Every derivation is scanned, and its lexemes are found at their depths. -/
theorem scanned {c : Category} {ts : List Lexeme} (d : Derivation c ts) : d.Scanned := by
  induction d with
  | sum _ _ ih₁ ih₂ => exact scanned_sum ih₁ ih₂
  | noTerm => exact scanned_noTerm
  | term s _ _ ih₁ ih₂ => exact scanned_term s ih₁ ih₂
  | product _ _ ih₁ ih₂ => exact scanned_product ih₁ ih₂
  | noFactor => exact scanned_noFactor
  | factor s _ _ ih₁ ih₂ => exact scanned_factor s ih₁ ih₂
  | adjacent _ _ ih₁ ih₂ => exact scanned_adjacent ih₁ ih₂
  | unary signs _ ih => exact scanned_unary signs ih
  | plain _ ih => exact scanned_plain ih
  | raised _ _ ih₁ ih₂ => exact scanned_raised ih₁ ih₂
  | number v => exact scanned_number v
  | group _ ih => exact scanned_group ih

/-- A whole formula is scanned from the state in front of it, and no parenthesis is left open. -/
theorem scans_start {ts : List Lexeme} (d : Derivation (.whole .sum) ts) :
    ∃ q, Scans .start ts d.depths q ∧ q.filled = true ∧ q.outer = [] := by
  obtain ⟨q, hscans, hfilled, houter, -⟩ := d.scanned .start ⟨rfl, rfl⟩
  refine ⟨q, ?_, hfilled, houter⟩
  have hbase : d.depths.map (· + (Category.whole .sum).base Scan.start) = d.depths := List.map_id _
  rwa [hbase] at hscans

end Derivation

end FormulaBar.Formula
