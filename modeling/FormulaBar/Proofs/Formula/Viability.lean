import FormulaBar.Proofs.Formula.Faults
import Mathlib.Data.List.Induction

/-!
# Every refused text is refused for the right fault

A text that is refused is read from the left up to the first lexeme that no formula can have there,
or that leads too deep, or else up to its end. The fault says which of these it is, and where.

1. **Viable texts**, which can be extended to a formula, and how deep their last lexemes lead.
2. **Scans** tell viable texts and formulas from others.
3. **Faults**, in terms of the grammar alone.
4. **Whole texts**: what is refused, and for which fault.
-/

namespace FormulaBar.Formula

variable {limit pos n n' : Nat} {q q' : Scan} {t : Lexeme} {us vs ts : List Lexeme}

/-! ## Viable texts -/

/-- A text is a formula, however long and deep. -/
def Sentence (us : List Lexeme) : Prop := Nonempty (Derivation (.whole .sum) us)

/-- A text can be extended to a formula, however long and deep. -/
def Viable (us : List Lexeme) : Prop := ∃ ws, Sentence (us ++ ws)

/-- The last lexeme of a text is an opening parenthesis or the sign of a power, and it leads `n`
levels deep. In a formula that begins with the text it stands one level higher, as many parentheses
and exponents enclose it. Which formula that is makes no difference, see `Nests.unique`. -/
def Nests (us : List Lexeme) (n : Nat) : Prop :=
  ∃ vs t ws k, ∃ d : Derivation (.whole .sum) (vs ++ t :: ws), us = vs ++ [t] ∧
    t ∈ [opening, caret] ∧ d.depths[vs.length]? = some k ∧ n = k + 1

/-! ## Scans -/

theorem Lexeme.rise_cases (t : Lexeme) : t.rise = 0 ∨ t ∈ [opening, caret] ∧ t.rise = 1 := by
  rcases t with v | op
  · exact .inl rfl
  · cases op with
    | add | sub | mul | div | rparen => exact .inl rfl
    | pow => exact .inr ⟨by simp, rfl⟩
    | lparen => exact .inr ⟨by simp, rfl⟩

theorem Lexeme.rise_of_mem (ht : t ∈ [opening, caret]) : t.rise = 1 := by
  rcases t.rise_cases with h | ⟨-, h⟩
  · simp only [List.mem_cons, List.not_mem_nil, or_false] at ht
    rcases ht with rfl | rfl <;> cases h
  · exact h

theorem Scan.depth_run_le (h : q.run us = some q') : q'.depth ≤ q.depth + us.length := by
  induction us generalizing q with
  | nil =>
      cases h
      exact Nat.le_refl _
  | cons t us ih =>
      rw [Scan.run_cons] at h
      obtain ⟨q₁, hstep, hrun⟩ := Option.bind_eq_some_iff.mp h
      have hle := ih hrun
      have hstep := Scan.depth_step_le hstep
      have hrise : t.rise ≤ 1 := by rcases t.rise_cases with h | ⟨-, h⟩ <;> omega
      rw [List.length_cons]
      omega

/-- What has been scanned without a fault makes no difference to the verdict. -/
theorem verdict_append (h : q.run us = some q')
    (hshallow : ∀ vs t ws q₁, us = vs ++ t :: ws → q.run vs = some q₁ → q₁.depth ≤ limit) :
    verdict limit q pos (us ++ ts) = verdict limit q' (pos + us.length) ts := by
  induction us generalizing q pos with
  | nil =>
      cases h
      rfl
  | cons t us ih =>
      rw [Scan.run_cons] at h
      obtain ⟨q₁, hstep, hrun⟩ := Option.bind_eq_some_iff.mp h
      have hdepth : q.depth ≤ limit := hshallow [] t us q rfl rfl
      have hpos : pos + 1 + us.length = pos + (us.length + 1) := by omega
      rw [List.cons_append, verdict_step hdepth hstep, List.length_cons, ← hpos]
      refine ih hrun ?_
      intro vs t' ws q₂ hus hrun₂
      refine hshallow (t :: vs) t' ws q₂ (by rw [hus, List.cons_append]) ?_
      rw [Scan.run_cons, hstep, Option.bind_some, hrun₂]

/-- A text that is scanned up to the end of an operand is a formula if no parenthesis is left
open. -/
theorem sentence_of_run (h : Scan.start.run us = some q) (hfilled : q.filled = true)
    (hclosed : q.outer = []) : Sentence us := by
  have hshallow : ∀ vs t ws q₁, us = vs ++ t :: ws → Scan.start.run vs = some q₁ →
      q₁.depth ≤ us.length := by
    intro vs t ws q₁ hus hrun
    have hdepth := Scan.depth_run_le hrun
    have hzero : Scan.start.depth = 0 := rfl
    have hlength := congrArg List.length hus
    rw [List.length_append] at hlength
    omega
  have hdepth : q.depth ≤ us.length := by
    have h := Scan.depth_run_le h
    have hzero : Scan.start.depth = 0 := rfl
    omega
  have hverdict : verdict us.length .start 0 (us ++ []) = _ := verdict_append h hshallow
  rw [List.append_nil, verdict_none hdepth hfilled hclosed] at hverdict
  exact exists_derivation hverdict

/-- A way from a state to the end of a formula. -/
def Scan.completion (q : Scan) : List Lexeme :=
  (if q.filled then [] else [.number 0]) ++ q.outer.map fun _ => closing

theorem Scan.run_closings (outer : List Nat) (powers : Nat) :
    ∃ powers', (⟨outer, powers, true⟩ : Scan).run (outer.map fun _ => closing) =
      some ⟨[], powers', true⟩ := by
  induction outer generalizing powers with
  | nil => exact ⟨powers, rfl⟩
  | cons powers₁ outer ih =>
      obtain ⟨powers', hrun⟩ := ih powers₁
      refine ⟨powers', ?_⟩
      rw [List.map_cons, Scan.run_cons, Scan.step_closing rfl rfl]
      exact hrun

theorem Scan.run_completion (q : Scan) :
    ∃ powers, q.run q.completion = some ⟨[], powers, true⟩ := by
  obtain ⟨outer, powers, filled⟩ := q
  obtain ⟨powers', hrun⟩ := Scan.run_closings outer powers
  cases filled with
  | true => exact ⟨powers', hrun⟩
  | false =>
      refine ⟨powers', ?_⟩
      show (⟨outer, powers, false⟩ : Scan).run (.number 0 :: outer.map fun _ => closing) = _
      rw [Scan.run_cons, Scan.step_number rfl]
      exact hrun

theorem sentence_iff :
    Sentence us ↔ ∃ q, Scan.start.run us = some q ∧ q.filled = true ∧ q.outer = [] := by
  constructor
  · rintro ⟨d⟩
    obtain ⟨q, hscans, hfilled, houter⟩ := d.scans_start
    exact ⟨q, hscans.run, hfilled, houter⟩
  · rintro ⟨q, hrun, hfilled, houter⟩
    exact sentence_of_run hrun hfilled houter

/-- What is scanned can be completed, and nothing else can. -/
theorem viable_iff : Viable us ↔ ∃ q, Scan.start.run us = some q := by
  constructor
  · rintro ⟨ws, d⟩
    obtain ⟨q, hrun, -⟩ := sentence_iff.mp d
    rw [Scan.run_append] at hrun
    obtain ⟨q₁, hrun₁, -⟩ := Option.bind_eq_some_iff.mp hrun
    exact ⟨q₁, hrun₁⟩
  · rintro ⟨q, hrun⟩
    obtain ⟨powers, hcompletion⟩ := q.run_completion
    refine ⟨q.completion, sentence_iff.mpr ⟨⟨[], powers, true⟩, ?_, rfl, rfl⟩⟩
    rw [Scan.run_append, hrun, Option.bind_some, hcompletion]

/-- How deep the last lexeme of a text leads is the depth of the state behind it. -/
theorem nests_iff :
    Nests us n ↔ ∃ vs t q, us = vs ++ [t] ∧ t ∈ [opening, caret] ∧
      Scan.start.run us = some q ∧ q.depth = n := by
  constructor
  · rintro ⟨vs, t, ws, k, d, rfl, ht, hk, rfl⟩
    obtain ⟨q, hscans, -⟩ := d.scans_start
    obtain ⟨q₁, k', hrun, hk', hdepth⟩ := hscans.depth_eq
    rw [hk] at hk'
    obtain rfl := Option.some_inj.mp hk'
    rw [Lexeme.rise_of_mem ht] at hdepth
    exact ⟨vs, t, q₁, rfl, ht, hrun, hdepth⟩
  · rintro ⟨vs, t, q, rfl, ht, hrun, rfl⟩
    obtain ⟨ws, hsentence⟩ := viable_iff.mpr ⟨q, hrun⟩
    rw [List.append_assoc, List.singleton_append] at hsentence
    obtain ⟨d⟩ := hsentence
    obtain ⟨q', hscans, -⟩ := d.scans_start
    obtain ⟨q₁, k, hrun₁, hk, hdepth⟩ := hscans.depth_eq
    rw [hrun] at hrun₁
    obtain rfl := Option.some_inj.mp hrun₁
    rw [Lexeme.rise_of_mem ht] at hdepth
    exact ⟨vs, t, ws, k, d, rfl, ht, hk, hdepth⟩

theorem Nests.unique (h : Nests us n) (h' : Nests us n') : n = n' := by
  obtain ⟨-, -, q, -, -, hrun, rfl⟩ := nests_iff.mp h
  obtain ⟨-, -, q', -, -, hrun', rfl⟩ := nests_iff.mp h'
  rw [hrun] at hrun'
  rw [Option.some_inj.mp hrun']

/-! ## Faults -/

/-- Nothing in a text leads deeper than is allowed. -/
def Shallow (us : List Lexeme) : Prop := ∀ vs, vs <+: us → ¬ Nests vs (maxDepth + 1)

/-- The last lexeme of a text ends an operand. -/
def EndsOperand (us : List Lexeme) : Prop :=
  ∃ vs t, us = vs ++ [t] ∧ (t = closing ∨ ∃ v, t = .number v)

/-- The fault of a text, which is found where reading from the left first comes upon one. -/
inductive Fault : List Lexeme → Error → Prop where
  /-- A parenthesis or an exponent leads too deep. -/
  | tooDeep {us ts : List Lexeme} {t : Lexeme} (hshallow : Shallow us)
      (hnests : Nests (us ++ [t]) (maxDepth + 1)) : Fault (us ++ t :: ts) .tooDeep
  /-- What has been read can be extended to a formula, but not with the next lexeme, which is not a
  closing parenthesis behind a formula. -/
  | unexpectedLexeme {us ts : List Lexeme} {t : Lexeme} (hshallow : Shallow us)
      (hviable : Viable us) (hstuck : ¬ Viable (us ++ [t]))
      (hother : ¬(t = closing ∧ Sentence us)) :
      Fault (us ++ t :: ts) (.unexpectedLexeme us.length t)
  /-- A closing parenthesis stands behind a formula. -/
  | unmatchedClosingParen {us ts : List Lexeme} (hshallow : Shallow us)
      (hsentence : Sentence us) : Fault (us ++ closing :: ts) (.unmatchedClosingParen us.length)
  /-- The text ends behind an operand, but is not yet a formula. -/
  | missingClosingParen {ts : List Lexeme} (hshallow : Shallow ts) (hviable : Viable ts)
      (hopen : ¬ Sentence ts) (hlast : EndsOperand ts) : Fault ts .missingClosingParen
  /-- The text ends where an operand is due. -/
  | unexpectedEnd {ts : List Lexeme} (hshallow : Shallow ts) (hviable : Viable ts)
      (hopen : ¬ Sentence ts) (hlast : ¬ EndsOperand ts) : Fault ts .unexpectedEnd

theorem Shallow.of_prefix (h : Shallow us) (hvs : vs <+: us) : Shallow vs :=
  fun ws hws => h ws (hws.trans hvs)

theorem shallow_nil : Shallow [] := by
  intro vs hvs hnests
  rw [List.prefix_nil.mp hvs] at hnests
  obtain ⟨vs, t, -, hnil, -⟩ := nests_iff.mp hnests
  simp at hnil

theorem Shallow.snoc (h : Shallow us) (hnests : ¬ Nests (us ++ [t]) (maxDepth + 1)) :
    Shallow (us ++ [t]) := by
  intro vs hvs
  rcases List.prefix_concat_iff.mp hvs with rfl | hvs
  · exact hnests
  · exact h vs hvs

/-- A shallow text is scanned without leading too deep. -/
theorem Shallow.depth_le (h : Shallow us) (hrun : Scan.start.run us = some q) :
    q.depth ≤ maxDepth := by
  induction us using List.reverseRecOn generalizing q with
  | nil =>
      cases hrun
      exact Nat.zero_le _
  | append_singleton us t ih =>
      obtain ⟨q₁, hrun₁, hstep⟩ := Scan.exists_of_run_snoc hrun
      have hle := ih (h.of_prefix (List.prefix_append us [t])) hrun₁
      have hstep := Scan.depth_step_le hstep
      rcases t.rise_cases with hrise | ⟨ht, hrise⟩
      · omega
      · -- the lexeme leads one level deeper, but not below the last one
        have hne : q.depth ≠ maxDepth + 1 := by
          intro hdepth
          exact h _ (List.prefix_refl _) (nests_iff.mpr ⟨us, t, q, rfl, ht, hrun, hdepth⟩)
        omega

theorem verdict_shallow (h : Shallow us) (hrun : Scan.start.run us = some q) :
    verdict maxDepth .start 0 (us ++ ts) = verdict maxDepth q us.length ts := by
  have hverdict : verdict maxDepth .start 0 (us ++ ts) =
      verdict maxDepth q (0 + us.length) ts := by
    refine verdict_append hrun ?_
    intro vs t ws q₁ hus hrun₁
    exact (h.of_prefix ⟨t :: ws, hus.symm⟩).depth_le hrun₁
  rw [hverdict, Nat.zero_add]

/-- An operand has ended exactly behind the last lexeme of one. -/
theorem filled_iff (hrun : Scan.start.run us = some q) : q.filled = true ↔ EndsOperand us := by
  induction us using List.reverseRecOn with
  | nil =>
      cases hrun
      constructor
      · intro hfilled
        cases hfilled
      · rintro ⟨vs, t, hnil, -⟩
        simp at hnil
  | append_singleton us t _ =>
      obtain ⟨q₁, -, hstep⟩ := Scan.exists_of_run_snoc hrun
      rw [Scan.filled_step hstep]
      constructor
      · intro ht
        exact ⟨us, t, rfl, ht⟩
      · rintro ⟨vs, t', heq, ht⟩
        obtain ⟨rfl, rfl⟩ := List.append_singleton_inj.mp heq
        exact ht

theorem sentence_iff_of_run (hrun : Scan.start.run us = some q) :
    Sentence us ↔ q.filled = true ∧ q.outer = [] := by
  rw [sentence_iff]
  constructor
  · rintro ⟨q', hrun', h⟩
    rw [hrun] at hrun'
    rwa [Option.some_inj.mp hrun']
  · intro h
    exact ⟨q, hrun, h⟩

theorem viable_snoc_iff (hrun : Scan.start.run us = some q) :
    Viable (us ++ [t]) ↔ ∃ q', q.step t = some q' := by
  rw [viable_iff, Scan.run_snoc hrun]

/-- Behind an operand there is no parenthesis to be closed exactly if a formula has been read. -/
theorem step_eq_none_iff_sentence (hrun : Scan.start.run us = some q) (hfilled : q.filled = true) :
    q.step closing = none ↔ Sentence us := by
  rw [sentence_iff_of_run hrun, and_iff_right hfilled]
  cases houter : q.outer with
  | nil => simp [Scan.step, houter]
  | cons powers outer => simp [Scan.step, houter, hfilled]

/-- Scanning finds the fault of a text. -/
theorem Fault.verdict_eq {e : Error} (h : Fault ts e) :
    verdict maxDepth .start 0 ts = some e := by
  cases h with
  | @tooDeep us ts t hshallow hnests =>
      obtain ⟨-, -, q', -, -, hrun', hdepth⟩ := nests_iff.mp hnests
      obtain ⟨q, hrun, hstep⟩ := Scan.exists_of_run_snoc hrun'
      have hdeep : maxDepth < q'.depth := hdepth ▸ Nat.lt_succ_self _
      rw [verdict_shallow hshallow hrun, verdict_step (hshallow.depth_le hrun) hstep,
        verdict_tooDeep hdeep]
  | @unexpectedLexeme us ts t hshallow hviable hstuck hother =>
      obtain ⟨q, hrun⟩ := viable_iff.mp hviable
      have hstep : q.step t = none := by
        rw [viable_snoc_iff hrun] at hstuck
        exact Option.eq_none_iff_forall_ne_some.mpr fun q' hq' => hstuck ⟨q', hq'⟩
      rw [verdict_shallow hshallow hrun, verdict_unexpected (hshallow.depth_le hrun) hstep]
      rintro ⟨rfl, hfilled⟩
      exact hother ⟨rfl, (step_eq_none_iff_sentence hrun hfilled).mp hstep⟩
  | @unmatchedClosingParen us ts hshallow hsentence =>
      obtain ⟨q, hrun, hfilled, -⟩ := sentence_iff.mp hsentence
      have hstep := (step_eq_none_iff_sentence hrun hfilled).mpr hsentence
      rw [verdict_shallow hshallow hrun, verdict_unmatched (hshallow.depth_le hrun) hstep hfilled]
  | missingClosingParen hshallow hviable hopen hlast =>
      obtain ⟨q, hrun⟩ := viable_iff.mp hviable
      have hfilled := (filled_iff hrun).mpr hlast
      have houter : q.outer ≠ [] := by
        intro houter
        exact hopen ((sentence_iff_of_run hrun).mpr ⟨hfilled, houter⟩)
      have hverdict : verdict maxDepth .start 0 (ts ++ []) = _ := verdict_shallow hshallow hrun
      rwa [List.append_nil, verdict_missing (hshallow.depth_le hrun) hfilled houter] at hverdict
  | unexpectedEnd hshallow hviable hopen hlast =>
      obtain ⟨q, hrun⟩ := viable_iff.mp hviable
      have hfilled : q.filled = false := by
        rw [← filled_iff hrun] at hlast
        simpa using hlast
      have hverdict : verdict maxDepth .start 0 (ts ++ []) = _ := verdict_shallow hshallow hrun
      rwa [List.append_nil, verdict_end (hshallow.depth_le hrun) hfilled] at hverdict

/-- The fault of a text of which all has been read. -/
theorem fault_of_end {e : Error} (hshallow : Shallow us) (hrun : Scan.start.run us = some q)
    (h : verdict maxDepth q us.length [] = some e) : Fault us e := by
  have hdepth := hshallow.depth_le hrun
  have hviable : Viable us := viable_iff.mpr ⟨q, hrun⟩
  have hlast := filled_iff hrun
  have hsentence := sentence_iff_of_run hrun
  cases hfilled : q.filled with
  | false =>
      rw [verdict_end hdepth hfilled] at h
      cases h
      rw [hfilled] at hlast hsentence
      exact .unexpectedEnd hshallow hviable (by simp [hsentence]) (by simp [← hlast])
  | true =>
      by_cases houter : q.outer = []
      · -- the text is a formula
        rw [verdict_none hdepth hfilled houter] at h
        cases h
      · rw [verdict_missing hdepth hfilled houter] at h
        cases h
        have hopen : ¬ Sentence us := fun hclosed => houter (hsentence.mp hclosed).2
        exact .missingClosingParen hshallow hviable hopen (hlast.mp hfilled)

/-- The fault of a text of which the next lexeme cannot stand where it does. -/
theorem fault_of_stuck {e : Error} (hshallow : Shallow us) (hrun : Scan.start.run us = some q)
    (hstep : q.step t = none) (h : verdict maxDepth q us.length (t :: ts) = some e) :
    Fault (us ++ t :: ts) e := by
  have hdepth := hshallow.depth_le hrun
  by_cases hclosing : t = closing ∧ q.filled = true
  · obtain ⟨rfl, hfilled⟩ := hclosing
    rw [verdict_unmatched hdepth hstep hfilled] at h
    cases h
    exact .unmatchedClosingParen hshallow ((step_eq_none_iff_sentence hrun hfilled).mp hstep)
  · rw [verdict_unexpected hdepth hstep hclosing] at h
    cases h
    have hstuck : ¬ Viable (us ++ [t]) := by
      rw [viable_snoc_iff hrun, hstep]
      simp
    refine .unexpectedLexeme hshallow (viable_iff.mpr ⟨q, hrun⟩) hstuck ?_
    rintro ⟨rfl, hsentence⟩
    exact hclosing ⟨rfl, ((sentence_iff_of_run hrun).mp hsentence).1⟩

/-- What scanning finds in a text is its fault. The induction is on what is left of the text, with
what has been read in front of it. -/
theorem fault_of_verdict {e : Error} (hshallow : Shallow us) (hrun : Scan.start.run us = some q)
    (h : verdict maxDepth q us.length ts = some e) : Fault (us ++ ts) e := by
  induction ts generalizing us q with
  | nil =>
      rw [List.append_nil]
      exact fault_of_end hshallow hrun h
  | cons t ts ih =>
      cases hstep : q.step t with
      | none => exact fault_of_stuck hshallow hrun hstep h
      | some q' =>
          rw [verdict_step (hshallow.depth_le hrun) hstep] at h
          have hrun' : Scan.start.run (us ++ [t]) = some q' := by rw [Scan.run_snoc hrun, hstep]
          by_cases hnests : Nests (us ++ [t]) (maxDepth + 1)
          · -- the lexeme leads too deep
            obtain ⟨-, -, q₁, -, -, hrun₁, hdepth₁⟩ := nests_iff.mp hnests
            rw [hrun'] at hrun₁
            obtain rfl := Option.some_inj.mp hrun₁
            rw [verdict_tooDeep (hdepth₁ ▸ Nat.lt_succ_self _)] at h
            cases h
            exact .tooDeep hshallow hnests
          · -- the lexeme has been read, too, and the rest of the text is shorter
            have hread : verdict maxDepth q' (us ++ [t]).length ts = some e := by
              rwa [List.length_append, List.length_singleton]
            have hfault := ih (hshallow.snoc hnests) hrun' hread
            rwa [List.append_assoc, List.singleton_append] at hfault

/-! ## Whole texts -/

theorem verdict_eq_some_iff {e : Error} : verdict maxDepth .start 0 ts = some e ↔ Fault ts e :=
  ⟨fun h => fault_of_verdict shallow_nil rfl h, Fault.verdict_eq⟩

/-- A text of between 1 and 4096 lexemes is refused exactly for its fault. -/
theorem parse_eq_error_iff (hpos : 1 ≤ ts.length) (hlength : ts.length ≤ 4096) :
    (∀ e, parseLexemes ts = .error e ↔ Fault ts e) ∧
      ∀ text, lex text.toList = .ok ts → ∀ e, parse text = .error e ↔ Fault ts e := by
  have hrefused : ∀ e, parseLexemes ts = .error e ↔ Fault ts e := by
    intro e
    rw [parseLexemes_eq_error_iff hpos hlength, verdict_eq_some_iff]
  refine ⟨hrefused, ?_⟩
  intro text hlex
  rw [parse_of_lex hlex]
  exact hrefused

/-- Two numbers in a row, and a closing parenthesis that was never opened. -/
def faulty : List Lexeme := [.number 2, .number 3, closing]

/-- The first fault counts, and what stands behind it is not looked at. -/
theorem faulty_refused :
    parseLexemes faulty = .error (.unexpectedLexeme 1 (.number 3)) ∧
      Fault faulty (.unexpectedLexeme 1 (.number 3)) ∧
      ¬ Fault faulty (.unmatchedClosingParen 2) := by
  have hpos : 1 ≤ faulty.length := by decide
  have hlength : faulty.length ≤ 4096 := by decide
  have hrefused : parseLexemes faulty = .error (.unexpectedLexeme 1 (.number 3)) := rfl
  obtain ⟨hfault, -⟩ := parse_eq_error_iff hpos hlength
  refine ⟨hrefused, (hfault _).mp hrefused, ?_⟩
  rw [← hfault, hrefused]
  simp

end FormulaBar.Formula
