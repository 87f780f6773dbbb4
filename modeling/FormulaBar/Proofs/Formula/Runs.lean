import FormulaBar.Proofs.Formula.FirstFault
import FormulaBar.Proofs.Formula.Operands

/-!
# Formulas without parentheses and powers

A flat formula is a chain of values with the four basic operators between them. It is worked out in
two rounds: what stands between two signs is a run, which is multiplied and divided from left to
right, and the runs are added and subtracted from left to right, each as soon as it has been worked
out. The first step that goes wrong on this way is the fault of the formula.

1. **Chains**, and how they are cut into runs.
2. **Steps** of runs and chains, and the values that they lead to.
3. **Lexemes** of a chain, run by run.
4. **Derivations** whose trees are worked out step by step.
5. **Streams** that are chains.
-/

namespace FormulaBar.Formula

open FormulaBar.Numeral (isNegative)

/-! ## Chains -/

/-- An operator of a flat formula. -/
abbrev Link := Sign ⊕ Scaling

/-- The operator that a link is written as. -/
def Link.operator : Link → Operator
  | .inl s => s.operator
  | .inr s => s.operator

/-- Values with operators between them. -/
structure Chain where
  first : Float
  more : List (Link × Float)

/-- The operator of a link, which counts as zero, and the value behind it. -/
def linkTerms (link : Link × Float) : List (Option Operator × Float) :=
  [(some link.1.operator, 0), (none, link.2)]

/-- The operators and the values of a chain in their order. -/
def Chain.terms (c : Chain) : List (Option Operator × Float) :=
  (none, c.first) :: c.more.flatMap linkTerms

/-- Values between which there are no signs. -/
structure Run where
  first : Float
  factors : List (Scaling × Float)

/-- The run that a value begins, and the further runs behind their signs. -/
def cut : Float → List (Link × Float) → Run × List (Sign × Run)
  | v, [] => (⟨v, []⟩, [])
  | v, (.inr s, w) :: more => (⟨v, (s, w) :: (cut w more).1.factors⟩, (cut w more).2)
  | v, (.inl s, w) :: more => (⟨v, []⟩, (s, (cut w more).1) :: (cut w more).2)

/-! ## Steps -/

/-- Multiplies and divides from left to right. -/
def scale (acc : Float) (factors : List (Scaling × Float)) : Float :=
  factors.foldl (fun acc (s, v) => s.op.result acc v) acc

/-- The steps of multiplying and dividing from left to right. -/
def scaleSteps : Float → List (Scaling × Float) → List Step
  | _, [] => []
  | acc, (s, v) :: factors => ⟨s.op, acc, v⟩ :: scaleSteps (s.op.result acc v) factors

namespace Run

def value (r : Run) : Float := scale r.first r.factors

def steps (r : Run) : List Step := scaleSteps r.first r.factors

end Run

/-- Adds and subtracts the values of runs from left to right. -/
def total (acc : Float) (runs : List (Sign × Run)) : Float :=
  runs.foldl (fun acc (s, r) => s.op.result acc r.value) acc

/-- The steps of adding and subtracting from left to right. Before a run is added or subtracted, it
is worked out itself. -/
def totalSteps : Float → List (Sign × Run) → List Step
  | _, [] => []
  | acc, (s, r) :: runs =>
    r.steps ++ ⟨s.op, acc, r.value⟩ :: totalSteps (s.op.result acc r.value) runs

namespace Chain

/-- The first run of a chain, and the further ones behind their signs. -/
def runs (c : Chain) : Run × List (Sign × Run) := cut c.first c.more

def value (c : Chain) : Float := total c.runs.1.value c.runs.2

def steps (c : Chain) : List Step := c.runs.1.steps ++ totalSteps c.runs.1.value c.runs.2

end Chain

/-! ## Lexemes -/

/-- What a value is read as: a number behind its minus sign, if it has one. -/
def valueLexemes (v : Float) : List Lexeme :=
  if isNegative v then [.operator .sub, .number (-v)] else [.number v]

/-- What the links of a chain are read as, with the values behind them. -/
def linkLexemes (more : List (Link × Float)) : List Lexeme :=
  more.flatMap fun link => .operator link.1.operator :: valueLexemes link.2

/-- What the factors of a run are read as, behind their operators. -/
def factorLexemes (factors : List (Scaling × Float)) : List Lexeme :=
  factors.flatMap fun factor => factor.1.lexeme :: valueLexemes factor.2

/-- What a run is read as. -/
def Run.lexemes (r : Run) : List Lexeme := valueLexemes r.first ++ factorLexemes r.factors

/-- What further runs are read as, behind their signs. -/
def runLexemes (runs : List (Sign × Run)) : List Lexeme :=
  runs.flatMap fun run => run.1.lexeme :: run.2.lexemes

/-- What a term of a stream is read as. -/
def termLexemes : Option Operator × Float → List Lexeme
  | (some op, _) => [.operator op]
  | (none, v) => valueLexemes v

section Lexemes

variable {tokens : List Token} {c : Chain}

theorem lexemes_eq_termLexemes (content : Content) :
    lexemes content = termLexemes (content.operator?, content.value) := by
  rw [lexemes]
  cases content.operator? <;> rfl

theorem cut_first (v : Float) (more : List (Link × Float)) : (cut v more).1.first = v := by
  rcases more with _ | ⟨⟨s | s, w⟩, more⟩ <;> rfl

/-- Cutting a chain keeps its lexemes. -/
theorem lexemes_cut (v : Float) (more : List (Link × Float)) :
    valueLexemes v ++ linkLexemes more = (cut v more).1.lexemes ++ runLexemes (cut v more).2 := by
  induction more generalizing v with
  | nil => simp [cut, linkLexemes, runLexemes, Run.lexemes, factorLexemes]
  | cons link more ih =>
      obtain ⟨s | s, w⟩ := link
      · -- the chain is cut here
        have hlink : linkLexemes ((.inl s, w) :: more) =
            s.lexeme :: (valueLexemes w ++ linkLexemes more) := rfl
        have hruns : runLexemes (cut v ((.inl s, w) :: more)).2 =
            s.lexeme :: ((cut w more).1.lexemes ++ runLexemes (cut w more).2) := rfl
        have hfirst : (cut v ((.inl s, w) :: more)).1.lexemes = valueLexemes v :=
          List.append_nil _
        rw [hlink, hruns, hfirst, ih]
      · -- the run goes on
        have hlink : linkLexemes ((.inr s, w) :: more) =
            s.lexeme :: (valueLexemes w ++ linkLexemes more) := rfl
        have hrun : (cut v ((.inr s, w) :: more)).1.lexemes =
            valueLexemes v ++ s.lexeme :: (cut w more).1.lexemes := by
          rw [Run.lexemes, cut_first, Run.lexemes, cut_first]
          rfl
        have hruns : (cut v ((.inr s, w) :: more)).2 = (cut w more).2 := rfl
        rw [hlink, hrun, hruns, ih, List.append_assoc, List.cons_append]

/-- A stream that is a chain has the lexemes of its runs. -/
theorem lexemes_chain
    (hterms : tokens.map (fun t => (t.content.operator?, t.content.value)) = c.terms) :
    (tokens.map Token.content).flatMap Formula.lexemes =
      c.runs.1.lexemes ++ runLexemes c.runs.2 := by
  have hread : (tokens.map Token.content).flatMap Formula.lexemes =
      c.terms.flatMap termLexemes := by
    rw [← hterms, List.flatMap_map, List.flatMap_map]
    exact List.flatMap_congr fun t _ => lexemes_eq_termLexemes t.content
  have hlinks : ∀ link ∈ c.more, (linkTerms link).flatMap termLexemes =
      .operator link.1.operator :: valueLexemes link.2 := by
    intro link _
    exact congrArg (Lexeme.operator link.1.operator :: ·) (List.append_nil _)
  rw [hread, Chain.terms, List.flatMap_cons, List.flatMap_assoc, List.flatMap_congr hlinks]
  exact lexemes_cut c.first c.more

end Lexemes

/-! ## Derivations -/

section Derivations

variable {n : Nat}

/-- All values of a run are finite. -/
structure Run.Finite (r : Run) : Prop where
  first : r.first.isFinite = true
  factors : ∀ factor ∈ r.factors, factor.2.isFinite = true

/-- An operation goes on from its operands with one step more. -/
theorem eval_binary_settle (op : BinaryOp) {left right : Tree} {acc v : Float}
    {done done' : List Step} (hleft : left.eval = settle Step.fault? done acc)
    (hright : right.eval = settle Step.fault? done' v) :
    (Tree.binary op left right).eval =
      settle Step.fault? (done ++ (done' ++ [⟨op, acc, v⟩])) (op.result acc v) := by
  rw [Tree.eval, hleft, hright]
  exact settle_bind (settle_bind (Step.mk op acc v).apply_eq_settle)

/-- A finite value is an operand. -/
theorem exists_operand {v : Float} (hv : v.isFinite = true) :
    ∃ d : Derivation (.whole .unary) (valueLexemes v), d.Within (n + 1) ∧
      d.tree.eval = settle Step.fault? [] v := by
  have hnumber : (Tree.number v).eval = .ok v := if_pos hv
  by_cases hsign : isNegative v = true
  · rw [valueLexemes, if_pos hsign]
    let operand : Derivation (.whole .unary) [.operator .sub, .number (-v)] :=
      .unary [.minus] (.plain (.number (-v)))
    have heval : operand.tree.eval = .ok v := (eval_negative hv []).symm.trans hnumber
    exact ⟨operand, Derivation.within_unary.mpr Derivation.within_number, heval⟩
  · rw [valueLexemes, if_neg hsign]
    let operand : Derivation (.whole .unary) [.number v] := .unary [] (.plain (.number v))
    exact ⟨operand, Derivation.within_unary.mpr Derivation.within_number, hnumber⟩

/-- Factors are worked out one after the other. -/
theorem exists_factors {factors : List (Scaling × Float)}
    (hfinite : ∀ factor ∈ factors, factor.2.isFinite = true) :
    ∃ d : Derivation (.rest .product) (factorLexemes factors), d.Within (n + 1) ∧
      ∀ {left done acc}, left.eval = settle Step.fault? done acc →
        (d.tree left).eval =
          settle Step.fault? (done ++ scaleSteps acc factors) (scale acc factors) := by
  induction factors with
  | nil =>
      refine ⟨.noFactor, Derivation.within_noFactor, ?_⟩
      intro left done acc hleft
      rw [scaleSteps, List.append_nil]
      exact hleft
  | cons factor factors ih =>
      obtain ⟨s, v⟩ := factor
      obtain ⟨hv, hrest⟩ := List.forall_mem_cons.mp hfinite
      obtain ⟨operand, hwithin₁, hoperand⟩ := exists_operand (n := n) hv
      obtain ⟨more, hwithin₂, hmore⟩ := ih hrest
      refine ⟨.factor s operand more, ?_, ?_⟩
      · exact Derivation.within_factor.mpr ⟨Nat.succ_pos n, hwithin₁, hwithin₂⟩
      · intro left done acc hleft
        have hstep := hmore (eval_binary_settle s.op hleft hoperand)
        rw [List.append_assoc] at hstep
        exact hstep

theorem exists_run {r : Run} (hfinite : r.Finite) :
    ∃ d : Derivation (.whole .product) r.lexemes, d.Within (n + 1) ∧
      d.tree.eval = settle Step.fault? r.steps r.value := by
  obtain ⟨first, hwithin₁, hfirst⟩ := exists_operand (n := n) hfinite.first
  obtain ⟨more, hwithin₂, hmore⟩ := exists_factors (n := n) hfinite.factors
  exact ⟨.product first more, Derivation.within_product.mpr ⟨hwithin₁, hwithin₂⟩, hmore hfirst⟩

/-- Runs are worked out one after the other, and each is added or subtracted at once. -/
theorem exists_runs {runs : List (Sign × Run)} (hfinite : ∀ run ∈ runs, run.2.Finite) :
    ∃ d : Derivation (.rest .sum) (runLexemes runs), d.Within (n + 1) ∧
      ∀ {left done acc}, left.eval = settle Step.fault? done acc →
        (d.tree left).eval =
          settle Step.fault? (done ++ totalSteps acc runs) (total acc runs) := by
  induction runs with
  | nil =>
      refine ⟨.noTerm, Derivation.within_noTerm, ?_⟩
      intro left done acc hleft
      rw [totalSteps, List.append_nil]
      exact hleft
  | cons run runs ih =>
      obtain ⟨s, r⟩ := run
      obtain ⟨hr, hrest⟩ := List.forall_mem_cons.mp hfinite
      obtain ⟨term, hwithin₁, hterm⟩ := exists_run (n := n) hr
      obtain ⟨more, hwithin₂, hmore⟩ := ih hrest
      refine ⟨.term s term more, ?_, ?_⟩
      · exact Derivation.within_term.mpr ⟨Nat.succ_pos n, hwithin₁, hwithin₂⟩
      · intro left done acc hleft
        have hstep := hmore (eval_binary_settle s.op hleft hterm)
        rw [List.append_assoc, List.append_assoc] at hstep
        exact hstep

theorem exists_chain {first : Run} {runs : List (Sign × Run)} (hfirst : first.Finite)
    (hruns : ∀ run ∈ runs, run.2.Finite) :
    ∃ d : Derivation (.whole .sum) (first.lexemes ++ runLexemes runs), d.Within (n + 1) ∧
      d.tree.eval =
        settle Step.fault? (first.steps ++ totalSteps first.value runs)
          (total first.value runs) := by
  obtain ⟨term, hwithin₁, hterm⟩ := exists_run (n := n) hfirst
  obtain ⟨more, hwithin₂, hmore⟩ := exists_runs (n := n) hruns
  exact ⟨.sum term more, Derivation.within_sum.mpr ⟨hwithin₁, hwithin₂⟩, hmore hterm⟩

/-- Cutting a chain keeps its values. -/
theorem finite_cut {v : Float} {more : List (Link × Float)} (hv : v.isFinite = true)
    (hmore : ∀ link ∈ more, link.2.isFinite = true) :
    (cut v more).1.Finite ∧ ∀ run ∈ (cut v more).2, run.2.Finite := by
  induction more generalizing v with
  | nil => exact ⟨⟨hv, nofun⟩, nofun⟩
  | cons link more ih =>
      obtain ⟨hw, hrest⟩ := List.forall_mem_cons.mp hmore
      obtain ⟨hfirst, hruns⟩ := ih hw hrest
      obtain ⟨s | s, w⟩ := link
      · exact ⟨⟨hv, nofun⟩, List.forall_mem_cons.mpr ⟨hfirst, hruns⟩⟩
      · exact ⟨⟨hv, List.forall_mem_cons.mpr ⟨hw, hfirst.factors⟩⟩, hruns⟩

end Derivations

/-! ## Streams -/

/-- A stream that is a chain has the outcome of the steps of its chain. -/
theorem evaluate_chain_eq {tokens : List Token} {c : Chain}
    (hterms : tokens.map (fun t => (t.content.operator?, t.content.value)) = c.terms)
    (hfinite : ∀ t ∈ tokens, t.content.value.isFinite = true)
    (hlength : tokens.length + (tokens.countP fun t => isNegative t.content.value) ≤ maxLexemes) :
    evaluate tokens = .ofExcept (settle Step.fault? c.steps c.value) := by
  have hvalues : ∀ term ∈ c.terms, term.2.isFinite = true := by
    rw [← hterms]
    exact List.forall_mem_map.mpr hfinite
  obtain ⟨hfirst, hmore⟩ := List.forall_mem_cons.mp hvalues
  have hlinks : ∀ link ∈ c.more, link.2.isFinite = true := by
    intro link hlink
    exact hmore (none, link.2) (List.mem_flatMap.mpr ⟨link, hlink, by simp [linkTerms]⟩)
  obtain ⟨hrun, hruns⟩ : c.runs.1.Finite ∧ ∀ run ∈ c.runs.2, run.2.Finite :=
    finite_cut hfirst hlinks
  obtain ⟨d, hwithin, heval⟩ := exists_chain (n := maxDepth) hrun hruns
  have hlexemes : (c.runs.1.lexemes ++ runLexemes c.runs.2).length ≤ maxLexemes := by
    rw [← lexemes_chain hterms, List.flatMap_map, length_lexemes]
    exact hlength
  have hpos := d.length_pos rfl
  have hparse := parseLexemes_eq_ok_iff.mpr ⟨hpos, hlexemes, d, hwithin, rfl⟩
  rw [evaluate_eq_rowResult hfinite, lexemes_chain hterms,
    rowResult_of_ne_nil (List.ne_nil_of_length_pos hpos), hparse]
  exact congrArg Evaluation.ofExcept heval

/-- A stream of finite values with the four basic operators between them is worked out run by run.
If no step divides by zero and all results are finite, it has the value that the two rounds lead to;
otherwise the first step for which this fails is its fault. -/
theorem evaluate_chain {tokens : List Token} {c : Chain}
    (hterms : tokens.map (fun t => (t.content.operator?, t.content.value)) = c.terms)
    (hfinite : ∀ t ∈ tokens, t.content.value.isFinite = true)
    (hlength : tokens.length + (tokens.countP fun t => isNegative t.content.value) ≤ 4096) :
    ((∀ s ∈ c.steps, s.Sound) → evaluate tokens = .value c.value) ∧
    ((¬∀ s ∈ c.steps, s.Sound) →
      ∃ before s after, c.steps = before ++ s :: after ∧ (∀ earlier ∈ before, earlier.Sound) ∧
        ¬s.Sound ∧
        evaluate tokens = .invalid (if s.DividesByZero then .divisionByZero else .nonFinite)) := by
  rw [evaluate_chain_eq hterms hfinite hlength]
  cases houtcome : settle Step.fault? c.steps c.value with
  | ok v =>
      obtain ⟨hnone, rfl⟩ := settle_eq_ok_iff.mp houtcome
      have hsound : ∀ s ∈ c.steps, s.Sound := fun s hs => faultOf_eq_none_iff.mp (hnone s hs)
      exact ⟨fun _ => rfl, fun h => absurd hsound h⟩
  | error e =>
      obtain ⟨before, s, after, hsteps, hfault, hnone⟩ := settle_eq_error_iff.mp houtcome
      have hs : ¬s.Sound := by
        intro hsound
        rw [Step.fault?, faultOf_eq_none_iff.mpr hsound] at hfault
        cases hfault
      have hbefore : ∀ earlier ∈ before, earlier.Sound :=
        fun earlier h => faultOf_eq_none_iff.mp (hnone earlier h)
      constructor
      · intro hsound
        have hmem : s ∈ c.steps := by
          rw [hsteps]
          exact List.mem_append_right _ List.mem_cons_self
        exact absurd (hsound s hmem) hs
      · intro _
        refine ⟨before, s, after, hsteps, hbefore, hs, ?_⟩
        rcases faultOf_eq_some_iff.mp hfault with ⟨hzero, rfl⟩ | ⟨hzero, -, rfl⟩
        · rw [if_pos hzero]
          rfl
        · rw [if_neg hzero]
          rfl

/-- A debt divided, and a product subtracted from the quotient. -/
def dividedDebt : Chain := ⟨-6, [(.inr .over, 4), (.inl .minus, 3), (.inr .times, -2)]⟩

/-- The terms of `dividedDebt`, its first value under a name. -/
def dividedDebtTokens : List Token :=
  [⟨⟨1⟩, .variable "debt" "finance" (-6) "d"⟩, ⟨⟨2⟩, .operator .div⟩, ⟨⟨3⟩, .ofValue 4⟩,
    ⟨⟨4⟩, .operator .sub⟩, ⟨⟨5⟩, .ofValue 3⟩, ⟨⟨6⟩, .operator .mul⟩, ⟨⟨7⟩, .ofValue (-2)⟩]

theorem evaluate_dividedDebt :
    dividedDebt.steps = [⟨.div, -6, 4⟩, ⟨.mul, 3, -2⟩, ⟨.sub, -1.5, -6⟩] ∧
      evaluate dividedDebtTokens = .value 4.5 := by
  have hterms : dividedDebtTokens.map (fun t => (t.content.operator?, t.content.value)) =
      dividedDebt.terms := by decide
  have hsound : ∀ s ∈ dividedDebt.steps, s.Sound := by decide +kernel
  have hvalue := (evaluate_chain hterms (by decide) (by decide)).1 hsound
  have htotal : dividedDebt.value = 4.5 := by decide +kernel
  rw [htotal] at hvalue
  exact ⟨by decide +kernel, hvalue⟩

end FormulaBar.Formula
