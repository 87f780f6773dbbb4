import FormulaBar.Formula.Evaluation
import FormulaBar.Proofs.Formula.Lexing
import FormulaBar.Proofs.Numeral.Double

/-!
# The first fault of an evaluation

Operations on doubles have a result whatever their operands are, and so has an expression. It is
evaluated to that result if no operation in it divides by zero and no number in it is infinite or
undefined. Otherwise the first node where this is so is at fault, in the order in which operands
come before their operation and stand from left to right.

1. **Faults** of a result.
2. **Steps**: single operations.
3. **Rows** of things that may be at fault, the first of which counts.
4. **Expressions**, node by node.
5. **Texts and streams**.
-/

namespace FormulaBar.Formula

/-! ## Faults -/

/-- Zero of either sign. -/
def IsZero (x : Float) : Prop := x = 0 ∨ x = -0

instance (x : Float) : Decidable (IsZero x) := inferInstanceAs (Decidable (x = 0 ∨ x = -0))

/-- What is wrong with a result, which may be that of a division by zero. -/
def faultOf (dividesByZero : Prop) [Decidable dividesByZero] (result : Float) : Option Error :=
  if dividesByZero then some .divisionByZero
  else if result.isFinite then none
  else some .nonFinite

section Faults

variable {dividesByZero : Prop} [Decidable dividesByZero] {result : Float}

theorem faultOf_eq_none_iff :
    faultOf dividesByZero result = none ↔ result.isFinite = true ∧ ¬dividesByZero := by
  unfold faultOf
  split
  · next hzero => simp [hzero]
  · next hzero =>
    split
    · next hfinite => simp [hzero, hfinite]
    · next hfinite => simp [hfinite]

/-- A division by zero is reported as such, whatever its result is. -/
theorem faultOf_eq_some_iff {e : Error} :
    faultOf dividesByZero result = some e ↔
      (dividesByZero ∧ e = .divisionByZero) ∨
        (¬dividesByZero ∧ result.isFinite = false ∧ e = .nonFinite) := by
  unfold faultOf
  by_cases hzero : dividesByZero
  · simp only [hzero, if_true, Option.some_inj, true_and, not_true, false_and, or_false]
    exact eq_comm
  · cases hfinite : result.isFinite with
    | true => simp [hzero]
    | false =>
        simp only [hzero, if_false, Bool.false_eq_true, Option.some_inj, not_false_eq_true,
          true_and, false_and, false_or]
        exact eq_comm

/-- A check for finiteness is all that is left where nothing is divided by zero. -/
theorem finite_eq_faultOf (h : ¬dividesByZero) (v : Float) :
    finite v =
      match faultOf dividesByZero v with
      | none => .ok v
      | some e => .error e := by
  unfold finite faultOf
  rw [if_neg h]
  cases v.isFinite <;> rfl

end Faults

/-! ## Steps -/

/-- What an operation makes of two doubles, whatever they are. -/
def BinaryOp.result (op : BinaryOp) (left right : Float) : Float :=
  match op with
  | .add => left + right
  | .sub => left - right
  | .mul => left * right
  | .div => left / right
  | .pow => left.pow right

/-- One operation on two doubles. -/
structure Step where
  op : BinaryOp
  left : Float
  right : Float
deriving Repr, DecidableEq

namespace Step

/-- The result of a step, right or wrong. -/
def result (s : Step) : Float := s.op.result s.left s.right

/-- The step is a division by zero of either sign. -/
def DividesByZero (s : Step) : Prop := s.op = .div ∧ IsZero s.right

instance (s : Step) : Decidable s.DividesByZero :=
  inferInstanceAs (Decidable (s.op = .div ∧ IsZero s.right))

/-- Nothing is wrong with a step. -/
def Sound (s : Step) : Prop := s.result.isFinite = true ∧ ¬s.DividesByZero

instance (s : Step) : Decidable s.Sound :=
  inferInstanceAs (Decidable (s.result.isFinite = true ∧ ¬s.DividesByZero))

/-- What is wrong with a step. -/
def fault? (s : Step) : Option Error := faultOf s.DividesByZero s.result

/-- An operation gives the result of the step, or what is wrong with it. -/
theorem apply_eq (s : Step) :
    s.op.apply s.left s.right =
      match s.fault? with
      | none => .ok s.result
      | some e => .error e := by
  obtain ⟨op, left, right⟩ := s
  cases op with
  | add | sub | mul | pow => exact finite_eq_faultOf (fun h => nomatch h.1) _
  | div =>
      by_cases hzero : (right == 0) = true
      · -- a divisor of either sign is caught
        have hdivides : DividesByZero ⟨.div, left, right⟩ := ⟨rfl, Numeral.beq_zero_iff.mp hzero⟩
        simp only [BinaryOp.apply, if_pos hzero, fault?, faultOf, if_pos hdivides]
      · have hdivides : ¬DividesByZero ⟨.div, left, right⟩ :=
          fun h => hzero (Numeral.beq_zero_iff.mpr h.2)
        simp only [BinaryOp.apply, if_neg hzero]
        exact finite_eq_faultOf hdivides _

end Step

/-! ## Rows -/

section Rows

variable {α : Type} {fault? : α → Option Error} {xs ys : List α} {u v w : Float}

/-- A value, unless something in a row is at fault: then it is the first fault. -/
def settle (fault? : α → Option Error) (row : List α) (v : Float) : Except Error Float :=
  match row.findSome? fault? with
  | none => .ok v
  | some e => .error e

theorem settle_eq_ok_iff :
    settle fault? xs v = .ok w ↔ (∀ x ∈ xs, fault? x = none) ∧ w = v := by
  have hnone : xs.findSome? fault? = none ↔ ∀ x ∈ xs, fault? x = none :=
    List.findSome?_eq_none_iff
  rw [← hnone]
  unfold settle
  cases xs.findSome? fault? with
  | none =>
      simp only [Except.ok.injEq, true_and]
      exact eq_comm
  | some e => simp

theorem settle_eq_error_iff {e : Error} :
    settle fault? xs v = .error e ↔
      ∃ before x after, xs = before ++ x :: after ∧ fault? x = some e ∧
        ∀ y ∈ before, fault? y = none := by
  rw [← List.findSome?_eq_some_iff]
  unfold settle
  cases xs.findSome? fault? with
  | none => simp
  | some e' => simp

/-- Where nothing has been at fault, a row goes on with what comes next. -/
theorem settle_bind {f : Float → Except Error Float} (hf : f u = settle fault? ys v) :
    settle fault? xs u >>= f = settle fault? (xs ++ ys) v := by
  rw [settle, settle, List.findSome?_append]
  cases xs.findSome? fault? with
  | none => exact hf
  | some e => rfl

theorem settle_singleton (x : α) :
    settle fault? [x] v =
      match fault? x with
      | none => .ok v
      | some e => .error e := by
  rw [settle, List.findSome?_singleton]

end Rows

theorem Step.apply_eq_settle (s : Step) :
    s.op.apply s.left s.right = settle Step.fault? [s] s.result := by
  rw [settle_singleton, s.apply_eq]

/-! ## Expressions -/

namespace Tree

/-- The double that an expression stands for, right or wrong. -/
def result : Tree → Float
  | .number v => v
  | .neg operand => -operand.result
  | .binary op left right => op.result left.result right.result

/-- The nodes of an expression: operands before their operation, from left to right. -/
def nodes : Tree → List Tree
  | .number v => [.number v]
  | .neg operand => operand.nodes ++ [.neg operand]
  | .binary op left right => left.nodes ++ (right.nodes ++ [.binary op left right])

/-- The outermost operation is a division by zero of either sign. -/
def DividesByZero : Tree → Prop
  | .number _ | .neg _ => False
  | .binary op left right => (Step.mk op left.result right.result).DividesByZero

instance (t : Tree) : Decidable t.DividesByZero :=
  match t with
  | .number _ | .neg _ => inferInstanceAs (Decidable False)
  | .binary op left right =>
    inferInstanceAs (Decidable (Step.mk op left.result right.result).DividesByZero)

/-- What is wrong with a node by itself. -/
def fault? (t : Tree) : Option Error := faultOf t.DividesByZero t.result

variable {t : Tree}

theorem self_mem_nodes (t : Tree) : t ∈ t.nodes := by
  cases t <;> simp [nodes]

/-- Negation does no harm to what was not at fault. -/
theorem fault?_neg {operand : Tree} (h : operand.fault? = none) :
    (Tree.neg operand).fault? = none := by
  obtain ⟨hfinite, -⟩ := faultOf_eq_none_iff.mp h
  exact faultOf_eq_none_iff.mpr ⟨Numeral.isFinite_neg hfinite, id⟩

/-- An expression is evaluated to its double, unless one of its nodes is at fault. -/
theorem eval_eq_settle (t : Tree) : t.eval = settle fault? t.nodes t.result := by
  induction t with
  | number v =>
      rw [nodes, settle_singleton, eval]
      exact finite_eq_faultOf id v
  | neg operand ih =>
      rw [eval, ih]
      -- the node itself is at fault only after its operand
      cases hoperand : settle fault? operand.nodes operand.result with
      | error e =>
          obtain ⟨before, x, after, hnodes, hfault, hbefore⟩ := settle_eq_error_iff.mp hoperand
          have hself : (neg operand).nodes = before ++ x :: (after ++ [.neg operand]) := by
            rw [nodes, hnodes, List.append_assoc, List.cons_append]
          exact (settle_eq_error_iff.mpr ⟨before, x, _, hself, hfault, hbefore⟩).symm
      | ok v =>
          obtain ⟨hnone, rfl⟩ := settle_eq_ok_iff.mp hoperand
          refine (settle_eq_ok_iff.mpr ⟨?_, rfl⟩).symm
          intro node hnode
          rcases List.mem_append.mp hnode with hnode | hself
          · exact hnone node hnode
          · rw [List.mem_singleton.mp hself]
            exact fault?_neg (hnone operand operand.self_mem_nodes)
  | binary op left right ihl ihr =>
      rw [eval, ihl, ihr, nodes]
      have hself := (Step.mk op left.result right.result).apply_eq_settle
      rw [settle_singleton] at hself
      have hnode : op.apply left.result right.result =
          settle fault? [.binary op left right] (result (.binary op left right)) := by
        rw [settle_singleton]
        exact hself
      exact settle_bind (settle_bind hnode)

/-- Nothing is wrong with a node by itself. -/
def Sound (t : Tree) : Prop := t.result.isFinite = true ∧ ¬t.DividesByZero

instance (t : Tree) : Decidable t.Sound :=
  inferInstanceAs (Decidable (t.result.isFinite = true ∧ ¬t.DividesByZero))

theorem eval_eq_ok_iff {v : Float} :
    t.eval = .ok v ↔ (∀ node ∈ t.nodes, node.Sound) ∧ v = t.result := by
  rw [eval_eq_settle, settle_eq_ok_iff]
  exact and_congr_left' (forall₂_congr fun _ _ => faultOf_eq_none_iff)

theorem eval_eq_error_iff {e : Error} :
    t.eval = .error e ↔
      ∃ before node after, t.nodes = before ++ node :: after ∧
        (∀ earlier ∈ before, earlier.Sound) ∧
        ((node.DividesByZero ∧ e = .divisionByZero) ∨
          (¬node.DividesByZero ∧ node.result.isFinite = false ∧ e = .nonFinite)) := by
  rw [eval_eq_settle, settle_eq_error_iff]
  constructor
  · rintro ⟨before, node, after, hnodes, hfault, hbefore⟩
    refine ⟨before, node, after, hnodes, ?_, faultOf_eq_some_iff.mp hfault⟩
    exact fun earlier h => faultOf_eq_none_iff.mp (hbefore earlier h)
  · rintro ⟨before, node, after, hnodes, hbefore, hfault⟩
    refine ⟨before, node, after, hnodes, faultOf_eq_some_iff.mpr hfault, ?_⟩
    exact fun earlier h => faultOf_eq_none_iff.mpr (hbefore earlier h)

/-- No expression is evaluated to something infinite or undefined. -/
theorem isFinite_of_eval {v : Float} (h : t.eval = .ok v) : v.isFinite = true := by
  obtain ⟨hsound, rfl⟩ := eval_eq_ok_iff.mp h
  exact (hsound t t.self_mem_nodes).1

/-- An expression in which something is divided by zero has no value. -/
theorem eval_ne_ok_of_mem {node : Tree} (hnode : node ∈ t.nodes) (hzero : node.DividesByZero)
    (v : Float) : t.eval ≠ .ok v := by
  intro h
  exact ((eval_eq_ok_iff.mp h).1 node hnode).2 hzero

end Tree

/-! ## Texts and streams -/

section Results

variable {text : String} {t : Tree} {tokens : List Token} {v : Float}

theorem evaluateText_of_parse (h : parse text = .ok t) : evaluateText text = t.eval := by
  show parse text >>= Tree.eval = t.eval
  rw [h]
  rfl

theorem isFinite_of_evaluateText (h : evaluateText text = .ok v) : v.isFinite = true := by
  cases hparse : parse text with
  | error e =>
      replace h : parse text >>= Tree.eval = .ok v := h
      rw [hparse] at h
      cases h
  | ok t => exact Tree.isFinite_of_eval ((evaluateText_of_parse hparse).symm.trans h)

/-- A stream that is not empty has the value of its infix text. -/
theorem evaluate_eq_ofExcept (h : tokens ≠ []) :
    evaluate tokens = .ofExcept (evaluateText (infixText tokens)) := by
  rw [evaluateText, infixText, String.toList_ofList]
  cases tokens with
  | nil => exact absurd rfl h
  | cons t ts => rfl

theorem evaluate_of_parse (h : parse (infixText tokens) = .ok t) :
    evaluate tokens = .ofExcept t.eval := by
  have hne : tokens ≠ [] := by
    rintro rfl
    replace h : lex [] >>= parseLexemes = .ok t := h
    rw [lex_nil] at h
    cases h
  rw [evaluate_eq_ofExcept hne, evaluateText_of_parse h]

theorem isFinite_of_evaluate (h : evaluate tokens = .value v) : v.isFinite = true := by
  have hne : tokens ≠ [] := by
    rintro rfl
    cases h
  rw [evaluate_eq_ofExcept hne, Evaluation.ofExcept_eq_value_iff] at h
  exact isFinite_of_evaluateText h

end Results

/-- An expression is evaluated to the double that it stands for exactly if that is finite in every
node and no node divides by zero. Otherwise the first node at fault decides which of the two faults
there is. So no text and no stream has a value that is infinite or undefined, and none has one where
something is divided by zero; that is the fault which is reported, unless another comes before. -/
theorem evaluation_first_fault :
    (∀ (t : Tree) (v : Float), t.eval = .ok v ↔
      (∀ node ∈ t.nodes, node.Sound) ∧ v = t.result ∧ v.isFinite = true) ∧
    (∀ (t : Tree) (e : Error), t.eval = .error e ↔
      ∃ before node after, t.nodes = before ++ node :: after ∧
        (∀ earlier ∈ before, earlier.Sound) ∧
        ((node.DividesByZero ∧ e = .divisionByZero) ∨
          (¬node.DividesByZero ∧ node.result.isFinite = false ∧ e = .nonFinite))) ∧
    (∀ (text : String) (v : Float), evaluateText text = .ok v → v.isFinite = true) ∧
    (∀ (tokens : List Token) (v : Float), evaluate tokens = .value v → v.isFinite = true) ∧
    ∀ (text : String) (t : Tree) (before : List Tree) (node : Tree) (after : List Tree),
      parse text = .ok t → t.nodes = before ++ node :: after → node.DividesByZero →
      (∀ v, evaluateText text ≠ .ok v) ∧
      ((∀ earlier ∈ before, earlier.Sound) → evaluateText text = .error .divisionByZero) ∧
      ∀ tokens, infixText tokens = text →
        (∀ v, evaluate tokens ≠ .value v) ∧
        ((∀ earlier ∈ before, earlier.Sound) → evaluate tokens = .invalid .divisionByZero) := by
  refine ⟨?_, fun _ _ => Tree.eval_eq_error_iff, fun _ _ => isFinite_of_evaluateText,
    fun _ _ => isFinite_of_evaluate, ?_⟩
  · intro t v
    constructor
    · intro h
      obtain ⟨hsound, hvalue⟩ := Tree.eval_eq_ok_iff.mp h
      exact ⟨hsound, hvalue, Tree.isFinite_of_eval h⟩
    · rintro ⟨hsound, hvalue, -⟩
      exact Tree.eval_eq_ok_iff.mpr ⟨hsound, hvalue⟩
  · intro text t before node after hparse hnodes hzero
    have hmem : node ∈ t.nodes := by
      rw [hnodes]
      exact List.mem_append_right _ List.mem_cons_self
    have hnone := Tree.eval_ne_ok_of_mem hmem hzero
    have hfirst : (∀ earlier ∈ before, earlier.Sound) → t.eval = .error .divisionByZero :=
      fun hbefore => Tree.eval_eq_error_iff.mpr
        ⟨before, node, after, hnodes, hbefore, .inl ⟨hzero, rfl⟩⟩
    rw [evaluateText_of_parse hparse]
    refine ⟨hnone, hfirst, ?_⟩
    rintro tokens rfl
    rw [evaluate_of_parse hparse]
    refine ⟨fun v h => hnone v (Evaluation.ofExcept_eq_value_iff.mp h), ?_⟩
    intro hbefore
    rw [hfirst hbefore]
    rfl

/-- A quotient whose divisor is zero, in front of a product that is too large. -/
def quotientFirst : Tree :=
  .binary .add (.binary .div (.number 1) (.binary .sub (.number 2) (.number 2)))
    (.binary .mul (.number 1e308) (.number 10))

theorem quotientFirst_fault :
    parse "1 / (2 - 2) + 1e308 * 10" = .ok quotientFirst ∧
      evaluateText "1 / (2 - 2) + 1e308 * 10" = .error .divisionByZero := by
  have hparse : parse "1 / (2 - 2) + 1e308 * 10" = .ok quotientFirst := by
    have h : (parse "1 / (2 - 2) + 1e308 * 10").toOption = some quotientFirst := by
      decide +kernel
    cases hr : parse "1 / (2 - 2) + 1e308 * 10" with
    | error e =>
        rw [hr] at h
        cases h
    | ok t =>
        rw [hr] at h
        exact congrArg Except.ok (Option.some.inj h)
  let difference : Tree := .binary .sub (.number 2) (.number 2)
  let before : List Tree := [.number 1, .number 2, .number 2, difference]
  have hbefore : ∀ earlier ∈ before, earlier.Sound := by decide
  have hzero : (Tree.binary .div (.number 1) difference).DividesByZero := by decide
  have hfault := evaluation_first_fault.2.2.2.2 _ _ before _ _ hparse rfl hzero
  exact ⟨hparse, hfault.2.1 hbefore⟩

end FormulaBar.Formula
