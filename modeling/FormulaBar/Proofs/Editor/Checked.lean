import FormulaBar.Proofs.Editor.Consistency
import Mathlib.Data.Nat.PSub

/-!
# No position is ever out of range

The operations once more, on a stream whose every access is checked: inserting behind the end,
taking out or replacing where no token stands, and stepping back from the cursor at zero give
nothing. On reachable states the checks never fail, and the outcome is that of the operation.

1. **Accesses** to the stream, each with its check.
2. **Operations** on checked accesses.
3. **Agreement**: checked operations succeed, and do what the operations do.
4. **Representation** of reachable states.
-/

namespace FormulaBar.Editor

/-! ## Accesses -/

/-- Inserts before the token at an index, or at the end. -/
def insertAt? (tokens : List Token) (index : Nat) (t : Token) : Option (List Token) :=
  if index ≤ tokens.length then some (tokens.insertIdx index t) else none

/-- Takes the token at an index out. -/
def removeAt? (tokens : List Token) (index : Nat) : Option (Token × List Token) :=
  if h : index < tokens.length then some (tokens[index], tokens.eraseIdx index) else none

/-- Replaces the token at an index. -/
def setAt? (tokens : List Token) (index : Nat) (t : Token) : Option (List Token) :=
  if index < tokens.length then some (tokens.set index t) else none

/-! ## Operations -/

variable (e : Editor)

def insertChecked (index : Nat) (t : Token) : Option Editor := do
  let index := min index e.tokens.length
  let (id, e) := if (e.position? t.id).isSome then e.mint else (t.id, e)
  let tokens ← insertAt? e.tokens index ⟨id, t.content⟩
  return { e with tokens, cursor := index + 1, buffer := "" }.dismiss.reevaluate

def insertNewChecked (index : Nat) (content : Content) : Option Editor :=
  e.mint.2.insertChecked index ⟨e.mint.1, content⟩

def removeIndexChecked (index : Nat) : Option Editor := do
  let (removed, tokens) ← removeAt? e.tokens index
  let e := { e with tokens }
  return if e.edit.any fun box => box.id = removed.id then e.closeEdit else e

def removeChecked (id : TokenId) : Option (Bool × Editor) :=
  match e.position? id with
  | none => some (false, e)
  | some index => do
    let e ← e.removeIndexChecked index
    return (true, { e with cursor := min e.cursor e.tokens.length }.reevaluate)

def deleteChecked (id : TokenId) : Option (Bool × Editor) :=
  match e.position? id with
  | none => some (false, e)
  | some index => do
    let after ← e.removeIndexChecked index
    let cursor ←
      if index < e.cursor then e.cursor.ppred else some (min e.cursor after.tokens.length)
    return (true, { after with cursor }.reevaluate)

def replaceChecked (id : TokenId) (content : Content) : Option (Bool × Editor) :=
  match e.position? id with
  | none => some (false, e)
  | some index => do
    let tokens ← setAt? e.tokens index ⟨id, content⟩
    return (true, { e with tokens }.reevaluate)

def backspaceChecked : Option Editor :=
  if !e.buffer.isEmpty then
    some { e with buffer := String.ofList e.buffer.toList.dropLast }.searchBuffer
  else if e.cursor = 0 then some e
  else do
    let index ← e.cursor.ppred
    let after ← e.removeIndexChecked index
    return { after with cursor := index }.reevaluate

def commitNumberChecked (v : Float) : Option Editor :=
  e.insertNewChecked e.cursor (.number (Text.trim e.buffer) v)

def commitOperatorChecked (op : Operator) : Option Editor := do
  let e ←
    match Numeral.typed? e.buffer with
    | some v => e.commitNumberChecked v
    | none => some e
  e.insertNewChecked e.cursor (.operator op)

def commitChecked : Option Editor :=
  if (Text.trim e.buffer).isEmpty then some e
  else
    match Numeral.typed? e.buffer with
    | some v => e.commitNumberChecked v
    | none =>
      match e.candidates with
      | c :: _ => if e.active then e.insertNewChecked e.cursor (.ofCandidate c) else some e
      | [] => some e

def pickChecked (id : String) : Option (Bool × Editor) :=
  match Candidate.find? e.candidates id with
  | none => some (false, e)
  | some c => do
    let e ← e.insertNewChecked e.cursor (.ofCandidate c)
    return (true, e)

def pressChecked : Key → Option Editor
  | .backspace => e.backspaceChecked
  | .char c =>
    match Operator.ofChar? c with
    | some op => e.commitOperatorChecked op
    | none => some (e.press (.char c))
  | .enter => e.commitChecked
  | k => some (e.press k)

def commitEditChecked : Option (Bool × Editor) :=
  match e.edit with
  | none => some (false, e)
  | some box =>
    let first := e.candidates.head?
    let e := e.closeEdit
    match (e.token? box.id).map Token.content with
    | none => some (false, e)
    | some (.variable name category value source) =>
      match first with
      | some c => e.replaceChecked box.id ((Content.variable name category value source).rebind c)
      | none => some (false, e)
    | some (.number ..) =>
      match Numeral.typed? box.text with
      | some v => e.mint.2.replaceChecked box.id (.number (Text.trim box.text) v)
      | none => some (false, e)
    | some (.operator _) =>
      match Operator.ofText? (Text.trim box.text) with
      | some op => e.mint.2.replaceChecked box.id (.operator op)
      | none => some (false, e)

def pickEditChecked (id : String) : Option (Bool × Editor) :=
  match e.edit with
  | none => some (false, e)
  | some box =>
    match Candidate.find? e.candidates id with
    | none => some (false, e)
    | some c =>
      let e := e.closeEdit
      match (e.token? box.id).map Token.content with
      | some (.variable name category value source) =>
        e.replaceChecked box.id ((Content.variable name category value source).rebind c)
      | _ => some (false, e)

def reactChecked : InputEvent → Option Editor
  | .key k => e.pressChecked k
  | .click index => some (e.placeCursor index)
  | .pick id =>
    if e.edit.isSome then (e.pickEditChecked id).map Prod.snd
    else (e.pickChecked id).map Prod.snd

/-- Carries out an operation on checked accesses. -/
def applyChecked : Operation → Option (Reply × Editor)
  | .press k => (e.pressChecked k).map silent
  | .react ev => (e.reactChecked ev).map silent
  | .insertNew index content => (e.insertNewChecked index content).map silent
  | .insert index t => (e.insertChecked index t).map silent
  | .remove id => (e.removeChecked id).map flagged
  | .delete id => (e.deleteChecked id).map flagged
  | .replace id content => (e.mint.2.replaceChecked id content).map flagged
  | .pick candidate => (e.pickChecked candidate).map flagged
  | .commitEdit => e.commitEditChecked.map flagged
  | .pickEdit candidate => (e.pickEditChecked candidate).map flagged
  -- the other operations have no access to the stream
  | op => some (e.apply op)

/-! ## Agreement -/

variable {e}

/-- An insertion that passes the check splits the tokens at the index. -/
theorem insertAt?_eq {tokens : List Token} {index : Nat} (h : index ≤ tokens.length) (t : Token) :
    insertAt? tokens index t = some (tokens.take index ++ t :: tokens.drop index) := by
  rw [insertAt?, if_pos h]
  congr 1
  induction tokens generalizing index with
  | nil =>
      have hindex : index = 0 := Nat.le_zero.mp h
      subst hindex
      rfl
  | cons a tokens ih =>
      cases index with
      | zero => rfl
      | succ index =>
          rw [List.insertIdx_succ_cons, ih (Nat.le_of_succ_le_succ h)]
          rfl

theorem insertChecked_eq (index : Nat) (t : Token) :
    e.insertChecked index t = some (e.insert index t) := by
  have hle : min index e.tokens.length ≤ e.tokens.length := Nat.min_le_right _ _
  unfold insertChecked insert
  dsimp only
  split
  · have hmint : min index e.tokens.length ≤ e.mint.2.tokens.length := hle
    rw [insertAt?_eq hmint]
    rfl
  · rw [insertAt?_eq hle]
    rfl

theorem insertNewChecked_eq (index : Nat) (content : Content) :
    e.insertNewChecked index content = some (e.insertNew index content) :=
  insertChecked_eq index _

/-- Where a token stands, it can be taken out. -/
theorem removeIndexChecked_eq {index : Nat} (h : index < e.tokens.length) :
    e.removeIndexChecked index = some (e.removeIndex index) := by
  have htoken : e.tokens[index]? = some e.tokens[index] := List.getElem?_eq_getElem h
  simp only [removeIndexChecked, removeAt?, dif_pos h, Option.bind_eq_bind, Option.bind_some,
    removeIndex, htoken, Option.map_some]
  cases e.edit with
  | none => rfl
  | some box => simp

theorem removeChecked_eq (id : TokenId) : e.removeChecked id = some (e.remove id) := by
  unfold removeChecked remove
  cases hpos : e.position? id with
  | none => rfl
  | some index =>
      rcases getElem_of_position? hpos with ⟨hlt, -⟩
      dsimp only
      rw [removeIndexChecked_eq hlt]
      rfl

/-- Behind a token the cursor is not at zero. -/
theorem deleteChecked_eq (id : TokenId) : e.deleteChecked id = some (e.delete id) := by
  unfold deleteChecked delete
  cases hpos : e.position? id with
  | none => rfl
  | some index =>
      rcases getElem_of_position? hpos with ⟨hlt, -⟩
      dsimp only
      rw [removeIndexChecked_eq hlt, removeIndex_cursor]
      by_cases hbefore : index < e.cursor
      · -- the cursor follows the removal
        obtain ⟨n, hn⟩ : ∃ n, e.cursor = n + 1 := Nat.exists_eq_add_one.mpr (by omega)
        have hppred : e.cursor.ppred = some (e.cursor - 1) := by rw [hn]; rfl
        simp only [Option.bind_eq_bind, Option.bind_some, if_pos hbefore, hppred]
        rfl
      · -- the cursor stays, as far as there are tokens
        simp only [Option.bind_eq_bind, Option.bind_some, if_neg hbefore]
        rfl

theorem replaceChecked_eq (id : TokenId) (content : Content) :
    e.replaceChecked id content = some (e.replace id content) := by
  unfold replaceChecked replace
  cases hpos : e.position? id with
  | none => rfl
  | some index =>
      rcases getElem_of_position? hpos with ⟨hlt, -⟩
      dsimp only
      rw [setAt?, if_pos hlt]
      rfl

/-- Before the cursor there is a token to take back. -/
theorem backspaceChecked_eq (h : e.cursor ≤ e.tokens.length) :
    e.backspaceChecked = some e.backspace := by
  unfold backspaceChecked backspace
  by_cases hbuffer : !e.buffer.isEmpty
  · rw [if_pos hbuffer, if_pos hbuffer]
  · rw [if_neg hbuffer, if_neg hbuffer]
    cases hcursor : e.cursor with
    | zero => rfl
    | succ n =>
        rw [if_neg n.succ_ne_zero, if_neg n.succ_ne_zero, Nat.ppred_succ]
        have hlt : n < e.tokens.length := by omega
        simp only [Option.bind_eq_bind, Option.bind_some, removeIndexChecked_eq hlt]
        rfl

theorem commitOperatorChecked_eq (op : Operator) :
    e.commitOperatorChecked op = some (e.commitOperator op) := by
  unfold commitOperatorChecked commitOperator commitNumber? commitNumberChecked
  cases Numeral.typed? e.buffer with
  | none => exact insertNewChecked_eq _ _
  | some v =>
      dsimp only
      rw [insertNewChecked_eq]
      exact insertNewChecked_eq _ _

theorem commitChecked_eq : e.commitChecked = some e.commit := by
  unfold commitChecked commit commitNumber? commitNumberChecked
  split
  · rfl
  · cases Numeral.typed? e.buffer with
    | some v => exact insertNewChecked_eq _ _
    | none =>
        cases e.candidates with
        | nil => rfl
        | cons c rest =>
            cases e.active with
            | true => exact insertNewChecked_eq _ _
            | false => rfl

theorem pickChecked_eq (id : String) : e.pickChecked id = some (e.pick id) := by
  unfold pickChecked pick
  cases Candidate.find? e.candidates id with
  | none => rfl
  | some c =>
      dsimp only
      rw [insertNewChecked_eq]
      rfl

theorem pressChecked_eq (h : e.cursor ≤ e.tokens.length) (k : Key) :
    e.pressChecked k = some (e.press k) := by
  cases k with
  | backspace => exact backspaceChecked_eq h
  | char c =>
      dsimp only [pressChecked, press]
      cases Operator.ofChar? c with
      | none => rfl
      | some op => exact commitOperatorChecked_eq op
  | enter => exact commitChecked_eq
  | left => rfl
  | right => rfl
  | escape => rfl

theorem commitEditChecked_eq : e.commitEditChecked = some (Editor.commitEdit e) := by
  unfold commitEditChecked Editor.commitEdit replaceNew
  cases e.edit with
  | none => rfl
  | some box =>
      dsimp only
      cases (e.closeEdit.token? box.id).map Token.content with
      | none => rfl
      | some content =>
          cases content with
          | operator op =>
              cases Operator.ofText? (Text.trim box.text) with
              | none => rfl
              | some op => exact replaceChecked_eq _ _
          | number text value =>
              cases Numeral.typed? box.text with
              | none => rfl
              | some v => exact replaceChecked_eq _ _
          | «variable» name category value source =>
              cases e.candidates.head? with
              | none => rfl
              | some c => exact replaceChecked_eq _ _

theorem pickEditChecked_eq (id : String) : e.pickEditChecked id = some (e.pickEdit id) := by
  unfold pickEditChecked pickEdit
  cases e.edit with
  | none => rfl
  | some box =>
      cases Candidate.find? e.candidates id with
      | none => rfl
      | some c =>
          dsimp only
          cases (e.closeEdit.token? box.id).map Token.content with
          | none => rfl
          | some content =>
              cases content with
              | operator | number => rfl
              | «variable» name category value source => exact replaceChecked_eq _ _

theorem reactChecked_eq (h : e.cursor ≤ e.tokens.length) (ev : InputEvent) :
    e.reactChecked ev = some (e.react ev) := by
  cases ev with
  | key k => exact pressChecked_eq h k
  | click index => rfl
  | pick id =>
      unfold reactChecked react
      dsimp only
      split
      · rw [pickEditChecked_eq]
        rfl
      · rw [pickChecked_eq]
        rfl

/-- No check fails while the cursor stands between tokens. -/
theorem applyChecked_eq (h : e.cursor ≤ e.tokens.length) (op : Operation) :
    e.applyChecked op = some (e.apply op) := by
  cases op with
  | press k => exact congrArg (Option.map silent) (pressChecked_eq h k)
  | react ev => exact congrArg (Option.map silent) (reactChecked_eq h ev)
  | insertNew index content => exact congrArg (Option.map silent) (insertNewChecked_eq _ _)
  | insert index t => exact congrArg (Option.map silent) (insertChecked_eq _ _)
  | remove id => exact congrArg (Option.map flagged) (removeChecked_eq id)
  | delete id => exact congrArg (Option.map flagged) (deleteChecked_eq id)
  | replace id content => exact congrArg (Option.map flagged) (replaceChecked_eq _ _)
  | pick candidate => exact congrArg (Option.map flagged) (pickChecked_eq candidate)
  | commitEdit => exact congrArg (Option.map flagged) commitEditChecked_eq
  | pickEdit candidate => exact congrArg (Option.map flagged) (pickEditChecked_eq candidate)
  | setBuffer | moveCursor | placeCursor | setOptions | takeRequest | receive | openEdit
  | typeEdit | closeEdit | reset => rfl

/-! ## Representation -/

/-- Only an empty stream has no result. -/
theorem Consistent.blank_iff (h : e.Consistent) : e.evaluation = .blank ↔ e.tokens = [] := by
  rw [h.evaluated]
  cases e.tokens with
  | nil => exact ⟨fun _ => rfl, fun _ => rfl⟩
  | cons t tokens =>
      refine ⟨fun hblank => ?_, fun hnil => by cases hnil⟩
      change Formula.Evaluation.ofExcept _ = _ at hblank
      cases hvalue : Formula.evaluateChars (Formula.infixChars (t :: tokens)) with
      | ok v => rw [hvalue] at hblank; cases hblank
      | error cause => rw [hvalue] at hblank; cases hblank

/-- In every reachable state the cursor stands between tokens, no id occurs twice, the edit box is
open on a token of the stream, the result is that of the tokens, and whatever is done next, every
access to the stream is in range. -/
theorem Reachable.representation (h : Reachable e) :
    e.cursor ≤ e.tokens.length ∧ e.ids.Nodup ∧ (∀ box, e.edit = some box → box.id ∈ e.ids) ∧
      e.evaluation = Formula.evaluate e.tokens ∧ (e.evaluation = .blank ↔ e.tokens = []) ∧
      (∀ op, e.applyChecked op = some (e.apply op)) ∧
      ∀ id content, e.replaceChecked id content = some (e.replace id content) := by
  have hc := h.consistent
  exact ⟨hc.cursor_le, hc.nodup, hc.editing, hc.evaluated, hc.blank_iff,
    applyChecked_eq hc.cursor_le, replaceChecked_eq⟩

/-- A token, a copy of it that is brought along behind the end, and an edit box on the first. -/
def doubled : Editor :=
  (Editor.new {}).run
    [.insertNew 0 (.operator .add), .insert 7 ⟨⟨1⟩, .operator .add⟩, .openEdit ⟨1⟩]

theorem doubled_representation :
    Reachable doubled ∧ doubled.ids = [⟨1⟩, ⟨2⟩] ∧ doubled.edit = some ⟨⟨1⟩, "+"⟩ ∧
      doubled.cursor ≤ doubled.tokens.length ∧ doubled.ids.Nodup ∧
      doubled.applyChecked (.press .backspace) = some (doubled.apply (.press .backspace)) := by
  have hone := (Reachable.new {} .initial).apply (.insertNew 0 (.operator .add)) trivial
  have htwo := hone.apply (.insert 7 ⟨⟨1⟩, .operator .add⟩) (show 1 < 2 by decide)
  have hreach : Reachable doubled := htwo.apply (.openEdit ⟨1⟩) trivial
  rcases hreach.representation with ⟨hcursor, hnodup, -, -, -, hchecked, -⟩
  exact ⟨hreach, by decide, by decide, hcursor, hnodup, hchecked _⟩

end FormulaBar.Editor
