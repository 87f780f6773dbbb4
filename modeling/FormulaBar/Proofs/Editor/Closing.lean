import FormulaBar.Proofs.Editor.EditBox

/-!
# Closed inputs and late answers

When the input that a lookup was for has been closed, the answer to the lookup is refused from then
on, whatever is opened again. There are two gaps: an edit box that is opened again and gets the same
text without its being looked up still accepts the answer, and typing into the buffer leaves the edit
box open unless what is typed is looked up.

1. **Closing**: the operations that are to close an input.
2. **Later states** of an input that was closed.
3. **Answers** to a lookup whose input was closed, and the gaps.
-/

namespace FormulaBar.Editor

open Lookup (Request Target)

variable {e e' : Editor}

/-! ## Closing -/

/-- Whether an input is open. -/
def isOpen (e : Editor) : Target → Bool
  | .buffer => e.active
  | .edit id => e.edit.any fun box => box.id = id

/-- Whether an operation is typing into the buffer. -/
def Operation.types : Operation → Bool
  | .press (.char _) => true
  | .react (.key (.char _)) => true
  | .setBuffer _ => true
  | _ => false

/-- The operations that are to close an input. -/
inductive Closes (e : Editor) : Target → Operation → Prop where
  | escape : Closes e .buffer (.press .escape)
  | insert (index : Nat) (t : Token) : Closes e .buffer (.insert index t)
  | insertNew (index : Nat) (content : Content) : Closes e .buffer (.insertNew index content)
  | operator {c : Char} {op : Operator} (h : Operator.ofChar? c = some op) :
      Closes e .buffer (.press (.char c))
  /-- Enter, unless there is nothing to commit. -/
  | enter (h : e.press .enter ≠ e) : Closes e .buffer (.press .enter)
  | pick {candidate : String} (h : (e.pick candidate).1 = true) :
      Closes e .buffer (.pick candidate)
  /-- The buffer is emptied. -/
  | empty {op : Operation} (h : (e.apply op).2.buffer = "") : Closes e .buffer op
  | switchOff : Closes e .buffer (.setOptions ⟨false⟩)
  | openEdit {id : TokenId} (h : (e.openEdit id).1 = true) : Closes e .buffer (.openEdit id)
  | commitEdit {id : TokenId} : Closes e (.edit id) .commitEdit
  | closeEdit {id : TokenId} : Closes e (.edit id) .closeEdit
  | pickEdit {id : TokenId} {candidate : String} (h : (e.pickEdit candidate).1 = true) :
      Closes e (.edit id) (.pickEdit candidate)
  | remove {id : TokenId} (h : (e.remove id).1 = true) : Closes e (.edit id) (.remove id)
  | delete {id : TokenId} (h : (e.delete id).1 = true) : Closes e (.edit id) (.delete id)
  /-- The token before the cursor is taken back. -/
  | backspace {t : Token} (hbuffer : e.buffer = "") (hcursor : e.cursor ≠ 0)
      (ht : e.tokens[e.cursor - 1]? = some t) : Closes e (.edit t.id) (.press .backspace)
  /-- An edit box is opened, be it on the same token. -/
  | reopen {id other : TokenId} (h : (e.openEdit other).1 = true) :
      Closes e (.edit id) (.openEdit other)
  | type {id : TokenId} {op : Operation} (h : op.types = true) : Closes e (.edit id) op
  | reset {target : Target} : Closes e target .reset
  /-- The input is closed in any other way. -/
  | other {target : Target} {op : Operation} (h : (e.apply op).2.isOpen target = false) :
      Closes e target op

theorem insertNew_active (e : Editor) (index : Nat) (content : Content) :
    (e.insertNew index content).active = false :=
  congrArg Prompt.active (prompt_insertNew e index content)

theorem Inserts.active {e' : Editor} {content : Content} (h : e.Inserts e' content) :
    e'.active = false := by
  rw [h.made]
  exact insertNew_active e _ content

theorem press_operator_active {c : Char} {op : Operator} (h : Operator.ofChar? c = some op) :
    (e.press (.char c)).active = false := by
  unfold press
  dsimp only
  rw [h]
  exact insertNew_active _ _ _

theorem press_enter_active (h : e.press .enter ≠ e) : (e.press .enter).active = false := by
  rcases press_enter e with hsame | ⟨v, -, hnumber⟩ | ⟨c, -, hvariable⟩
  · exact absurd hsame h
  · exact hnumber.active
  · exact hvariable.active

theorem pick_active {candidate : String} (h : (e.pick candidate).1 = true) :
    (e.pick candidate).2.active = false := by
  rcases pick_inserts e candidate with hfail | ⟨c, -, -, -, hvariable⟩
  · rw [hfail] at h
    cases h
  · exact hvariable.active

/-- The buffer is not searched for while it is empty. -/
theorem Orderly.active_of_empty (h : e.Orderly) (hempty : e.buffer = "") : e.active = false := by
  by_contra hactive
  rw [Bool.not_eq_false] at hactive
  exact (h.active hactive).2.1 hempty

theorem openEdit_active {id : TokenId} (he : (e.openEdit id).2.Orderly)
    (h : (e.openEdit id).1 = true) : (e.openEdit id).2.active = false := by
  cases ht : e.token? id with
  | none =>
      rw [openEdit, ht] at h
      cases h
  | some t => exact he.not_active (openEdit_retyped ht).edit

theorem isOpen_edit_of_none {id : TokenId} (h : e.edit = none) : e.isOpen (.edit id) = false := by
  rw [isOpen, h]
  rfl

theorem pickEdit_isOpen {id : TokenId} {candidate : String} (h : (e.pickEdit candidate).1 = true) :
    (e.pickEdit candidate).2.isOpen (.edit id) = false := by
  rcases pickEdit_cases e candidate with hfail | hclosed
  · rw [hfail] at h
    cases h
  · exact isOpen_edit_of_none hclosed

/-- Taking a token out closes the edit box on it. -/
theorem removeIndex_isOpen {index : Nat} {t : Token} (ht : e.tokens[index]? = some t) :
    (e.removeIndex index).isOpen (.edit t.id) = false := by
  obtain ⟨hlt, rfl⟩ := List.getElem?_eq_some_iff.mp ht
  rw [isOpen, Option.any_eq_false]
  intro box hopen
  obtain ⟨-, hne⟩ := edit_of_removeIndex hlt hopen
  simpa using hne

theorem removeIndex_isOpen_of_position? {id : TokenId} {index : Nat}
    (h : e.position? id = some index) : (e.removeIndex index).isOpen (.edit id) = false := by
  obtain ⟨hlt, rfl⟩ := getElem_of_position? h
  exact removeIndex_isOpen (List.getElem?_eq_getElem hlt)

theorem remove_isOpen {id : TokenId} (h : (e.remove id).1 = true) :
    (e.remove id).2.isOpen (.edit id) = false := by
  cases hpos : e.position? id with
  | none =>
      rw [Editor.remove, hpos] at h
      cases h
  | some index =>
      rw [Editor.remove, hpos]
      exact removeIndex_isOpen_of_position? hpos

theorem delete_isOpen {id : TokenId} (h : (e.delete id).1 = true) :
    (e.delete id).2.isOpen (.edit id) = false := by
  cases hpos : e.position? id with
  | none =>
      rw [Editor.delete, hpos] at h
      cases h
  | some index =>
      rw [Editor.delete, hpos]
      exact removeIndex_isOpen_of_position? hpos

theorem backspace_isOpen {t : Token} (hbuffer : e.buffer = "") (hcursor : e.cursor ≠ 0)
    (ht : e.tokens[e.cursor - 1]? = some t) : e.backspace.isOpen (.edit t.id) = false := by
  rw [Editor.backspace, hbuffer, if_neg (by decide), if_neg hcursor]
  exact removeIndex_isOpen ht

/-- Something is typed into the buffer that is not looked up. -/
def TypesUnsearched (e : Editor) (op : Operation) : Prop :=
  op.types = true ∧ (e.apply op).2.active = false

/-- An input is closed by each of these, but for an edit box that is opened again at once, or while
something is typed that is not looked up. -/
theorem Closes.isOpen_cases {target : Target} {op : Operation} (h : Closes e target op)
    (he : e.Orderly) :
    (e.apply op).2.isOpen target = false ∨ ∃ id, target = .edit id ∧
      (TypesUnsearched e op ∨ ∃ other, op = .openEdit other ∧ (e.openEdit other).1 = true) := by
  have hlater : (e.apply op).2.Orderly := (Step.apply e op).orderly he
  cases h with
  | escape | switchOff => exact .inl rfl
  | insert index t => exact .inl (congrArg Prompt.active (prompt_insert e index t))
  | insertNew index content => exact .inl (insertNew_active e index content)
  | operator h => exact .inl (press_operator_active h)
  | enter h =>
      have hidle := press_enter_active h
      exact .inl hidle
  | pick h => exact .inl (pick_active h)
  | empty h => exact .inl (hlater.active_of_empty h)
  | openEdit h => exact .inl (openEdit_active hlater h)
  | commitEdit => exact .inl (isOpen_edit_of_none (commitEdit_edit e))
  | closeEdit => exact .inl (isOpen_edit_of_none (closeEdit_edit e))
  | pickEdit h => exact .inl (pickEdit_isOpen h)
  | remove h => exact .inl (remove_isOpen h)
  | delete h => exact .inl (delete_isOpen h)
  | backspace hbuffer hcursor ht => exact .inl (backspace_isOpen hbuffer hcursor ht)
  | reopen h => exact .inr ⟨_, rfl, .inr ⟨_, rfl, h⟩⟩
  | type h =>
      cases hactive : (e.apply op).2.active with
      | false => exact .inr ⟨_, rfl, .inl ⟨h, hactive⟩⟩
      | true => exact .inl (isOpen_edit_of_none (hlater.active hactive).2.2.2)
  | reset => cases target <;> exact .inl rfl
  | other h => exact .inl h

/-! ## Later states -/

/-- Whether the input that a lookup was for is open, and an edit box has its text. -/
def Holds (e : Editor) (r : Request) : Prop :=
  match r.target with
  | .buffer => e.active = true
  | .edit id => e.edit = some ⟨id, r.query⟩

/-- Nothing is left of what a lookup was for, or there has been a later lookup. -/
def Outdated (e : Editor) (r : Request) : Prop := r.seq < e.seq ∨ ¬ e.Holds r

/-- Some time between two states a text is put into the edit box and not looked up. -/
def ReopensUnsearched (e : Editor) (box : EditBox) (e' : Editor) : Prop :=
  ∃ e₁ e₂, Later e e₁ ∧ PutsUnsearched e₁ box e₂ ∧ Later e₂ e'

variable {r : Request}

theorem outdated_of_not_isOpen (h : e.isOpen r.target = false) : e.Outdated r := by
  refine .inr ?_
  unfold Holds
  cases htarget : r.target with
  | buffer =>
      rw [htarget] at h
      intro hactive
      rw [show e.active = false from h] at hactive
      cases hactive
  | edit id =>
      rw [htarget] at h
      intro hopen
      have hopen : e.edit = some ⟨id, r.query⟩ := hopen
      simp [isOpen, hopen] at h

/-- Opening an edit box anew does away with what it held, unless it gets the same text and that is
not looked up. -/
theorem openEdit_outdated {id other : TokenId} (htarget : r.target = .edit id)
    (h : (e.openEdit other).1 = true) (hle : r.seq ≤ e.seq) (hquery : r.query ≠ "") :
    (e.openEdit other).2.Outdated r ∨ PutsUnsearched e ⟨id, r.query⟩ (e.openEdit other).2 := by
  cases ht : e.token? other with
  | none =>
      rw [openEdit, ht] at h
      cases h
  | some t =>
      have hretyped := openEdit_retyped ht
      -- another token or another text is nothing that the lookup was for
      by_cases hsame : (⟨other, t.content.displayName⟩ : EditBox) = ⟨id, r.query⟩
      · rw [hsame] at hretyped
        obtain ⟨rfl, -⟩ := EditBox.mk.inj hsame
        rcases hretyped.seq_or_puts (.inl rfl) hquery with hnew | hputs
        · exact .inl (.inl (Nat.lt_of_le_of_lt hle hnew))
        · exact .inr hputs
      · refine .inl (.inr ?_)
        unfold Holds
        rw [htarget]
        intro hopen
        exact hsame (Option.some_inj.mp (hretyped.edit.symm.trans hopen))

/-- After its input was closed a lookup is outdated, but for the gaps. -/
theorem Closes.outdated {op : Operation} (h : Closes e r.target op) (he : e.Orderly)
    (hle : r.seq ≤ e.seq) (hquery : r.query ≠ "") :
    (e.apply op).2.Outdated r ∨ ∃ id, r.target = .edit id ∧
      (TypesUnsearched e op ∨ PutsUnsearched e ⟨id, r.query⟩ (e.apply op).2) := by
  rcases h.isOpen_cases he with hclosed | ⟨id, htarget, htypes | ⟨other, rfl, hopened⟩⟩
  · exact .inl (outdated_of_not_isOpen hclosed)
  · exact .inr ⟨id, htarget, .inl htypes⟩
  · rcases openEdit_outdated htarget hopened hle hquery with hgone | hputs
    · exact .inl hgone
    · exact .inr ⟨id, htarget, .inr hputs⟩

/-- An input that holds a text after a step held it before, has been searched for since, or is an
edit box that got the text without its being looked up. -/
theorem Step.holds_cases (h : Step e e') (hquery : r.query ≠ "") (hholds : e'.Holds r) :
    e.Holds r ∨ e.seq < e'.seq ∨
      ∃ id, r.target = .edit id ∧ PutsUnsearched e ⟨id, r.query⟩ e' := by
  cases h with
  | take => exact .inl hholds
  | receive answer =>
      -- an answer changes no text, be it accepted or not
      obtain ⟨candidates, hprompt⟩ := prompt_receive e answer
      refine .inl ?_
      unfold Holds at hholds ⊢
      cases htarget : r.target with
      | buffer =>
          rw [htarget] at hholds
          exact (congrArg Prompt.active hprompt).symm.trans hholds
      | edit id =>
          rw [htarget] at hholds
          exact (congrArg Prompt.edit hprompt).symm.trans hholds
  | host h =>
      unfold Holds at hholds ⊢
      cases htarget : r.target with
      | buffer =>
          rw [htarget] at hholds
          rcases h.prompt.active_cases hholds with hactive | hnew
          · exact .inl hactive
          · exact .inr (.inl hnew)
      | edit id =>
          rw [htarget] at hholds
          rcases h.edit_cases hholds hquery with hopen | hnew | hputs
          · exact .inl hopen
          · exact .inr (.inl hnew)
          · exact .inr (.inr ⟨id, rfl, hputs⟩)

/-- A lookup that is outdated stays so, unless its text is put back unsearched. -/
theorem Outdated.later (h : e.Outdated r) (hle : r.seq ≤ e.seq) (hquery : r.query ≠ "")
    (hlater : Later e e') :
    e'.Outdated r ∨ ∃ id, r.target = .edit id ∧ ReopensUnsearched e ⟨id, r.query⟩ e' := by
  -- along the run; a number that has been passed stays passed, so only an input that gets its text
  -- back without a new number can make the lookup current again
  induction hlater with
  | refl => exact .inl h
  | @tail e₁ e₂ hrun hstep ih =>
      have hle₁ : r.seq ≤ e₁.seq := Nat.le_trans hle (Later.seq_le hrun)
      rcases ih with houtdated | ⟨id, htarget, e₃, e₄, hbefore, hputs, hafter⟩
      · by_cases hholds : e₂.Holds r
        · rcases hstep.holds_cases hquery hholds with hheld | hnew | ⟨id, htarget, hputs⟩
          · rcases houtdated with hlt | hnot
            · exact .inl (.inl (Nat.lt_of_lt_of_le hlt hstep.seq_le))
            · exact absurd hheld hnot
          · exact .inl (.inl (Nat.lt_of_le_of_lt hle₁ hnew))
          · exact .inr ⟨id, htarget, e₁, e₂, hrun, hputs, .refl⟩
        · exact .inl (.inr hholds)
      · exact .inr ⟨id, htarget, e₃, e₄, hbefore, hputs, hafter.tail hstep⟩

/-! ## Answers -/

/-- An answer is accepted if it is to the latest lookup and finds what that was for. -/
theorem receive_respond_iff (candidates : List Candidate) :
    (e.receive (r.respond candidates)).1 = true ↔
      r.seq = e.seq ∧ e.Holds r ∧ (r.target = .buffer → r.query = e.buffer) := by
  have hflag : (e.receive (r.respond candidates)).1 = true ↔
      r.seq = e.seq ∧ e.wants (r.respond candidates) = true := by
    unfold receive
    split
    · next haccept => exact ⟨fun _ => haccept, fun _ => rfl⟩
    · next hrefuse => exact ⟨nofun, fun haccept => absurd haccept hrefuse⟩
  rw [hflag]
  unfold wants Request.respond Holds
  cases r.target with
  | buffer => simp
  | edit id =>
      dsimp only
      cases e.edit with
      | none => simp
      | some box =>
          rcases box with ⟨other, text⟩
          simp

/-- The answer to a lookup whose input has been closed is refused, whatever is opened again, but for
two gaps, in both of which no lookup has been asked for since and the edit box has the same text. Either
it has got that text again while autocomplete was off, or on a token that is not a variable; or it was
not closed at all, because what was typed into the buffer was not looked up. -/
theorem Reachable.closed_input {e₀ : Editor} {op : Operation} (h : Reachable e)
    (hasked : e.pending = some r) (hrun : Later e e₀) (hclosed : Closes e₀ r.target op)
    (hlater : Later (e₀.apply op).2 e') (candidates : List Candidate) :
    ((e'.receive (r.respond candidates)).1 = true ↔
      ∃ id, r.target = .edit id ∧ e'.edit = some ⟨id, r.query⟩ ∧ e'.seq = r.seq) ∧
    ((e'.receive (r.respond candidates)).1 = true → ∃ id, r.target = .edit id ∧
      (TypesUnsearched e₀ op ∨ ReopensUnsearched e₀ ⟨id, r.query⟩ e')) := by
  have hseq : r.seq = e.seq := (h.orderly.pending r hasked).1
  have hle : r.seq ≤ e₀.seq := hseq ▸ Later.seq_le hrun
  have hquery : r.query ≠ "" := by
    obtain ⟨taken, hrunning⟩ := h.asked
    exact hrunning.query_ne_empty hasked
  have hstep : Step e₀ (e₀.apply op).2 := .apply e₀ op
  -- the lookup is outdated by now, or one of the gaps has been used
  have hgap : e'.Outdated r ∨ ∃ id, r.target = .edit id ∧
      (TypesUnsearched e₀ op ∨ ReopensUnsearched e₀ ⟨id, r.query⟩ e') := by
    rcases hclosed.outdated (Later.orderly hrun h.orderly) hle hquery with
      houtdated | ⟨id, htarget, htypes | hputs⟩
    · rcases houtdated.later (Nat.le_trans hle hstep.seq_le) hquery hlater with
        hstill | ⟨id, htarget, e₁, e₂, hbefore, hputs, hafter⟩
      · exact .inl hstill
      · exact .inr ⟨id, htarget, .inr ⟨e₁, e₂, hbefore.head hstep, hputs, hafter⟩⟩
    · exact .inr ⟨id, htarget, .inl htypes⟩
    · exact .inr ⟨id, htarget, .inr ⟨e₀, _, .refl, hputs, hlater⟩⟩
  have haccepted : (e'.receive (r.respond candidates)).1 = true → ∃ id, r.target = .edit id ∧
      (TypesUnsearched e₀ op ∨ ReopensUnsearched e₀ ⟨id, r.query⟩ e') := by
    intro haccept
    obtain ⟨hlatest, hholds, -⟩ := (receive_respond_iff candidates).mp haccept
    rcases hgap with (hlt | hnot) | hgap
    · omega
    · exact absurd hholds hnot
    · exact hgap
  refine ⟨⟨?_, ?_⟩, haccepted⟩
  · intro haccept
    obtain ⟨id, htarget, -⟩ := haccepted haccept
    obtain ⟨hlatest, hholds, -⟩ := (receive_respond_iff candidates).mp haccept
    rw [Holds, htarget] at hholds
    exact ⟨id, htarget, hholds, hlatest.symm⟩
  · rintro ⟨id, htarget, hopen, hlatest⟩
    refine (receive_respond_iff candidates).mpr ⟨hlatest.symm, ?_, ?_⟩
    · rw [Holds, htarget]
      exact hopen
    · intro hbuffer
      rw [htarget] at hbuffer
      cases hbuffer

/-- The edit box is closed and opened again, and its text is looked up anew: the answer to the first
lookup is refused. -/
theorem editing_closed_input :
    let reopened := editing.run [.takeRequest, .closeEdit, .openEdit ⟨1⟩]
    Reachable editing ∧ editing.pending = some ⟨1, "x", .edit ⟨1⟩⟩ ∧
      reopened.edit = some ⟨⟨1⟩, "x"⟩ ∧
      ∀ candidates, (reopened.receive ⟨1, "x", .edit ⟨1⟩, candidates⟩).1 = false := by
  refine ⟨reachable_editing, editing_pending, by decide, ?_⟩
  intro candidates
  obtain ⟨hiff, -⟩ := reachable_editing.closed_input editing_pending (.single .take) .closeEdit
    (.single (.apply _ (.openEdit ⟨1⟩))) candidates
  by_contra haccept
  rw [Bool.not_eq_false] at haccept
  obtain ⟨id, -, -, hseq⟩ := hiff.mp haccept
  exact absurd hseq (by decide)

/-- An answer is accepted after a reset: the variable has been put back and its edit box opened
while autocomplete is off, so that nothing is looked up under a new number. -/
theorem answered_after_reset :
    let taken := editing.run [.takeRequest]
    let reopened := taken.run
      [.reset, .setOptions ⟨false⟩, .insert 0 ⟨⟨1⟩, .variable "x" "" 1 "1"⟩, .openEdit ⟨1⟩]
    Reachable editing ∧ editing.pending = some ⟨1, "x", .edit ⟨1⟩⟩ ∧
      Closes taken (.edit ⟨1⟩) .reset ∧ (taken.apply .reset).2.edit = none ∧
      Later (taken.apply .reset).2 reopened ∧ Served echo reopened [⟨1, "x", .edit ⟨1⟩⟩] ∧
      (reopened.receive (Request.run ⟨1, "x", .edit ⟨1⟩⟩ echo)).1 = true := by
  have htaken := (((Served.new {}).host
    (.apply (.insertNew 0 (.variable "x" "" 1 "1")) rfl)).host (.apply (.openEdit ⟨1⟩) rfl)).take
    (f := echo)
  have hserved := (((htaken.host (.apply .reset rfl)).host
    (.apply (.setOptions ⟨false⟩) rfl)).host
    (.apply (.insert 0 ⟨⟨1⟩, .variable "x" "" 1 "1"⟩) rfl)).host (.apply (.openEdit ⟨1⟩) rfl)
  have hlater := (((Relation.ReflTransGen.refl (r := Step)).tail
    (.apply (editing.run [.takeRequest, .reset]) (.setOptions ⟨false⟩))).tail
    (.apply _ (.insert 0 ⟨⟨1⟩, .variable "x" "" 1 "1"⟩))).tail (.apply _ (.openEdit ⟨1⟩))
  exact ⟨reachable_editing, editing_pending, .reset, rfl, hlater, hserved, by decide⟩

/-- While autocomplete is off, typing into the buffer leaves the edit box open for the answer. -/
example :
    let typed := (Editor.new {}).run [.insertNew 0 (.variable "x" "" 1 "1"), .openEdit ⟨1⟩,
      .takeRequest, .setOptions ⟨false⟩, .press (.char 'a')]
    typed.edit = some ⟨⟨1⟩, "x"⟩ ∧ (typed.receive ⟨1, "x", .edit ⟨1⟩, []⟩).1 = true := by
  decide

end FormulaBar.Editor
