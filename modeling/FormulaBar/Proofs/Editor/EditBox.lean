import FormulaBar.Proofs.Editor.Requests
import FormulaBar.Proofs.Editor.Suggestion

/-!
# The text of the edit box

A text gets into the edit box only by opening it and by typing into it, and it is looked up there
unless autocomplete is off, the token is not a variable, or the text is empty.

1. **Other operations** leave the edit box as it is, or close it.
2. **Searches**: what becomes of a text that is put into the edit box.
3. **Steps**: a text is in the edit box already, is looked up, or is not to be looked up.
-/

namespace FormulaBar.Editor

open Lookup (Request)

variable {e e' : Editor}

/-! ## Other operations -/

/-- No edit box is open afterwards, or the same one as before and nothing has been asked. -/
def Spares (e e' : Editor) : Prop := e'.edit = none ∨ e'.edit = e.edit ∧ e'.seq = e.seq

theorem Spares.refl (e : Editor) : Spares e e := .inr ⟨rfl, rfl⟩

/-- Dismissing what is on offer for the buffer spares the edit box. -/
theorem Spares.of_dismiss {text : String}
    (h : e'.prompt = { e.prompt with buffer := text }.dismiss) : Spares e e' :=
  .inr ⟨congrArg Prompt.edit h, congrArg Prompt.seq h⟩

theorem Spares.of_prompt (h : e'.prompt = e.prompt) : Spares e e' :=
  .inr ⟨congrArg Prompt.edit h, congrArg Prompt.seq h⟩

theorem Spares.trans {e'' : Editor} (h : Spares e e') (h' : Spares e' e'') : Spares e e'' := by
  rcases h' with hclosed | ⟨hedit, hseq⟩
  · exact .inl hclosed
  · rcases h with hclosed | ⟨hedit', hseq'⟩
    · exact .inl (hedit.trans hclosed)
    · exact .inr ⟨hedit.trans hedit', hseq.trans hseq'⟩

theorem insertNew_spares (e : Editor) (index : Nat) (content : Content) :
    Spares e (e.insertNew index content) :=
  .of_dismiss (prompt_insertNew e index content)

theorem removeIndex_spares (e : Editor) (index : Nat) : Spares e (e.removeIndex index) := by
  unfold removeIndex
  dsimp only
  split
  · exact .inl (closeEdit_edit _)
  · exact .inr ⟨rfl, rfl⟩

theorem searchBuffer_spares (e : Editor) (text : String) :
    Spares e { e with buffer := text }.searchBuffer := by
  unfold searchBuffer
  split
  · exact .inl (closeEdit_edit _)
  · exact .inr ⟨rfl, rfl⟩

theorem backspace_spares (e : Editor) : Spares e e.backspace := by
  unfold backspace
  split
  · exact searchBuffer_spares e _
  · -- the buffer is empty: the token before the cursor is taken out, if there is one
    split
    · exact .refl e
    · exact removeIndex_spares e _

theorem Inserts.spares {e e' : Editor} {content : Content} (h : e.Inserts e' content) :
    Spares e e' := by
  rw [h.made]
  exact insertNew_spares e _ content

theorem commitOperator_spares (e : Editor) (op : Operator) : Spares e (e.commitOperator op) := by
  unfold commitOperator commitNumber?
  cases Numeral.typed? e.buffer with
  | none => exact insertNew_spares e _ _
  | some v => exact (insertNew_spares e _ _).trans (insertNew_spares _ _ _)

theorem press_spares (e : Editor) (k : Key) : Spares e (e.press k) := by
  cases k with
  | backspace => exact backspace_spares e
  | char c =>
      unfold press
      dsimp only
      split
      · exact commitOperator_spares e _
      · -- not an operator: a control character is passed over, any other goes into the buffer
        split
        · exact .refl e
        · exact searchBuffer_spares e _
  | enter =>
      rcases press_enter e with hsame | ⟨v, -, hnumber⟩ | ⟨c, -, hvariable⟩
      · rw [hsame]
        exact .refl e
      · exact hnumber.spares
      · exact hvariable.spares
  | left | right => exact .inr ⟨rfl, rfl⟩
  | escape => exact .inr ⟨rfl, rfl⟩

theorem pick_spares (e : Editor) (id : String) : Spares e (e.pick id).2 := by
  rcases pick_inserts e id with hfail | ⟨c, -, -, -, hvariable⟩
  · rw [hfail]
    exact .refl e
  · exact hvariable.spares

theorem remove_spares (e : Editor) (id : TokenId) : Spares e (e.remove id).2 := by
  unfold remove
  split
  · exact .refl e
  · exact removeIndex_spares e _

theorem delete_spares (e : Editor) (id : TokenId) : Spares e (e.delete id).2 := by
  unfold delete
  split
  · exact .refl e
  · exact removeIndex_spares e _

/-- Closing the edit box before a replacement closes it for good. -/
theorem closeEdit_replace_edit (e : Editor) (id : TokenId) (content : Content) :
    (e.closeEdit.replace id content).2.edit = none :=
  (congrArg Prompt.edit (prompt_replace e.closeEdit id content)).trans (closeEdit_edit e)

theorem commitEdit_edit (e : Editor) : (Editor.commitEdit e).2.edit = none := by
  unfold Editor.commitEdit
  split
  · assumption
  · -- whatever the token is, the box is closed before anything else is done
    dsimp only
    split
    · exact closeEdit_edit e
    · split
      · exact closeEdit_replace_edit e _ _
      · exact closeEdit_edit e
    · split
      · exact (congrArg Prompt.edit (prompt_replaceNew _ _ _)).trans (closeEdit_edit e)
      · exact closeEdit_edit e
    · split
      · exact (congrArg Prompt.edit (prompt_replaceNew _ _ _)).trans (closeEdit_edit e)
      · exact closeEdit_edit e

/-- Picking for the edit box closes it, or nothing was picked. -/
theorem pickEdit_cases (e : Editor) (id : String) :
    e.pickEdit id = (false, e) ∨ (e.pickEdit id).2.edit = none := by
  unfold pickEdit
  split
  · exact .inl rfl
  · split
    · exact .inl rfl
    · -- the box is closed first, be its token a variable or not
      refine .inr ?_
      dsimp only
      split
      · exact closeEdit_replace_edit e _ _
      · exact closeEdit_edit e

theorem pickEdit_spares (e : Editor) (id : String) : Spares e (e.pickEdit id).2 := by
  rcases pickEdit_cases e id with hfail | hclosed
  · rw [hfail]
    exact .refl e
  · exact .inl hclosed

theorem setOptions_spares (e : Editor) (options : EditorOptions) :
    Spares e (Editor.setOptions e options) := by
  unfold Editor.setOptions
  dsimp only
  split <;> exact .inr ⟨rfl, rfl⟩

theorem react_spares (e : Editor) (ev : InputEvent) : Spares e (e.react ev) := by
  cases ev with
  | key k => exact press_spares e k
  | click index => exact .inr ⟨rfl, rfl⟩
  | pick id =>
      unfold react
      dsimp only
      split
      · exact pickEdit_spares e id
      · exact pick_spares e id

/-- Whether an operation puts a text into the edit box. -/
def Operation.retypes : Operation → Bool
  | .openEdit _ => true
  | .typeEdit _ => true
  | _ => false

theorem apply_spares (e : Editor) {op : Operation} (hop : op.retypes = false)
    (hexchange : op.isExchange = false) : Spares e (e.apply op).2 := by
  cases op with
  | openEdit | typeEdit => cases hop
  | takeRequest | receive => cases hexchange
  | press k => exact press_spares e k
  | react ev => exact react_spares e ev
  | setBuffer text => exact searchBuffer_spares e text
  | insertNew index content => exact insertNew_spares e index content
  | insert index t => exact .of_dismiss (prompt_insert e index t)
  | remove id => exact remove_spares e id
  | delete id => exact delete_spares e id
  | replace id content => exact .of_prompt (prompt_replaceNew e id content)
  | moveCursor | placeCursor => exact .inr ⟨rfl, rfl⟩
  | pick candidate => exact pick_spares e candidate
  | setOptions options => exact setOptions_spares e options
  | commitEdit => exact .inl (commitEdit_edit e)
  | pickEdit candidate => exact pickEdit_spares e candidate
  | closeEdit => exact .inl (closeEdit_edit e)
  | reset => exact .inl rfl

/-! ## Searches -/

/-- Whether a text in the edit box is one to be looked up. -/
def searches (e : Editor) (box : EditBox) : Bool :=
  e.options.autocomplete && e.isVariable box.id && !box.text.isEmpty

/-- A text has just been put into the edit box of `e'`. -/
structure Retyped (e : Editor) (box : EditBox) (e' : Editor) : Prop where
  edit : e'.edit = some box
  /-- A text that is to be looked up is looked up under a new number. -/
  seq : e.searches box = true → e.seq < e'.seq
  /-- No lookup is for an empty text. -/
  pending : ∀ r, e'.pending = some r → r.query ≠ ""

theorem Retyped.of_same {e₁ : Editor} {box : EditBox} (h : Retyped e₁ box e')
    (hseq : e₁.seq = e.seq) (hsearches : e₁.searches box = e.searches box) : Retyped e box e' where
  edit := h.edit
  seq := by rw [← hseq, ← hsearches]; exact h.seq
  pending := h.pending

theorem searchEdit_retyped {box : EditBox} (hopen : e.edit = some box) :
    Retyped e box e.searchEdit := by
  unfold searchEdit
  rw [hopen]
  dsimp only
  split
  · next hsearch =>
    refine ⟨hopen, fun _ => Nat.lt_succ_self _, ?_⟩
    intro r hr hquery
    cases hr
    have htext : box.text = "" := hquery
    simp [htext] at hsearch
  · next hsearch => exact ⟨rfl, fun h => absurd h hsearch, nofun⟩

/-- Closing what was open before does not change what is to be looked up. -/
theorem openEdit_retyped {id : TokenId} {t : Token} (ht : e.token? id = some t) :
    Retyped e ⟨id, t.content.displayName⟩ (e.openEdit id).2 := by
  have hseq : e.dismiss.closeEdit.seq = e.seq := by
    unfold closeEdit
    split <;> rfl
  have hsearches : ({ e.dismiss.closeEdit with
      edit := some ⟨id, t.content.displayName⟩ } : Editor).searches ⟨id, t.content.displayName⟩ =
      e.searches ⟨id, t.content.displayName⟩ := by
    simp only [searches, isVariable, token?, closeEdit_options, closeEdit_tokens]
    rfl
  unfold openEdit
  rw [ht]
  exact (searchEdit_retyped
    (e := { e.dismiss.closeEdit with edit := some ⟨id, t.content.displayName⟩ })
    rfl).of_same hseq hsearches

theorem typeEdit_retyped {box : EditBox} (hopen : e.edit = some box) (text : String) :
    Retyped e { box with text } (e.typeEdit text) := by
  have hretyped : Retyped e { box with text }
      { e with edit := some { box with text } }.searchEdit :=
    (searchEdit_retyped rfl).of_same rfl rfl
  rw [typeEdit, hopen]
  exact hretyped

/-! ## Steps -/

/-- A host step puts a text into the edit box, by opening it or by typing into it, or spares it. -/
theorem HostStep.spares_or_retyped (h : HostStep e e') :
    Spares e e' ∨ ∃ box, (e' = (e.openEdit box.id).2 ∨ e' = e.typeEdit box.text) ∧
      Retyped e box e' := by
  cases h with
  | copy id content => exact .inl (.of_prompt (prompt_replace e id content))
  | draw supply => exact .inl (.inr ⟨rfl, rfl⟩)
  | apply op hexchange =>
      cases hop : op.retypes with
      | false => exact .inl (apply_spares e hop hexchange)
      | true =>
          cases op with
          | openEdit id =>
              cases ht : e.token? id with
              | some t => exact .inr ⟨_, .inl rfl, openEdit_retyped ht⟩
              | none =>
                  -- the token is not in the stream
                  have hfail : e.openEdit id = (false, e) := by
                    rw [openEdit, ht]
                  refine .inl ?_
                  show Spares e (e.openEdit id).2
                  rw [hfail]
                  exact .refl e
          | typeEdit text =>
              cases hopen : e.edit with
              | some box => exact .inr ⟨_, .inr rfl, typeEdit_retyped hopen text⟩
              | none =>
                  -- there is no edit box to type into
                  have hsame : e.typeEdit text = e := by
                    rw [typeEdit, hopen]
                  refine .inl ?_
                  show Spares e (e.typeEdit text)
                  rw [hsame]
                  exact .refl e
          | _ => cases hop

/-- A text is put into the edit box, by opening it or by typing into it, and not looked up. -/
structure PutsUnsearched (e : Editor) (box : EditBox) (e' : Editor) : Prop where
  origin : e' = (e.openEdit box.id).2 ∨ e' = e.typeEdit box.text
  edit : e'.edit = some box
  unsearched : e.options.autocomplete = false ∨ e.isVariable box.id = false

/-- A text that is put into the edit box is looked up under a new number, or else not to be looked
up. -/
theorem Retyped.seq_or_puts {box : EditBox} (h : Retyped e box e')
    (horigin : e' = (e.openEdit box.id).2 ∨ e' = e.typeEdit box.text) (htext : box.text ≠ "") :
    e.seq < e'.seq ∨ PutsUnsearched e box e' := by
  cases hsearch : e.searches box with
  | true => exact .inl (h.seq hsearch)
  | false =>
      have hempty : box.text.isEmpty = false := by simpa using htext
      rw [searches, hempty, Bool.not_false, Bool.and_true, Bool.and_eq_false_iff] at hsearch
      exact .inr ⟨horigin, h.edit, hsearch⟩

/-- What is in the edit box after a step was there before, has been looked up since, or is not to be
looked up. -/
theorem HostStep.edit_cases (h : HostStep e e') {box : EditBox} (hopen : e'.edit = some box)
    (htext : box.text ≠ "") :
    e.edit = some box ∨ e.seq < e'.seq ∨ PutsUnsearched e box e' := by
  rcases h.spares_or_retyped with hspares | ⟨box', horigin, hretyped⟩
  · rcases hspares with hclosed | ⟨hsame, -⟩
    · rw [hclosed] at hopen
      cases hopen
    · exact .inl (hsame.symm.trans hopen)
  · have hsame : box' = box := Option.some_inj.mp (hretyped.edit.symm.trans hopen)
    subst hsame
    exact .inr (hretyped.seq_or_puts horigin htext)

/-- A lookup that waits after a step has waited before it, or is for a text that is not empty. -/
theorem HostStep.pending_cases (h : HostStep e e') {r : Request} (hr : e'.pending = some r) :
    e.pending = some r ∨ r.query ≠ "" := by
  rcases h.spares_or_retyped with hspares | ⟨box, -, hretyped⟩
  · rcases h.prompt.asks_cases with ⟨-, hwaited⟩ | ⟨hseq, -, r', hr', -, hasked⟩
    · exact .inl (hwaited r hr)
    · -- the edit box was spared, and so the lookup is for the buffer
      have hsame : r' = r := Option.some_inj.mp (hr'.symm.trans hr)
      subst hsame
      rcases hasked with ⟨-, hquery⟩ | ⟨box, hopen, -⟩
      · exact .inr hquery
      · have hopen : e'.edit = some box := hopen
        have hseq : e'.seq = e.seq + 1 := hseq
        rcases hspares with hclosed | ⟨-, hsame⟩
        · rw [hclosed] at hopen
          cases hopen
        · omega
  · exact .inr (hretyped.pending r hr)

/-- Nothing is ever looked up for an empty text. -/
theorem Asked.query_ne_empty {taken : List Request} (h : Asked e taken) {r : Request}
    (hr : e.pending = some r) : r.query ≠ "" := by
  induction h with
  | new options supply => cases hr
  | host _ hstep ih =>
      rcases hstep.pending_cases hr with hwaited | hquery
      · exact ih hwaited
      · exact hquery
  | take _ ih => cases hr
  | receive _ answer ih =>
      obtain ⟨candidates, hprompt⟩ := prompt_receive _ answer
      exact ih ((congrArg Prompt.pending hprompt).symm.trans hr)

end FormulaBar.Editor
