import FormulaBar.Proofs.Editor.InPlace
import FormulaBar.Proofs.Text.Lines

/-!
# Opening a token and closing it again

When the host hands an editor no contents, every number of the stream has been typed. Its token
shows the typed text without the blanks around it and has the value that this text is read as. So
when an edit box that was opened on it is committed with the text that it opened with, the token
gets what it had. An operator is read back from its glyph.

1. **Contents** that are read back from their text.
2. **Streams** of such contents, operation by operation.
3. **States** that come about without contents from the host.
4. **Reopening**.
-/

namespace FormulaBar.Editor

variable {e e' : Editor} {content : Content}

/-! ## Contents -/

/-- A number has no blanks at the ends of its text, and the value that the text is read as. -/
inductive ReadsBack : Content → Prop where
  | number {text : String} {v : Float} (htrim : Text.trim text = text)
      (htyped : Numeral.typed? text = some v) : ReadsBack (.number text v)
  | operator {op : Operator} : ReadsBack (.operator op)
  | variable {name category : String} {value : Float} {source : String} :
      ReadsBack (.variable name category value source)

/-- What is typed for a number may have blanks around it, which the token does not show. -/
theorem readsBack_typed {text : String} {v : Float} (h : Numeral.typed? text = some v) :
    ReadsBack (.number (Text.trim text) v) := by
  refine .number (Text.trim_trim text) ?_
  rw [Numeral.typed?, Text.trim, String.toList_ofList, Text.trimChars_trimChars]
  exact h

theorem ofText?_trim_text (op : Operator) : Operator.ofText? (Text.trim op.text) = some op := by
  cases op <;> rfl

/-! ## Streams -/

/-- All contents of the stream are read back. -/
def Legible (e : Editor) : Prop := ∀ t ∈ e.tokens, ReadsBack t.content

/-- The effects that bring no content into the stream. -/
def Effect.quiet : List Effect := [.keep, .removal, .clearing]

theorem Edits.subset {brought : Option TokenId} {k : Effect} {ts : List Token}
    (h : Edits e brought k ts) (hk : k ∈ Effect.quiet) : ts ⊆ e.tokens := by
  cases h with
  | keep => exact List.Subset.refl _
  | removal => exact (List.eraseIdx_sublist _ _).subset
  | clearing => exact List.nil_subset _
  | insertion | pair | replacement => exact absurd hk (by decide)

namespace Legible

theorem of_alters (h : e.Legible) {brought : Option TokenId} {ks : List Effect}
    (halters : Alters e brought ks e') (hks : ks ⊆ Effect.quiet) : e'.Legible := by
  obtain ⟨k, hk, hedits⟩ := halters.effect
  intro t ht
  exact h t (hedits.subset (hks hk) ht)

theorem insertNew (h : e.Legible) (hconsistent : e.Consistent) (hcontent : ReadsBack content)
    (index : Nat) : (e.insertNew index content).Legible := by
  rw [hconsistent.insertNew_eq]
  intro t ht
  rcases List.mem_append.mp ht with htake | hdrop
  · exact h t (List.mem_of_mem_take htake)
  · rcases List.mem_cons.mp hdrop with rfl | hdrop
    · exact hcontent
    · exact h t (List.mem_of_mem_drop hdrop)

theorem replace (h : e.Legible) (hcontent : ReadsBack content) (id : TokenId) :
    (e.replace id content).2.Legible := by
  unfold Editor.replace
  split
  · exact h
  · intro t ht
    rcases List.mem_or_eq_of_mem_set ht with hother | rfl
    · exact h t hother
    · exact hcontent

theorem replaceNew (h : e.Legible) (hcontent : ReadsBack content) (id : TokenId) :
    (e.replaceNew id content).2.Legible :=
  replace (e := e.mint.2) h hcontent id

theorem closeEdit (h : e.Legible) : e.closeEdit.Legible := by
  rw [Legible, closeEdit_tokens]
  exact h

theorem commitNumber (h : e.Legible) (hconsistent : e.Consistent) {e₁ : Editor}
    (hnumber : e.commitNumber? = some e₁) : e₁.Legible := by
  obtain ⟨v, hv, rfl⟩ := Option.map_eq_some_iff.mp hnumber
  exact h.insertNew hconsistent (readsBack_typed hv) e.cursor

theorem commitOperator (h : e.Legible) (hconsistent : e.Consistent) (op : Operator) :
    (e.commitOperator op).Legible := by
  have hnumber : (e.commitNumber?.getD e).Legible := by
    cases hnumber : e.commitNumber? with
    | none => exact h
    | some e₁ => exact h.commitNumber hconsistent hnumber
  exact hnumber.insertNew hconsistent.commitNumber .operator _

theorem commit (h : e.Legible) (hconsistent : e.Consistent) : e.commit.Legible := by
  unfold Editor.commit
  split
  · exact h
  · split
    · next hnumber => exact h.commitNumber hconsistent hnumber
    · -- no number was typed, and a candidate comes in as a variable
      split
      · split
        · exact h.insertNew hconsistent .variable _
        · exact h
      · exact h

theorem pick (h : e.Legible) (hconsistent : e.Consistent) (candidate : String) :
    (e.pick candidate).2.Legible := by
  unfold Editor.pick
  split
  · exact h
  · exact h.insertNew hconsistent .variable _

theorem press (h : e.Legible) (hconsistent : e.Consistent) (k : Key) : (e.press k).Legible := by
  have halters : Alters e none (Effect.ofKey k) (e.press k) := press_alters hconsistent k
  have hquiet : Effect.ofKey k ⊆ Effect.quiet → (e.press k).Legible := h.of_alters halters
  cases k with
  | char c =>
      cases hop : Operator.ofChar? c with
      | none => exact hquiet (by simp [Effect.ofKey, Effect.quiet, hop])
      | some op =>
          have hpress : e.press (.char c) = e.commitOperator op := by
            rw [Editor.press, hop]
          rw [hpress]
          exact h.commitOperator hconsistent op
  | enter => exact h.commit hconsistent
  | backspace | left | right | escape => exact hquiet (by decide)

theorem commitEdit (h : e.Legible) : (Editor.commitEdit e).2.Legible := by
  unfold Editor.commitEdit
  split
  · exact h
  · dsimp only
    split
    · exact h.closeEdit
    · split
      · exact h.closeEdit.replace .variable _
      · exact h.closeEdit
    · split
      · next hv => exact h.closeEdit.replaceNew (readsBack_typed hv) _
      · exact h.closeEdit
    · split
      · exact h.closeEdit.replaceNew .operator _
      · exact h.closeEdit

theorem pickEdit (h : e.Legible) (candidate : String) : (e.pickEdit candidate).2.Legible := by
  unfold Editor.pickEdit
  split
  · exact h
  · split
    · exact h
    · dsimp only
      split
      · exact h.closeEdit.replace .variable _
      · exact h.closeEdit

theorem react (h : e.Legible) (hconsistent : e.Consistent) (ev : InputEvent) :
    (e.react ev).Legible := by
  cases ev with
  | key k => exact h.press hconsistent k
  | click index => exact h
  | pick candidate =>
      unfold Editor.react
      dsimp only
      split
      · exact h.pickEdit candidate
      · exact h.pick hconsistent candidate

end Legible

/-! ## States -/

/-- The host hands over what a token is to stand for. -/
def Operation.suppliesContent : Operation → Bool
  | .insertNew .. | .insert .. | .replace .. => true
  | _ => false

/-- What is typed, picked and edited is read back later. -/
theorem Legible.apply (h : e.Legible) (hconsistent : e.Consistent) {op : Operation}
    (hop : op.suppliesContent = false) : (e.apply op).2.Legible := by
  have hquiet : op.effects ⊆ Effect.quiet → (e.apply op).2.Legible :=
    h.of_alters (apply_alters hconsistent op)
  cases op with
  | press k => exact h.press hconsistent k
  | react ev => exact h.react hconsistent ev
  | pick candidate => exact h.pick hconsistent candidate
  | commitEdit => exact h.commitEdit
  | pickEdit candidate => exact h.pickEdit candidate
  | insertNew | insert | replace => cases hop
  | _ => exact hquiet (by simp [Operation.effects, Effect.quiet])

/-- The states that a new editor can get into when the host supplies no contents. -/
inductive SelfMade : Editor → Prop where
  | new (options : EditorOptions) (supply : IdSupply) :
      SelfMade { Editor.new options with supply }
  | apply {e : Editor} (h : SelfMade e) (op : Operation) (hop : op.suppliesContent = false) :
      SelfMade (e.apply op).2
  /-- Ids are drawn for other purposes. -/
  | draw {e : Editor} (h : SelfMade e) (supply : IdSupply)
      (hle : e.supply.next ≤ supply.next) : SelfMade { e with supply }

theorem SelfMade.reachable (h : SelfMade e) : Reachable e := by
  induction h with
  | new options supply => exact .new options supply
  | apply _ op hop ih =>
      refine ih.apply op ?_
      cases op with
      | insert => cases hop
      | _ => trivial
  | draw _ supply hle ih => exact ih.draw supply hle

theorem SelfMade.legible (h : SelfMade e) : e.Legible := by
  induction h with
  | new => exact nofun
  | apply hbefore op hop ih => exact ih.apply hbefore.reachable.consistent hop
  | draw _ supply hle ih => exact ih

/-! ## Reopening -/

section Reopening

variable {us vs : List Token} {t : Token} (htokens : e.tokens = us ++ t :: vs)
  (hus : t.id ∉ us.map Token.id)

include htokens hus in
/-- A token that is replaced by what it stands for stays as it is. -/
theorem replace_self : e.replace t.id t.content = (true, e.reevaluate) := by
  have hposition : e.position? t.id = some us.length := by
    rw [position?, htokens, Token.position?_append hus]
  have hset : e.tokens.set us.length t = e.tokens := by
    rw [htokens, List.set_append_right _ _ (Nat.le_refl _), Nat.sub_self, List.set_cons_zero]
  unfold replace
  rw [hposition]
  show (true, ({ e with tokens := e.tokens.set us.length t } : Editor).reevaluate) = _
  rw [hset]

include htokens hus in
/-- An edit box that still holds the text that it opened with puts back what was there. -/
theorem commitEdit_unchanged (hevaluated : e.evaluation = Formula.evaluate e.tokens)
    (hopen : e.edit = some ⟨t.id, t.content.displayName⟩) (hreads : ReadsBack t.content)
    (hkind : t.content.kind ≠ .variable) :
    (Editor.commitEdit e).1 = true ∧ Unaltered e (Editor.commitEdit e).2 := by
  have hclosed : e.closeEdit.mint.2.tokens = us ++ t :: vs := (closeEdit_tokens e).trans htokens
  have hput : (e.closeEdit.replaceNew t.id t.content).1 = true ∧
      Unaltered e (e.closeEdit.replaceNew t.id t.content).2 := by
    rw [replaceNew, replace_self hclosed hus]
    refine ⟨rfl, closeEdit_tokens e, closeEdit_cursor e, closeEdit_buffer e, ?_⟩
    show Formula.evaluate e.closeEdit.tokens = e.evaluation
    rw [closeEdit_tokens, hevaluated]
  have hfound := token?_closeEdit htokens hus
  obtain ⟨id, content⟩ := t
  unfold Editor.commitEdit
  rw [hopen]
  dsimp only
  rw [hfound]
  cases content with
  | «variable» => exact absurd rfl hkind
  | number text v =>
      obtain ⟨htrim, htyped⟩ := hreads
      dsimp only [Option.map_some, Content.displayName]
      rw [htyped, htrim]
      exact hput
  | operator op =>
      dsimp only [Option.map_some, Content.displayName]
      rw [ofText?_trim_text]
      exact hput

end Reopening

/-- Where no content comes from the host, a number is what its text is read as, and opening a number
or an operator and committing it unchanged is answered with success and changes nothing. -/
theorem SelfMade.reopened (h : SelfMade e) :
    (∀ t ∈ e.tokens, ∀ text v, t.content = .number text v →
      Text.trim text = text ∧ Numeral.typed? text = some v ∧ v.isFinite = true) ∧
    ∀ t ∈ e.tokens, t.content.kind = .number ∨ t.content.kind = .operator →
      (e.openEdit t.id).1 = true ∧ (Editor.commitEdit (e.openEdit t.id).2).1 = true ∧
      Unaltered e (Editor.commitEdit (e.openEdit t.id).2).2 := by
  have hlegible := h.legible
  constructor
  · intro t ht text v hcontent
    have hreads := hlegible t ht
    rw [hcontent] at hreads
    cases hreads with
    | number htrim htyped => exact ⟨htrim, htyped, (ofText?_of_typed? htyped).2⟩
  · intro t ht hkind
    have hconsistent := h.reachable.consistent
    obtain ⟨us, vs, htokens, hus⟩ := hconsistent.exists_slot ht
    have hfound : e.token? t.id = some t := by rw [token?, htokens, Token.find?_append hus]
    have hconfined := Confined.opened hfound
    have hunaltered := hconfined.unaltered
    have hevaluated : (e.openEdit t.id).2.evaluation =
        Formula.evaluate (e.openEdit t.id).2.tokens := by
      rw [hunaltered.evaluation, hunaltered.tokens, hconsistent.evaluated]
    have hfixed : t.content.kind ≠ .variable := by
      intro hvariable
      rw [hvariable] at hkind
      rcases hkind with h | h <;> cases h
    obtain ⟨hdone, hsame⟩ := commitEdit_unchanged (hunaltered.tokens.trans htokens) hus hevaluated
      hconfined.edit (hlegible t ht) hfixed
    refine ⟨?_, hdone, hunaltered.trans hsame⟩
    rw [openEdit, hfound]

/-- What stands after an operator is typed behind a number that has blanks around it. -/
def spacedSum : Editor := (Editor.new {}).run [.setBuffer " 1.50 ", .press (.char '+')]

theorem spacedSum_reopened :
    spacedSum.tokens = [⟨⟨1⟩, .number "1.50" 1.5⟩, ⟨⟨2⟩, .operator .add⟩] ∧
      (Editor.commitEdit (spacedSum.openEdit ⟨1⟩).2).1 = true ∧
      Unaltered spacedSum (Editor.commitEdit (spacedSum.openEdit ⟨1⟩).2).2 ∧
      Unaltered spacedSum (Editor.commitEdit (spacedSum.openEdit ⟨2⟩).2).2 := by
  have htokens : spacedSum.tokens = [⟨⟨1⟩, .number "1.50" 1.5⟩, ⟨⟨2⟩, .operator .add⟩] := by
    decide +kernel
  have hself : SelfMade spacedSum :=
    ((SelfMade.new {} .initial).apply (.setBuffer " 1.50 ") rfl).apply (.press (.char '+')) rfl
  have hreopened := hself.reopened.2
  rw [htokens] at hreopened
  obtain ⟨-, hdone, hnumber⟩ := hreopened ⟨⟨1⟩, .number "1.50" 1.5⟩ (by simp) (.inl rfl)
  obtain ⟨-, -, hoperator⟩ := hreopened ⟨⟨2⟩, .operator .add⟩ (by simp) (.inr rfl)
  exact ⟨htokens, hdone, hnumber, hoperator⟩

end FormulaBar.Editor
