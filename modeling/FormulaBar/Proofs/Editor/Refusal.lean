import FormulaBar.Proofs.Editor.InPlace
import FormulaBar.Proofs.Editor.Requests

/-!
# Refused operations

An operation that says it did nothing has done nothing. Only an edit that could not be finished
leaves a trace: its box has been closed, with its candidates and its lookup.

1. **Operations on the stream** and on what is on offer, one by one.
2. **Finishing an edit**.
3. **Every operation** that is refused in a reachable state.
-/

namespace FormulaBar.Editor

open Lookup (Request Response)

variable {e : Editor}

/-! ## Operations on the stream -/

/-- An operation that first looks for what it is to act on, and is refused only if that is not found
and nothing has been done. -/
theorem eq_of_not_found {α : Type} (found : Option α) {result : Bool × Editor}
    (hnone : found = none → result = (false, e)) (hsome : ∀ a, found = some a → result.1 = true)
    (h : result.1 = false) : result.2 = e := by
  cases found with
  | none => rw [hnone rfl]
  | some a =>
      rw [hsome a rfl] at h
      cases h

section Stream

variable {id : TokenId}

theorem remove_refused : (e.remove id).1 = false → (e.remove id).2 = e :=
  eq_of_not_found (e.position? id) (fun h => by rw [remove, h]) fun _ h => by rw [remove, h]

theorem delete_refused : (e.delete id).1 = false → (e.delete id).2 = e :=
  eq_of_not_found (e.position? id) (fun h => by rw [delete, h]) fun _ h => by rw [delete, h]

theorem replace_refused {content : Content} :
    (e.replace id content).1 = false → (e.replace id content).2 = e :=
  eq_of_not_found (e.position? id) (fun h => by rw [replace, h]) fun _ h => by rw [replace, h]

theorem openEdit_refused : (e.openEdit id).1 = false → (e.openEdit id).2 = e :=
  eq_of_not_found (e.token? id) (fun h => by rw [openEdit, h]) fun _ h => by rw [openEdit, h]

/-- A token that is found is replaced. -/
theorem replace_accepted {t : Token} (h : e.token? id = some t) (content : Content) :
    (e.replace id content).1 = true := by
  obtain ⟨index, hposition, -⟩ := position_of_token? h
  rw [replace, hposition]

end Stream

theorem pick_refused {candidate : String} :
    (e.pick candidate).1 = false → (e.pick candidate).2 = e :=
  eq_of_not_found (Candidate.find? e.candidates candidate) (fun h => by rw [pick, h])
    fun _ h => by rw [pick, h]

theorem receive_refused {r : Response} (h : (e.receive r).1 = false) : (e.receive r).2 = e := by
  unfold receive at h ⊢
  split
  · next hwanted =>
    rw [if_pos hwanted] at h
    cases h
  · rfl

/-! ## Finishing an edit -/

/-- While an edit box is open, no lookup but its own waits, so none is left when it is closed. -/
theorem Orderly.pending_of_open (h : e.Orderly) {box : EditBox} (hopen : e.edit = some box)
    {r : Request} (hr : e.pending = some r) : r.target = .edit box.id ∧ r.query = box.text := by
  rcases (h.pending r hr).2 with ⟨-, hactive, -⟩ | ⟨box', hopen', htarget, hquery⟩
  · rw [h.not_active hopen] at hactive
    cases hactive
  · have hsame : some box = some box' := hopen.symm.trans hopen'
    cases hsame
    exact ⟨htarget, hquery⟩

theorem Orderly.closeEdit_eq (h : e.Orderly) {box : EditBox} (hopen : e.edit = some box) :
    e.closeEdit = { e with edit := none, candidates := [], pending := none } := by
  have hpending : (e.pending.filter fun r => !r.target.isEdit) = none := by
    cases hr : e.pending with
    | none => rfl
    | some r =>
        rw [Option.filter_some, (h.pending_of_open hopen hr).1]
        rfl
  rw [closeEdit, hopen, ← hpending]

/-- An edit that is not committed has been closed, if there was one. -/
theorem commitEdit_refused (h : (Editor.commitEdit e).1 = false) :
    (Editor.commitEdit e).2 = e.closeEdit := by
  unfold Editor.commitEdit at h ⊢
  cases hopen : e.edit with
  | none => rw [closeEdit, hopen]
  | some box =>
      rw [hopen] at h
      dsimp only at h ⊢
      cases htoken : e.closeEdit.token? box.id with
      | none => rfl
      | some t =>
          obtain ⟨id, content⟩ := t
          rw [htoken] at h
          -- where there is something to put in the place of the token, it is not refused
          have haccepted := replace_accepted htoken
          have hdrawn := replace_accepted (e := e.closeEdit.mint.2) htoken
          cases content with
          | «variable» name category value source =>
              dsimp only [Option.map_some] at h ⊢
              cases hfirst : e.candidates.head? with
              | none => rfl
              | some c =>
                  rw [hfirst] at h
                  cases (haccepted _).symm.trans h
          | number shown value =>
              dsimp only [Option.map_some] at h ⊢
              cases hv : Numeral.typed? box.text with
              | none => rfl
              | some v =>
                  rw [hv] at h
                  cases (hdrawn _).symm.trans h
          | operator o =>
              dsimp only [Option.map_some] at h ⊢
              cases ho : Operator.ofText? (Text.trim box.text) with
              | none => rfl
              | some o' =>
                  rw [ho] at h
                  cases (hdrawn _).symm.trans h

/-- A candidate that is not picked is not on offer, or the edit has been closed. -/
theorem pickEdit_refused {candidate : String} (h : (e.pickEdit candidate).1 = false) :
    (e.pickEdit candidate).2 = e ∨ (e.pickEdit candidate).2 = e.closeEdit := by
  unfold pickEdit at h ⊢
  cases hopen : e.edit with
  | none => exact .inl rfl
  | some box =>
      rw [hopen] at h
      dsimp only at h ⊢
      cases hfind : Candidate.find? e.candidates candidate with
      | none => exact .inl rfl
      | some c =>
          rw [hfind] at h
          dsimp only at h ⊢
          cases htoken : e.closeEdit.token? box.id with
          | none => exact .inr rfl
          | some t =>
              obtain ⟨id, content⟩ := t
              rw [htoken] at h
              cases content with
              | «variable» name category value source =>
                  cases (replace_accepted htoken _).symm.trans h
              | number | operator => exact .inr rfl

/-! ## Every operation -/

/-- An operation that is refused, unless it finishes an edit, changes nothing. Only the id that was
drawn for a token to be put in another's place is spent. -/
theorem apply_refused {op : Operation} (hop : op.finishesEdit = false)
    (h : (e.apply op).1 = .flag false) :
    ∃ supply, (e.apply op).2 = { e with supply } ∧
      (supply = e.supply ∨ ∃ id content, op = .replace id content) := by
  have hflag : ∀ {result : Bool × Editor}, (flagged result).1 = .flag false → result.1 = false :=
    fun hresult => Reply.flag.inj hresult
  cases op with
  | remove id => exact ⟨e.supply, remove_refused (hflag h), .inl rfl⟩
  | delete id => exact ⟨e.supply, delete_refused (hflag h), .inl rfl⟩
  | replace id content =>
      exact ⟨e.mint.2.supply, replace_refused (e := e.mint.2) (hflag h), .inr ⟨id, content, rfl⟩⟩
  | pick candidate => exact ⟨e.supply, pick_refused (hflag h), .inl rfl⟩
  | receive r => exact ⟨e.supply, receive_refused (hflag h), .inl rfl⟩
  | openEdit id => exact ⟨e.supply, openEdit_refused (hflag h), .inl rfl⟩
  | commitEdit | pickEdit => cases hop
  | _ => cases h

/-- Finishing an edit, where it is refused, changes nothing or closes the edit. -/
theorem finishesEdit_refused {op : Operation} (hop : op.finishesEdit = true)
    (h : (e.apply op).1 = .flag false) :
    (e.apply op).2 = e ∨ (e.apply op).2 = e.closeEdit := by
  cases op with
  | commitEdit => exact .inr (commitEdit_refused (Reply.flag.inj h))
  | pickEdit candidate => exact pickEdit_refused (Reply.flag.inj h)
  | closeEdit => cases h
  | _ => cases hop

/-- An operation that is refused in a reachable state leaves the editor as it is, down to the
candidates, the lookup that waits and the numbers of lookups; at most the id of a token that was
brought to replace another one is spent, and a copy spends none. If an edit was to be finished, its
box may have been closed, with its candidates and its own lookup, and nothing else has changed. -/
theorem Reachable.refused (h : Reachable e) :
    (∀ op : Operation, op.finishesEdit = false → (e.apply op).1 = .flag false →
      ∃ supply, (e.apply op).2 = { e with supply } ∧
        (supply = e.supply ∨ ∃ id content, op = .replace id content)) ∧
    (∀ id content, (e.replace id content).1 = false → (e.replace id content).2 = e) ∧
    (∀ op : Operation, op.finishesEdit = true → (e.apply op).1 = .flag false →
      (e.apply op).2 = e ∨ ∃ box, e.edit = some box ∧
        (e.apply op).2 = { e with edit := none, candidates := [], pending := none } ∧
        ∀ r, e.pending = some r → r.target = .edit box.id ∧ r.query = box.text) := by
  refine ⟨fun op => apply_refused, fun id content => replace_refused, ?_⟩
  intro op hop hrefused
  rcases finishesEdit_refused hop hrefused with hsame | hclosed
  · exact .inl hsame
  · cases hopen : e.edit with
    | none =>
        rw [closeEdit, hopen] at hclosed
        exact .inl hclosed
    | some box =>
        have horderly := h.orderly
        refine .inr ⟨box, rfl, hclosed.trans (horderly.closeEdit_eq hopen), ?_⟩
        exact fun r hr => horderly.pending_of_open hopen hr

/-- The edit box of a variable is open and its lookup waits. A removal of an unknown token changes
nothing, and a commit without a candidate closes the box and drops the lookup. -/
theorem editing_refused :
    Reachable editing ∧ (editing.apply (.remove ⟨7⟩)).1 = .flag false ∧
      (editing.apply (.remove ⟨7⟩)).2 = editing ∧
      (editing.apply .commitEdit).1 = .flag false ∧
      (editing.apply .commitEdit).2 =
        { editing with edit := none, candidates := [], pending := none } := by
  have hremove : (editing.apply (.remove ⟨7⟩)).1 = .flag false := by decide
  have hcommit : (editing.apply .commitEdit).1 = .flag false := by decide
  obtain ⟨hunchanged, -, hfinished⟩ := reachable_editing.refused
  refine ⟨reachable_editing, hremove, ?_, hcommit, ?_⟩
  · obtain ⟨supply, hsame, rfl | ⟨id, content, hop⟩⟩ := hunchanged (.remove ⟨7⟩) rfl hremove
    · exact hsame
    · cases hop
  · rcases hfinished .commitEdit rfl hcommit with hsame | ⟨box, -, hclosed, -⟩
    · have hedit : (editing.apply .commitEdit).2.edit = none := by decide
      rw [hsame] at hedit
      cases hedit
    · exact hclosed

end FormulaBar.Editor
