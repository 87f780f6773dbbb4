import FormulaBar.Proofs.Editor.Effects

/-!
# Editing in place stays in its slot

While the edit box is open on a token, texts are typed into it and answers to lookups come in. None
of this touches the stream. When the box is closed, at most the token that it was open on stands for
something else, and that is read from the last text or from a candidate for it.

1. **Contents**: what an edit may make of one.
2. **Sessions**: everything that can be done while the box stays open.
3. **Finishing**: by the text, by a candidate, or not at all.
-/

namespace FormulaBar.Editor

open Lookup (Response)

variable {e e₁ e₂ e' : Editor}

/-! ## Contents -/

/-- What an edit that ended with a text may make of a content, with some candidates on offer. -/
inductive Reworded (text : String) (offered : Candidate → Prop) : Content → Content → Prop where
  | same (content : Content) : Reworded text offered content content
  /-- A variable keeps its category and takes all else from one candidate. -/
  | variable {name category : String} {value : Float} {source : String} {c : Candidate}
      (hc : offered c) :
      Reworded text offered (.variable name category value source)
        (.variable c.name category c.value c.id)
  | number {shown : String} {value v : Float} (hv : Numeral.ofText? (Text.trim text) = some v)
      (hfinite : v.isFinite = true) :
      Reworded text offered (.number shown value) (.number (Text.trim text) v)
  | operator {o o' : Operator} (ho : Operator.ofText? (Text.trim text) = some o') :
      Reworded text offered (.operator o) (.operator o')

theorem Reworded.kind_eq {text : String} {offered : Candidate → Prop} {content content' : Content}
    (h : Reworded text offered content content') : content'.kind = content.kind := by
  cases h <;> rfl

theorem Reworded.mono {text : String} {offered offered' : Candidate → Prop}
    {content content' : Content} (h : Reworded text offered content content')
    (himp : ∀ c, offered c → offered' c) : Reworded text offered' content content' := by
  cases h with
  | same => exact .same _
  | «variable» hc => exact .variable (himp _ hc)
  | number hv hfinite => exact .number hv hfinite
  | operator ho => exact .operator ho

/-- A typed number is what the trimmed text reads as, and it is finite. -/
theorem ofText?_of_typed? {text : String} {v : Float} (h : Numeral.typed? text = some v) :
    Numeral.ofText? (Text.trim text) = some v ∧ v.isFinite = true := by
  obtain ⟨hread, hfinite⟩ := Option.filter_eq_some_iff.mp h
  refine ⟨?_, hfinite⟩
  rw [Numeral.ofText?, Text.trim, String.toList_ofList]
  exact hread

/-! ## Sessions -/

/-- The states of `e` while the edit box is open on a token, with the text that the box holds and
the answers that have come in. -/
inductive EditSession (e : Editor) (id : TokenId) : String → List Response → Editor → Prop where
  | opened {t : Token} (ht : e.token? id = some t) :
      EditSession e id t.content.displayName [] (e.openEdit id).2
  | typed {text : String} {answers : List Response} {e₁ : Editor}
      (h : EditSession e id text answers e₁) (text' : String) :
      EditSession e id text' answers (e₁.typeEdit text')
  | taken {text : String} {answers : List Response} {e₁ : Editor}
      (h : EditSession e id text answers e₁) : EditSession e id text answers (takeRequest e₁).2
  | answered {text : String} {answers : List Response} {e₁ : Editor}
      (h : EditSession e id text answers e₁) (r : Response) :
      EditSession e id text (r :: answers) (e₁.receive r).2

/-- A candidate is in an answer for a text in the edit box of a token. -/
def Offered (id : TokenId) (text : String) (answers : List Response) (c : Candidate) : Prop :=
  ∃ r ∈ answers, r.target = .edit id ∧ r.query = text ∧ c ∈ r.candidates

/-- What holds while the box stays open: the stream is as it was, and what is on offer is on offer
for the text in the box. -/
structure Confined (e : Editor) (id : TokenId) (text : String) (answers : List Response)
    (e₁ : Editor) : Prop where
  unaltered : Unaltered e e₁
  edit : e₁.edit = some ⟨id, text⟩
  /-- Nothing is on offer for the buffer. -/
  inactive : e₁.active = false
  offered : ∀ c ∈ e₁.candidates, Offered id text answers c

theorem Unaltered.trans (h : Unaltered e e₁) (h' : Unaltered e₁ e₂) : Unaltered e e₂ where
  tokens := h'.tokens.trans h.tokens
  cursor := h'.cursor.trans h.cursor
  buffer := h'.buffer.trans h.buffer
  evaluation := h'.evaluation.trans h.evaluation

theorem unaltered_closeEdit (e : Editor) : Unaltered e e.closeEdit where
  tokens := closeEdit_tokens e
  cursor := closeEdit_cursor e
  buffer := closeEdit_buffer e
  evaluation := closeEdit_evaluation e

/-- A text that has just been put into the box has nothing on offer for it. -/
theorem searchEdit_confined (hunaltered : Unaltered e e₁) {box : EditBox}
    (hopen : e₁.edit = some box) (hinactive : e₁.active = false) (answers : List Response) :
    Confined e box.id box.text answers e₁.searchEdit := by
  unfold searchEdit
  rw [hopen]
  dsimp only
  split
  · exact ⟨hunaltered.trans ⟨rfl, rfl, rfl, rfl⟩, hopen, hinactive, nofun⟩
  · exact ⟨hunaltered.trans ⟨rfl, rfl, rfl, rfl⟩, hopen ▸ rfl, hinactive, nofun⟩

namespace Confined

variable {id : TokenId} {text : String} {answers : List Response}

theorem opened {t : Token} (ht : e.token? id = some t) :
    Confined e id t.content.displayName [] (e.openEdit id).2 := by
  have hdismissed : Unaltered e e.dismiss := ⟨rfl, rfl, rfl, rfl⟩
  have hclosed := hdismissed.trans (unaltered_closeEdit e.dismiss)
  have hopened : Unaltered e
      { e.dismiss.closeEdit with edit := some ⟨id, t.content.displayName⟩ } :=
    hclosed.trans ⟨rfl, rfl, rfl, rfl⟩
  unfold openEdit
  rw [ht]
  exact searchEdit_confined hopened rfl (closeEdit_active e.dismiss) []

theorem typed (h : Confined e id text answers e₁) (text' : String) :
    Confined e id text' answers (e₁.typeEdit text') := by
  have htyped : Unaltered e { e₁ with edit := some ⟨id, text'⟩ } :=
    h.unaltered.trans ⟨rfl, rfl, rfl, rfl⟩
  unfold typeEdit
  rw [h.edit]
  exact searchEdit_confined htyped rfl h.inactive answers

theorem taken (h : Confined e id text answers e₁) :
    Confined e id text answers (takeRequest e₁).2 where
  unaltered := h.unaltered.trans ⟨rfl, rfl, rfl, rfl⟩
  edit := h.edit
  inactive := h.inactive
  offered := h.offered

/-- No answer for the buffer is wanted, and none for another text. -/
theorem of_wants (h : Confined e id text answers e₁) {r : Response}
    (hwants : e₁.wants r = true) : r.target = .edit id ∧ r.query = text := by
  unfold wants at hwants
  cases htarget : r.target with
  | buffer => simp [htarget, h.inactive] at hwants
  | edit id' =>
      have hmatches : id = id' ∧ text = r.query := by simpa [htarget, h.edit] using hwants
      exact ⟨by rw [hmatches.1], hmatches.2.symm⟩

theorem answered (h : Confined e id text answers e₁) (r : Response) :
    Confined e id text (r :: answers) (e₁.receive r).2 := by
  unfold receive
  split
  · next haccepted =>
    refine ⟨h.unaltered.trans ⟨rfl, rfl, rfl, rfl⟩, h.edit, h.inactive, ?_⟩
    intro c hc
    obtain ⟨htarget, hquery⟩ := h.of_wants haccepted.2
    exact ⟨r, List.mem_cons_self, htarget, hquery, hc⟩
  · -- the answer is turned down, and what is on offer stays
    refine ⟨h.unaltered, h.edit, h.inactive, ?_⟩
    intro c hc
    obtain ⟨r', hr', hmatches⟩ := h.offered c hc
    exact ⟨r', List.mem_cons_of_mem _ hr', hmatches⟩

end Confined

theorem EditSession.confined {id : TokenId} {text : String} {answers : List Response}
    (h : EditSession e id text answers e₁) : Confined e id text answers e₁ := by
  induction h with
  | opened ht => exact .opened ht
  | typed _ text' ih => exact ih.typed text'
  | taken _ ih => exact ih.taken
  | answered _ r ih => exact ih.answered r

/-! ## Finishing -/

/-- Whether an operation closes the edit box, and at most replaces its token. -/
def Operation.finishesEdit : Operation → Bool
  | .commitEdit | .pickEdit _ | .closeEdit => true
  | _ => false

/-- The kinds of the tokens, in their order. -/
abbrev kinds (e : Editor) : List Kind := e.tokens.map fun t => t.content.kind

/-- One token of the stream stands for a content that an edit may have made of what it stood for,
and all else is as it was. -/
structure RewordsOne (e : Editor) (us vs : List Token) (t : Token) (text : String)
    (offered : Candidate → Prop) (e' : Editor) : Prop where
  tokens : ∃ content, Reworded text offered t.content content ∧
    e'.tokens = us ++ ⟨t.id, content⟩ :: vs
  cursor : e'.cursor = e.cursor
  buffer : e'.buffer = e.buffer
  evaluated : e'.evaluation = Formula.evaluate e'.tokens

namespace RewordsOne

variable {us vs : List Token} {t : Token} {text : String} {offered offered' : Candidate → Prop}

/-- Before the token is reworded the box has been opened, and texts and answers have come in. -/
theorem after (h : RewordsOne e₁ us vs t text offered e') (hunaltered : Unaltered e e₁)
    (himp : ∀ c, offered c → offered' c) : RewordsOne e us vs t text offered' e' where
  tokens := by
    obtain ⟨content, hreworded, htokens⟩ := h.tokens
    exact ⟨content, hreworded.mono himp, htokens⟩
  cursor := h.cursor.trans hunaltered.cursor
  buffer := h.buffer.trans hunaltered.buffer
  evaluated := h.evaluated

theorem ids_eq (h : RewordsOne e us vs t text offered e') (htokens : e.tokens = us ++ t :: vs) :
    e'.ids = e.ids := by
  obtain ⟨content, -, htokens'⟩ := h.tokens
  rw [ids, ids, htokens', htokens, List.map_append, List.map_append, List.map_cons, List.map_cons]

theorem kinds_eq (h : RewordsOne e us vs t text offered e') (htokens : e.tokens = us ++ t :: vs) :
    e'.kinds = e.kinds := by
  obtain ⟨content, hreworded, htokens'⟩ := h.tokens
  rw [kinds, kinds, htokens', htokens, List.map_append, List.map_append, List.map_cons,
    List.map_cons, hreworded.kind_eq]

end RewordsOne

section Finishing

variable {us vs : List Token} {t : Token} {text : String} {offered : Candidate → Prop}
  (htokens : e.tokens = us ++ t :: vs) (hus : t.id ∉ us.map Token.id)
  (hevaluated : e.evaluation = Formula.evaluate e.tokens)

include htokens hevaluated in
theorem Unaltered.rewordsOne (h : Unaltered e e') : RewordsOne e us vs t text offered e' where
  tokens := ⟨t.content, .same _, h.tokens.trans htokens⟩
  cursor := h.cursor
  buffer := h.buffer
  evaluated := by rw [h.evaluation, h.tokens, hevaluated]

include htokens hus in
/-- Before the token is replaced, the box is closed, and an id may have been drawn. -/
theorem replace_rewordsOne {content : Content} (h : Reworded text offered t.content content)
    (supply : IdSupply) :
    RewordsOne e us vs t text offered
      (({ e.closeEdit with supply } : Editor).replace t.id content).2 := by
  have hclosed : e.closeEdit.tokens = us ++ t :: vs := (closeEdit_tokens e).trans htokens
  have hposition : ({ e.closeEdit with supply } : Editor).position? t.id = some us.length := by
    rw [position?]
    show Token.position? e.closeEdit.tokens t.id = _
    rw [hclosed, Token.position?_append hus]
  unfold replace
  rw [hposition]
  refine ⟨⟨content, h, ?_⟩, closeEdit_cursor e, closeEdit_buffer e, rfl⟩
  show e.closeEdit.tokens.set us.length ⟨t.id, content⟩ = _
  rw [hclosed, List.set_append_right _ _ (Nat.le_refl _), Nat.sub_self, List.set_cons_zero]

include htokens hus in
theorem token?_closeEdit : e.closeEdit.token? t.id = some t := by
  rw [token?, closeEdit_tokens, htokens, Token.find?_append hus]

include htokens hus hevaluated in
/-- The text or the first candidate makes the new content, or there is none. -/
theorem commitEdit_rewordsOne (hopen : e.edit = some ⟨t.id, text⟩) :
    RewordsOne e us vs t text (· ∈ e.candidates) (Editor.commitEdit e).2 := by
  have hclosed : RewordsOne e us vs t text (· ∈ e.candidates) e.closeEdit :=
    (unaltered_closeEdit e).rewordsOne htokens hevaluated
  obtain ⟨id, content⟩ := t
  unfold Editor.commitEdit
  rw [hopen]
  dsimp only
  rw [token?_closeEdit htokens hus]
  cases content with
  | «variable» name category value source =>
      dsimp only [Option.map_some]
      cases hfirst : e.candidates.head? with
      | none => exact hclosed
      | some c =>
          exact replace_rewordsOne htokens hus (.variable (List.mem_of_head? hfirst))
            e.closeEdit.supply
  | number shown value =>
      dsimp only [Option.map_some]
      cases hv : Numeral.typed? text with
      | none => exact hclosed
      | some v =>
          obtain ⟨hread, hfinite⟩ := ofText?_of_typed? hv
          exact replace_rewordsOne htokens hus (.number hread hfinite) e.closeEdit.supply.fresh.2
  | operator o =>
      dsimp only [Option.map_some]
      cases ho : Operator.ofText? (Text.trim text) with
      | none => exact hclosed
      | some o' => exact replace_rewordsOne htokens hus (.operator ho) e.closeEdit.supply.fresh.2

include htokens hus hevaluated in
/-- The candidate that is picked makes the new content, or nothing is picked. -/
theorem pickEdit_rewordsOne (hopen : e.edit = some ⟨t.id, text⟩) (candidate : String) :
    RewordsOne e us vs t text (· ∈ e.candidates) (e.pickEdit candidate).2 := by
  obtain ⟨id, content⟩ := t
  unfold pickEdit
  rw [hopen]
  dsimp only
  cases hfind : Candidate.find? e.candidates candidate with
  | none => exact Unaltered.rewordsOne htokens hevaluated ⟨rfl, rfl, rfl, rfl⟩
  | some c =>
      dsimp only
      rw [token?_closeEdit htokens hus]
      cases content with
      | «variable» name category value source =>
          exact replace_rewordsOne htokens hus (.variable (List.mem_of_find?_eq_some hfind))
            e.closeEdit.supply
      | number | operator => exact (unaltered_closeEdit e).rewordsOne htokens hevaluated

include htokens hus hevaluated in
theorem finishesEdit_rewordsOne (hopen : e.edit = some ⟨t.id, text⟩) {op : Operation}
    (hop : op.finishesEdit = true) :
    RewordsOne e us vs t text (· ∈ e.candidates) (e.apply op).2 := by
  cases op with
  | commitEdit => exact commitEdit_rewordsOne htokens hus hevaluated hopen
  | pickEdit candidate => exact pickEdit_rewordsOne htokens hus hevaluated hopen candidate
  | closeEdit => exact (unaltered_closeEdit e).rewordsOne htokens hevaluated
  | _ => cases hop

end Finishing

/-- However often the text of the edit box is changed and whatever answers come in, an edit leaves
everything as it is but for the token that the box was opened on, and that one keeps its id and its
kind. -/
theorem Reachable.edit_confined (h : e.Reachable) {id : TokenId} (hid : id ∈ e.ids) :
    (e.openEdit id).1 = true ∧
    ∀ {text answers e₁}, EditSession e id text answers e₁ →
      Unaltered e e₁ ∧ Unaltered e (e₁.apply .closeEdit).2 ∧
      ∀ op : Operation, op.finishesEdit = true →
        (e₁.apply op).2.ids = e.ids ∧ (e₁.apply op).2.kinds = e.kinds ∧
        ∃ us vs t, t.id = id ∧ e.tokens = us ++ t :: vs ∧
          RewordsOne e us vs t text (Offered id text answers) (e₁.apply op).2 := by
  have hconsistent := h.consistent
  obtain ⟨t, ht, rfl⟩ := List.mem_map.mp hid
  obtain ⟨us, vs, htokens⟩ := List.append_of_mem ht
  have hus : t.id ∉ us.map Token.id := by
    have hnodup := hconsistent.nodup
    rw [ids, htokens, List.map_append, List.nodup_append] at hnodup
    intro hmem
    exact hnodup.2.2 _ hmem _ List.mem_cons_self rfl
  constructor
  · have hfound : e.token? t.id = some t := by rw [token?, htokens, Token.find?_append hus]
    rw [openEdit, hfound]
  · intro text answers e₁ hsession
    have hconfined := hsession.confined
    have hunaltered := hconfined.unaltered
    refine ⟨hunaltered, hunaltered.trans (unaltered_closeEdit e₁), ?_⟩
    intro op hop
    have hevaluated : e₁.evaluation = Formula.evaluate e₁.tokens := by
      rw [hunaltered.evaluation, hunaltered.tokens, hconsistent.evaluated]
    have hreworded := (finishesEdit_rewordsOne (hunaltered.tokens.trans htokens) hus hevaluated
      hconfined.edit hop).after hunaltered hconfined.offered
    exact ⟨hreworded.ids_eq htokens, hreworded.kinds_eq htokens, us, vs, t, rfl, htokens, hreworded⟩

/-- A variable in parentheses. -/
def quoted : Editor :=
  (Editor.new {}).run
    [.insertNew 0 (.operator .lparen), .insertNew 1 (.variable "gdp" "output" 0 "s1"),
      .insertNew 2 (.operator .rparen)]

theorem quoted_edit_confined :
    Reachable quoted ∧ quoted.ids = [⟨1⟩, ⟨2⟩, ⟨3⟩] ∧
      ∃ e₁ : Editor, e₁.candidates = [⟨"s2", "gnp", "income", 0⟩] ∧
        (Editor.commitEdit e₁).1 = true ∧ (Editor.commitEdit e₁).2.ids = quoted.ids ∧
        (Editor.commitEdit e₁).2.kinds = quoted.kinds := by
  have hone := (Reachable.new {} .initial).apply (.insertNew 0 (.operator .lparen)) trivial
  have htwo := hone.apply (.insertNew 1 (.variable "gdp" "output" 0 "s1")) trivial
  have hreach : Reachable quoted := htwo.apply (.insertNew 2 (.operator .rparen)) trivial
  have hopened : EditSession quoted ⟨2⟩ "gdp" [] (quoted.openEdit ⟨2⟩).2 :=
    .opened (t := ⟨⟨2⟩, .variable "gdp" "output" 0 "s1"⟩) rfl
  have hsession := (hopened.typed "gn").taken.answered
    ⟨2, "gn", .edit ⟨2⟩, [⟨"s2", "gnp", "income", 0⟩]⟩
  have hid : (⟨2⟩ : TokenId) ∈ quoted.ids := by decide
  obtain ⟨-, hconfined⟩ := hreach.edit_confined hid
  obtain ⟨hids, hkinds, -⟩ := (hconfined hsession).2.2 .commitEdit rfl
  exact ⟨hreach, by decide, _, rfl, rfl, hids, hkinds⟩

end FormulaBar.Editor
