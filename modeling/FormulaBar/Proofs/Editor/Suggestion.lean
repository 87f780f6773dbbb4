import FormulaBar.Proofs.Editor.Prompt

/-!
# Suggestions are never stale

Answers come in late, in another order, more than once or not at all. Whatever is on offer is still
what a fixed source has for the text as it is now, and only that is ever bound.

1. **Runs** whose answers are those of the source to lookups taken before.
2. **Commits**: what a commit or a pick may put into the stream.
3. **Suggestions** in every state of such a run.
-/

namespace FormulaBar.Editor

open Lookup (Request)

variable {e e' : Editor} {f : String → List Candidate}

/-! ## Runs -/

/-- The states of an editor that is served by a source `f`, with the lookups that have been taken
from it. An answer may come to any of these at any time. -/
inductive Served (f : String → List Candidate) : Editor → List Request → Prop where
  | new (options : EditorOptions) : Served f (Editor.new options) []
  | host {e e' : Editor} {taken : List Request} (h : Served f e taken) (hstep : HostStep e e') :
      Served f e' taken
  | take {e : Editor} {taken : List Request} (h : Served f e taken) :
      Served f (takeRequest e).2 (taken ++ (takeRequest e).1.toList)
  | answer {e : Editor} {taken : List Request} (h : Served f e taken) (r : Request)
      (hr : r ∈ taken) : Served f (e.receive ⟨r.seq, r.query, r.target, f r.query⟩).2 taken

/-- Whatever is on offer is what the source has. -/
abbrev Offers (f : String → List Candidate) (query : String) (candidates : List Candidate) : Prop :=
  candidates = f query

theorem new_coherent (offers : String → List Candidate → Prop) (options : EditorOptions) :
    (Editor.new options).prompt.Coherent offers :=
  .of_empty rfl rfl rfl

theorem Served.coherent {taken : List Request} (h : Served f e taken) :
    e.prompt.Coherent (Offers f) := by
  induction h with
  | new options => exact new_coherent _ options
  | host _ hstep ih => exact ih.step hstep.prompt
  | take _ ih => exact ih.take
  | answer _ r _ ih => exact receive_coherent ih rfl

/-! ## Commits -/

/-- The stream is that of `e` but for the variable under an id, which is bound to a candidate. -/
def Rebinds (e e' : Editor) (id : TokenId) (c : Candidate) : Prop :=
  ∃ index name category value source,
    e.position? id = some index ∧
    e.tokens[index]? = some ⟨id, .variable name category value source⟩ ∧
    e'.tokens = e.tokens.set index ⟨id, .variable c.name category c.value c.id⟩

/-- Enter inserts the number that was typed or a variable for the first candidate, or does
nothing. -/
theorem press_enter (e : Editor) :
    e.press .enter = e ∨
      (∃ v, Numeral.typed? e.buffer = some v ∧
        e.Inserts (e.press .enter) (.number (Text.trim e.buffer) v)) ∨
      ∃ c ∈ e.candidates,
        e.Inserts (e.press .enter) (.variable c.name c.category c.value c.id) := by
  show e.commit = e ∨
    (∃ v, Numeral.typed? e.buffer = some v ∧
      e.Inserts e.commit (.number (Text.trim e.buffer) v)) ∨
    ∃ c ∈ e.candidates, e.Inserts e.commit (.variable c.name c.category c.value c.id)
  unfold commit commitNumber?
  split
  · exact .inl rfl
  · cases Numeral.typed? e.buffer with
    | some v => exact .inr (.inl ⟨v, rfl, insertNew_inserts e _⟩)
    | none =>
        cases hcandidates : e.candidates with
        | nil => exact .inl rfl
        | cons c rest =>
            cases e.active with
            | true => exact .inr (.inr ⟨c, List.mem_cons_self, insertNew_inserts e _⟩)
            | false => exact .inl rfl

/-- Picking inserts a variable for the candidate with the given id, if it is on offer. -/
theorem pick_inserts (e : Editor) (id : String) :
    e.pick id = (false, e) ∨ ∃ c ∈ e.candidates, c.id = id ∧ (e.pick id).1 = true ∧
      e.Inserts (e.pick id).2 (.variable c.name c.category c.value c.id) := by
  unfold pick
  cases hfind : Candidate.find? e.candidates id with
  | none => exact .inl rfl
  | some c =>
      have hid : c.id = id := by simpa using List.find?_some hfind
      exact .inr ⟨c, List.mem_of_find?_eq_some hfind, hid, rfl, insertNew_inserts e _⟩

/-- A variable is rebound where it stands. -/
theorem replace_rebinds {id : TokenId} {name category : String} {value : Float} {source : String}
    (h : (e.token? id).map Token.content = some (.variable name category value source))
    (c : Candidate) :
    Rebinds e (e.closeEdit.replace id
      ((Content.variable name category value source).rebind c)).2 id c := by
  rcases Option.map_eq_some_iff.mp h with ⟨t, htoken, hcontent⟩
  rcases position_of_token? htoken with ⟨index, hposition, hget⟩
  have hid : t.id = id := by
    simpa using List.find?_some htoken
  have hclosed : e.closeEdit.position? id = some index := by
    rw [← hposition, position?, position?, closeEdit_tokens]
  refine ⟨index, name, category, value, source, hposition, ?_, ?_⟩
  · rw [hget, ← hid, ← hcontent]
  · simp only [replace, hclosed, reevaluate, closeEdit_tokens, Content.rebind]

/-- Committing the edit box of a variable binds it to the first candidate, or changes nothing. -/
theorem commitEdit_rebinds {box : EditBox} (hopen : e.edit = some box)
    (hvariable : e.isVariable box.id = true) :
    (Editor.commitEdit e).2.tokens = e.tokens ∨
      ∃ c ∈ e.candidates, Rebinds e (Editor.commitEdit e).2 box.id c := by
  have htoken : e.closeEdit.token? box.id = e.token? box.id := by
    rw [token?, token?, closeEdit_tokens]
  unfold Editor.commitEdit
  rw [hopen]
  dsimp only
  rw [htoken]
  cases hcontent : (e.token? box.id).map Token.content with
  | none => exact .inl (closeEdit_tokens e)
  | some content =>
      cases content with
      | operator | number =>
          rw [isVariable, Option.any_eq_true] at hvariable
          rcases hvariable with ⟨t, ht, hkind⟩
          rw [ht, Option.map_some, Option.some_inj] at hcontent
          rw [hcontent] at hkind
          cases hkind
      | «variable» name category value source =>
          dsimp only
          cases hfirst : e.candidates.head? with
          | none => exact .inl (closeEdit_tokens e)
          | some c => exact .inr ⟨c, List.mem_of_head? hfirst, replace_rebinds hcontent c⟩

/-- Picking a candidate for the edit box binds its variable to it, or changes nothing. -/
theorem pickEdit_rebinds {box : EditBox} (hopen : e.edit = some box) (id : String) :
    (e.pickEdit id).2.tokens = e.tokens ∨
      ∃ c ∈ e.candidates, c.id = id ∧ Rebinds e (e.pickEdit id).2 box.id c := by
  have htoken : e.closeEdit.token? box.id = e.token? box.id := by
    rw [token?, token?, closeEdit_tokens]
  unfold pickEdit
  rw [hopen]
  dsimp only
  cases hfind : Candidate.find? e.candidates id with
  | none => exact .inl rfl
  | some c =>
      dsimp only
      rw [htoken]
      cases hcontent : (e.token? box.id).map Token.content with
      | none => exact .inl (closeEdit_tokens e)
      | some content =>
          cases content with
          | operator | number => exact .inl (closeEdit_tokens e)
          | «variable» name category value source =>
              have hid : c.id = id := by simpa using List.find?_some hfind
              exact .inr ⟨c, List.mem_of_find?_eq_some hfind, hid, replace_rebinds hcontent c⟩

/-! ## Suggestions -/

/-- While no edit box is open, what is on offer is what the source has for the buffer. -/
theorem Served.offers_buffer {taken : List Request} (h : Served f e taken) (hclosed : e.edit = none)
    {c : Candidate} (hc : c ∈ e.candidates) : c ∈ f e.buffer := by
  rcases h.coherent.candidates with hnil | ⟨-, hoffers⟩ | ⟨box, hopen, -⟩
  · rw [show e.candidates = [] from hnil] at hc
    cases hc
  · rwa [show e.candidates = f e.buffer from hoffers] at hc
  · rw [show e.edit = some box from hopen] at hclosed
    cases hclosed

/-- While an edit box is open, what is on offer is what the source has for its text. -/
theorem Served.offers_edit {taken : List Request} (h : Served f e taken) {box : EditBox}
    (hopen : e.edit = some box) {c : Candidate} (hc : c ∈ e.candidates) : c ∈ f box.text := by
  rcases h.coherent.candidates with hnil | ⟨hactive, -⟩ | ⟨box', hopen', hoffers⟩
  · rw [show e.candidates = [] from hnil] at hc
    cases hc
  · rw [h.coherent.not_active hopen] at hactive
    cases hactive
  · rw [show e.edit = some box' from hopen', Option.some_inj] at hopen
    rwa [show e.candidates = f box'.text from hoffers, hopen] at hc

/-- Whatever the order in which answers come in, the candidates are those for the text as it is now.
A variable that is inserted has its name, category, value and source from one of these, and a
variable that is bound anew has its name, value and source from one of them. -/
theorem Served.suggestion {taken : List Request} (h : Served f e taken) :
    (e.candidates = [] ∨ (e.active = true ∧ e.candidates = f e.buffer) ∨
      ∃ box, e.edit = some box ∧ e.candidates = f box.text) ∧
    (e.edit = none →
      (e.press .enter = e ∨
        (∃ v, Numeral.typed? e.buffer = some v ∧
          e.Inserts (e.press .enter) (.number (Text.trim e.buffer) v)) ∨
        ∃ c ∈ f e.buffer,
          e.Inserts (e.press .enter) (.variable c.name c.category c.value c.id)) ∧
      ∀ id, e.pick id = (false, e) ∨ ∃ c ∈ f e.buffer, c.id = id ∧ (e.pick id).1 = true ∧
        e.Inserts (e.pick id).2 (.variable c.name c.category c.value c.id)) ∧
    ∀ box, e.edit = some box →
      (e.isVariable box.id = true → (Editor.commitEdit e).2.tokens = e.tokens ∨
        ∃ c ∈ f box.text, Rebinds e (Editor.commitEdit e).2 box.id c) ∧
      ∀ id, (e.pickEdit id).2.tokens = e.tokens ∨
        ∃ c ∈ f box.text, c.id = id ∧ Rebinds e (e.pickEdit id).2 box.id c := by
  refine ⟨h.coherent.candidates, fun hclosed => ⟨?_, fun id => ?_⟩,
    fun box hopen => ⟨fun hvariable => ?_, fun id => ?_⟩⟩
  · rcases press_enter e with hsame | hnumber | ⟨c, hc, henter⟩
    · exact .inl hsame
    · exact .inr (.inl hnumber)
    · exact .inr (.inr ⟨c, h.offers_buffer hclosed hc, henter⟩)
  · rcases pick_inserts e id with hfail | ⟨c, hc, hid, hpick⟩
    · exact .inl hfail
    · exact .inr ⟨c, h.offers_buffer hclosed hc, hid, hpick⟩
  · rcases commitEdit_rebinds hopen hvariable with hsame | ⟨c, hc, hbound⟩
    · exact .inl hsame
    · exact .inr ⟨c, h.offers_edit hopen hc, hbound⟩
  · rcases pickEdit_rebinds hopen id with hsame | ⟨c, hc, hid, hbound⟩
    · exact .inl hsame
    · exact .inr ⟨c, h.offers_edit hopen hc, hid, hbound⟩

/-- A source that has one candidate for every query, which repeats it. -/
def echo (query : String) : List Candidate := [⟨query, query, "", 0⟩]

/-- Two texts are typed and looked up, and the answers come in in the wrong order. -/
def overtaken : Editor :=
  (Editor.new {}).run
    [.setBuffer "a", .takeRequest, .setBuffer "ab", .takeRequest,
      .receive ⟨2, "ab", .buffer, echo "ab"⟩, .receive ⟨1, "a", .buffer, echo "a"⟩]

/-- Picking and Enter insert a variable that is made of the later text alone. -/
theorem overtaken_suggestion :
    Served echo overtaken [⟨1, "a", .buffer⟩, ⟨2, "ab", .buffer⟩] ∧ overtaken.buffer = "ab" ∧
      ((overtaken.pick "ab").1 = true ∧
        ∃ id, (overtaken.pick "ab").2.tokens = [⟨id, .variable "ab" "" 0 "ab"⟩]) ∧
      ∃ id, (overtaken.press .enter).tokens = [⟨id, .variable "ab" "" 0 "ab"⟩] := by
  have hfirst := ((Served.new {}).host (.apply (.setBuffer "a") rfl)).take (f := echo)
  have hboth := (hfirst.host (.apply (.setBuffer "ab") rfl)).take
  have hserved : Served echo overtaken [⟨1, "a", .buffer⟩, ⟨2, "ab", .buffer⟩] :=
    (hboth.answer ⟨2, "ab", .buffer⟩ (by decide)).answer ⟨1, "a", .buffer⟩ (by decide)
  rcases hserved.suggestion with ⟨-, hbuffer, -⟩
  obtain ⟨henter, hpick⟩ := hbuffer rfl
  refine ⟨hserved, rfl, ?_, ?_⟩
  · rcases hpick "ab" with hfail | ⟨c, hc, -, hpicked, hinserts⟩
    · have hpicked : (overtaken.pick "ab").1 = true := by decide
      rw [hfail] at hpicked
      cases hpicked
    · cases List.mem_singleton.mp hc
      exact ⟨hpicked, hinserts.tokens⟩
  · rcases henter with hsame | ⟨v, hnumber, -⟩ | ⟨c, hc, hinserts⟩
    · have hone : (overtaken.press .enter).tokens.length = 1 := by decide +kernel
      rw [hsame] at hone
      cases hone
    · have hword : Numeral.typed? overtaken.buffer = none := by decide +kernel
      rw [hword] at hnumber
      cases hnumber
    · cases List.mem_singleton.mp hc
      exact hinserts.tokens

end FormulaBar.Editor
