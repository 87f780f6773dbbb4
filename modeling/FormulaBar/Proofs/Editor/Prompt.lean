import FormulaBar.Proofs.Editor.Consistency

/-!
# The prompt of an editor

Text is typed into the buffer or into the edit box, and looked up. What becomes of the texts, the
lookups and the candidates does not depend on the token stream: it is a small machine of its own,
the prompt, which every operation of the editor drives by at most one step.

1. **State** of the prompt, and what an editor's operations are made of.
2. **Steps**: the inversion of every operation but the two that exchange lookups for answers.
3. **Coherence**: the buffer and the edit box are not searched for at the same time, and a lookup
   that waits or candidates that are held belong to the text of the one that is.
-/

namespace FormulaBar

open Lookup (Request Response Target)

/-! ## State -/

/-- What an editor holds for the text that is being typed. -/
structure Prompt where
  buffer : String
  active : Bool
  candidates : List Candidate
  seq : Nat
  pending : Option Request
  edit : Option EditBox
  autocomplete : Bool

namespace Prompt

variable {p p' : Prompt}

/-- Asks for a lookup. -/
def ask (p : Prompt) (target : Target) (query : String) : Prompt :=
  { p with
    seq := p.seq + 1
    candidates := []
    pending := some { seq := p.seq + 1, query, target } }

/-- Stops offering candidates for the buffer. -/
def dismiss (p : Prompt) : Prompt :=
  { p with
    active := false
    candidates := if p.edit.isNone then [] else p.candidates
    pending := p.pending.filter fun r => r.target.isEdit }

/-- Closes the edit box. -/
def closeEdit (p : Prompt) : Prompt :=
  match p.edit with
  | none => p
  | some _ =>
    { p with
      edit := none
      candidates := []
      pending := p.pending.filter fun r => !r.target.isEdit }

/-- Opens the edit box with a text, which is looked up or not. -/
def openBox (p : Prompt) (box : EditBox) (asks : Bool) : Prompt :=
  let p := { p with edit := some box }
  if asks then p.ask (.edit box.id) box.text else { p with candidates := [], pending := none }

theorem closeEdit_of_none (h : p.edit = none) : p.closeEdit = p := by
  unfold closeEdit
  rw [h]

theorem closeEdit_of_some {box : EditBox} (h : p.edit = some box) :
    p.closeEdit =
      { p with
        edit := none
        candidates := []
        pending := p.pending.filter fun r => !r.target.isEdit } := by
  unfold closeEdit
  rw [h]

/-- Dismissing twice is dismissing once. -/
theorem dismiss_dismiss (text : String) :
    { { p with buffer := text }.dismiss with buffer := text }.dismiss =
      { p with buffer := text }.dismiss := by
  unfold dismiss
  cases p.edit <;> simp [Option.filter_filter]

/-! ## Steps -/

/-- What an operation may do to the prompt. -/
inductive Step (p : Prompt) : Prompt → Prop where
  | keep : Step p p
  /-- The buffer gets a text that is not looked up. -/
  | dismiss (text : String) : Step p { p with buffer := text }.dismiss
  /-- The buffer gets a text that is looked up. The edit box is closed. -/
  | search (text : String) (hon : p.autocomplete = true) (htext : text ≠ "")
      (hglyph : Operator.ofText? text = none) :
      Step p ({ p with buffer := text, active := true, edit := none }.ask .buffer text)
  | close : Step p p.closeEdit
  /-- The edit box is opened, on another token if it was open before. -/
  | openEdit (box : EditBox) (asks : Bool) (hasks : asks = true → p.autocomplete = true) :
      Step p ({ p with active := false }.openBox box asks)
  /-- The edit box gets a text. -/
  | typeEdit (box : EditBox) (text : String) (asks : Bool) (hopen : p.edit = some box)
      (hasks : asks = true → p.autocomplete = true) :
      Step p (p.openBox { box with text } asks)
  | switchOn : Step p { p with autocomplete := true }
  | switchOff : Step p { p with autocomplete := false }.dismiss
  /-- All is emptied, but the lookups go on being counted. -/
  | reset :
      Step p
        { p with buffer := "", active := false, candidates := [], pending := none, edit := none }

/-- No step takes a number back. -/
theorem Step.seq_le (h : Step p p') : p.seq ≤ p'.seq := by
  cases h with
  | keep | dismiss | switchOn | switchOff | reset => exact Nat.le_refl _
  | search => exact Nat.le_succ _
  | close =>
      unfold closeEdit
      split <;> exact Nat.le_refl _
  | openEdit box asks | typeEdit box text asks =>
      cases asks with
      | true => exact Nat.le_succ _
      | false => exact Nat.le_refl _

/-! ## Coherence -/

/-- What holds of the prompt between operations, when `offers query` holds of the candidates that
may be offered for a query. -/
structure Coherent (offers : String → List Candidate → Prop) (p : Prompt) : Prop where
  /-- While the buffer is searched for, it holds a name, and no edit box is open. -/
  active : p.active = true →
    p.autocomplete = true ∧ p.buffer ≠ "" ∧ Operator.ofText? p.buffer = none ∧ p.edit = none
  /-- Candidates are on offer for the text of an input that is searched for. -/
  candidates : p.candidates = [] ∨ (p.active = true ∧ offers p.buffer p.candidates) ∨
    ∃ box, p.edit = some box ∧ offers box.text p.candidates
  /-- A lookup that waits is the latest one, for the text of an input that is searched for. -/
  pending : ∀ r, p.pending = some r → r.seq = p.seq ∧
    ((r.target = .buffer ∧ p.active = true ∧ r.query = p.buffer) ∨
      ∃ box, p.edit = some box ∧ r.target = .edit box.id ∧ r.query = box.text)

namespace Coherent

variable {offers : String → List Candidate → Prop}

/-- While an edit box is open, the buffer is not searched for. -/
theorem not_active (h : p.Coherent offers) {box : EditBox} (hopen : p.edit = some box) :
    p.active = false := by
  cases hactive : p.active with
  | false => rfl
  | true =>
      have hclosed : p.edit = none := (h.active hactive).2.2.2
      rw [hopen] at hclosed
      cases hclosed

/-- A prompt that holds neither candidates nor a lookup, and does not search the buffer. -/
theorem of_empty (hactive : p.active = false) (hcandidates : p.candidates = [])
    (hpending : p.pending = none) : p.Coherent offers where
  active := by intro h; rw [hactive] at h; cases h
  candidates := .inl hcandidates
  pending := by intro r h; rw [hpending] at h; cases h

/-- Dismissing what is on offer for the buffer leaves it free to be changed or switched off. -/
theorem dismiss (h : p.Coherent offers) (text : String) (autocomplete : Bool) :
    { p with buffer := text, autocomplete }.dismiss.Coherent offers where
  active := by intro hactive; cases hactive
  candidates := by
    cases hedit : p.edit with
    | none => exact .inl rfl
    | some box =>
        -- while the edit box is open, candidates are on offer for its text alone
        rcases h.candidates with hnil | ⟨hactive, -⟩ | ⟨box', hopen, hoffers⟩
        · exact .inl hnil
        · rw [h.not_active hedit] at hactive
          cases hactive
        · exact .inr (.inr ⟨box', hedit.symm.trans hopen, hoffers⟩)
  pending := by
    intro r hr
    rcases Option.filter_eq_some_iff.mp hr with ⟨hpending, htarget⟩
    -- a lookup for the buffer is dropped, one for the edit box goes on waiting
    rcases h.pending r hpending with ⟨hseq, ⟨hbuffer, -⟩ | hedit⟩
    · rw [hbuffer] at htarget
      cases htarget
    · exact ⟨hseq, .inr hedit⟩

theorem closeEdit (h : p.Coherent offers) : p.closeEdit.Coherent offers := by
  cases hedit : p.edit with
  | none => rwa [closeEdit_of_none hedit]
  | some box =>
      rw [closeEdit_of_some hedit]
      have hactive := h.not_active hedit
      -- a lookup that waits is one for the edit box, and is dropped with it
      refine of_empty hactive rfl ?_
      rw [Option.filter_eq_none_iff]
      intro r hr
      rcases h.pending r hr with ⟨-, ⟨-, hsearched, -⟩ | ⟨_, -, htarget, -⟩⟩
      · rw [hactive] at hsearched
        cases hsearched
      · simp [htarget, Target.isEdit]

/-- The edit box may be opened when the buffer is not searched for. -/
theorem openBox (hactive : p.active = false) (box : EditBox) (asks : Bool) :
    (p.openBox box asks).Coherent offers := by
  cases asks with
  | false => exact of_empty hactive rfl rfl
  | true =>
      constructor
      · intro hstill
        rw [show p.active = true from hstill] at hactive
        cases hactive
      · exact .inl rfl
      · intro r hr
        cases hr
        exact ⟨rfl, .inr ⟨box, rfl, rfl, rfl⟩⟩

/-- Every step keeps the prompt coherent. -/
theorem step (h : p.Coherent offers) (hstep : Step p p') : p'.Coherent offers := by
  cases hstep with
  | keep => exact h
  | dismiss text => exact h.dismiss text p.autocomplete
  | search text hon htext hglyph =>
      refine ⟨fun _ => ⟨hon, htext, hglyph, rfl⟩, .inl rfl, ?_⟩
      intro r hr
      cases hr
      exact ⟨rfl, .inl ⟨rfl, rfl, rfl⟩⟩
  | close => exact h.closeEdit
  | openEdit box asks => exact openBox rfl box asks
  | typeEdit box text asks hopen => exact openBox (h.not_active hopen) _ asks
  | switchOn => exact ⟨fun hactive => ⟨rfl, (h.active hactive).2⟩, h.candidates, h.pending⟩
  | switchOff => exact h.dismiss p.buffer false
  | reset => exact of_empty rfl rfl rfl

/-- The lookup that waits may be taken. -/
theorem take (h : p.Coherent offers) : { p with pending := none }.Coherent offers :=
  ⟨h.active, h.candidates, by intro r hr; cases hr⟩

/-- Candidates may be taken over that are on offer for the text of an input that is searched
for. -/
theorem accept (h : p.Coherent offers) {candidates : List Candidate}
    (hoffers : (p.active = true ∧ offers p.buffer candidates) ∨
      ∃ box, p.edit = some box ∧ offers box.text candidates) :
    { p with candidates }.Coherent offers :=
  ⟨h.active, .inr hoffers, h.pending⟩

end Coherent

end Prompt

/-! ## Simulation -/

namespace Editor

/-- The prompt of an editor. -/
def prompt (e : Editor) : Prompt where
  buffer := e.buffer
  active := e.active
  candidates := e.candidates
  seq := e.seq
  pending := e.pending
  edit := e.edit
  autocomplete := e.options.autocomplete

variable {e : Editor}

theorem prompt_closeEdit (e : Editor) : e.closeEdit.prompt = e.prompt.closeEdit := by
  cases hedit : e.edit with
  | none =>
      have hclosed : e.prompt.edit = none := hedit
      rw [Prompt.closeEdit_of_none hclosed, closeEdit, hedit]
  | some box =>
      have hopen : e.prompt.edit = some box := hedit
      rw [Prompt.closeEdit_of_some hopen, closeEdit, hedit]
      rfl

/-- An insertion empties the buffer. -/
theorem prompt_insert (e : Editor) (index : Nat) (t : Token) :
    (e.insert index t).prompt = { e.prompt with buffer := "" }.dismiss := by
  by_cases hmem : t.id ∈ e.ids
  · rw [insert_of_mem hmem]
    rfl
  · rw [insert_of_not_mem hmem]
    rfl

theorem prompt_insertNew (e : Editor) (index : Nat) (content : Content) :
    (e.insertNew index content).prompt = { e.prompt with buffer := "" }.dismiss :=
  prompt_insert e.mint.2 index _

/-- A replacement does not touch the prompt. -/
theorem prompt_replace (e : Editor) (id : TokenId) (content : Content) :
    (e.replace id content).2.prompt = e.prompt := by
  unfold replace
  split <;> rfl

theorem prompt_replaceNew (e : Editor) (id : TokenId) (content : Content) :
    (e.replaceNew id content).2.prompt = e.prompt :=
  prompt_replace e.mint.2 id content

/-- A token is taken out, and the edit box is closed if it is open on that token. -/
theorem removeIndex_step (e : Editor) (index : Nat) :
    e.prompt.Step (e.removeIndex index).prompt := by
  unfold removeIndex
  dsimp only
  split
  · rw [prompt_closeEdit]
    exact .close
  · exact .keep

/-- A text in the buffer is looked up or dismissed. -/
theorem searchBuffer_step (e : Editor) (text : String) :
    e.prompt.Step { e with buffer := text }.searchBuffer.prompt := by
  unfold searchBuffer
  split
  · next hsearch =>
    simp only [Bool.and_eq_true, Bool.not_eq_true', Option.isNone_iff_eq_none] at hsearch
    rcases hsearch with ⟨⟨hon, htext⟩, hglyph⟩
    have hprompt : ({ ({ e with buffer := text } : Editor).closeEdit with active := true }.ask
        .buffer text).prompt =
        { e.prompt with buffer := text, active := true, edit := none }.ask .buffer text := by
      unfold closeEdit prompt ask Prompt.ask
      dsimp only
      cases e.edit <;> rfl
    rw [hprompt]
    exact .search text hon (by rintro rfl; cases htext) hglyph
  · exact .dismiss text

theorem backspace_step (e : Editor) : e.prompt.Step e.backspace.prompt := by
  unfold backspace
  split
  · exact searchBuffer_step e _
  · split
    · exact .keep
    · exact removeIndex_step e _

theorem insertNew_step (e : Editor) (index : Nat) (content : Content) :
    e.prompt.Step (e.insertNew index content).prompt := by
  rw [prompt_insertNew]
  exact .dismiss ""

/-- The buffer is empty after the operator, with or without a number before it. -/
theorem commitOperator_step (e : Editor) (op : Operator) :
    e.prompt.Step (e.commitOperator op).prompt := by
  unfold commitOperator commitNumber?
  cases Numeral.typed? e.buffer with
  | none => exact insertNew_step e _ _
  | some v =>
      dsimp only [Option.map_some, Option.getD_some]
      rw [prompt_insertNew, prompt_insertNew, Prompt.dismiss_dismiss]
      exact .dismiss ""

theorem commit_step (e : Editor) : e.prompt.Step e.commit.prompt := by
  unfold commit commitNumber?
  split
  · exact .keep
  · cases Numeral.typed? e.buffer with
    | some v => exact insertNew_step e _ _
    | none =>
        dsimp only [Option.map_none]
        split
        · split
          · exact insertNew_step e _ _
          · exact .keep
        · exact .keep

theorem pick_step (e : Editor) (id : String) : e.prompt.Step (e.pick id).2.prompt := by
  unfold pick
  split
  · exact .keep
  · exact insertNew_step e _ _

theorem press_step (e : Editor) (k : Key) : e.prompt.Step (e.press k).prompt := by
  unfold press
  split
  · exact backspace_step e
  · split
    · exact commitOperator_step e _
    · split
      · exact .keep
      · exact searchBuffer_step e _
  · exact commit_step e
  · exact .keep
  · exact .keep
  · exact .dismiss e.buffer

theorem remove_step (e : Editor) (id : TokenId) : e.prompt.Step (e.remove id).2.prompt := by
  unfold remove
  split
  · exact .keep
  · exact removeIndex_step e _

theorem delete_step (e : Editor) (id : TokenId) : e.prompt.Step (e.delete id).2.prompt := by
  unfold delete
  split
  · exact .keep
  · exact removeIndex_step e _

/-- The text of the edit box is looked up when autocomplete is on. -/
theorem prompt_searchEdit {box : EditBox} (hopen : e.edit = some box) :
    ∃ asks, (asks = true → e.options.autocomplete = true) ∧
      e.searchEdit.prompt = e.prompt.openBox box asks := by
  unfold searchEdit
  rw [hopen]
  dsimp only
  split
  · next hsearch =>
    simp only [Bool.and_eq_true] at hsearch
    refine ⟨true, fun _ => hsearch.1.1, ?_⟩
    simp only [prompt, ask, Prompt.openBox, Prompt.ask, hopen, if_true]
  · refine ⟨false, nofun, ?_⟩
    simp only [prompt, Prompt.openBox, hopen, Bool.false_eq_true, if_false]

@[simp] theorem closeEdit_options (e : Editor) : e.closeEdit.options = e.options := by
  unfold closeEdit
  split <;> rfl

/-- Nothing is left of what was on offer when the edit box is opened. -/
theorem openBox_closed (e : Editor) (box : EditBox) (asks : Bool) :
    ({ e.dismiss.closeEdit with edit := some box } : Editor).prompt.openBox box asks =
      { e.prompt with active := false }.openBox box asks := by
  unfold closeEdit dismiss prompt Prompt.openBox Prompt.ask
  dsimp only
  cases e.edit <;> cases asks <;> rfl

theorem openEdit_step (e : Editor) (id : TokenId) : e.prompt.Step (e.openEdit id).2.prompt := by
  unfold openEdit
  split
  · exact .keep
  · next t ht =>
    obtain ⟨asks, hasks, hprompt⟩ :=
      prompt_searchEdit (e := { e.dismiss.closeEdit with edit := some ⟨id, t.content.displayName⟩ })
        rfl
    rw [hprompt, openBox_closed]
    refine .openEdit _ asks ?_
    rwa [closeEdit_options] at hasks

theorem typeEdit_step (e : Editor) (text : String) : e.prompt.Step (e.typeEdit text).prompt := by
  unfold typeEdit
  split
  · exact .keep
  · next box hopen =>
    obtain ⟨asks, hasks, hprompt⟩ :=
      prompt_searchEdit (e := { e with edit := some { box with text } }) rfl
    rw [hprompt]
    exact .typeEdit box text asks hopen hasks

theorem commitEdit_step (e : Editor) : e.prompt.Step (Editor.commitEdit e).2.prompt := by
  have hclose : e.prompt.Step e.closeEdit.prompt := by
    rw [prompt_closeEdit]
    exact .close
  unfold Editor.commitEdit
  split
  · exact .keep
  · dsimp only
    split
    · exact hclose
    · split
      · rwa [prompt_replace]
      · exact hclose
    · split
      · rwa [prompt_replaceNew]
      · exact hclose
    · split
      · rwa [prompt_replaceNew]
      · exact hclose

theorem pickEdit_step (e : Editor) (id : String) : e.prompt.Step (e.pickEdit id).2.prompt := by
  have hclose : e.prompt.Step e.closeEdit.prompt := by
    rw [prompt_closeEdit]
    exact .close
  unfold pickEdit
  split
  · exact .keep
  · split
    · exact .keep
    · dsimp only
      split
      · rwa [prompt_replace]
      · exact hclose

theorem setOptions_step (e : Editor) (options : EditorOptions) :
    e.prompt.Step (Editor.setOptions e options).prompt := by
  rcases options with ⟨autocomplete⟩
  cases autocomplete with
  | true => exact .switchOn
  | false => exact .switchOff

theorem react_step (e : Editor) (ev : InputEvent) : e.prompt.Step (e.react ev).prompt := by
  cases ev with
  | key k => exact press_step e k
  | click index => exact .keep
  | pick id =>
      unfold react
      dsimp only
      split
      · exact pickEdit_step e id
      · exact pick_step e id

end Editor

/-- Whether an operation takes a lookup or brings an answer. -/
def Editor.Operation.isExchange : Editor.Operation → Bool
  | .takeRequest => true
  | .receive _ => true
  | _ => false

namespace Editor

/-- Every operation drives the prompt by one step, unless it takes a lookup or brings an answer. -/
theorem apply_step (e : Editor) {op : Operation} (hop : op.isExchange = false) :
    e.prompt.Step (e.apply op).2.prompt := by
  cases op with
  | takeRequest | receive => cases hop
  | press k => exact press_step e k
  | react ev => exact react_step e ev
  | setBuffer text => exact searchBuffer_step e text
  | insertNew index content => exact insertNew_step e index content
  | insert index t =>
      refine (prompt_insert e index t).symm ▸ ?_
      exact .dismiss ""
  | remove id => exact remove_step e id
  | delete id => exact delete_step e id
  | replace id content => exact (prompt_replaceNew e id content).symm ▸ .keep
  | moveCursor | placeCursor => exact .keep
  | pick candidate => exact pick_step e candidate
  | setOptions options => exact setOptions_step e options
  | openEdit id => exact openEdit_step e id
  | typeEdit text => exact typeEdit_step e text
  | commitEdit => exact commitEdit_step e
  | pickEdit candidate => exact pickEdit_step e candidate
  | closeEdit => exact (prompt_closeEdit e).symm ▸ .close
  | reset => exact .reset

/-- An answer is accepted into a coherent prompt only where it belongs. -/
theorem receive_coherent {e : Editor} {offers : String → List Candidate → Prop}
    (h : e.prompt.Coherent offers) {r : Response} (hoffers : offers r.query r.candidates) :
    (e.receive r).2.prompt.Coherent offers := by
  unfold receive
  split
  · next haccept =>
    show ({ e.prompt with candidates := r.candidates } : Prompt).Coherent offers
    refine h.accept ?_
    have hwants := haccept.2
    unfold wants at hwants
    split at hwants
    · -- the answer is for the buffer
      simp only [Bool.and_eq_true, beq_iff_eq] at hwants
      rcases hwants with ⟨hactive, hquery⟩
      rw [hquery] at hoffers
      exact .inl ⟨hactive, hoffers⟩
    · -- the answer is for the edit box
      simp only [Option.any_eq_true, Bool.and_eq_true, beq_iff_eq] at hwants
      rcases hwants with ⟨box, hopen, -, htext⟩
      rw [← htext] at hoffers
      exact .inr ⟨box, hopen, hoffers⟩
  · exact h

/-- What a host does to an editor, beside taking lookups and bringing answers: any other operation,
replacing a token by a copy for which no id is drawn, and drawing ids for other purposes. -/
inductive HostStep (e : Editor) : Editor → Prop where
  | apply (op : Operation) (hop : op.isExchange = false) : HostStep e (e.apply op).2
  | copy (id : TokenId) (content : Content) : HostStep e (e.replace id content).2
  | draw (supply : IdSupply) : HostStep e { e with supply }

theorem HostStep.prompt {e' : Editor} (h : HostStep e e') : e.prompt.Step e'.prompt := by
  cases h with
  | apply op hop => exact apply_step e hop
  | copy id content => exact (prompt_replace e id content).symm ▸ .keep
  | draw supply => exact .keep

end Editor

end FormulaBar
