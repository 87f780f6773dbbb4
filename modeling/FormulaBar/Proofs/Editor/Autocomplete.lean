import FormulaBar.Editor.Snapshot
import FormulaBar.Proofs.Editor.Requests

/-!
# Autocomplete

What an editor offers fits what is being typed, whatever is done to it and whatever answers come in.

1. **Offers**: the buffer is searched for only while it holds a name and no edit box is open, and
   all candidates that are held are on screen.
2. **Switching off**: from then on no lookup is asked for. What was asked for or found for an edit
   box before stays until its text is changed or it is closed.
-/

namespace FormulaBar.Editor

open Relation (ReflTransGen)

variable {e e' : Editor}

/-! ## Offers -/

/-- Candidates are held only while an input is open that they may be for. -/
theorem Orderly.open_of_candidates (h : e.Orderly) (hne : e.candidates ≠ []) :
    e.active = true ∨ e.edit.isSome = true := by
  rcases h.candidates with hnil | ⟨hactive, -⟩ | ⟨box, hopen, -⟩
  · exact absurd hnil hne
  · exact .inl hactive
  · have hopen : e.edit = some box := hopen
    rw [hopen]
    exact .inr rfl

/-- Whatever is held is on screen. -/
theorem Orderly.candidatesVisible_iff (h : e.Orderly) :
    e.candidatesVisible = true ↔ e.candidates ≠ [] := by
  constructor
  · intro hvisible hnil
    simp [candidatesVisible, hnil] at hvisible
  · intro hne
    rcases h.open_of_candidates hne with hactive | hopen
    · simp [candidatesVisible, hactive, hne]
    · simp [candidatesVisible, hopen, hne]

theorem Orderly.snapshot_candidates (h : e.Orderly) : e.snapshot.candidates = e.candidates := by
  show (if e.candidatesVisible = true then e.candidates else []) = e.candidates
  split
  · rfl
  · next hhidden =>
    by_contra hne
    exact hhidden (h.candidatesVisible_iff.mpr (Ne.symm hne))

/-- The buffer is searched for only while autocomplete is on, the buffer holds something other than
an operator, and no edit box is open. Candidates are held only while the buffer is searched for or
an edit box is open, and are then all on screen and in the snapshot. -/
theorem Reachable.offers_fit (h : Reachable e) :
    (e.active = true → e.options.autocomplete = true ∧ e.buffer ≠ "" ∧
      (∀ op : Operator, e.buffer ≠ op.text) ∧ e.edit = none) ∧
    (e.candidates ≠ [] → e.active = true ∨ e.edit.isSome = true) ∧
    (e.candidatesVisible = true ↔ e.candidates ≠ []) ∧
    e.snapshot.candidates = e.candidates := by
  have horderly := h.orderly
  refine ⟨?_, horderly.open_of_candidates, horderly.candidatesVisible_iff,
    horderly.snapshot_candidates⟩
  intro hactive
  obtain ⟨hon, hbuffer, hglyph, hclosed⟩ := horderly.active hactive
  refine ⟨hon, hbuffer, ?_, hclosed⟩
  intro op hop
  have hglyph : Operator.ofText? e.buffer = none := hglyph
  rw [hop, Operator.ofText?_text] at hglyph
  cases hglyph

/-- A name is typed behind an operator, and an answer comes in. -/
def suggested : Editor :=
  (Editor.new {}).run
    [.press (.char '('), .press (.char 'x'), .receive ⟨1, "x", .buffer, [⟨"1", "x", "", 0⟩]⟩]

theorem suggested_offers_fit :
    Reachable suggested ∧ suggested.active = true ∧ suggested.buffer ≠ "" ∧ suggested.edit = none ∧
      suggested.candidatesVisible = true ∧ suggested.snapshot.candidates = [⟨"1", "x", "", 0⟩] := by
  have hparen := (Reachable.new {} .initial).apply (.press (.char '(')) trivial
  have htyped := hparen.apply (.press (.char 'x')) trivial
  have hreach : Reachable suggested := htyped.apply (.receive _) trivial
  have hactive : suggested.active = true := by decide
  rcases hreach.offers_fit with ⟨hname, -, hvisible, hsnapshot⟩
  refine ⟨hreach, hactive, (hname hactive).2.1, (hname hactive).2.2.2, ?_, hsnapshot⟩
  exact hvisible.mpr (by decide)

/-! ## Switching off -/

/-- Something happens that leaves autocomplete off. -/
def StaysOff (e e' : Editor) : Prop := Step e e' ∧ e'.options.autocomplete = false

theorem StaysOff.asks_nothing (h : StaysOff e e') :
    e'.seq = e.seq ∧ ∀ r, e'.pending = some r → e.pending = some r := by
  obtain ⟨hstep, hoff⟩ := h
  cases hstep with
  | host h =>
      rcases h.prompt.asks_cases with hnothing | ⟨-, hon, -⟩
      · exact hnothing
      · rw [show e'.prompt.autocomplete = false from hoff] at hon
        cases hon
  | take => exact ⟨rfl, nofun⟩
  | receive r =>
      obtain ⟨candidates, hprompt⟩ := prompt_receive e r
      have hpending : (e.receive r).2.pending = e.pending := congrArg Prompt.pending hprompt
      refine ⟨congrArg Prompt.seq hprompt, ?_⟩
      intro waiting hwaiting
      rwa [hpending] at hwaiting

/-- As long as autocomplete is off, no lookup is asked for. -/
theorem asks_nothing_of_off (h : ReflTransGen StaysOff e e') :
    e'.seq = e.seq ∧ ∀ r, e'.pending = some r → e.pending = some r := by
  induction h with
  | refl => exact ⟨rfl, fun _ hr => hr⟩
  | tail _ hstep ih =>
      obtain ⟨hseq, hpending⟩ := hstep.asks_nothing
      exact ⟨hseq.trans ih.1, fun r hr => ih.2 r (hpending r hr)⟩

/-- While autocomplete is off, the buffer is not searched for. There is nothing to take or to show
unless an edit box is open with a lookup of its own that waits or candidates of its own; no such
lookup has been asked for since autocomplete was switched off. -/
theorem Reachable.switched_off (h : Reachable e) (hoff : e.options.autocomplete = false) :
    e.active = false ∧
    ((takeRequest e).1 = none ∧ e.candidatesVisible = false ↔
      e.edit = none ∨ e.pending = none ∧ e.candidates = []) ∧
    (∀ r, (takeRequest e).1 = some r →
      ∃ box, e.edit = some box ∧ r.target = .edit box.id ∧ r.query = box.text) ∧
    ∀ e', ReflTransGen StaysOff e e' →
      e'.seq = e.seq ∧ ∀ r, (takeRequest e').1 = some r → (takeRequest e).1 = some r := by
  have horderly := h.orderly
  have hidle : e.active = false := by
    by_contra hactive
    rw [Bool.not_eq_false] at hactive
    have hon : e.options.autocomplete = true := (horderly.active hactive).1
    rw [hoff] at hon
    cases hon
  -- what waits is for the edit box, since the buffer is not searched for
  have hwaits : ∀ r, e.pending = some r →
      ∃ box, e.edit = some box ∧ r.target = .edit box.id ∧ r.query = box.text := by
    intro r hr
    rcases (horderly.pending r hr).2 with ⟨-, hactive, -⟩ | hedit
    · rw [show e.active = true from hactive] at hidle
      cases hidle
    · exact hedit
  refine ⟨hidle, ⟨?_, ?_⟩, hwaits, fun e' hrun => asks_nothing_of_off hrun⟩
  · rintro ⟨hnone, hhidden⟩
    refine .inr ⟨hnone, ?_⟩
    by_contra hne
    rw [horderly.candidatesVisible_iff.mpr hne] at hhidden
    cases hhidden
  · rintro (hclosed | ⟨hnone, hnil⟩)
    · refine ⟨?_, by simp [candidatesVisible, hidle, hclosed]⟩
      rw [Option.eq_none_iff_forall_ne_some]
      intro r hr
      obtain ⟨box, hopen, -⟩ := hwaits r hr
      rw [hclosed] at hopen
      cases hopen
    · exact ⟨hnone, by simp [candidatesVisible, hnil]⟩

/-- Autocomplete is switched off while a variable is edited, and the edit box is closed after. -/
def editedOff : Editor := editing.run [.setOptions ⟨false⟩, .closeEdit]

theorem editedOff_switched_off :
    Reachable editedOff ∧ editedOff.options.autocomplete = false ∧ editedOff.seq = 1 ∧
      (takeRequest editedOff).1 = none ∧ editedOff.active = false ∧
      editedOff.candidatesVisible = false := by
  have hreach : Reachable editedOff :=
    (reachable_editing.apply (.setOptions ⟨false⟩) trivial).apply .closeEdit trivial
  obtain ⟨hidle, hquiet, -, -⟩ := hreach.switched_off rfl
  obtain ⟨hnone, hhidden⟩ := hquiet.mpr (.inl (by decide))
  exact ⟨hreach, rfl, by decide, hnone, hidle, hhidden⟩

/-- Switching autocomplete off leaves the edit box its lookup, and its candidates. -/
theorem switched_off_while_editing :
    let waiting := editing.run [.setOptions ⟨false⟩]
    let shown := editing.run [.receive ⟨1, "x", .edit ⟨1⟩, [⟨"1", "x", "", 0⟩]⟩, .setOptions ⟨false⟩]
    (Reachable waiting ∧ waiting.options.autocomplete = false ∧
      (takeRequest waiting).1 = some ⟨1, "x", .edit ⟨1⟩⟩) ∧
    Reachable shown ∧ shown.options.autocomplete = false ∧ shown.candidatesVisible = true := by
  have hwaiting := reachable_editing.apply (.setOptions ⟨false⟩) trivial
  refine ⟨⟨hwaiting, rfl, by decide⟩, ?_, rfl, by decide⟩
  exact (reachable_editing.apply (.receive _) trivial).apply (.setOptions ⟨false⟩) trivial

end FormulaBar.Editor
