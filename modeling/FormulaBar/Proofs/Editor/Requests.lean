import FormulaBar.Proofs.Editor.Prompt
import Mathlib.Logic.Relation

/-!
# Lookups are current, and count upwards

Whatever is done to an editor, and whatever answers come in, the lookup that waits is the latest one
and belongs to the text as it is now. The lookups that are taken from an editor have greater and
greater numbers, also beyond a reset.

1. **Steps** of an editor of any kind, and that all of them keep its prompt coherent.
2. **Numbers** of the lookups that have been taken.
3. **Runs** in which any answer may come in at any time, and the lookups of their states.
-/

namespace FormulaBar

open Lookup (Request Response)

/-! ## Steps -/

namespace Editor

variable {e e' : Editor}

/-- Anything that may happen to an editor. -/
inductive Step (e : Editor) : Editor → Prop where
  | host {e' : Editor} (h : HostStep e e') : Step e e'
  | take : Step e (takeRequest e).2
  | receive (r : Response) : Step e (e.receive r).2

/-- The states that an editor may be in later. -/
abbrev Later : Editor → Editor → Prop := Relation.ReflTransGen Step

/-- The prompt of an editor is coherent, whatever the candidates are. -/
abbrev Orderly (e : Editor) : Prop := e.prompt.Coherent fun _ _ => True

/-- An answer changes the candidates at most. -/
theorem prompt_receive (e : Editor) (r : Response) :
    ∃ candidates, (e.receive r).2.prompt = { e.prompt with candidates } := by
  unfold receive
  split
  · exact ⟨r.candidates, rfl⟩
  · exact ⟨e.candidates, rfl⟩

theorem Step.apply (e : Editor) (op : Operation) : Step e (e.apply op).2 := by
  cases hop : op.isExchange with
  | false => exact .host (.apply op hop)
  | true =>
      cases op with
      | takeRequest => exact .take
      | receive r => exact .receive r
      | _ => cases hop

theorem Step.orderly (h : Step e e') (he : e.Orderly) : e'.Orderly := by
  cases h with
  | host h => exact he.step h.prompt
  | take => exact he.take
  | receive r => exact receive_coherent he trivial

theorem Step.seq_le (h : Step e e') : e.seq ≤ e'.seq := by
  cases h with
  | host h => exact h.prompt.seq_le
  | take => exact Nat.le_refl _
  | receive r =>
      obtain ⟨candidates, hprompt⟩ := prompt_receive e r
      exact Nat.le_of_eq (congrArg Prompt.seq hprompt).symm

theorem Later.seq_le (h : Later e e') : e.seq ≤ e'.seq := by
  induction h with
  | refl => exact Nat.le_refl _
  | tail _ hstep ih => exact Nat.le_trans ih hstep.seq_le

theorem Later.orderly (h : Later e e') (he : e.Orderly) : e'.Orderly := by
  induction h with
  | refl => exact he
  | tail _ hstep ih => exact hstep.orderly ih

end Editor

/-! ## Numbers -/

namespace Prompt

variable {p p' : Prompt} {taken : List Request}

/-- A step asks for nothing, or for one lookup under the next number: for a name in the buffer, or
for the text of the edit box. -/
theorem Step.asks_cases (h : Step p p') :
    (p'.seq = p.seq ∧ ∀ r, p'.pending = some r → p.pending = some r) ∨
    (p'.seq = p.seq + 1 ∧ p'.autocomplete = true ∧
      ∃ r, p'.pending = some r ∧ r.seq = p.seq + 1 ∧
        (p'.edit = none ∧ r.query ≠ "" ∨ ∃ box, p'.edit = some box ∧ r.query = box.text)) := by
  cases h with
  | keep | switchOn => exact .inl ⟨rfl, fun _ hr => hr⟩
  | dismiss | switchOff => exact .inl ⟨rfl, fun _ hr => (Option.filter_eq_some_iff.mp hr).1⟩
  | search text hon htext => exact .inr ⟨rfl, hon, _, rfl, rfl, .inl ⟨rfl, htext⟩⟩
  | close =>
      unfold closeEdit
      split
      · exact .inl ⟨rfl, fun _ hr => hr⟩
      · exact .inl ⟨rfl, fun _ hr => (Option.filter_eq_some_iff.mp hr).1⟩
  | openEdit box asks hasks | typeEdit box text asks _ hasks =>
      cases asks with
      | true => exact .inr ⟨rfl, hasks rfl, _, rfl, rfl, .inr ⟨_, rfl, rfl⟩⟩
      | false => exact .inl ⟨rfl, nofun⟩
  | reset => exact .inl ⟨rfl, nofun⟩

/-- The buffer is searched for after a step only if it was before, or under a new number. -/
theorem Step.active_cases (h : Step p p') (hactive : p'.active = true) :
    p.active = true ∨ p.seq < p'.seq := by
  cases h with
  | keep | switchOn => exact .inl hactive
  | search => exact .inr (Nat.lt_succ_self _)
  | close =>
      unfold closeEdit at hactive
      split at hactive <;> exact .inl hactive
  | typeEdit box text asks => cases asks <;> exact .inl hactive
  | openEdit box asks => cases asks <;> cases hactive
  | dismiss | switchOff | reset => cases hactive

/-- What holds of the numbers when the lookups in `taken` have been taken. -/
structure Numbered (p : Prompt) (taken : List Request) : Prop where
  increasing : taken.Pairwise fun a b => a.seq < b.seq
  counted : ∀ a ∈ taken, a.seq ≤ p.seq
  /-- The lookup that waits is newer than all that have been taken. -/
  waiting : ∀ r, p.pending = some r → ∀ a ∈ taken, a.seq < r.seq

namespace Numbered

theorem step (h : p.Numbered taken) (hstep : Step p p') : p'.Numbered taken := by
  refine ⟨h.increasing, ?_, ?_⟩
  · intro a ha
    exact Nat.le_trans (h.counted a ha) hstep.seq_le
  · intro r hr a ha
    rcases hstep.asks_cases with ⟨-, hwaited⟩ | ⟨-, -, r', hr', hnew, -⟩
    · exact h.waiting r (hwaited r hr) a ha
    · rw [hr', Option.some_inj] at hr
      rw [← hr, hnew]
      exact Nat.lt_succ_of_le (h.counted a ha)

/-- The lookup that waits is taken, if there is one. -/
theorem take (h : p.Numbered taken) {offers : String → List Candidate → Prop}
    (hcoherent : p.Coherent offers) :
    { p with pending := none }.Numbered (taken ++ p.pending.toList) := by
  cases hpending : p.pending with
  | none =>
      rw [Option.toList_none, List.append_nil]
      exact ⟨h.increasing, h.counted, nofun⟩
  | some r =>
      -- the one that waits is the latest, so it goes to the end of the row
      have hseq : r.seq = p.seq := (hcoherent.pending r hpending).1
      rw [Option.toList_some]
      refine ⟨?_, ?_, nofun⟩
      · rw [List.pairwise_append]
        refine ⟨h.increasing, List.pairwise_singleton _ _, ?_⟩
        intro a ha b hb
        rw [List.mem_singleton.mp hb]
        exact h.waiting r hpending a ha
      · intro a ha
        rcases List.mem_append.mp ha with hold | hlast
        · exact h.counted a hold
        · have hsame : a.seq = p.seq := by rw [List.mem_singleton.mp hlast, hseq]
          exact Nat.le_of_eq hsame

end Numbered

end Prompt

/-! ## Runs -/

namespace Editor

variable {e e' : Editor} {taken : List Request}

/-- The states that an editor can get into, with the lookups that have been taken from it, in their
order. Any answer may come in at any time. -/
inductive Asked : Editor → List Request → Prop where
  | new (options : EditorOptions) (supply : IdSupply) :
      Asked { Editor.new options with supply } []
  | host {e e' : Editor} {taken : List Request} (h : Asked e taken) (hstep : HostStep e e') :
      Asked e' taken
  | take {e : Editor} {taken : List Request} (h : Asked e taken) :
      Asked (takeRequest e).2 (taken ++ (takeRequest e).1.toList)
  | receive {e : Editor} {taken : List Request} (h : Asked e taken) (r : Response) :
      Asked (e.receive r).2 taken

theorem Asked.orderly (h : Asked e taken) : e.Orderly := by
  induction h with
  | new options supply => exact .of_empty rfl rfl rfl
  | host _ hstep ih => exact (Step.host hstep).orderly ih
  | take _ ih => exact Step.take.orderly ih
  | receive _ r ih => exact (Step.receive r).orderly ih

theorem Asked.numbered (h : Asked e taken) : e.prompt.Numbered taken := by
  induction h with
  | new options supply => exact ⟨.nil, nofun, nofun⟩
  | host _ hstep ih => exact ih.step hstep.prompt
  | take h ih => exact ih.take h.orderly
  | receive _ r ih =>
      obtain ⟨candidates, hprompt⟩ := prompt_receive _ r
      rw [hprompt]
      exact ⟨ih.increasing, ih.counted, ih.waiting⟩

theorem Asked.step (h : Asked e taken) (hstep : Step e e') : ∃ taken', Asked e' taken' := by
  cases hstep with
  | host hstep => exact ⟨_, h.host hstep⟩
  | take => exact ⟨_, h.take⟩
  | receive r => exact ⟨_, h.receive r⟩

/-- Every reachable state is one of a run. -/
theorem Reachable.asked (h : Reachable e) : ∃ taken, Asked e taken := by
  induction h with
  | new options supply => exact ⟨[], .new options supply⟩
  | apply _ op _ ih =>
      obtain ⟨taken, hasked⟩ := ih
      exact hasked.step (.apply _ op)
  | copy _ id content ih =>
      obtain ⟨taken, hasked⟩ := ih
      exact hasked.step (.host (.copy id content))
  | draw _ supply _ ih =>
      obtain ⟨taken, hasked⟩ := ih
      exact hasked.step (.host (.draw supply))

theorem Reachable.orderly (h : Reachable e) : e.Orderly := by
  obtain ⟨taken, hasked⟩ := h.asked
  exact hasked.orderly

/-- The edit box of a variable is open, and its lookup waits. -/
def editing : Editor :=
  (Editor.new {}).run [.insertNew 0 (.variable "x" "" 1 "1"), .openEdit ⟨1⟩]

theorem reachable_editing : Reachable editing :=
  ((Reachable.new {} .initial).apply (.insertNew 0 (.variable "x" "" 1 "1")) trivial).apply
    (.openEdit ⟨1⟩) trivial

theorem editing_pending : editing.pending = some ⟨1, "x", .edit ⟨1⟩⟩ := by
  decide

/-- The answer to the lookup that waits is accepted if it comes in at once. -/
theorem Orderly.receive_pending (h : e.Orderly) {r : Request} (hr : e.pending = some r)
    (candidates : List Candidate) :
    (takeRequest e).2.receive (r.respond candidates) =
      (true, { (takeRequest e).2 with candidates }) := by
  obtain ⟨hseq, hinput⟩ := h.pending r hr
  have hwants : (takeRequest e).2.wants (r.respond candidates) = true := by
    unfold wants Request.respond
    rcases hinput with ⟨htarget, hactive, hquery⟩ | ⟨box, hopen, htarget, hquery⟩
    · have hactive : e.active = true := hactive
      have hquery : r.query = e.buffer := hquery
      simp [htarget, takeRequest, hactive, hquery]
    · have hopen : e.edit = some box := hopen
      simp [htarget, takeRequest, hopen, hquery]
  unfold receive
  rw [if_pos ⟨hseq, hwants⟩]
  rfl

/-- The lookup that waits has the latest number and is for the text of the input that is searched
for; the answer to it is accepted if it comes in at once. The lookups that are taken have greater and
greater numbers. -/
theorem Asked.lookup_current (h : Asked e taken) :
    (∀ r, e.pending = some r → r.seq = e.seq ∧
      ((r.target = .buffer ∧ e.active = true ∧ r.query = e.buffer) ∨
        ∃ box, e.edit = some box ∧ r.target = .edit box.id ∧ r.query = box.text)) ∧
    (∀ r, (takeRequest e).1 = some r → ∀ candidates,
      (takeRequest e).2.receive (r.respond candidates) =
        (true, { (takeRequest e).2 with candidates })) ∧
    taken.Pairwise fun a b => a.seq < b.seq := by
  have horderly := h.orderly
  refine ⟨?_, ?_, h.numbered.increasing⟩
  · intro r hr
    exact horderly.pending r hr
  · intro r hr candidates
    exact horderly.receive_pending hr candidates

/-- A name is typed and looked up; after a reset the edit box of a variable is opened. -/
def askedAgain : Editor :=
  (Editor.new {}).run
    [.setBuffer "a", .takeRequest, .reset, .insertNew 0 (.variable "x" "" 1 "1"), .openEdit ⟨1⟩]

theorem askedAgain_lookup_current :
    Asked askedAgain [⟨1, "a", .buffer⟩] ∧ askedAgain.pending = some ⟨2, "x", .edit ⟨1⟩⟩ ∧
      (∃ box, askedAgain.edit = some box ∧ box.text = "x") ∧
      (∀ candidates, ((takeRequest askedAgain).2.receive
        ⟨2, "x", .edit ⟨1⟩, candidates⟩).1 = true) ∧
      [(⟨1, "a", .buffer⟩ : Request), ⟨2, "x", .edit ⟨1⟩⟩].Pairwise fun a b => a.seq < b.seq := by
  have hfirst := ((Asked.new {} .initial).host (.apply (.setBuffer "a") rfl)).take
  have hreset := hfirst.host (.apply .reset rfl)
  have hasked : Asked askedAgain [⟨1, "a", .buffer⟩] :=
    (hreset.host (.apply (.insertNew 0 (.variable "x" "" 1 "1")) rfl)).host
      (.apply (.openEdit ⟨1⟩) rfl)
  have hpending : askedAgain.pending = some ⟨2, "x", .edit ⟨1⟩⟩ := by decide
  rcases hasked.lookup_current with ⟨hcurrent, haccepts, -⟩
  refine ⟨hasked, hpending, ?_, ?_, hasked.take.lookup_current.2.2⟩
  · rcases (hcurrent _ hpending).2 with ⟨hbuffer, -⟩ | ⟨box, hopen, -, htext⟩
    · cases hbuffer
    · exact ⟨box, hopen, htext.symm⟩
  · intro candidates
    exact congrArg Prod.fst (haccepts _ hpending candidates)

end Editor

end FormulaBar
