import FormulaBar.Worker

/-!
# The line of a worker

The requests that a worker has not dropped, from the one whose answer is received next to the one
that was submitted last, stand in a line: those that are answered, the one that is worked on, those
that wait.

1. **Line** of a worker, over a source that always has an answer.
2. **Steps**: the worker may drop requests from the line, but never the last one.
-/

namespace FormulaBar

open Lookup (Request Response)

/-! ## Line -/

/-- The source that has the candidates `f query` for every query. -/
def Source.pure (f : String → List Candidate) : Source := fun query => some (f query)

/-- The request that was answered. -/
def Lookup.Response.request (r : Response) : Request :=
  { seq := r.seq, query := r.query, target := r.target }

/-- The request that is worked on. -/
def Stage.requests : Stage → List Request
  | .idle => []
  | .choosing r => [r]
  | .running r => [r]
  | .ended => []

namespace Worker

variable {f : String → List Candidate} {w w' : Worker} {r : Request}

/-- The requests that are to be answered, oldest first. -/
def line (w : Worker) : List Request :=
  w.responses.map Response.request ++ (w.stage.requests ++ w.queue)

/-- Whether a request is still under way: it waits, is worked on, or its answer is unread. -/
def Outstanding (f : String → List Candidate) (w : Worker) (r : Request) : Prop :=
  r ∈ w.queue ∨ r ∈ w.stage.requests ∨ r.run f ∈ w.responses

/-- What holds of a worker over a source that always has an answer. -/
structure Alive (f : String → List Candidate) (w : Worker) : Prop where
  stage : w.stage ≠ .ended
  answers : ∀ answer ∈ w.responses, answer = answer.request.run f

theorem Alive.new (f : String → List Candidate) : ({} : Worker).Alive f where
  stage := nofun
  answers := nofun

/-- The requests in line are those under way. -/
theorem Alive.mem_line (h : w.Alive f) : r ∈ w.line ↔ w.Outstanding f r := by
  have hanswer : r ∈ w.responses.map Response.request ↔ r.run f ∈ w.responses := by
    constructor
    · intro hr
      rcases List.mem_map.mp hr with ⟨answer, hmem, rfl⟩
      rwa [← h.answers answer hmem]
    · exact fun hr => List.mem_map.mpr ⟨_, hr, rfl⟩
  rw [line, List.mem_append, List.mem_append, hanswer, Outstanding]
  constructor
  · rintro (hr | hr | hr)
    · exact .inr (.inr hr)
    · exact .inr (.inl hr)
    · exact .inl hr
  · rintro (hr | hr | hr)
    · exact .inr (.inr hr)
    · exact .inr (.inl hr)
    · exact .inl hr

/-- No request is under way when nothing is left anywhere. -/
theorem Alive.line_eq_nil (h : w.Alive f) :
    w.line = [] ↔ w.queue = [] ∧ w.stage = .idle ∧ w.responses = [] := by
  rw [line, List.append_eq_nil_iff, List.append_eq_nil_iff, List.map_eq_nil_iff]
  constructor
  · rintro ⟨hresponses, hstage, hqueue⟩
    refine ⟨hqueue, ?_, hresponses⟩
    cases hs : w.stage with
    | idle => rfl
    | ended => exact absurd hs h.stage
    | choosing r | running r => rw [hs] at hstage; cases hstage
  · rintro ⟨hqueue, hstage, hresponses⟩
    exact ⟨hresponses, by rw [hstage]; rfl, hqueue⟩

/-! ## Steps -/

/-- A worker goes on to work, and answers with what the source has. -/
theorem Alive.step (h : w.Alive f) (hstep : w.step? (.pure f) = some w') : w'.Alive f := by
  unfold step? at hstep
  split at hstep
  · cases hstep
  · cases hstep
    exact ⟨nofun, h.answers⟩
  · cases hstep
    exact ⟨nofun, h.answers⟩
  · cases hstep
    exact ⟨nofun, h.answers⟩
  · cases hstep
    refine ⟨nofun, ?_⟩
    intro answer hanswer
    rcases List.mem_append.mp hanswer with hold | hnew
    · exact h.answers answer hold
    · rw [List.mem_singleton.mp hnew]
      rfl
  · cases hstep

/-- A step drops requests from the line, if any, and leaves the last one in place. -/
theorem step_line (hstep : w.step? (.pure f) = some w') :
    w'.line.Sublist w.line ∧ w'.line.getLast? = w.line.getLast? := by
  unfold step? at hstep
  split at hstep
  · cases hstep
  · next r rest hstage hqueue =>
    -- the oldest request is taken up
    cases hstep
    have hsame : w.line = w.responses.map Response.request ++ ([r] ++ rest) := by
      rw [line, hstage, hqueue]
      rfl
    rw [hsame]
    exact ⟨.refl _, rfl⟩
  · next skipped r rest hstage hqueue =>
    -- the request that was chosen gives way to a newer one
    cases hstep
    have hline : w.line = w.responses.map Response.request ++ skipped :: r :: rest := by
      rw [line, hstage, hqueue]
      rfl
    rw [hline]
    refine ⟨(List.sublist_cons_self skipped (r :: rest)).append_left _, ?_⟩
    simp [line, Stage.requests, List.getLast?_append]
  · next r hstage hqueue =>
    -- no newer request waits
    cases hstep
    have hsame : w.line = w.responses.map Response.request ++ ([r] ++ []) := by
      rw [line, hstage, hqueue]
      rfl
    rw [hsame, line, hqueue]
    exact ⟨.refl _, rfl⟩
  · next _ r hstage =>
    -- the answer joins those that are unread, in front of what waits
    cases hstep
    have hsame : w.line = w.responses.map Response.request ++ ([r] ++ w.queue) := by
      rw [line, hstage]
      rfl
    have hmoved : ({ w with
        stage := .idle
        responses := w.responses ++ [r.respond (f r.query)] } : Worker).line = w.line := by
      rw [hsame, line, List.map_append, List.append_assoc]
      rfl
    rw [hmoved]
    exact ⟨.refl _, rfl⟩
  · cases hstep

/-- What every step keeps holds when the worker has come to rest. -/
theorem settle_induction {source : Source} {P : Worker → Prop}
    (hstep : ∀ w w', P w → w.step? source = some w' → P w') {w : Worker} (h : P w) :
    P (w.settle source) := by
  fun_induction settle source w with
  | case1 w w' hw ih => exact ih (hstep w w' h hw)
  | case2 w hw => exact h

end Worker

end FormulaBar
