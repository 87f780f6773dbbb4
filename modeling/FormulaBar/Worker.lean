import FormulaBar.Lookup

/-!
# The lookup worker

A worker runs lookups beside the editor. Requests wait in a queue, answers in another one. While the
worker was busy several requests may have queued up; only the newest is run then.

1. **State**: the two queues and what the worker is doing.
2. **Steps** of the worker, each as small as what may happen between two submissions.
3. **Exchange** with the worker: submitting, receiving, and letting it come to rest.
-/

namespace FormulaBar

open Lookup (Request Response)

/-! ## State -/

/-- Where the candidates of a query come from. A source that gives nothing ends its worker. -/
abbrev Source := String → Option (List Candidate)

/-- What a worker is doing. -/
inductive Stage where
  | idle
  /-- Looking for a newer request than this one. -/
  | choosing (request : Request)
  /-- Running this request. -/
  | running (request : Request)
  | ended
deriving Repr, DecidableEq

/-- How much a stage leaves to be done. -/
def Stage.weight : Stage → Nat
  | .idle => 0
  | .choosing _ => 2
  | .running _ => 1
  | .ended => 0

/-- A worker with the requests that wait for it and the answers that wait to be received. -/
structure Worker where
  queue : List Request := []
  stage : Stage := .idle
  responses : List Response := []
deriving Repr, DecidableEq

namespace Worker

/-! ## Steps -/

/-- The next step of a worker, if it has anything to do. -/
def step? (source : Source) (w : Worker) : Option Worker :=
  match w.stage, w.queue with
  | .idle, [] => none
  | .idle, r :: rest => some { w with stage := .choosing r, queue := rest }
  | .choosing _, r :: rest => some { w with stage := .choosing r, queue := rest }
  | .choosing r, [] => some { w with stage := .running r }
  | .running r, _ =>
    match source r.query with
    | some candidates =>
      some { w with stage := .idle, responses := w.responses ++ [r.respond candidates] }
    -- The requests that still wait are lost with the worker.
    | none => some { w with stage := .ended, queue := [] }
  | .ended, _ => none

/-- How many steps a worker can still take, at most. -/
def work (w : Worker) : Nat := 3 * w.queue.length + w.stage.weight

/-- Every step leaves less to be done. -/
theorem work_step {source : Source} {w w' : Worker} (h : w.step? source = some w') :
    w'.work < w.work := by
  unfold step? at h
  split at h
  · cases h
  · next hs hq => cases h; simp only [work, hs, hq, Stage.weight, List.length_cons]; omega
  · next hs hq => cases h; simp only [work, hs, hq, Stage.weight, List.length_cons]; omega
  · next hs hq => cases h; simp only [work, hs, hq, Stage.weight, List.length_nil]; omega
  · next hs =>
    split at h
    · cases h; simp only [work, hs, Stage.weight]; omega
    · cases h; simp only [work, hs, Stage.weight, List.length_nil]; omega
  · cases h

/-! ## Exchange -/

/-- Queues a request, unless the worker has ended. -/
def submit (w : Worker) (r : Request) : Bool × Worker :=
  match w.stage with
  | .ended => (false, w)
  | _ => (true, { w with queue := w.queue ++ [r] })

/-- Receives the oldest answer that waits. -/
def receive (w : Worker) : Option Response × Worker :=
  (w.responses.head?, { w with responses := w.responses.tail })

/-- Lets the worker go on until it runs a request or has nothing to do. -/
def launch (source : Source) (w : Worker) : Worker :=
  match w.stage with
  | .running _ => w
  | _ =>
    match _h : w.step? source with
    | some w' => launch source w'
    | none => w
termination_by w.work
decreasing_by exact work_step _h

/-- Lets the worker go on until it has nothing to do. -/
def settle (source : Source) (w : Worker) : Worker :=
  match _h : w.step? source with
  | some w' => settle source w'
  | none => w
termination_by w.work
decreasing_by exact work_step _h

end Worker

end FormulaBar
