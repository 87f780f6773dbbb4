import FormulaBar.Editor.Operation
import FormulaBar.Worker

/-!
# Editor sessions

A session is an editor with a worker behind it. Every lookup that the editor asks for is handed on
at once, and answers are given to the editor in the order in which they come in. Late answers are
refused by the editor itself.

1. **State**: which lookup is waited for.
2. **Input**: operations, each followed by handing on the lookup that it asked for.
3. **Answers**: one, all that have come in, or those up to the one that is waited for.
-/

namespace FormulaBar

open Lookup (Response)

/-! ## State -/

/-- An editor, a worker, and the number of the newest lookup that was handed on and is not answered
yet. -/
structure Session where
  editor : Editor
  worker : Worker := {}
  inFlight : Option Nat := none
deriving Repr, DecidableEq

namespace Session

/-! ## Input -/

/-- Hands the waiting lookup of the editor on to the worker. -/
def forward (s : Session) : Session :=
  match s.editor.takeRequest with
  | (none, editor) => { s with editor }
  | (some r, editor) =>
    match s.worker.submit r with
    | (true, worker) => { editor, worker, inFlight := some r.seq }
    | (false, worker) => { s with editor, worker }

/-- Carries out an operation of the editor. -/
def apply (s : Session) (op : Editor.Operation) : Editor.Reply × Session :=
  ((s.editor.apply op).1, { s with editor := (s.editor.apply op).2 }.forward)

/-! ## Answers -/

/-- Gives an answer to the editor, and says whether the editor accepted it. With the answer to the
newest lookup, or to a later one, the waiting ends. -/
def accept (s : Session) (r : Response) : Bool × Session :=
  let answered := s.inFlight.any fun waiting => decide (waiting ≤ r.seq)
  ((s.editor.receive r).1,
    { s with
      editor := (s.editor.receive r).2
      inFlight := if answered then none else s.inFlight })

/-- Takes the answer `r` out of those that have come in, so that `rest` are left, and gives it to
the editor. -/
def take (s : Session) (r : Response) (rest : List Response) : Bool × Session :=
  { s with worker := { s.worker with responses := rest } }.accept r

/-- Takes the oldest answer that has come in, if there is one. -/
def takeOne (s : Session) : Bool × Session :=
  match s.worker.responses with
  | [] => (false, s)
  | r :: rest => s.take r rest

/-- Takes the given answers, which are those that have come in, and counts those that the editor
accepts. -/
def takeEach : List Response → Session → Nat × Session
  | [], s => (0, s)
  | r :: rest, s =>
    let (accepted, s) := s.take r rest
    let (count, s) := takeEach rest s
    (count + accepted.toNat, s)

/-- Takes every answer that has come in, and counts those that the editor accepts. -/
def takeAll (s : Session) : Nat × Session := takeEach s.worker.responses s

/-- Takes the given answers, which are those that have come in, up to the one to the lookup `target`
or a later one, and says whether the editor accepted that one. -/
def takeUntil (target : Nat) : List Response → Session → Bool × Session
  | [], s => (false, s)
  | r :: rest, s =>
    let (accepted, s) := s.take r rest
    if target ≤ r.seq then (accepted, s) else takeUntil target rest s

/-- Lets the worker come to rest. -/
def settle (source : Source) (s : Session) : Session :=
  { s with worker := s.worker.settle source }

/-- Waits for the answer to the newest lookup, and says whether the editor accepted it. -/
def wait (source : Source) (s : Session) : Bool × Session :=
  match s.inFlight with
  | none => (false, s)
  | some target => takeUntil target (s.settle source).worker.responses (s.settle source)

end Session

end FormulaBar
