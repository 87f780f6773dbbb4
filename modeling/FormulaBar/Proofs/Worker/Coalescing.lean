import FormulaBar.Proofs.Worker.Line
import Mathlib.Data.List.Induction

/-!
# What a worker answers

Requests come to a worker at any time, and its answers are received at any time. It answers them in
the order in which they were submitted, each at most once, and passes a request over only for a
later one. The requests are named by their places in the order of submission, since two of them may
be equal.

1. **Exchange**: a worker, what was submitted to it and what was received from it.
2. **Invariant**: which places are answered, in hand, waiting or passed over.
3. **Steps**: one lemma for each kind of action.
4. **Runs**.
-/

namespace FormulaBar.Worker

open Lookup (Request Response)

/-! ## Exchange -/

/-- What can happen around a worker. -/
inductive Action where
  | submit (r : Request)
  /-- The worker takes its next step, if it has one. -/
  | work
  /-- The oldest unread answer is received, if there is one. -/
  | receive

/-- A worker with all that was submitted to it and all that was received from it, oldest first. -/
structure Exchange where
  worker : Worker := {}
  sent : List Request := []
  received : List Response := []

namespace Exchange

/-- Carries out an action. -/
def act (source : Source) (x : Exchange) : Action → Exchange
  | .submit r => { x with worker := (x.worker.submit r).2, sent := x.sent ++ [r] }
  | .work => { x with worker := (x.worker.step? source).getD x.worker }
  | .receive =>
    { x with worker := x.worker.receive.2, received := x.received ++ x.worker.receive.1.toList }

/-- Carries out actions one after the other, beginning with a new worker. -/
def run (source : Source) (acts : List Action) : Exchange := acts.foldl (act source) {}

/-- All answers that the worker has given, received or not. -/
def delivered (x : Exchange) : List Response := x.received ++ x.worker.responses

/-- How many requests the worker has taken from its queue. -/
def taken (x : Exchange) : Nat := x.sent.length - x.worker.queue.length

/-- The request at a place is still to be answered: it waits, or it is in hand. -/
def Due (x : Exchange) (i : Nat) : Prop :=
  i < x.sent.length ∧ x.taken ≤ i + x.worker.stage.requests.length

/-- The request at a place was in hand but not started when the worker took a later one instead. -/
def PassedOver (source : Source) (acts : List Action) (i : Nat) : Prop :=
  ∃ past rest r, acts = past ++ .work :: rest ∧
    (run source past).worker.stage = .choosing r ∧ (run source past).taken = i + 1 ∧
    (run source past).worker.queue ≠ []

theorem run_append (source : Source) (acts : List Action) (a : Action) :
    run source (acts ++ [a]) = (run source acts).act source a := by
  rw [run, List.foldl_append]
  rfl

/-- What was passed over stays passed over. -/
theorem PassedOver.append {source : Source} {acts : List Action} {i : Nat}
    (h : PassedOver source acts i) (a : Action) : PassedOver source (acts ++ [a]) i := by
  obtain ⟨past, rest, r, rfl, hstage, htaken, hqueue⟩ := h
  refine ⟨past, rest ++ [a], r, ?_, hstage, htaken, hqueue⟩
  rw [List.append_assoc]
  rfl

/-! ## Invariant -/

/-- What holds of a worker over a source that always has an answer, when the requests at the given
places have been answered. -/
structure Ordered (f : String → List Candidate) (acts : List Action) (answered : List Nat)
    (x : Exchange) : Prop where
  stage : x.worker.stage ≠ .ended
  /-- What waits is the rest of what was submitted. -/
  queue : x.worker.queue = x.sent.drop x.taken
  /-- What is in hand was taken last. -/
  inHand : ∀ r ∈ x.worker.stage.requests, 0 < x.taken ∧ x.sent[x.taken - 1]? = some r
  sorted : answered.Pairwise (· < ·)
  /-- The requests that are answered were taken before the one in hand. -/
  before : ∀ i ∈ answered, i + x.worker.stage.requests.length < x.taken
  answers : x.delivered.map some = answered.map fun i =>
    x.sent[i]?.map fun r => ⟨r.seq, r.query, r.target, f r.query⟩
  /-- Whatever was taken before the one in hand is answered or passed over. -/
  settled : ∀ i, i + x.worker.stage.requests.length < x.taken →
    i ∈ answered ∨ PassedOver (.pure f) acts i
  /-- When nothing is in hand, the request that was taken last has been answered last. -/
  last : x.worker.stage = .idle → 0 < x.taken → answered.getLast? = some (x.taken - 1)

section Steps

variable {f : String → List Candidate} {acts : List Action} {answered : List Nat} {x : Exchange}

theorem taken_le (x : Exchange) : x.taken ≤ x.sent.length :=
  Nat.sub_le _ _

theorem Ordered.new (f : String → List Candidate) : Ordered f [] [] {} where
  stage := nofun
  queue := rfl
  inHand := nofun
  sorted := .nil
  before := nofun
  answers := rfl
  settled := by
    intro i hi
    exact absurd hi (Nat.not_lt_zero _)
  last := by
    intro _ hpos
    exact absurd hpos (Nat.lt_irrefl _)

/-- What was passed over before an action is so after it. -/
theorem Ordered.stay (h : Ordered f acts answered x) (a : Action) :
    Ordered f (acts ++ [a]) answered x where
  stage := h.stage
  queue := h.queue
  inHand := h.inHand
  sorted := h.sorted
  before := h.before
  answers := h.answers
  settled := by
    intro i hi
    rcases h.settled i hi with hanswered | hpassed
    · exact .inl hanswered
    · exact .inr (hpassed.append a)
  last := h.last

/-! ## Steps -/

/-- A submission goes to the end of what waits. -/
theorem Ordered.submit (h : Ordered f acts answered x) (r : Request) :
    Ordered f (acts ++ [.submit r]) answered (x.act (.pure f) (.submit r)) := by
  have hworker : (x.worker.submit r).2 = { x.worker with queue := x.worker.queue ++ [r] } := by
    unfold Worker.submit
    split
    · next hended => exact absurd hended h.stage
    · rfl
  have hact : x.act (.pure f) (.submit r) =
      { x with
        worker := { x.worker with queue := x.worker.queue ++ [r] }
        sent := x.sent ++ [r] } := by
    rw [act, hworker]
  have htaken : (x.act (.pure f) (.submit r)).taken = x.taken := by
    rw [hact, taken, taken, List.length_append, List.length_append]
    exact Nat.add_sub_add_right _ _ _
  have hsent : ∀ i, i < x.taken → (x.sent ++ [r])[i]? = x.sent[i]? := by
    intro i hi
    exact List.getElem?_append_left (Nat.lt_of_lt_of_le hi x.taken_le)
  constructor
  · rw [hact]
    exact h.stage
  · rw [htaken, hact]
    show x.worker.queue ++ [r] = (x.sent ++ [r]).drop x.taken
    rw [List.drop_append_of_le_length x.taken_le, ← h.queue]
  · rw [htaken, hact]
    intro r' hr'
    obtain ⟨hpos, hr⟩ := h.inHand r' hr'
    refine ⟨hpos, ?_⟩
    rw [hsent _ (by omega)]
    exact hr
  · exact h.sorted
  · rw [htaken, hact]
    exact h.before
  · rw [hact]
    show x.delivered.map some = answered.map fun i =>
      (x.sent ++ [r])[i]?.map fun r => ⟨r.seq, r.query, r.target, f r.query⟩
    rw [h.answers]
    apply List.map_congr_left
    intro i hi
    have hlt := h.before i hi
    rw [hsent i (by omega)]
  · rw [htaken, hact]
    exact (h.stay _).settled
  · rw [htaken, hact]
    exact h.last

/-- An answer that is received was delivered before. -/
theorem Ordered.receive (h : Ordered f acts answered x) :
    Ordered f (acts ++ [.receive]) answered (x.act (.pure f) .receive) where
  stage := h.stage
  queue := h.queue
  inHand := h.inHand
  sorted := h.sorted
  before := h.before
  answers := by
    have hdelivered : (x.act (.pure f) .receive).delivered = x.delivered := by
      show x.received ++ x.worker.responses.head?.toList ++ x.worker.responses.tail = _
      rw [List.append_assoc, delivered]
      cases x.worker.responses <;> rfl
    rw [hdelivered]
    exact h.answers
  settled := (h.stay _).settled
  last := h.last

/-- The request that waits at the front is the one after those that were taken. -/
theorem Ordered.front (h : Ordered f acts answered x) {r : Request} {rest : List Request}
    (hqueue : x.worker.queue = r :: rest) :
    x.sent[x.taken]? = some r ∧ rest = x.sent.drop (x.taken + 1) ∧
      x.sent.length - rest.length = x.taken + 1 := by
  have hdrop : x.sent.drop x.taken = r :: rest := h.queue.symm.trans hqueue
  have hhead : (x.sent.drop x.taken)[0]? = some r := by
    rw [hdrop]
    rfl
  have htail : (x.sent.drop x.taken).drop 1 = rest := by
    rw [hdrop]
    rfl
  have hlength := congrArg List.length hdrop
  rw [List.getElem?_drop] at hhead
  rw [List.drop_drop] at htail
  rw [List.length_drop, List.length_cons] at hlength
  refine ⟨hhead, htail.symm, ?_⟩
  omega

/-- The worker takes the request at the front in hand. The one that it had in hand before, if any,
is passed over. -/
theorem Ordered.take (h : Ordered f acts answered x) (hx : run (.pure f) acts = x) {r : Request}
    {rest : List Request} (hqueue : x.worker.queue = r :: rest)
    (hstage : x.worker.stage = .idle ∨ ∃ skipped, x.worker.stage = .choosing skipped) :
    Ordered f (acts ++ [.work]) answered
      { x with worker := { x.worker with stage := .choosing r, queue := rest } } := by
  obtain ⟨hfront, hrest, htaken⟩ := h.front hqueue
  constructor
  · exact nofun
  · show rest = x.sent.drop (x.sent.length - rest.length)
    rw [htaken]
    exact hrest
  · intro r' hr'
    cases List.mem_singleton.mp hr'
    show 0 < x.sent.length - rest.length ∧ x.sent[x.sent.length - rest.length - 1]? = some r
    rw [htaken]
    exact ⟨Nat.succ_pos _, hfront⟩
  · exact h.sorted
  · intro i hi
    have hlt := h.before i hi
    show i + 1 < x.sent.length - rest.length
    omega
  · exact h.answers
  · intro i hi
    replace hi : i + 1 < x.sent.length - rest.length := hi
    rw [htaken] at hi
    by_cases hold : i + x.worker.stage.requests.length < x.taken
    · exact (h.stay _).settled i hold
    · -- the request at this place was in hand
      rcases hstage with hidle | ⟨skipped, hchoosing⟩
      · rw [hidle] at hold
        exact absurd (Nat.lt_of_succ_lt_succ hi) hold
      · have hplace : x.taken = i + 1 := by
          rw [hchoosing] at hold
          have hlength : (Stage.choosing skipped).requests.length = 1 := rfl
          omega
        have hwaits : x.worker.queue ≠ [] := by
          rw [hqueue]
          exact List.cons_ne_nil _ _
        refine .inr ⟨acts, [], skipped, rfl, ?_⟩
        rw [hx]
        exact ⟨hchoosing, hplace, hwaits⟩
  · exact nofun

/-- The worker starts the request in hand when no other one waits. -/
theorem Ordered.start (h : Ordered f acts answered x) {r : Request}
    (hstage : x.worker.stage = .choosing r) :
    Ordered f (acts ++ [.work]) answered
      { x with worker := { x.worker with stage := .running r } } := by
  have hlength : (Stage.running r).requests.length = x.worker.stage.requests.length := by
    rw [hstage]
    rfl
  constructor
  · exact nofun
  · exact h.queue
  · intro r' hr'
    refine h.inHand r' ?_
    rw [hstage]
    exact hr'
  · exact h.sorted
  · show ∀ i ∈ answered, i + (Stage.running r).requests.length < x.taken
    rw [hlength]
    exact h.before
  · exact h.answers
  · show ∀ i, i + (Stage.running r).requests.length < x.taken → _
    rw [hlength]
    exact (h.stay _).settled
  · exact nofun

/-- The worker answers the request that it has run. -/
theorem Ordered.finish (h : Ordered f acts answered x) {r : Request}
    (hstage : x.worker.stage = .running r) :
    Ordered f (acts ++ [.work]) (answered ++ [x.taken - 1])
      { x with
        worker := { x.worker with
          stage := .idle
          responses := x.worker.responses ++ [r.run f] } } := by
  obtain ⟨hpos, hplace⟩ := h.inHand r (by rw [hstage]; exact List.mem_singleton_self r)
  have hbefore : ∀ i ∈ answered, i + 1 < x.taken := by
    intro i hi
    have hlt := h.before i hi
    rwa [hstage] at hlt
  constructor
  · exact nofun
  · exact h.queue
  · exact nofun
  · rw [List.pairwise_append]
    refine ⟨h.sorted, List.pairwise_singleton _ _, ?_⟩
    intro i hi j hj
    have hlt := hbefore i hi
    rw [List.mem_singleton.mp hj]
    omega
  · show ∀ i ∈ answered ++ [x.taken - 1], i + 0 < x.taken
    intro i hi
    rcases List.mem_append.mp hi with hold | hnew
    · have hlt := hbefore i hold
      omega
    · rw [List.mem_singleton.mp hnew]
      omega
  · have hdelivered : x.received ++ (x.worker.responses ++ [r.run f]) =
        x.delivered ++ [r.run f] := (List.append_assoc _ _ _).symm
    show (x.received ++ (x.worker.responses ++ [r.run f])).map some = _
    rw [hdelivered, List.map_append, h.answers, List.map_append, List.map_singleton,
      List.map_singleton, hplace]
    rfl
  · intro i hi
    replace hi : i < x.taken := hi
    by_cases hlast : i = x.taken - 1
    · exact .inl (List.mem_append_right _ (List.mem_singleton.mpr hlast))
    · have hold : i + x.worker.stage.requests.length < x.taken := by
        rw [hstage]
        have hlength : (Stage.running r).requests.length = 1 := rfl
        omega
      rcases (h.stay _).settled i hold with hanswered | hpassed
      · exact .inl (List.mem_append_left _ hanswered)
      · exact .inr hpassed
  · intro _ _
    exact List.getLast?_concat

/-- A step of the worker may answer one more request. -/
theorem Ordered.work (h : Ordered f acts answered x) (hx : run (.pure f) acts = x) :
    ∃ answered', Ordered f (acts ++ [.work]) answered' (x.act (.pure f) .work) := by
  cases hstage : x.worker.stage with
  | idle =>
      cases hqueue : x.worker.queue with
      | nil =>
          -- there is nothing to do
          have hsame : x.act (.pure f) .work = x := by
            simp only [act, step?, hstage, hqueue, Option.getD_none]
          rw [hsame]
          exact ⟨answered, h.stay _⟩
      | cons r rest =>
          have htake : x.act (.pure f) .work =
              { x with worker := { x.worker with stage := .choosing r, queue := rest } } := by
            simp only [act, step?, hstage, hqueue, Option.getD_some]
          rw [htake]
          exact ⟨answered, h.take hx hqueue (.inl hstage)⟩
  | choosing skipped =>
      cases hqueue : x.worker.queue with
      | nil =>
          have hstart : x.act (.pure f) .work =
              { x with worker := { x.worker with stage := .running skipped } } := by
            simp only [act, step?, hstage, hqueue, Option.getD_some]
          rw [hstart]
          exact ⟨answered, h.start hstage⟩
      | cons r rest =>
          have htake : x.act (.pure f) .work =
              { x with worker := { x.worker with stage := .choosing r, queue := rest } } := by
            simp only [act, step?, hstage, hqueue, Option.getD_some]
          rw [htake]
          exact ⟨answered, h.take hx hqueue (.inr ⟨skipped, hstage⟩)⟩
  | running r =>
      have hfinish : x.act (.pure f) .work =
          { x with
            worker := { x.worker with
              stage := .idle
              responses := x.worker.responses ++ [r.run f] } } := by
        simp only [act, step?, hstage, Source.pure, Option.getD_some]
        rfl
      rw [hfinish]
      exact ⟨_, h.finish hstage⟩
  | ended => exact absurd hstage h.stage

/-! ## Runs -/

/-- Every run leaves a worker in order. -/
theorem run_ordered (f : String → List Candidate) (acts : List Action) :
    ∃ answered, Ordered f acts answered (run (.pure f) acts) := by
  induction acts using List.reverseRecOn with
  | nil => exact ⟨[], Ordered.new f⟩
  | append_singleton acts a ih =>
      obtain ⟨answered, h⟩ := ih
      rw [run_append]
      cases a with
      | submit r => exact ⟨answered, h.submit r⟩
      | work => exact h.work rfl
      | receive => exact ⟨answered, h.receive⟩

end Steps

/-- Requests are answered in the order of their submission, each at most once. An answer repeats the
sequence number, the query and the target of its request, and carries what the source has for the
query. One that is not answered waits, is in hand, or was passed over for a later one
before it was started, and a worker at rest has answered the last one last. -/
theorem run_coalesces (f : String → List Candidate) (acts : List Action) :
    let x := run (.pure f) acts
    x.worker.queue = x.sent.drop x.taken ∧
    (∀ r ∈ x.worker.stage.requests, 0 < x.taken ∧ x.sent[x.taken - 1]? = some r) ∧
    ∃ answered : List Nat, answered.Pairwise (· < ·) ∧
      x.delivered.map some = answered.map (fun i =>
        x.sent[i]?.map fun r => ⟨r.seq, r.query, r.target, f r.query⟩) ∧
      (∀ i < x.sent.length, i ∈ answered ∨ x.Due i ∨ PassedOver (.pure f) acts i) ∧
      (x.worker.stage = .idle → x.worker.queue = [] → ∀ r, x.sent.getLast? = some r →
        answered.getLast? = some (x.sent.length - 1) ∧
        x.delivered.getLast? = some ⟨r.seq, r.query, r.target, f r.query⟩) := by
  intro x
  obtain ⟨answered, h⟩ := run_ordered f acts
  refine ⟨h.queue, h.inHand, answered, h.sorted, h.answers, ?_, ?_⟩
  · intro i hi
    by_cases hsettled : i + x.worker.stage.requests.length < x.taken
    · rcases h.settled i hsettled with hanswered | hpassed
      · exact .inl hanswered
      · exact .inr (.inr hpassed)
    · exact .inr (.inl ⟨hi, Nat.le_of_not_lt hsettled⟩)
  · intro hidle hqueue r hr
    have htaken : x.taken = x.sent.length := by
      rw [taken, hqueue]
      rfl
    have hpos : 0 < x.taken := by
      rw [htaken]
      exact List.length_pos_of_mem (List.mem_of_getLast? hr)
    have hlast := h.last hidle hpos
    rw [htaken] at hlast
    refine ⟨hlast, ?_⟩
    have hanswers := congrArg List.getLast? h.answers
    rw [List.getLast?_map, List.getLast?_map, hlast, Option.map_some,
      ← List.getLast?_eq_getElem?, hr] at hanswers
    obtain ⟨answer, hanswer, hrun⟩ := Option.map_eq_some_iff.mp hanswers
    cases hrun
    exact hanswer

/-- Of two requests that come while the worker runs another one, the newer one is answered last. -/
theorem newest_answered_last :
    let f : String → List Candidate := fun query => [⟨query, query, "", 0⟩]
    let request (seq : Nat) : Request := ⟨seq, "rate", .buffer⟩
    let acts : List Action :=
      [.submit (request 1), .work, .work, .submit (request 2), .submit (request 3), .work,
        .receive, .work, .work, .work, .work]
    ∃ answered : List Nat, answered.getLast? = some 2 ∧
      (run (.pure f) acts).delivered.getLast? =
        some ⟨3, "rate", .buffer, [⟨"rate", "rate", "", 0⟩]⟩ := by
  intro f request acts
  obtain ⟨-, -, answered, -, -, -, hrest⟩ := run_coalesces f acts
  exact ⟨answered, hrest rfl rfl (request 3) rfl⟩

end Exchange

end FormulaBar.Worker
