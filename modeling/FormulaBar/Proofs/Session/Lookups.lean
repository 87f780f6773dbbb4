import FormulaBar.Proofs.Editor.Suggestion
import FormulaBar.Proofs.Worker.Line
import FormulaBar.Session
import Mathlib.Logic.Relation

/-!
# No answer is lost

An editor, its session and the worker behind it agree, under every interleaving, on which lookup is
the newest and whether its answer is still to come.

1. **Updates**: what becomes of the prompt between two lookups that are handed on.
2. **Invariant**: the session waits for the last request in the worker's line, if there is one.
3. **Steps**: handing on, working, taking an answer.
4. **Runs** of a session, and what its bookkeeping says in all of their states.
-/

namespace FormulaBar

open Lookup (Request Response)
open Editor (HostStep Offers)
open Relation (ReflTransGen)

/-! ## Updates -/

namespace Prompt

variable {p p' p'' : Prompt} {offers : String → List Candidate → Prop}

/-- What has become of a prompt `p` since its lookup was taken: a lookup that waits is a new one,
and while the buffer is searched for without one, nothing has changed. -/
structure Since (p p' : Prompt) : Prop where
  seq_le : p.seq ≤ p'.seq
  pending : ∀ r, p'.pending = some r → p.seq < r.seq
  active : p'.active = true → p'.pending = some ⟨p'.seq, p'.buffer, .buffer⟩ ∨
    (p.active = true ∧ p'.seq = p.seq ∧ p'.buffer = p.buffer ∧ p'.candidates = p.candidates)

theorem Since.refl (hnone : p.pending = none) : Since p p where
  seq_le := Nat.le_refl _
  pending := by intro r hr; rw [hnone] at hr; cases hr
  active := fun hactive => .inr ⟨hactive, rfl, rfl, rfl⟩

/-- A prompt that does not search the buffer, and whose lookup, if any, is new. -/
theorem Since.of_not_active (hle : p.seq ≤ p'.seq)
    (hpending : ∀ r, p'.pending = some r → p.seq < r.seq) (hactive : p'.active = false) :
    Since p p' where
  seq_le := hle
  pending := hpending
  active := by intro h; rw [hactive] at h; cases h

/-- Dropping a lookup makes no other one wait. -/
theorem Since.filter (h : Since p p') (keeps : Request → Bool) :
    ∀ r, p'.pending.filter keeps = some r → p.seq < r.seq := by
  intro r hr
  exact h.pending r (Option.filter_eq_some_iff.mp hr).1

/-- An edit box is opened or typed into: it asks under a new number, or not at all. -/
theorem Since.openBox (h : Since p p') (hactive : p'.active = false) (box : EditBox)
    (asks : Bool) : Since p (p'.openBox box asks) := by
  cases asks with
  | false => exact of_not_active h.seq_le nofun hactive
  | true =>
      have hlt : p.seq < p'.seq + 1 := Nat.lt_succ_of_le h.seq_le
      refine of_not_active (Nat.le_of_lt hlt) ?_ hactive
      intro r hr
      cases hr
      exact hlt

theorem Since.step (h : Since p p') (hc : p'.Coherent offers) (hstep : Step p' p'') :
    Since p p'' := by
  have hle : p.seq ≤ p''.seq := Nat.le_trans h.seq_le hstep.seq_le
  cases hstep with
  | keep => exact h
  | dismiss | switchOff => exact of_not_active hle (h.filter _) rfl
  | search text =>
      refine ⟨hle, ?_, fun _ => .inl rfl⟩
      intro r hr
      cases hr
      exact Nat.lt_succ_of_le h.seq_le
  | close =>
      cases hedit : p'.edit with
      | none => rwa [closeEdit_of_none hedit]
      | some box =>
          rw [closeEdit_of_some hedit] at hle ⊢
          exact of_not_active hle (h.filter _) (hc.not_active hedit)
  | openEdit box asks =>
      have hclosed : Since p { p' with active := false } :=
        of_not_active h.seq_le h.pending rfl
      exact hclosed.openBox rfl box asks
  | typeEdit box text asks hopen => exact h.openBox (hc.not_active hopen) _ asks
  | switchOn => exact ⟨hle, h.pending, h.active⟩
  | reset => exact of_not_active hle nofun rfl

end Prompt

/-- What an update leaves of an editor whose lookup was taken. -/
theorem Editor.since_of_updates {e e' : Editor} {offers : String → List Candidate → Prop}
    (hc : e.prompt.Coherent offers) (hnone : e.pending = none)
    (hrun : ReflTransGen HostStep e e') :
    e'.prompt.Coherent offers ∧ e.prompt.Since e'.prompt := by
  induction hrun with
  | refl => exact ⟨hc, .refl hnone⟩
  | tail _ hstep ih =>
      rcases ih with ⟨hcoherent, hsince⟩
      exact ⟨hcoherent.step hstep.prompt, hsince.step hcoherent hstep.prompt⟩

/-- While the buffer is searched for, what it shows stays or becomes what the source has for it, if
an answer is given to the editor. -/
theorem Editor.receive_shown {e : Editor} {f : String → List Candidate}
    (hc : e.prompt.Coherent (Offers f)) (hactive : e.active = true) {r : Request}
    (hshown : r = ⟨e.seq, e.buffer, .buffer⟩ ∨ e.candidates = f e.buffer) :
    (e.receive (r.run f)).2.candidates = f e.buffer := by
  unfold receive
  split
  · next haccept =>
    show f r.query = f e.buffer
    have hwants := haccept.2
    unfold wants at hwants
    split at hwants
    · simp only [Bool.and_eq_true, beq_iff_eq] at hwants
      exact congrArg f hwants.2
    · -- an answer for an edit box is wanted only while one is open
      rw [Option.any_eq_true] at hwants
      rcases hwants with ⟨box, hopen, -⟩
      rw [show e.active = false from hc.not_active hopen] at hactive
      cases hactive
  · next hrefuse =>
    rcases hshown with rfl | hshown
    · exfalso
      apply hrefuse
      simp [Request.run, Request.respond, wants, hactive]
    · exact hshown

/-! ## Invariant -/

namespace Session

variable {f : String → List Candidate} {s : Session} {sent : List Request}

/-- What holds of a session between its steps, when `sent` are the requests that were handed on. -/
structure Linked (f : String → List Candidate) (s : Session) (sent : List Request) : Prop where
  coherent : s.editor.prompt.Coherent (Offers f)
  alive : s.worker.Alive f
  /-- The line is in the order in which the requests were made. -/
  ordered : s.worker.line.Pairwise fun a b => a.seq < b.seq
  counted : ∀ r ∈ s.worker.line, r.seq ≤ s.editor.seq
  /-- Whatever was asked for has been handed on. -/
  forwarded : s.editor.pending = none
  /-- The last request in line is the last one that was handed on. -/
  newest : s.worker.line ≠ [] → s.worker.line.getLast? = sent.getLast?
  inFlight : s.inFlight = s.worker.line.getLast?.map Request.seq
  /-- The buffer is searched for by the last request in line, unless its candidates are shown. -/
  shown : s.editor.active = true →
    s.worker.line.getLast? = some ⟨s.editor.seq, s.editor.buffer, .buffer⟩ ∨
      s.editor.candidates = f s.editor.buffer

theorem Linked.new (f : String → List Candidate) (options : EditorOptions) :
    Linked f { editor := Editor.new options } [] where
  coherent := Editor.new_coherent _ options
  alive := .new f
  ordered := .nil
  counted := nofun
  forwarded := rfl
  newest := fun hline => absurd rfl hline
  inFlight := rfl
  shown := nofun

/-! ## Steps -/

theorem forward_of_none (h : s.editor.pending = none) :
    s.forward = { s with editor := { s.editor with pending := none } } := by
  unfold forward Editor.takeRequest
  rw [h]

theorem forward_of_some {r : Request} (h : s.editor.pending = some r)
    (halive : s.worker.stage ≠ .ended) :
    s.forward =
      { editor := { s.editor with pending := none }
        worker := { s.worker with queue := s.worker.queue ++ [r] }
        inFlight := some r.seq } := by
  unfold forward Editor.takeRequest
  rw [h]
  dsimp only
  unfold Worker.submit
  cases hstage : s.worker.stage with
  | ended => exact absurd hstage halive
  | idle | choosing | running => rfl

/-- A request is submitted to the end of the line. -/
theorem line_submit (w : Worker) (r : Request) :
    ({ w with queue := w.queue ++ [r] } : Worker).line = w.line ++ [r] := by
  simp only [Worker.line, List.append_assoc]

/-- An update that leaves no lookup has changed nothing for the buffer while it is searched for. -/
theorem Linked.keep (h : Linked f s sent) {e : Editor} (hcoherent : e.prompt.Coherent (Offers f))
    (hsince : s.editor.prompt.Since e.prompt) (hnone : e.pending = none) :
    Linked f { s with editor := { e with pending := none } } sent := by
  refine ⟨hcoherent.take, h.alive, h.ordered, ?_, rfl, h.newest, h.inFlight, ?_⟩
  · intro r hr
    exact Nat.le_trans (h.counted r hr) hsince.seq_le
  · intro hactive
    rcases hsince.active hactive with hwaits | ⟨hstill, hseq, hbuffer, hcandidates⟩
    · rw [show e.prompt.pending = none from hnone] at hwaits
      cases hwaits
    · have hshown := h.shown hstill
      rw [← show e.seq = s.editor.seq from hseq, ← show e.buffer = s.editor.buffer from hbuffer,
        ← show e.candidates = s.editor.candidates from hcandidates] at hshown
      exact hshown

/-- The lookup that an update leaves is newer than all in line, and goes to its end. -/
theorem Linked.submit (h : Linked f s sent) {e : Editor} {r : Request}
    (hcoherent : e.prompt.Coherent (Offers f)) (hsince : s.editor.prompt.Since e.prompt)
    (hpending : e.pending = some r) :
    Linked f
      { editor := { e with pending := none }
        worker := { s.worker with queue := s.worker.queue ++ [r] }
        inFlight := some r.seq } (sent ++ [r]) := by
  have hline := line_submit s.worker r
  have hle : s.editor.seq ≤ e.seq := hsince.seq_le
  have hlt : s.editor.seq < r.seq := hsince.pending r hpending
  have hseq : r.seq = e.seq := (hcoherent.pending r hpending).1
  constructor
  · exact hcoherent.take
  · exact ⟨h.alive.stage, h.alive.answers⟩
  · -- the line stays in order
    rw [hline, List.pairwise_append]
    refine ⟨h.ordered, List.pairwise_singleton _ _, ?_⟩
    intro a ha b hb
    rw [List.mem_singleton.mp hb]
    exact Nat.lt_of_le_of_lt (h.counted a ha) hlt
  · -- nothing in line is newer than the editor knows
    rw [hline]
    intro a ha
    rcases List.mem_append.mp ha with hold | hlast
    · exact Nat.le_trans (h.counted a hold) hle
    · have hsame : a.seq = e.seq := by rw [List.mem_singleton.mp hlast, hseq]
      exact Nat.le_of_eq hsame
  · rfl
  · intro _
    rw [hline, List.getLast?_concat, List.getLast?_concat]
  · rw [hline, List.getLast?_concat]
    rfl
  · -- if the buffer is searched for, then by this lookup
    intro hactive
    rw [hline, List.getLast?_concat, ← hpending]
    rcases hsince.active hactive with hwaits | ⟨-, hsame, -⟩
    · exact .inl hwaits
    · have heq : e.seq = s.editor.seq := hsame
      omega

/-- After any update the lookup that it left is handed on. -/
theorem Linked.update (h : Linked f s sent) {e : Editor}
    (hrun : ReflTransGen HostStep s.editor e) :
    Linked f ({ s with editor := e } : Session).forward (sent ++ e.pending.toList) := by
  rcases Editor.since_of_updates h.coherent h.forwarded hrun with ⟨hcoherent, hsince⟩
  cases hpending : e.pending with
  | none =>
      rw [forward_of_none (s := { s with editor := e }) hpending, Option.toList_none,
        List.append_nil]
      exact h.keep hcoherent hsince hpending
  | some r =>
      rw [forward_of_some (s := { s with editor := e }) hpending h.alive.stage,
        Option.toList_some]
      exact h.submit hcoherent hsince hpending

theorem Linked.work (h : Linked f s sent) {w : Worker}
    (hstep : s.worker.step? (.pure f) = some w) :
    Linked f { s with worker := w } sent := by
  rcases Worker.step_line hstep with ⟨hsub, hlast⟩
  have hne : w.line ≠ [] → s.worker.line ≠ [] := by
    intro hline hnil
    rw [hnil] at hsub
    exact hline (List.sublist_nil.mp hsub)
  refine ⟨h.coherent, h.alive.step hstep, h.ordered.sublist hsub, ?_, h.forwarded, ?_, ?_, ?_⟩
  · exact fun r hr => h.counted r (hsub.subset hr)
  · intro hline
    exact hlast.trans (h.newest (hne hline))
  · show s.inFlight = w.line.getLast?.map Request.seq
    rw [hlast]
    exact h.inFlight
  · show s.editor.active = true → w.line.getLast? = _ ∨ _
    rw [hlast]
    exact h.shown

theorem Linked.settle (h : Linked f s sent) : Linked f (s.settle (.pure f)) sent :=
  Worker.settle_induction (P := fun w => Linked f { s with worker := w } sent)
    (fun _ _ hlinked hstep => hlinked.work hstep) h

/-- The waiting for the last request in line ends with the answer to the first one only if that is
the last. -/
theorem waiting_after {r : Request} {line : List Request}
    (hordered : (r :: line).Pairwise fun a b => a.seq < b.seq) :
    let waiting := (r :: line).getLast?.map Request.seq
    (if waiting.any fun n => decide (n ≤ r.seq) then none else waiting) =
      line.getLast?.map Request.seq := by
  cases line with
  | nil => simp
  | cons next line =>
      have hlast := List.getLast?_eq_some_getLast (List.cons_ne_nil next line)
      have hlt := List.rel_of_pairwise_cons hordered (List.getLast_mem (List.cons_ne_nil next line))
      dsimp only
      rw [List.getLast?_cons_cons, hlast, Option.map_some, Option.any_some, if_neg]
      rw [decide_eq_true_eq]
      exact Nat.not_le.mpr hlt

/-- The first request leaves the line with its answer. -/
theorem take_line {answer : Response} {rest : List Response}
    (hresponses : s.worker.responses = answer :: rest) :
    s.worker.line = answer.request :: (s.take answer rest).2.worker.line := by
  rw [Worker.line, hresponses]
  rfl

/-- Of the editor an answer changes the candidates at most. -/
theorem take_editor (s : Session) (answer : Response) (rest : List Response) :
    ∃ candidates, (s.take answer rest).2.editor = { s.editor with candidates } := by
  show ∃ candidates, (s.editor.receive answer).2 = { s.editor with candidates }
  unfold Editor.receive
  split
  · exact ⟨answer.candidates, rfl⟩
  · exact ⟨s.editor.candidates, rfl⟩

theorem Linked.take (h : Linked f s sent) {answer : Response} {rest : List Response}
    (hresponses : s.worker.responses = answer :: rest) : Linked f (s.take answer rest).2 sent := by
  have hanswer : answer = answer.request.run f := by
    apply h.alive.answers
    rw [hresponses]
    exact List.mem_cons_self
  have hline := take_line hresponses
  have hordered := h.ordered
  rw [hline] at hordered
  rcases take_editor s answer rest with ⟨candidates, heditor⟩
  constructor
  · exact Editor.receive_coherent h.coherent (congrArg Response.candidates hanswer)
  · refine ⟨h.alive.stage, fun a ha => h.alive.answers a ?_⟩
    rw [hresponses]
    exact List.mem_cons_of_mem _ ha
  · exact hordered.of_cons
  · intro r hr
    rw [heditor]
    apply h.counted
    rw [hline]
    exact List.mem_cons_of_mem _ hr
  · rw [heditor]
    exact h.forwarded
  · -- the last request stays last
    intro hne
    have hnewest := h.newest (by rw [hline]; exact List.cons_ne_nil _ _)
    rwa [hline, List.getLast?_cons_of_ne_nil hne] at hnewest
  · have hwaiting := h.inFlight
    rw [hline] at hwaiting
    show (if s.inFlight.any _ then none else s.inFlight) = _
    rw [hwaiting]
    exact waiting_after hordered
  · -- what the buffer is searched for is still to come, or has just been found
    intro hactive
    have hsearched : s.editor.active = true := by
      rwa [heditor] at hactive
    have hseq : (s.take answer rest).2.editor.seq = s.editor.seq := by rw [heditor]
    have hbuffer : (s.take answer rest).2.editor.buffer = s.editor.buffer := by rw [heditor]
    have hreceived := Editor.receive_shown (r := answer.request) h.coherent hsearched
    rw [← hanswer] at hreceived
    rw [hseq, hbuffer]
    rcases h.shown hsearched with hlast | hshown
    · rw [hline] at hlast
      cases hrest : (s.take answer rest).2.worker.line with
      | nil =>
          -- the answer is the one that was waited for
          rw [hrest, List.getLast?_singleton, Option.some_inj] at hlast
          exact .inr (hreceived (.inl hlast))
      | cons next line =>
          rw [hrest, List.getLast?_cons_cons] at hlast
          exact .inl hlast
    · exact .inr (hreceived (.inr hshown))

theorem Linked.takeOne (h : Linked f s sent) : Linked f (Session.takeOne s).2 sent := by
  unfold Session.takeOne
  cases hresponses : s.worker.responses with
  | nil => exact h
  | cons answer rest => exact h.take hresponses

theorem Linked.takeEach {responses : List Response} (h : Linked f s sent)
    (hresponses : s.worker.responses = responses) :
    Linked f (Session.takeEach responses s).2 sent := by
  induction responses generalizing s with
  | nil => exact h
  | cons answer rest ih => exact ih (h.take hresponses) rfl

theorem Linked.takeUntil {responses : List Response} (h : Linked f s sent)
    (hresponses : s.worker.responses = responses) (target : Nat) :
    Linked f (Session.takeUntil target responses s).2 sent := by
  induction responses generalizing s with
  | nil => exact h
  | cons answer rest ih =>
      unfold Session.takeUntil
      dsimp only
      split
      · exact h.take hresponses
      · exact ih (h.take hresponses) rfl

theorem Linked.wait (h : Linked f s sent) : Linked f (s.wait (.pure f)).2 sent := by
  unfold Session.wait
  split
  · exact h
  · exact h.settle.takeUntil rfl _

/-! ## Runs -/

/-- The states of a session over a source that has `f query` for every query, with the requests
that were handed on to the worker. The steps of the session and those of the worker come in any
order. Between two answers that a pump or a wait takes, the worker may go on, and a wait may be
given up. -/
inductive Live (f : String → List Candidate) : Session → List Request → Prop where
  | new (options : EditorOptions) : Live f { editor := Editor.new options } []
  | dispatch {s : Session} {sent : List Request} (h : Live f s sent) (ev : InputEvent) :
      Live f (s.apply (.react ev)).2 (sent ++ (s.editor.react ev).pending.toList)
  /-- Whatever is done to the editor, the lookup that it leaves is handed on. -/
  | update {s : Session} {sent : List Request} {e : Editor} (h : Live f s sent)
      (hrun : ReflTransGen HostStep s.editor e) :
      Live f ({ s with editor := e } : Session).forward (sent ++ e.pending.toList)
  | flush {s : Session} {sent : List Request} (h : Live f s sent) :
      Live f s.forward (sent ++ s.editor.pending.toList)
  | pump {s : Session} {sent : List Request} (h : Live f s sent) : Live f s.takeAll.2 sent
  | wait {s : Session} {sent : List Request} (h : Live f s sent) :
      Live f (s.wait (.pure f)).2 sent
  /-- One answer is taken. -/
  | receive {s : Session} {sent : List Request} (h : Live f s sent) : Live f s.takeOne.2 sent
  | work {s : Session} {sent : List Request} {w : Worker} (h : Live f s sent)
      (hstep : s.worker.step? (.pure f) = some w) : Live f { s with worker := w } sent

theorem Live.linked (h : Live f s sent) : Linked f s sent := by
  induction h with
  | new options => exact .new f options
  | dispatch _ ev ih => exact ih.update (.single (.apply (.react ev) rfl))
  | update _ hrun ih => exact ih.update hrun
  | flush _ ih => exact ih.update .refl
  | pump _ ih => exact ih.takeEach rfl
  | wait _ ih => exact ih.wait
  | receive _ ih => exact ih.takeOne
  | work _ hstep ih => exact ih.work hstep

/-- The session waits for a lookup exactly while that is the newest one and under way, for none
exactly when nothing is left with the worker, and then what the buffer is searched for has been
found. -/
theorem Live.lookups (h : Live f s sent) :
    (∀ n, s.inFlight = some n ↔
      ∃ r, sent.getLast? = some r ∧ r.seq = n ∧ s.worker.Outstanding f r) ∧
    (s.inFlight = none ↔
      s.worker.queue = [] ∧ s.worker.stage = .idle ∧ s.worker.responses = []) ∧
    (s.inFlight = none → s.editor.active = true → s.editor.candidates = f s.editor.buffer) := by
  have hlinked := h.linked
  have hnone : s.inFlight = none ↔ s.worker.line = [] := by
    rw [hlinked.inFlight, Option.map_eq_none_iff, List.getLast?_eq_none_iff]
  refine ⟨fun n => ⟨?_, ?_⟩, hnone.trans hlinked.alive.line_eq_nil, ?_⟩
  · intro hwaits
    rw [hlinked.inFlight] at hwaits
    rcases Option.map_eq_some_iff.mp hwaits with ⟨r, hlast, hseq⟩
    have hmem : r ∈ s.worker.line := List.mem_of_getLast? hlast
    refine ⟨r, ?_, hseq, hlinked.alive.mem_line.mp hmem⟩
    rw [← hlinked.newest (List.ne_nil_of_mem hmem)]
    exact hlast
  · rintro ⟨r, hlast, hseq, hunder⟩
    have hmem : r ∈ s.worker.line := hlinked.alive.mem_line.mpr hunder
    rw [hlinked.inFlight, hlinked.newest (List.ne_nil_of_mem hmem), hlast, Option.map_some, hseq]
  · intro hidle hactive
    rcases hlinked.shown hactive with hlast | hshown
    · rw [hnone.mp hidle] at hlast
      cases hlast
    · exact hshown

/-- A name is typed in two steps; the worker skips the first, and the answer to the second is
taken. -/
theorem exists_live_lookups :
    ∃ s, Live Editor.echo s [⟨1, "a", .buffer⟩, ⟨2, "ab", .buffer⟩] ∧ s.inFlight = none ∧
      s.editor.buffer = "ab" ∧ s.editor.candidates = Editor.echo "ab" := by
  have hsent := ((Live.new {}).update (.single (.apply (.setBuffer "a") rfl))).update
    (.single (.apply (.setBuffer "ab") rfl)) (f := Editor.echo)
  have hanswered := (((hsent.work rfl).work rfl).work rfl).work rfl
  have hread := hanswered.receive
  exact ⟨_, hread, rfl, rfl, hread.lookups.2.2 rfl rfl⟩

end Session

end FormulaBar
