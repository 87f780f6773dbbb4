import FormulaBar.Proofs.Editor.Effects
import Mathlib.Logic.Relation

/-!
# Histories of the stream

When the host of an editor puts in new tokens only, and each of them once, an id that has left the
stream never comes back. This is so because ids are drawn from one supply; the invariant says that
no id is recorded twice, be it as one of a token that is still to be put in or as one that has come
into the stream.

1. **Histories**: an editor with a record of its ids.
2. **Invariant**, and that every step keeps it.
3. **Streams** after an operation, and in the course of a run.
-/

namespace FormulaBar.Editor

/-! ## Histories -/

/-- An editor with a record of its ids: those of the tokens that its host has made and not put in
yet, and those that have come into the stream, in their order. -/
structure History where
  editor : Editor
  made : List TokenId
  entered : List TokenId

/-- The ids that come into the stream from one state to the next. -/
def entering (e e' : Editor) : List TokenId := e'.ids.filter fun id => id ∉ e.ids

namespace History

/-- The history of a new editor. -/
def new (options : EditorOptions) (supply : IdSupply) : History :=
  ⟨{ Editor.new options with supply }, [], []⟩

/-- The next state is put on record, with the tokens that are still to be put in. -/
def record (s : History) (e' : Editor) (made : List TokenId) : History :=
  ⟨e', made, s.entered ++ entering s.editor e'⟩

/-- What may happen when the host puts in new tokens only. -/
inductive Step (s : History) : History → Prop where
  /-- The host makes a token. -/
  | make : Step s { s with editor := s.editor.mint.2, made := s.editor.mint.1 :: s.made }
  /-- The host puts in a token that it has made, and does so once. -/
  | insert (index : Nat) (t : Token) (ht : t.id ∈ s.made) :
      Step s (s.record (s.editor.insert index t) (s.made.erase t.id))
  /-- An operation that brings no token along. -/
  | apply (op : Operation) (hop : op.brought = none) :
      Step s (s.record (s.editor.apply op).2 s.made)
  /-- A token is replaced by a copy of another one. -/
  | copy (id : TokenId) (content : Content) :
      Step s (s.record (s.editor.replace id content).2 s.made)
  /-- Ids are drawn for other purposes. -/
  | draw (supply : IdSupply) (hle : s.editor.supply.next ≤ supply.next) :
      Step s { s with editor := { s.editor with supply } }

/-- The histories that may follow. -/
abbrev Later : History → History → Prop := Relation.ReflTransGen Step

/-! ## Invariant -/

/-- What holds of every history. -/
structure Sound (s : History) : Prop where
  consistent : s.editor.Consistent
  /-- The tokens of the stream have come into it. -/
  recorded : ∀ id ∈ s.editor.ids, id ∈ s.entered
  /-- No id is recorded twice: not for two tokens, and not for one that came in twice. -/
  distinct : (s.made ++ s.entered).Nodup
  drawn : ∀ id ∈ s.made ++ s.entered, id.number < s.editor.supply.next

variable {s s' : History} {e e' : Editor} {brought : Option TokenId} {ks : List Effect}

theorem mem_entering {id : TokenId} : id ∈ entering e e' ↔ id ∈ e'.ids ∧ id ∉ e.ids := by
  simp [entering]

theorem Sound.new (options : EditorOptions) (supply : IdSupply) : (new options supply).Sound where
  consistent := Consistent.new options supply
  recorded := nofun
  distinct := List.nodup_nil
  drawn := nofun

/-- A state that an operation leads to is put on record. A token that was brought along is no longer
among those that are still to be put in. -/
theorem Sound.record (h : s.Sound) (halters : Alters s.editor brought ks e')
    (hconsistent : e'.Consistent) {made : List TokenId} (hmade : made.Sublist s.made)
    (hbrought : ∀ id, brought = some id → id ∈ s.made ∧ id ∉ made) :
    (s.record e' made).Sound where
  consistent := hconsistent
  recorded := by
    intro id hid
    by_cases hold : id ∈ s.editor.ids
    · exact List.mem_append_left _ (h.recorded id hold)
    · exact List.mem_append_right _ (mem_entering.mpr ⟨hid, hold⟩)
  distinct := by
    obtain ⟨k, -, hedits⟩ := halters.effect
    have hrest : (made ++ s.entered).Nodup :=
      (hmade.append (List.Sublist.refl _)).nodup h.distinct
    show (made ++ (s.entered ++ entering s.editor e')).Nodup
    rw [← List.append_assoc, List.nodup_append]
    refine ⟨hrest, hconsistent.nodup.filter _, ?_⟩
    rintro id hid _ hnew rfl
    obtain ⟨hin, hout⟩ := mem_entering.mp hnew
    rcases (hedits.mem_ids hin).resolve_left hout with ⟨-, hle | hsome⟩
    · -- an id that was still to be given out is not on record
      have hmem : id ∈ s.made ++ s.entered :=
        (hmade.append (List.Sublist.refl _)).subset hid
      exact Nat.not_lt.mpr hle (h.drawn id hmem)
    · -- the token that was brought along has not been put in before
      obtain ⟨hin, hout⟩ := hbrought id hsome
      rcases List.mem_append.mp hid with hleft | hentered
      · exact hout hleft
      · exact (List.nodup_append.mp h.distinct).2.2 id hin id hentered rfl
  drawn := by
    intro id hid
    replace hid : id ∈ made ++ (s.entered ++ entering s.editor e') := hid
    rw [← List.append_assoc] at hid
    rcases List.mem_append.mp hid with hold | hnew
    · have hmem : id ∈ s.made ++ s.entered :=
        (hmade.append (List.Sublist.refl _)).subset hold
      exact Nat.lt_of_lt_of_le (h.drawn id hmem) halters.supply
    · exact hconsistent.drawn id (mem_entering.mp hnew).1

/-- A token that the host makes has an id that is not on record. -/
theorem Sound.make (h : s.Sound) :
    ({ s with editor := s.editor.mint.2, made := s.editor.mint.1 :: s.made } : History).Sound where
  consistent := h.consistent.mint
  recorded := h.recorded
  distinct := by
    refine List.nodup_cons.mpr ⟨?_, h.distinct⟩
    intro hmem
    exact Nat.lt_irrefl _ (h.drawn _ hmem)
  drawn := by
    intro id hid
    rcases List.mem_cons.mp hid with rfl | hold
    · exact Nat.lt_succ_self _
    · exact Nat.lt_succ_of_lt (h.drawn id hold)

theorem Step.sound (hstep : Step s s') (h : s.Sound) : s'.Sound := by
  have hnone : ∀ id, (none : Option TokenId) = some id → id ∈ s.made ∧ id ∉ s.made := nofun
  cases hstep with
  | make => exact h.make
  | insert index t ht =>
      have hdrawn := h.drawn t.id (List.mem_append_left _ ht)
      refine h.record (insert_alters h.consistent index t) (h.consistent.insert hdrawn index)
        List.erase_sublist ?_
      rintro id ⟨⟩
      exact ⟨ht, (List.nodup_append.mp h.distinct).1.not_mem_erase⟩
  | apply op hop =>
      have hdrawn : op.Drawn s.editor.supply := op.drawn_of_brought hop _
      have halters := apply_alters h.consistent op
      rw [hop] at halters
      exact h.record halters (h.consistent.apply hdrawn) (List.Sublist.refl _) hnone
  | copy id content =>
      exact h.record (replace_alters s.editor id content) (h.consistent.replace id content)
        (List.Sublist.refl _) hnone
  | draw supply hle =>
      refine ⟨h.consistent.draw hle, h.recorded, h.distinct, ?_⟩
      intro id hid
      exact Nat.lt_of_lt_of_le (h.drawn id hid) hle

theorem Later.sound (hlater : Later s s') (h : s.Sound) : s'.Sound := by
  induction hlater with
  | refl => exact h
  | tail _ hstep ih => exact hstep.sound ih

/-- The record grows by what comes into the stream. -/
theorem Step.entered_eq (hstep : Step s s') :
    s'.entered = s.entered ++ entering s.editor s'.editor := by
  have hnone : ∀ {e e' : Editor}, e'.ids = e.ids → s.entered = s.entered ++ entering e e' := by
    intro e e' hids
    have hempty : entering e e' = [] := by
      rw [entering, hids, List.filter_eq_nil_iff]
      intro id hid
      simpa using hid
    rw [hempty, List.append_nil]
  cases hstep with
  | make => exact hnone rfl
  | draw => exact hnone rfl
  | insert | apply | copy => rfl

/-- An id that has left the stream stays away from it. -/
theorem Later.absent (hlater : Later s s') (h : s.Sound) {id : TokenId} (hid : id ∈ s.entered)
    (habsent : id ∉ s.editor.ids) : id ∈ s'.entered ∧ id ∉ s'.editor.ids := by
  induction hlater with
  | refl => exact ⟨hid, habsent⟩
  | @tail s₁ s₂ hbefore hstep ih =>
      obtain ⟨hentered, hout⟩ := ih
      have hsound := hstep.sound (Later.sound hbefore h)
      rw [hstep.entered_eq]
      refine ⟨List.mem_append_left _ hentered, ?_⟩
      intro hin
      -- it would be recorded a second time
      have honce := (List.nodup_append.mp hsound.distinct).2.1
      rw [hstep.entered_eq] at honce
      exact (List.nodup_append.mp honce).2.2 id hentered id (mem_entering.mpr ⟨hin, hout⟩) rfl

end History

/-! ## Streams -/

section Streams

variable {e : Editor}

/-- What an operation has done to the stream can be told from the stream. -/
theorem apply_effect_unique (op : Operation) {k k' : Effect} (hk : k ∈ op.effects)
    (hk' : k' ∈ op.effects) (h : Edits e op.brought k (e.apply op).2.tokens)
    (h' : Edits e op.brought k' (e.apply op).2.tokens) : k = k' := by
  by_cases hreset : op = .reset
  · subst hreset
    rw [List.mem_singleton.mp hk, List.mem_singleton.mp hk']
  · refine h.effect_unique h' ?_ ?_
    · exact fun hclearing => hreset ((mem_effects hk).1 hclearing)
    · exact fun hclearing => hreset ((mem_effects hk').1 hclearing)

/-- An operation that may only leave the stream alone leaves the result alone, too. -/
theorem Consistent.apply_quiet (h : e.Consistent) {op : Operation} (hop : op.effects = [.keep]) :
    (e.apply op).2.tokens = e.tokens ∧ (e.apply op).2.evaluation = e.evaluation := by
  have hdrawn : op.Drawn e.supply := by
    cases op with
    | insert => cases hop
    | _ => trivial
  obtain ⟨k, hk, hedits⟩ := (apply_alters h op).effect
  rw [hop, List.mem_singleton] at hk
  subst hk
  have htokens := hedits.eq_of_keep
  refine ⟨htokens, ?_⟩
  rw [(h.apply hdrawn).evaluated, htokens, h.evaluated]

/-- An operation does exactly one of the things to the stream that it may do, and in a run whose
host puts in every token that it makes at most once, no id comes into the stream twice. -/
theorem stream_effects :
    (∀ {e : Editor}, e.Reachable →
      (∀ op : Operation, ∃ k ∈ op.effects, Edits e op.brought k (e.apply op).2.tokens ∧
        (∀ k' ∈ op.effects, Edits e op.brought k' (e.apply op).2.tokens → k' = k) ∧
        (k = .pair → op.StrikesOperator) ∧ (k = .clearing → op = .reset) ∧
        (k ≠ .clearing → ∃ concerned : List TokenId, concerned.length ≤ k.extent ∧
          without concerned (e.apply op).2.tokens = without concerned e.tokens) ∧
        (op.effects = [.keep] →
          (e.apply op).2.tokens = e.tokens ∧ (e.apply op).2.evaluation = e.evaluation)) ∧
      ∀ id content, ∃ k ∈ [Effect.keep, .replacement],
        Edits e none k (e.replace id content).2.tokens) ∧
    ∀ {options : EditorOptions} {supply : IdSupply} {s : History},
      (History.new options supply).Later s →
        s.entered.Nodup ∧ (∀ id ∈ s.editor.ids, id ∈ s.entered) ∧
        ∀ id ∈ s.entered, id ∉ s.editor.ids → ∀ s', s.Later s' → id ∉ s'.editor.ids := by
  constructor
  · intro e h
    refine ⟨fun op => ?_, fun id content => (replace_alters e id content).effect⟩
    obtain ⟨k, hk, hedits⟩ := (apply_alters h.consistent op).effect
    obtain ⟨hreset, hoperator⟩ := mem_effects hk
    refine ⟨k, hk, hedits, ?_, hoperator, hreset, hedits.frame, h.consistent.apply_quiet⟩
    intro k' hk' hedits'
    exact apply_effect_unique op hk' hk hedits' hedits
  · intro options supply s hrun
    have hsound := hrun.sound (.new options supply)
    refine ⟨(List.nodup_append.mp hsound.distinct).2.1, hsound.recorded, ?_⟩
    intro id hid habsent s' hlater
    exact (hlater.absent hsound hid habsent).2

/-- The history of an editor into which a parenthesis is put and taken out again, before a digit is
typed. -/
def takenOut : History :=
  let start := History.new {} .initial
  let made : History :=
    { start with editor := start.editor.mint.2, made := start.editor.mint.1 :: start.made }
  let put := made.record (made.editor.insert 0 ⟨⟨1⟩, .operator .lparen⟩) (made.made.erase ⟨1⟩)
  let taken := put.record (put.editor.apply (.delete ⟨1⟩)).2 put.made
  taken.record (taken.editor.apply (.press (.char '3'))).2 taken.made

theorem later_takenOut : (History.new {} .initial).Later takenOut := by
  refine .tail (.tail (.tail (.tail .refl .make) (.insert 0 ⟨⟨1⟩, .operator .lparen⟩ ?_))
    (.apply (.delete ⟨1⟩) rfl)) (.apply (.press (.char '3')) rfl)
  exact List.mem_cons_self

theorem takenOut_stays_out :
    ⟨1⟩ ∈ takenOut.entered ∧ ⟨1⟩ ∉ takenOut.editor.ids ∧
      ⟨1⟩ ∉ (takenOut.editor.apply (.press (.char '+'))).2.ids ∧
      ∃ k ∈ [Effect.insertion, .pair],
        Edits (Editor.new {}) none k ((Editor.new {}).apply (.press (.char '+'))).2.tokens := by
  have hentered : ⟨1⟩ ∈ takenOut.entered := by decide
  have habsent : ⟨1⟩ ∉ takenOut.editor.ids := by decide
  obtain ⟨hstep, hrun⟩ := stream_effects
  obtain ⟨k, hk, hedits, -⟩ := (hstep (.new {} .initial)).1 (.press (.char '+'))
  have hlater : takenOut.Later
      (takenOut.record (takenOut.editor.apply (.press (.char '+'))).2 takenOut.made) :=
    .single (.apply (.press (.char '+')) rfl)
  have hout := (hrun later_takenOut).2.2 _ hentered habsent _ hlater
  exact ⟨hentered, habsent, hout, k, hk, hedits⟩

end Streams

end FormulaBar.Editor
