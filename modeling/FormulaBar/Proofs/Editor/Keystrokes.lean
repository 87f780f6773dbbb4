import FormulaBar.Proofs.Editor.Consistency
import FormulaBar.Proofs.Formula.Items

/-!
# Typing a formula

The keys of a row of items put the contents of the row into the stream at the cursor, one token for
each item. A number stays in the buffer until the next operator or the final key commits it, and
nothing that happens between two keys touches the stream or the buffer.

1. **Delivery** of keys, and what may happen in between.
2. **Progress**: what is in the stream and in the buffer when a part of the row has been typed.
3. **Keys**: how far each key gets.
4. **Rows**, and what they are evaluated to.
-/

namespace FormulaBar.Editor

open Formula (Item Literal)

/-! ## Delivery -/

/-- What may happen between two keys: a lookup is taken, any answer comes in, or the switches are
set. -/
inductive Aside : Editor → Editor → Prop where
  | take (e : Editor) : Aside e (Editor.takeRequest e).2
  | receive (e : Editor) (r : Lookup.Response) : Aside e (e.receive r).2
  | setOptions (e : Editor) (options : EditorOptions) : Aside e (Editor.setOptions e options)

/-- Keys are delivered one by one, with asides before, between and after them. -/
inductive Delivers : List Key → Editor → Editor → Prop where
  | done (e : Editor) : Delivers [] e e
  | press {k : Key} {ks : List Key} {e e' : Editor} (h : Delivers ks (e.press k) e') :
      Delivers (k :: ks) e e'
  | aside {ks : List Key} {e e₁ e' : Editor} (ha : Aside e e₁) (h : Delivers ks e₁ e') :
      Delivers ks e e'

section Delivery

variable {e e' : Editor} {k : Key} {ks : List Key} {P : Editor → Prop}

/-- An aside touches neither the stream nor the buffer. -/
theorem Aside.frame (h : Aside e e') :
    e'.tokens = e.tokens ∧ e'.cursor = e.cursor ∧ e'.buffer = e.buffer := by
  cases h with
  | take => exact ⟨rfl, rfl, rfl⟩
  | receive r =>
      unfold Editor.receive
      split <;> exact ⟨rfl, rfl, rfl⟩
  | setOptions options =>
      unfold Editor.setOptions
      dsimp only
      split <;> exact ⟨rfl, rfl, rfl⟩

theorem Aside.consistent (h : Aside e e') (he : e.Consistent) : e'.Consistent := by
  cases h with
  | take => exact he.of_stream rfl rfl rfl rfl he.editing
  | receive r => exact he.receive r
  | setOptions options => exact he.setOptions options

theorem Delivers.consistent (h : Delivers ks e e') (he : e.Consistent) : e'.Consistent := by
  induction h with
  | done => exact he
  | press _ ih => exact ih (he.press _)
  | aside ha _ ih => exact ih (ha.consistent he)

/-- What asides keep still holds when the next key is pressed. -/
theorem Delivers.next (hP : ∀ {e e₁}, Aside e e₁ → P e → P e₁) (h : Delivers (k :: ks) e e')
    (he : P e) : ∃ e₁, P e₁ ∧ Delivers ks (e₁.press k) e' := by
  generalize hkeys : k :: ks = keys at h
  induction h with
  | done => cases hkeys
  | press h =>
      cases hkeys
      exact ⟨_, he, h⟩
  | aside ha _ ih => exact ih (hP ha he) hkeys

/-- What asides keep holds at the end. -/
theorem Delivers.last (hP : ∀ {e e₁}, Aside e e₁ → P e → P e₁) (h : Delivers [] e e')
    (he : P e) : P e' := by
  generalize hkeys : [] = keys at h
  induction h with
  | done => exact he
  | press => cases hkeys
  | aside ha _ ih => exact ih (hP ha he) hkeys

end Delivery

/-! ## Progress -/

/-- How far typing has got: tokens with the given contents stand where the cursor was, the cursor
stands behind them, and the buffer holds the given characters. -/
structure Typed (front back : List Token) (contents : List Content) (text : List Char)
    (e : Editor) : Prop where
  tokens : ∃ typed : List Token, typed.map Token.content = contents ∧
    e.tokens = front ++ typed ++ back
  cursor : e.cursor = front.length + contents.length
  buffer : e.buffer = String.ofList text

section Progress

variable {front back : List Token} {contents : List Content} {text : List Char} {e e' : Editor}

/-- Progress is a matter of the stream, the cursor and the buffer. -/
theorem Typed.of_frame (h : Typed front back contents text e)
    (hframe : e'.tokens = e.tokens ∧ e'.cursor = e.cursor ∧ e'.buffer = e.buffer) :
    Typed front back contents text e' where
  tokens := by rw [hframe.1]; exact h.tokens
  cursor := by rw [hframe.2.1]; exact h.cursor
  buffer := by rw [hframe.2.2]; exact h.buffer

theorem Typed.aside (ha : Aside e e') (h : Typed front back contents text e) :
    Typed front back contents text e' :=
  h.of_frame ha.frame

/-- A new token at the cursor is typed behind the others. -/
theorem Typed.insertNew (h : Typed front back contents text e) (content : Content) :
    Typed front back (contents ++ [content]) [] (e.insertNew e.cursor content) := by
  obtain ⟨typed, hcontents, htokens⟩ := h.tokens
  have hinserts := insertNew_inserts e content
  obtain ⟨id, hnew⟩ := hinserts.tokens
  have hlength : (front ++ typed).length = e.cursor := by
    rw [h.cursor, ← hcontents, List.length_append, List.length_map]
  constructor
  · refine ⟨typed ++ [⟨id, content⟩], ?_, ?_⟩
    · rw [List.map_append, hcontents]
      rfl
    · rw [hnew, htokens, List.take_left' hlength, List.drop_left' hlength]
      simp
  · have hle : e.cursor ≤ e.tokens.length := by
      rw [htokens, List.length_append, hlength]
      exact Nat.le_add_right _ _
    rw [hinserts.cursor, Nat.min_eq_left hle, h.cursor, List.length_append]
    rfl
  · exact hinserts.buffer

end Progress

/-! ## Keys -/

section Keys

variable {front back : List Token} {contents : List Content} {text : List Char} {e e' : Editor}
  {ks : List Key}

theorem searchBuffer_frame (e : Editor) :
    e.searchBuffer.tokens = e.tokens ∧ e.searchBuffer.cursor = e.cursor ∧
      e.searchBuffer.buffer = e.buffer := by
  unfold searchBuffer
  split
  · exact ⟨closeEdit_tokens e, closeEdit_cursor e, closeEdit_buffer e⟩
  · exact ⟨rfl, rfl, rfl⟩

/-- A plain character goes to the end of the buffer. -/
theorem Typed.press_char (h : Typed front back contents text e) {c : Char}
    (hop : Operator.ofChar? c = none) (hcontrol : Text.isControl c = false) :
    Typed front back contents (text ++ [c]) (e.press (.char c)) := by
  have hpush : Typed front back contents (text ++ [c]) { e with buffer := e.buffer.push c } := by
    refine ⟨h.tokens, h.cursor, ?_⟩
    show e.buffer.push c = _
    rw [h.buffer]
    apply String.toList_inj.mp
    simp
  have hpress : e.press (.char c) = { e with buffer := e.buffer.push c }.searchBuffer := by
    simp only [press, hop, hcontrol]
    rfl
  rw [hpress]
  exact hpush.of_frame (searchBuffer_frame _)

/-- The characters of a number that waits in the buffer, if one does. -/
def held (number : Option Literal) : List Char := (number.map fun l => l.text.toList).getD []

/-- The content that a number in the buffer will be committed as. -/
def heldContents (number : Option Literal) : List Content :=
  number.toList.map fun l => (Item.literal l).content

theorem commitNumber?_of_empty (h : e.buffer = "") : e.commitNumber? = none := by
  rw [commitNumber?, h]
  rfl

theorem commitNumber?_of_literal {l : Literal} (h : e.buffer = l.text) :
    e.commitNumber? = some (e.insertNew e.cursor (Item.literal l).content) := by
  rw [commitNumber?, h, l.typed]
  rfl

/-- A number in the buffer is committed, and an empty buffer commits nothing. -/
theorem Typed.commitNumber {number : Option Literal}
    (h : Typed front back contents (held number) e) :
    Typed front back (contents ++ heldContents number) [] (e.commitNumber?.getD e) := by
  cases number with
  | none =>
      rw [commitNumber?_of_empty h.buffer, heldContents, Option.toList_none, List.map_nil,
        List.append_nil]
      exact h
  | some l =>
      have hbuffer : e.buffer = l.text := h.buffer.trans String.ofList_toList
      rw [commitNumber?_of_literal hbuffer]
      exact h.insertNew _

theorem Typed.press_operator {number : Option Literal}
    (h : Typed front back contents (held number) e) (op : Operator) :
    Typed front back (contents ++ heldContents number ++ [.operator op]) []
      (e.press (.char op.glyph)) := by
  have hpress : e.press (.char op.glyph) = e.commitOperator op := by
    simp only [press, Operator.ofChar?_glyph]
  rw [hpress]
  exact h.commitNumber.insertNew _

/-- The final key commits the number that is left in the buffer, and no candidate. -/
theorem Typed.press_enter {number : Option Literal}
    (h : Typed front back contents (held number) e) :
    Typed front back (contents ++ heldContents number) [] (e.press .enter) := by
  have hcommit : e.press .enter = e.commitNumber?.getD e := by
    show e.commit = _
    unfold Editor.commit
    cases number with
    | none =>
        have hempty : e.buffer = "" := h.buffer
        rw [commitNumber?_of_empty hempty, hempty]
        rfl
    | some l =>
        -- there is more in the buffer than blanks
        have hbuffer : e.buffer = l.text := h.buffer.trans String.ofList_toList
        have hfull : ¬(Text.trim e.buffer).isEmpty = true := by
          rw [hbuffer, l.trim_not_empty]
          exact Bool.false_ne_true
        rw [if_neg hfull, commitNumber?_of_literal hbuffer]
        rfl
  rw [hcommit]
  exact h.commitNumber

/-- The characters of a number are typed into the buffer. -/
theorem Typed.type_chars {cs : List Char} (h : Typed front back contents text e)
    (hcs : ∀ c ∈ cs, Operator.ofChar? c = none ∧ Text.isControl c = false)
    (hd : Delivers (cs.map Key.char ++ ks) e e') :
    ∃ e₁, Typed front back contents (text ++ cs) e₁ ∧ Delivers ks e₁ e' := by
  induction cs generalizing text e with
  | nil => exact ⟨e, by rwa [List.append_nil], hd⟩
  | cons c cs ih =>
      obtain ⟨hop, hcontrol⟩ := hcs c List.mem_cons_self
      obtain ⟨e₁, h₁, hd₁⟩ := Delivers.next Typed.aside hd h
      have hrest : ∀ c ∈ cs, Operator.ofChar? c = none ∧ Text.isControl c = false :=
        fun c hc => hcs c (List.mem_cons_of_mem _ hc)
      have htyped := ih (h₁.press_char hop hcontrol) hrest hd₁
      rwa [List.append_assoc] at htyped

end Keys

/-! ## Rows -/

/-- A row is typed to its end from wherever typing has got. -/
theorem Typed.type_items {front back : List Token} {contents : List Content} {e e' : Editor}
    {number : Option Literal} {w : List Item} (h : Typed front back contents (held number) e)
    (hw : (number.toList.map Item.literal ++ w).IsChain Item.Separate)
    (hd : Delivers ((w.flatMap Item.chars).map Key.char ++ [.enter]) e e') :
    Typed front back (contents ++ heldContents number ++ w.map Item.content) [] e' := by
  induction w generalizing contents e number with
  | nil =>
      obtain ⟨e₁, h₁, hd₁⟩ := Delivers.next Typed.aside hd h
      rw [List.map_nil, List.append_nil]
      exact Delivers.last Typed.aside hd₁ h₁.press_enter
  | cons item w ih =>
      cases item with
      | operator op =>
          -- the operator commits the number before it
          obtain ⟨e₁, h₁, hd₁⟩ := Delivers.next Typed.aside hd h
          have hop : Typed front back (contents ++ heldContents number ++ [.operator op])
              (held none) (e₁.press (.char op.glyph)) := h₁.press_operator op
          have hrow : ((none : Option Literal).toList.map Item.literal ++ w).IsChain
              Item.Separate := hw.right_of_append.tail
          have hend := ih hop hrow hd₁
          simpa [heldContents, Item.content] using hend
      | literal l =>
          cases number with
          | some l' => exact absurd (List.isChain_cons_cons.mp hw).1 id
          | none =>
              rw [List.flatMap_cons, List.map_append, List.append_assoc] at hd
              obtain ⟨e₁, h₁, hd₁⟩ := h.type_chars l.plain hd
              have hnumber : Typed front back contents (held (some l)) e₁ := h₁
              have hrow : ((some l).toList.map Item.literal ++ w).IsChain Item.Separate := hw
              have hend := ih hnumber hrow hd₁
              simpa [heldContents] using hend

variable {e e' : Editor} {w : List Item}

/-- Typing a formula puts its items into the stream at the cursor. Typed into an empty editor it has
the value of its text, or the fault for which its text has none. -/
theorem Reachable.type_formula (h : e.Reachable) (hbuffer : e.buffer = "")
    (hw : w.IsChain Item.Separate)
    (hd : Delivers ((w.flatMap Item.chars).map Key.char ++ [.enter]) e e') :
    (∃ typed : List Token, typed.map Token.content = w.map Item.content ∧
      e'.tokens = e.tokens.take e.cursor ++ typed ++ e.tokens.drop e.cursor) ∧
    e'.cursor = e.cursor + w.length ∧ e'.buffer = "" ∧
    (e.tokens = [] → w ≠ [] →
      (∀ v, e'.evaluation = .value v ↔
        Formula.evaluateText (String.ofList (w.flatMap Item.chars)) = .ok v) ∧
      ∀ cause, e'.evaluation = .invalid cause ↔
        Formula.evaluateText (String.ofList (w.flatMap Item.chars)) = .error cause) := by
  have hconsistent := h.consistent
  have hlength : (e.tokens.take e.cursor).length = e.cursor :=
    List.length_take_of_le hconsistent.cursor_le
  have hstart : Typed (e.tokens.take e.cursor) (e.tokens.drop e.cursor) [] (held none) e := by
    refine ⟨⟨[], rfl, ?_⟩, ?_, hbuffer⟩
    · rw [List.append_nil, List.take_append_drop]
    · rw [hlength]
      rfl
  have hend := hstart.type_items hw hd
  refine ⟨hend.tokens, ?_, hend.buffer, ?_⟩
  · have hcursor := hend.cursor
    rw [hlength] at hcursor
    simpa [heldContents] using hcursor
  · intro hempty hne
    obtain ⟨typed, hcontents, htokens⟩ := hend.tokens
    have hstream : e'.tokens = typed := by
      simpa [hempty] using htokens
    rw [(hd.consistent hconsistent).evaluated, hstream, Formula.evaluate_items hw hne hcontents]
    exact ⟨fun v => Formula.Evaluation.ofExcept_eq_value_iff,
      fun cause => Formula.Evaluation.ofExcept_eq_invalid_iff⟩

/-- The number two, as it is typed. -/
def two : Literal where
  text := "2"
  value := 2
  typed := by decide +kernel
  plain := by simp [Operator.ofChar?, Text.isControl]

/-- The number three, typed with a blank before it. -/
def three : Literal where
  text := " 3"
  value := 3
  typed := by decide +kernel
  plain := by simp [Operator.ofChar?, Text.isControl]

/-- A sum is typed into an empty editor while the lookup for its first digit is taken and answered. -/
theorem sum_typed :
    let e := Editor.new {}
    let answered := ((e.press (.char '2')).takeRequest.2.receive ⟨1, "2", .buffer, []⟩).2
    let e' := (((answered.press (.char '+')).press (.char ' ')).press (.char '3')).press .enter
    (∃ typed : List Token,
      typed.map Token.content = [.number "2" 2, .operator .add, .number "3" 3] ∧
      e'.tokens = typed) ∧
    e'.cursor = 3 ∧ e'.buffer = "" ∧ e'.evaluation = .value 5 := by
  intro e answered e'
  let row := [Item.literal two, .operator .add, .literal three]
  have hrow : row.IsChain Item.Separate := by
    simp [row, Item.Separate]
  have hd : Delivers ((row.flatMap Item.chars).map Key.char ++ [.enter]) e e' :=
    .press (.aside (.take _) (.aside (.receive _ _) (.press (.press (.press (.press (.done _)))))))
  obtain ⟨⟨typed, hcontents, htokens⟩, hcursor, hbuffer, hvalue⟩ :=
    Reachable.type_formula (.new {} .initial) rfl hrow hd
  have hfive : Formula.evaluateText (String.ofList (row.flatMap Item.chars)) = .ok 5 := by
    decide +kernel
  refine ⟨⟨typed, ?_, ?_⟩, hcursor, hbuffer, ((hvalue rfl (List.cons_ne_nil _ _)).1 5).mpr hfive⟩
  · rw [hcontents]
    decide
  · exact htokens.trans (List.append_nil typed)

end FormulaBar.Editor
