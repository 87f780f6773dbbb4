import FormulaBar.Proofs.Editor.Consistency

/-!
# What an operation may do to the stream

An operation leaves the stream alone, or it puts in one token, or a number and an operator, or it
takes one token out, or it replaces what one token stands for, or it empties the stream. Which of
these it may do can be read off the operation.

1. **Effects** on a stream, and the tokens that they concern.
2. **Operations** and the effects that each may have.
3. **Parts of operations**, and then every operation.
-/

namespace FormulaBar.Editor

/-! ## Effects -/

/-- What may happen to a stream. -/
inductive Effect where
  /-- Nothing. -/
  | keep
  /-- One token is put in. -/
  | insertion
  /-- A number and an operator behind it are put in at the cursor. -/
  | pair
  /-- One token is taken out. -/
  | removal
  /-- One token stands for something else. -/
  | replacement
  /-- All tokens are taken out. -/
  | clearing
deriving Repr, DecidableEq

/-- An id under which a token may be put into the stream: it is not in use, and it is still to be
given out, or the token was brought along under it. -/
def Admits (e : Editor) (brought : Option TokenId) (id : TokenId) : Prop :=
  id ∉ e.ids ∧ (e.supply.next ≤ id.number ∨ brought = some id)

/-- The stream of an editor and what becomes of it, effect by effect. -/
inductive Edits (e : Editor) (brought : Option TokenId) : Effect → List Token → Prop where
  | keep : Edits e brought .keep e.tokens
  | insertion {index : Nat} {t : Token} (hindex : index ≤ e.tokens.length)
      (hid : Admits e brought t.id) :
      Edits e brought .insertion (e.tokens.take index ++ t :: e.tokens.drop index)
  | pair {number operator : Token} {text : String} {v : Float} {op : Operator}
      (hnumber : number.content = .number text v) (hoperator : operator.content = .operator op)
      (hfirst : Admits e brought number.id) (hsecond : Admits e brought operator.id)
      (hne : number.id ≠ operator.id) :
      Edits e brought .pair
        (e.tokens.take e.cursor ++ number :: operator :: e.tokens.drop e.cursor)
  | removal {index : Nat} (hindex : index < e.tokens.length) :
      Edits e brought .removal (e.tokens.eraseIdx index)
  | replacement {index : Nat} {t : Token} {content : Content} (ht : e.tokens[index]? = some t)
      (hne : content ≠ t.content) :
      Edits e brought .replacement (e.tokens.set index ⟨t.id, content⟩)
  | clearing : Edits e brought .clearing []

/-- By how much an effect makes the stream longer, unless it empties it. -/
def Effect.growth : Effect → Int
  | .insertion => 1
  | .pair => 2
  | .removal => -1
  | .keep | .replacement | .clearing => 0

/-- How many tokens an effect concerns at most, unless it empties the stream. -/
def Effect.extent : Effect → Nat
  | .keep => 0
  | .pair => 2
  | .insertion | .removal | .replacement | .clearing => 1

section Edits

variable {e : Editor} {brought : Option TokenId} {k k' : Effect} {ts : List Token}

theorem Edits.length_eq (h : Edits e brought k ts) (hk : k ≠ .clearing) :
    (ts.length : Int) = e.tokens.length + k.growth := by
  cases h with
  | keep => exact (Int.add_zero _).symm
  | insertion hindex =>
      simp only [List.length_append, List.length_take, List.length_cons, List.length_drop,
        Effect.growth]
      omega
  | pair =>
      simp only [List.length_append, List.length_take, List.length_cons, List.length_drop,
        Effect.growth]
      omega
  | removal hindex =>
      rw [List.length_eraseIdx_of_lt hindex, Effect.growth]
      omega
  | replacement =>
      rw [List.length_set]
      exact (Int.add_zero _).symm
  | clearing => exact absurd rfl hk

/-- The ids afterwards are ids from before, or ones that may be used for a token. -/
theorem Edits.mem_ids (h : Edits e brought k ts) {id : TokenId} (hid : id ∈ ts.map Token.id) :
    id ∈ e.ids ∨ Admits e brought id := by
  obtain ⟨t, ht, rfl⟩ := List.mem_map.mp hid
  have hmem : ∀ {t}, t ∈ e.tokens → t.id ∈ e.ids := List.mem_map_of_mem
  cases h with
  | keep => exact .inl (hmem ht)
  | insertion hindex hnew =>
      rcases List.mem_append.mp ht with htake | hdrop
      · exact .inl (hmem (List.mem_of_mem_take htake))
      · rcases List.mem_cons.mp hdrop with rfl | hdrop
        · exact .inr hnew
        · exact .inl (hmem (List.mem_of_mem_drop hdrop))
  | pair hnumber hoperator hfirst hsecond =>
      rcases List.mem_append.mp ht with htake | hdrop
      · exact .inl (hmem (List.mem_of_mem_take htake))
      · rcases List.mem_cons.mp hdrop with rfl | hdrop
        · exact .inr hfirst
        · rcases List.mem_cons.mp hdrop with rfl | hdrop
          · exact .inr hsecond
          · exact .inl (hmem (List.mem_of_mem_drop hdrop))
  | removal => exact .inl (hmem (List.mem_of_mem_eraseIdx ht))
  | @replacement index t content hold =>
      have hslot : t.id ∈ e.ids := hmem (List.mem_of_getElem? hold)
      rcases List.mem_or_eq_of_mem_set ht with hother | rfl
      · exact .inl (hmem hother)
      · exact .inl hslot
  | clearing => cases ht

/-- A token that stands for something else is not as it was. -/
theorem set_ne_self {index : Nat} {t : Token} {content : Content}
    (ht : e.tokens[index]? = some t) (hne : content ≠ t.content) :
    e.tokens.set index ⟨t.id, content⟩ ≠ e.tokens := by
  intro hsame
  have hget := List.getElem?_set_self (List.getElem?_eq_some_iff.mp ht).1 (a := ⟨t.id, content⟩)
  rw [hsame, ht, Option.some_inj] at hget
  exact hne (congrArg Token.content hget).symm

theorem Edits.eq_of_keep (h : Edits e brought .keep ts) : ts = e.tokens := by
  cases h
  rfl

theorem Edits.ne_of_replacement (h : Edits e brought .replacement ts) : ts ≠ e.tokens := by
  cases h with
  | replacement ht hne => exact set_ne_self ht hne

/-- Only leaving the stream alone and replacing a token make it neither longer nor shorter. -/
theorem Effect.eq_of_growth (hk : k ≠ .clearing) (hk' : k' ≠ .clearing)
    (h : k.growth = k'.growth) :
    k = k' ∨ (k = .keep ∧ k' = .replacement) ∨ (k = .replacement ∧ k' = .keep) := by
  cases k <;> cases k' <;> simp_all [growth]

/-- A stream shows which effect there was, unless it was emptied. -/
theorem Edits.effect_unique (h : Edits e brought k ts) (h' : Edits e brought k' ts)
    (hk : k ≠ .clearing) (hk' : k' ≠ .clearing) : k = k' := by
  have hgrowth : k.growth = k'.growth := by
    have hlength := h.length_eq hk
    have hlength' := h'.length_eq hk'
    omega
  rcases Effect.eq_of_growth hk hk' hgrowth with hsame | ⟨rfl, rfl⟩ | ⟨rfl, rfl⟩
  · exact hsame
  · exact absurd h.eq_of_keep h'.ne_of_replacement
  · exact absurd h'.eq_of_keep h.ne_of_replacement

/-- Tokens but for those with some ids, in their order. -/
def without (out : List TokenId) (ts : List Token) : List Token :=
  ts.filter fun t => t.id ∉ out

theorem without_append (out : List TokenId) (us vs : List Token) :
    without out (us ++ vs) = without out us ++ without out vs :=
  List.filter_append _ _

theorem without_cons_of_mem {out : List TokenId} {t : Token} (h : t.id ∈ out) (us : List Token) :
    without out (t :: us) = without out us :=
  List.filter_cons_of_neg (by simpa using h)

theorem without_of_getElem? {us : List Token} {index : Nat} {t : Token}
    (ht : us[index]? = some t) : without [t.id] us =
      without [t.id] (us.take index) ++ without [t.id] (us.drop (index + 1)) := by
  obtain ⟨hindex, rfl⟩ := List.getElem?_eq_some_iff.mp ht
  have hsplit : us = us.take index ++ us[index] :: us.drop (index + 1) := by
    rw [← List.drop_eq_getElem_cons hindex, List.take_append_drop]
  calc without [us[index].id] us
      = without [us[index].id] (us.take index ++ us[index] :: us.drop (index + 1)) :=
        congrArg (without [us[index].id]) hsplit
    _ = _ := by rw [without_append, without_cons_of_mem List.mem_cons_self]

/-- All tokens but those concerned stay as they are, and in their order. -/
theorem Edits.frame (h : Edits e brought k ts) (hk : k ≠ .clearing) :
    ∃ concerned : List TokenId, concerned.length ≤ k.extent ∧
      without concerned ts = without concerned e.tokens := by
  cases h with
  | keep => exact ⟨[], Nat.le_refl _, rfl⟩
  | @insertion index t =>
      refine ⟨[t.id], Nat.le_refl _, ?_⟩
      rw [without_append, without_cons_of_mem List.mem_cons_self, ← without_append,
        List.take_append_drop]
  | @pair number operator =>
      refine ⟨[number.id, operator.id], Nat.le_refl _, ?_⟩
      rw [without_append, without_cons_of_mem List.mem_cons_self,
        without_cons_of_mem (List.mem_cons_of_mem _ List.mem_cons_self), ← without_append,
        List.take_append_drop]
  | @removal index hindex =>
      refine ⟨[e.tokens[index].id], Nat.le_refl _, ?_⟩
      rw [List.eraseIdx_eq_take_drop_succ, without_append,
        without_of_getElem? (List.getElem?_eq_getElem hindex)]
  | @replacement index t content ht =>
      obtain ⟨hindex, -⟩ := List.getElem?_eq_some_iff.mp ht
      refine ⟨[t.id], Nat.le_refl _, ?_⟩
      have hid : (Token.mk t.id content).id ∈ [t.id] := List.mem_cons_self
      rw [List.set_eq_take_append_cons_drop, if_pos hindex, without_append,
        without_cons_of_mem hid, without_of_getElem? ht]
  | clearing => exact absurd rfl hk

end Edits

/-! ## Operations -/

section Effects

variable {k' : Effect}

/-- What a key may do to the stream. Only an operator puts in two tokens. -/
def Effect.ofKey : Key → List Effect
  | .char c => if (Operator.ofChar? c).isSome then [.insertion, .pair] else [.keep]
  | .enter => [.keep, .insertion]
  | .backspace => [.keep, .removal]
  | .left | .right | .escape => [.keep]

/-- What an event may do to the stream. -/
def Effect.ofEvent : InputEvent → List Effect
  | .key k => ofKey k
  | .click _ => [.keep]
  | .pick _ => [.keep, .insertion, .replacement]

/-- What an operation may do to the stream. -/
def Operation.effects : Operation → List Effect
  | .press k => Effect.ofKey k
  | .react ev => Effect.ofEvent ev
  | .insertNew .. | .insert .. => [.insertion]
  | .remove _ | .delete _ => [.keep, .removal]
  | .replace .. | .commitEdit | .pickEdit _ => [.keep, .replacement]
  | .pick _ => [.keep, .insertion]
  | .setBuffer _ | .moveCursor _ | .placeCursor _ | .setOptions _ | .takeRequest | .receive _
  | .openEdit _ | .typeEdit _ | .closeEdit => [.keep]
  | .reset => [.clearing]

/-- The id that a token is brought along under. -/
def Operation.brought : Operation → Option TokenId
  | .insert _ t => some t.id
  | _ => none

/-- An operation that brings no token along needs no id to have been drawn. -/
theorem Operation.drawn_of_brought (op : Operation) (h : op.brought = none) (supply : IdSupply) :
    op.Drawn supply := by
  cases op with
  | insert => cases h
  | _ => trivial

/-- An operation strikes the key of an operator. -/
def Operation.StrikesOperator (op : Operation) : Prop :=
  ∃ c o, Operator.ofChar? c = some o ∧ (op = .press (.char c) ∨ op = .react (.key (.char c)))

theorem mem_ofKey {k : Key} (hk : k' ∈ Effect.ofKey k) :
    k' ≠ .clearing ∧ (k' = .pair → ∃ c o, Operator.ofChar? c = some o ∧ k = .char c) := by
  cases k with
  | char c =>
      cases hop : Operator.ofChar? c with
      | none =>
          rw [Effect.ofKey, hop] at hk
          rw [List.mem_singleton.mp hk]
          exact ⟨nofun, nofun⟩
      | some o =>
          refine ⟨?_, fun _ => ⟨c, o, hop, rfl⟩⟩
          rintro rfl
          simp [Effect.ofKey, hop] at hk
  | enter | backspace | left | right | escape => cases k' <;> simp [Effect.ofKey] at hk ⊢

/-- Only a reset empties the stream, and only an operator puts in two tokens. -/
theorem mem_effects {op : Operation} (hk : k' ∈ op.effects) :
    (k' = .clearing → op = .reset) ∧ (k' = .pair → op.StrikesOperator) := by
  cases op with
  | press k =>
      obtain ⟨hclearing, hpair⟩ := mem_ofKey hk
      refine ⟨fun h => absurd h hclearing, fun h => ?_⟩
      obtain ⟨c, o, hop, rfl⟩ := hpair h
      exact ⟨c, o, hop, .inl rfl⟩
  | react ev =>
      cases ev with
      | key k =>
          obtain ⟨hclearing, hpair⟩ := mem_ofKey hk
          refine ⟨fun h => absurd h hclearing, fun h => ?_⟩
          obtain ⟨c, o, hop, rfl⟩ := hpair h
          exact ⟨c, o, hop, .inr rfl⟩
      | click | pick => cases k' <;> simp [Operation.effects, Effect.ofEvent] at hk ⊢
  | _ => cases k' <;> simp [Operation.effects] at hk ⊢

end Effects

/-! ## Parts of operations -/

/-- The stream, the cursor, the buffer and the result are as they were. -/
structure Unaltered (e e' : Editor) : Prop where
  tokens : e'.tokens = e.tokens
  cursor : e'.cursor = e.cursor
  buffer : e'.buffer = e.buffer
  evaluation : e'.evaluation = e.evaluation

/-- What becomes of an editor: one of some effects on its stream, and no id goes back into the
supply. -/
structure Alters (e : Editor) (brought : Option TokenId) (ks : List Effect) (e' : Editor) :
    Prop where
  effect : ∃ k ∈ ks, Edits e brought k e'.tokens
  supply : e.supply.next ≤ e'.supply.next

section Alters

variable {e e₁ e' : Editor} {brought : Option TokenId} {ks ks' : List Effect}

theorem Alters.mono (h : Alters e brought ks e') (hks : ks ⊆ ks') : Alters e brought ks' e' where
  effect := by
    obtain ⟨k, hk, hedits⟩ := h.effect
    exact ⟨k, hks hk, hedits⟩
  supply := h.supply

/-- Where neither the stream nor the supply is touched, all is kept. -/
theorem Alters.keep (htokens : e'.tokens = e.tokens) (hsupply : e'.supply = e.supply)
    (hks : .keep ∈ ks) : Alters e brought ks e' where
  effect := by
    refine ⟨.keep, hks, ?_⟩
    rw [htokens]
    exact .keep
  supply := Nat.le_of_eq (congrArg IdSupply.next hsupply).symm

/-- Ids may be drawn, and the edit box closed, before the stream is altered. -/
theorem Edits.after {k : Effect} {ts : List Token} (h : Edits e₁ brought k ts)
    (htokens : e₁.tokens = e.tokens) (hcursor : e₁.cursor = e.cursor)
    (hsupply : e.supply.next ≤ e₁.supply.next) : Edits e brought k ts := by
  have hadmits : ∀ {id}, Admits e₁ brought id → Admits e brought id := by
    rintro id ⟨hunused, hnew⟩
    rw [ids, htokens] at hunused
    exact ⟨hunused, hnew.imp_left (Nat.le_trans hsupply)⟩
  cases h with
  | keep =>
      rw [htokens]
      exact .keep
  | insertion hindex hid =>
      rw [htokens] at hindex ⊢
      exact .insertion hindex (hadmits hid)
  | pair hnumber hoperator hfirst hsecond hne =>
      rw [htokens, hcursor]
      exact .pair hnumber hoperator (hadmits hfirst) (hadmits hsecond) hne
  | removal hindex =>
      rw [htokens] at hindex ⊢
      exact .removal hindex
  | replacement ht hne =>
      rw [htokens] at ht ⊢
      exact .replacement ht hne
  | clearing => exact .clearing

theorem Alters.after (h : Alters e₁ brought ks e') (htokens : e₁.tokens = e.tokens)
    (hcursor : e₁.cursor = e.cursor) (hsupply : e.supply.next ≤ e₁.supply.next) :
    Alters e brought ks e' where
  effect := by
    obtain ⟨k, hk, hedits⟩ := h.effect
    exact ⟨k, hk, hedits.after htokens hcursor hsupply⟩
  supply := Nat.le_trans hsupply h.supply

theorem Alters.closeEdit (h : Alters e.closeEdit brought ks e') : Alters e brought ks e' :=
  have hsupply : e.closeEdit.supply = e.supply := closeEdit_supply e
  h.after (closeEdit_tokens e) (closeEdit_cursor e)
    (Nat.le_of_eq (congrArg IdSupply.next hsupply).symm)

theorem Alters.mint (h : Alters e.mint.2 brought ks e') : Alters e brought ks e' :=
  h.after rfl rfl (Nat.le_succ _)

theorem place_alters {t : Token} (hid : Admits e brought t.id) (index : Nat) :
    Alters e brought [.insertion] (e.place index t) where
  effect := ⟨.insertion, List.mem_cons_self, .insertion (Nat.min_le_right _ _) hid⟩
  supply := Nat.le_refl _

/-- An id that is still to be given out may be used for a token. -/
theorem Consistent.admits (h : e.Consistent) {id : TokenId} (hid : e.supply.next ≤ id.number) :
    Admits e brought id := by
  refine ⟨?_, .inl hid⟩
  intro hmem
  exact Nat.not_lt.mpr hid (h.drawn id hmem)

/-- A token is placed after its id has been drawn. -/
theorem place_mint_alters {t : Token} (hid : Admits e brought t.id) (index : Nat) :
    Alters e brought [.insertion] (e.mint.2.place index t) where
  effect := ⟨.insertion, List.mem_cons_self, .insertion (Nat.min_le_right _ _) hid⟩
  supply := Nat.le_succ _

theorem insertNew_alters (h : e.Consistent) (index : Nat) (content : Content) :
    Alters e brought [.insertion] (e.insertNew index content) := by
  rw [h.insertNew_eq]
  exact place_mint_alters (t := ⟨e.mint.1, content⟩) (h.admits (Nat.le_refl _)) index

/-- A token that is brought along keeps its id, unless it is in use. -/
theorem insert_alters (h : e.Consistent) (index : Nat) (t : Token) :
    Alters e (some t.id) [.insertion] (e.insert index t) := by
  by_cases hmem : t.id ∈ e.ids
  · rw [insert_of_mem hmem]
    exact place_mint_alters (t := ⟨e.mint.1, t.content⟩) (h.admits (Nat.le_refl _)) index
  · rw [insert_of_not_mem hmem]
    exact place_alters ⟨hmem, .inr rfl⟩ index

/-- A token is taken out, wherever the cursor is put. -/
theorem erase_alters {index : Nat} (hindex : index < e.tokens.length) (cursor : Nat) :
    Alters e brought [.keep, .removal]
      ({ e.removeIndex index with cursor } : Editor).reevaluate where
  effect := by
    refine ⟨.removal, by simp, ?_⟩
    show Edits e brought .removal (e.removeIndex index).tokens
    rw [removeIndex_tokens]
    exact .removal hindex
  supply := by
    have hsupply : (e.removeIndex index).supply = e.supply := removeIndex_supply e index
    exact Nat.le_of_eq (congrArg IdSupply.next hsupply).symm

theorem remove_alters (e : Editor) (id : TokenId) :
    Alters e brought [.keep, .removal] (e.remove id).2 := by
  unfold remove
  split
  · exact .keep rfl rfl List.mem_cons_self
  · next index hposition =>
    obtain ⟨hindex, -⟩ := getElem_of_position? hposition
    exact erase_alters hindex _

theorem delete_alters (e : Editor) (id : TokenId) :
    Alters e brought [.keep, .removal] (e.delete id).2 := by
  unfold delete
  split
  · exact .keep rfl rfl List.mem_cons_self
  · next index hposition =>
    obtain ⟨hindex, -⟩ := getElem_of_position? hposition
    exact erase_alters hindex _

/-- The token under an id is replaced by one with another content, or by one that is the same. -/
theorem replace_alters (e : Editor) (id : TokenId) (content : Content) :
    Alters e brought [.keep, .replacement] (e.replace id content).2 := by
  unfold replace
  split
  · exact .keep rfl rfl List.mem_cons_self
  · next index hposition =>
    obtain ⟨hindex, rfl⟩ := getElem_of_position? hposition
    have ht : e.tokens[index]? = some e.tokens[index] := List.getElem?_eq_getElem hindex
    by_cases hsame : content = e.tokens[index].content
    · refine .keep ?_ rfl List.mem_cons_self
      show e.tokens.set index ⟨e.tokens[index].id, content⟩ = e.tokens
      rw [hsame]
      exact List.set_getElem_self hindex
    · exact ⟨⟨.replacement, by simp, .replacement ht hsame⟩, Nat.le_refl _⟩

theorem replaceNew_alters (e : Editor) (id : TokenId) (content : Content) :
    Alters e brought [.keep, .replacement] (e.replaceNew id content).2 :=
  Alters.mint (replace_alters e.mint.2 id content)

theorem searchBuffer_alters (e : Editor) (text : String) :
    Alters e brought [.keep] { e with buffer := text }.searchBuffer := by
  unfold searchBuffer
  split
  · exact .keep (closeEdit_tokens _) (closeEdit_supply _) List.mem_cons_self
  · exact .keep rfl rfl List.mem_cons_self

theorem backspace_alters (h : e.Consistent) :
    Alters e brought [.keep, .removal] e.backspace := by
  unfold backspace
  split
  · exact (searchBuffer_alters e _).mono (by simp)
  · split
    · exact .keep rfl rfl List.mem_cons_self
    · next hcursor =>
      have hle := h.cursor_le
      exact erase_alters (by omega) _

/-- A token that is placed where there are tokens before it stands behind them. -/
theorem place_tokens {index : Nat} (hindex : index ≤ e.tokens.length) (t : Token) :
    (e.place index t).tokens = e.tokens.take index ++ t :: e.tokens.drop index ∧
      (e.place index t).cursor = index + 1 := by
  refine ⟨place_split e index t, ?_⟩
  show min index e.tokens.length + 1 = _
  rw [Nat.min_eq_left hindex]

/-- A second token that is placed at the cursor goes behind the first, which the cursor has passed. -/
theorem place_second_tokens (hcursor : e.cursor ≤ e.tokens.length) {t : Token}
    (he₁ : e₁ = e.mint.2.place e.cursor t) (hcursor₁ : e₁.cursor ≤ e₁.tokens.length) (t' : Token) :
    (e₁.mint.2.place e₁.cursor t').tokens =
      e.tokens.take e.cursor ++ t :: t' :: e.tokens.drop e.cursor := by
  obtain ⟨htokens, hpassed⟩ := place_tokens (e := e.mint.2) hcursor t
  obtain ⟨htokens', -⟩ := place_tokens (e := e₁.mint.2) hcursor₁ t'
  rw [← he₁] at htokens hpassed
  have hlength : (e.tokens.take e.cursor ++ [t]).length = e₁.cursor := by
    rw [List.length_append, List.length_take_of_le hcursor]
    exact hpassed.symm
  have hsplit : e₁.tokens = (e.tokens.take e.cursor ++ [t]) ++ e.tokens.drop e.cursor := by
    rw [List.append_assoc]
    exact htokens
  rw [htokens']
  show e₁.tokens.take e₁.cursor ++ t' :: e₁.tokens.drop e₁.cursor = _
  rw [hsplit, List.take_left' hlength, List.drop_left' hlength, List.append_assoc]
  rfl

/-- An operator is put in alone, or behind the number that was typed. -/
theorem commitOperator_alters (h : e.Consistent) (o : Operator) :
    Alters e brought [.insertion, .pair] (e.commitOperator o) := by
  unfold commitOperator commitNumber?
  cases Numeral.typed? e.buffer with
  | none => exact (insertNew_alters h _ _).mono (by simp)
  | some v =>
      let number : Token := ⟨e.mint.1, .number (Text.trim e.buffer) v⟩
      let e₁ := e.mint.2.place e.cursor number
      let operator : Token := ⟨e₁.mint.1, .operator o⟩
      have hfirst : e.insertNew e.cursor number.content = e₁ := h.insertNew_eq _ _
      have hconsistent : e₁.Consistent := hfirst ▸ h.insertNew _ _
      have hsecond : e₁.insertNew e₁.cursor (.operator o) = e₁.mint.2.place e₁.cursor operator :=
        hconsistent.insertNew_eq _ _
      show Alters e brought [.insertion, .pair]
        ((e.insertNew e.cursor number.content).insertNew
          (e.insertNew e.cursor number.content).cursor (.operator o))
      rw [hfirst, hsecond]
      constructor
      · refine ⟨.pair, by simp, ?_⟩
        rw [place_second_tokens h.cursor_le rfl hconsistent.cursor_le operator]
        refine .pair rfl rfl (h.admits (Nat.le_refl _)) (h.admits (Nat.le_succ _)) ?_
        intro hsame
        exact absurd (congrArg TokenId.number hsame) (Nat.ne_of_lt (Nat.lt_succ_self _))
      · exact Nat.le_trans (Nat.le_succ _) (Nat.le_succ _)

theorem commit_alters (h : e.Consistent) : Alters e brought [.keep, .insertion] e.commit := by
  have hkeep : Alters e brought [.keep, .insertion] e := .keep rfl rfl List.mem_cons_self
  have hinsert : ∀ content, Alters e brought [.keep, .insertion] (e.insertNew e.cursor content) :=
    fun content => (insertNew_alters h _ content).mono (by simp)
  unfold commit commitNumber?
  split
  · exact hkeep
  · cases Numeral.typed? e.buffer with
    | some v => exact hinsert _
    | none =>
        -- the first candidate is committed, if there is one that is shown
        dsimp only [Option.map_none]
        split
        · split
          · exact hinsert _
          · exact hkeep
        · exact hkeep

theorem pick_alters (h : e.Consistent) (id : String) :
    Alters e brought [.keep, .insertion] (e.pick id).2 := by
  unfold pick
  split
  · exact .keep rfl rfl List.mem_cons_self
  · exact (insertNew_alters h _ _).mono (by simp)

theorem press_alters (h : e.Consistent) (k : Key) :
    Alters e brought (Effect.ofKey k) (e.press k) := by
  cases k with
  | backspace => exact backspace_alters h
  | char c =>
      unfold press
      dsimp only
      cases hop : Operator.ofChar? c with
      | some o =>
          have heffects : Effect.ofKey (.char c) = [.insertion, .pair] := by
            rw [Effect.ofKey, hop]
            rfl
          rw [heffects]
          exact commitOperator_alters h o
      | none =>
          -- a control character is passed over, any other goes into the buffer
          have heffects : Effect.ofKey (.char c) = [.keep] := by
            rw [Effect.ofKey, hop]
            rfl
          rw [heffects]
          dsimp only
          split
          · exact .keep rfl rfl List.mem_cons_self
          · exact searchBuffer_alters e _
  | enter => exact commit_alters h
  | left | right | escape => exact .keep rfl rfl List.mem_cons_self

theorem searchEdit_frame (e : Editor) :
    e.searchEdit.tokens = e.tokens ∧ e.searchEdit.supply = e.supply := by
  unfold searchEdit
  split
  · exact ⟨rfl, rfl⟩
  · split <;> exact ⟨rfl, rfl⟩

theorem openEdit_alters (e : Editor) (id : TokenId) :
    Alters e brought [.keep] (e.openEdit id).2 := by
  unfold openEdit
  split
  · exact .keep rfl rfl List.mem_cons_self
  · obtain ⟨htokens, hsupply⟩ := searchEdit_frame _
    exact .keep (htokens.trans (closeEdit_tokens _)) (hsupply.trans (closeEdit_supply _))
      List.mem_cons_self

theorem typeEdit_alters (e : Editor) (text : String) :
    Alters e brought [.keep] (e.typeEdit text) := by
  unfold typeEdit
  split
  · exact .keep rfl rfl List.mem_cons_self
  · obtain ⟨htokens, hsupply⟩ := searchEdit_frame _
    exact .keep htokens hsupply List.mem_cons_self

/-- Only the token that the edit box was open on is replaced, after the box has been closed. -/
theorem commitEdit_alters (e : Editor) :
    Alters e brought [.keep, .replacement] (Editor.commitEdit e).2 := by
  have hkeep : Alters e brought [.keep, .replacement] e.closeEdit :=
    .keep (closeEdit_tokens e) (closeEdit_supply e) List.mem_cons_self
  unfold Editor.commitEdit
  split
  · exact .keep rfl rfl List.mem_cons_self
  · dsimp only
    split
    · exact hkeep
    · split
      · exact (replace_alters _ _ _).closeEdit
      · exact hkeep
    · split
      · exact (replaceNew_alters _ _ _).closeEdit
      · exact hkeep
    · split
      · exact (replaceNew_alters _ _ _).closeEdit
      · exact hkeep

theorem pickEdit_alters (e : Editor) (id : String) :
    Alters e brought [.keep, .replacement] (e.pickEdit id).2 := by
  unfold pickEdit
  split
  · exact .keep rfl rfl List.mem_cons_self
  · split
    · exact .keep rfl rfl List.mem_cons_self
    · dsimp only
      split
      · exact (replace_alters _ _ _).closeEdit
      · exact .keep (closeEdit_tokens e) (closeEdit_supply e) List.mem_cons_self

theorem setOptions_alters (e : Editor) (options : EditorOptions) :
    Alters e brought [.keep] (Editor.setOptions e options) := by
  unfold Editor.setOptions
  dsimp only
  split <;> exact .keep rfl rfl List.mem_cons_self

theorem receive_alters (e : Editor) (r : Lookup.Response) :
    Alters e brought [.keep] (e.receive r).2 := by
  unfold Editor.receive
  split <;> exact .keep rfl rfl List.mem_cons_self

theorem react_alters (h : e.Consistent) (ev : InputEvent) :
    Alters e brought (Effect.ofEvent ev) (e.react ev) := by
  cases ev with
  | key k => exact press_alters h k
  | click index => exact .keep rfl rfl List.mem_cons_self
  | pick id =>
      -- the pick is one for the edit box while that is open
      unfold react
      dsimp only
      split
      · exact (pickEdit_alters e id).mono (by simp [Effect.ofEvent])
      · exact (pick_alters h id).mono (by simp [Effect.ofEvent])

/-- Every operation does one of the things to the stream that it may do. -/
theorem apply_alters (h : e.Consistent) (op : Operation) :
    Alters e op.brought op.effects (e.apply op).2 := by
  cases op with
  | press k => exact press_alters h k
  | react ev => exact react_alters h ev
  | setBuffer text => exact searchBuffer_alters e text
  | insertNew index content => exact insertNew_alters h index content
  | insert index t => exact insert_alters h index t
  | remove id => exact remove_alters e id
  | delete id => exact delete_alters e id
  | replace id content => exact replaceNew_alters e id content
  | moveCursor | placeCursor | takeRequest => exact .keep rfl rfl List.mem_cons_self
  | pick candidate => exact pick_alters h candidate
  | setOptions options => exact setOptions_alters e options
  | receive r => exact receive_alters e r
  | openEdit id => exact openEdit_alters e id
  | typeEdit text => exact typeEdit_alters e text
  | commitEdit => exact commitEdit_alters e
  | pickEdit candidate => exact pickEdit_alters e candidate
  | closeEdit => exact .keep (closeEdit_tokens e) (closeEdit_supply e) List.mem_cons_self
  | reset => exact ⟨⟨.clearing, List.mem_cons_self, .clearing⟩, Nat.le_refl _⟩

end Alters

end FormulaBar.Editor
