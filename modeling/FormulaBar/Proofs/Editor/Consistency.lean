import FormulaBar.Editor.Operation
import Mathlib.Data.List.InsertIdx

/-!
# The token stream stays consistent

The invariant of the token stream, and that every operation of an editor keeps it:

1. **Positions**: what it means that an id is found.
2. **Parts of operations**, and what each leaves alone.
3. **Invariant**: the cursor stands between tokens, no id occurs twice, every id has been drawn from
   the supply, the edit box is open on a token of the stream, and the result is that of the tokens.
4. **Steps**: one lemma for each operation.
5. **Reachable states** and that all of them are consistent.
-/

/-! ## Positions -/

namespace FormulaBar.Token

variable {us vs : List Token} {t : Token}

theorem id_ne_of_not_mem {id : TokenId} (h : id ∉ us.map Token.id) {u : Token} (hu : u ∈ us) :
    u.id ≠ id := by
  rintro rfl
  exact h (List.mem_map_of_mem hu)

/-- A token is found by its id where no token before it has the id. -/
theorem position?_append (h : t.id ∉ us.map Token.id) :
    position? (us ++ t :: vs) t.id = some us.length := by
  have hnone : us.findIdx? (fun u => u.id = t.id) = none := by
    rw [List.findIdx?_eq_none_iff]
    exact fun u hu => decide_eq_false (id_ne_of_not_mem h hu)
  simp [position?, List.findIdx?_append, List.findIdx?_cons, hnone]

theorem find?_append (h : t.id ∉ us.map Token.id) : find? (us ++ t :: vs) t.id = some t := by
  have hnone : us.find? (fun u => u.id = t.id) = none := by
    rw [List.find?_eq_none]
    intro u hu
    simpa using id_ne_of_not_mem h hu
  simp [find?, List.find?_append, hnone]

end FormulaBar.Token

namespace FormulaBar.Editor

variable {e : Editor}

/-- The ids of the stream, in its order. -/
abbrev ids (e : Editor) : List TokenId := e.tokens.map Token.id

theorem position?_isSome {id : TokenId} : (e.position? id).isSome = true ↔ id ∈ e.ids := by
  simp [position?, Token.position?, List.findIdx?_isSome]

/-- An id is found where the token with this id stands. -/
theorem getElem_of_position? {id : TokenId} {index : Nat} (h : e.position? id = some index) :
    ∃ hlt : index < e.tokens.length, e.tokens[index].id = id := by
  rcases List.findIdx?_eq_some_iff_getElem.mp h with ⟨hlt, hid, -⟩
  exact ⟨hlt, of_decide_eq_true hid⟩

theorem mem_ids_of_token? {id : TokenId} {t : Token} (h : e.token? id = some t) :
    id ∈ e.ids := by
  have hid : t.id = id := by
    simpa using List.find?_some h
  rw [← hid]
  exact List.mem_map_of_mem (List.mem_of_find?_eq_some h)

/-- The token under an id stands where the id is found. -/
theorem position_of_token? {id : TokenId} {t : Token} (h : e.token? id = some t) :
    ∃ index, e.position? id = some index ∧ e.tokens[index]? = some t := by
  rw [token?, Token.find?, List.find?_eq_bind_findIdx?_getElem?] at h
  exact Option.bind_eq_some_iff.mp h

/-! ## Parts of operations -/

@[simp] theorem closeEdit_tokens (e : Editor) : e.closeEdit.tokens = e.tokens := by
  unfold closeEdit
  split <;> rfl

@[simp] theorem closeEdit_cursor (e : Editor) : e.closeEdit.cursor = e.cursor := by
  unfold closeEdit
  split <;> rfl

@[simp] theorem closeEdit_buffer (e : Editor) : e.closeEdit.buffer = e.buffer := by
  unfold closeEdit
  split <;> rfl

@[simp] theorem closeEdit_active (e : Editor) : e.closeEdit.active = e.active := by
  unfold closeEdit
  split <;> rfl

@[simp] theorem closeEdit_supply (e : Editor) : e.closeEdit.supply = e.supply := by
  unfold closeEdit
  split <;> rfl

@[simp] theorem closeEdit_evaluation (e : Editor) : e.closeEdit.evaluation = e.evaluation := by
  unfold closeEdit
  split <;> rfl

@[simp] theorem closeEdit_edit (e : Editor) : e.closeEdit.edit = none := by
  unfold closeEdit
  split
  · assumption
  · rfl

/-- Puts a token before the one at `index`, and the cursor behind it. -/
def place (e : Editor) (index : Nat) (t : Token) : Editor :=
  let i := min index e.tokens.length
  { e with
    tokens := e.tokens.take i ++ t :: e.tokens.drop i
    cursor := i + 1
    buffer := "" }.dismiss.reevaluate

/-- A token is placed between those before the index and those from it on. -/
theorem place_split (e : Editor) (index : Nat) (t : Token) :
    (e.place index t).tokens = e.tokens.take index ++ t :: e.tokens.drop index := by
  have htake : e.tokens.take (min index e.tokens.length) = e.tokens.take index :=
    List.take_eq_take_min.symm
  have hdrop : e.tokens.drop (min index e.tokens.length) = e.tokens.drop index :=
    List.drop_eq_drop_iff.mpr (by omega)
  rw [← htake, ← hdrop]
  rfl

/-- A token whose id is not in use is placed as it is. -/
theorem insert_of_not_mem {t : Token} (h : t.id ∉ e.ids) (index : Nat) :
    e.insert index t = e.place index t := by
  have hnone : ¬ (e.position? t.id).isSome = true := fun hsome => h (position?_isSome.mp hsome)
  simp only [insert, place, if_neg hnone]

/-- A token whose id is in use is placed under a fresh one. -/
theorem insert_of_mem {t : Token} (h : t.id ∈ e.ids) (index : Nat) :
    e.insert index t = e.mint.2.place index ⟨e.mint.1, t.content⟩ := by
  have hsome : (e.position? t.id).isSome = true := position?_isSome.mpr h
  simp only [insert, place, if_pos hsome]
  rfl

/-- A new token is placed under some id. -/
theorem exists_insertNew (e : Editor) (index : Nat) (content : Content) :
    ∃ id supply, e.insertNew index content =
      ({ e with supply } : Editor).place index ⟨id, content⟩ := by
  by_cases hmem : e.mint.1 ∈ e.mint.2.ids
  · exact ⟨_, _, insert_of_mem (e := e.mint.2) (t := ⟨e.mint.1, content⟩) hmem index⟩
  · exact ⟨_, _, insert_of_not_mem (e := e.mint.2) (t := ⟨e.mint.1, content⟩) hmem index⟩

/-- A new token with the given content has been put in at the cursor, the cursor behind it. The
tokens on either side are the same as before, and the buffer is empty. -/
structure Inserts (e e' : Editor) (content : Content) : Prop where
  made : e' = e.insertNew e.cursor content
  tokens : ∃ id, e'.tokens = e.tokens.take e.cursor ++ ⟨id, content⟩ :: e.tokens.drop e.cursor
  cursor : e'.cursor = min e.cursor e.tokens.length + 1
  buffer : e'.buffer = ""

theorem insertNew_inserts (e : Editor) (content : Content) :
    e.Inserts (e.insertNew e.cursor content) content := by
  obtain ⟨id, supply, hinsert⟩ := exists_insertNew e e.cursor content
  refine ⟨rfl, ⟨id, ?_⟩, ?_, ?_⟩
  · rw [hinsert, place_split]
  · rw [hinsert]
    rfl
  · rw [hinsert]
    rfl

@[simp] theorem removeIndex_tokens (e : Editor) (index : Nat) :
    (e.removeIndex index).tokens = e.tokens.eraseIdx index := by
  unfold removeIndex
  dsimp only
  split
  · rw [closeEdit_tokens]
  · rfl

@[simp] theorem removeIndex_cursor (e : Editor) (index : Nat) :
    (e.removeIndex index).cursor = e.cursor := by
  unfold removeIndex
  dsimp only
  split
  · rw [closeEdit_cursor]
  · rfl

@[simp] theorem removeIndex_supply (e : Editor) (index : Nat) :
    (e.removeIndex index).supply = e.supply := by
  unfold removeIndex
  dsimp only
  split
  · rw [closeEdit_supply]
  · rfl

/-- An edit box that is open after a removal was open before, and not on the token removed. -/
theorem edit_of_removeIndex {index : Nat} (hlt : index < e.tokens.length) {box : EditBox}
    (h : (e.removeIndex index).edit = some box) :
    e.edit = some box ∧ box.id ≠ e.tokens[index].id := by
  unfold removeIndex at h
  dsimp only at h
  split at h
  · rw [closeEdit_edit] at h
    cases h
  · next hother =>
    have hbox : e.edit = some box := h
    refine ⟨hbox, ?_⟩
    intro hid
    apply hother
    simp [hbox, hid, List.getElem?_eq_getElem hlt]

/-! ## Invariant -/

/-- What holds of the token stream between operations. -/
structure Consistent (e : Editor) : Prop where
  /-- The cursor stands between tokens. -/
  cursor_le : e.cursor ≤ e.tokens.length
  /-- No two tokens share an id. -/
  nodup : e.ids.Nodup
  /-- No id in the stream is still to be given out. -/
  drawn : ∀ id ∈ e.ids, id.number < e.supply.next
  /-- The edit box is open on a token of the stream. -/
  editing : ∀ box, e.edit = some box → box.id ∈ e.ids
  /-- The result is that of the tokens. -/
  evaluated : e.evaluation = Formula.evaluate e.tokens

namespace Consistent

/-- The invariant speaks of the stream alone; of the edit box it asks only where it is open. -/
theorem of_stream {e' : Editor} (h : e.Consistent) (htokens : e'.tokens = e.tokens)
    (hcursor : e'.cursor = e.cursor) (hsupply : e'.supply = e.supply)
    (hevaluation : e'.evaluation = e.evaluation)
    (hedit : ∀ box, e'.edit = some box → box.id ∈ e.ids) : e'.Consistent where
  cursor_le := by rw [hcursor, htokens]; exact h.cursor_le
  nodup := by rw [ids, htokens]; exact h.nodup
  drawn := by rw [ids, htokens, hsupply]; exact h.drawn
  editing := by rw [ids, htokens]; exact hedit
  evaluated := by rw [hevaluation, htokens]; exact h.evaluated

/-- A token of the stream stands behind tokens with other ids. -/
theorem exists_slot (h : e.Consistent) {t : Token} (ht : t ∈ e.tokens) :
    ∃ us vs, e.tokens = us ++ t :: vs ∧ t.id ∉ us.map Token.id := by
  obtain ⟨us, vs, htokens⟩ := List.append_of_mem ht
  refine ⟨us, vs, htokens, ?_⟩
  have hnodup := h.nodup
  rw [ids, htokens, List.map_append, List.nodup_append] at hnodup
  intro hmem
  exact hnodup.2.2 _ hmem _ List.mem_cons_self rfl

theorem new (options : EditorOptions) (supply : IdSupply) :
    ({ Editor.new options with supply } : Editor).Consistent where
  cursor_le := Nat.le_refl _
  nodup := List.nodup_nil
  drawn := by intro id hid; cases hid
  editing := by intro box hbox; cases hbox
  evaluated := rfl

/-- Ids may be drawn for other purposes. -/
theorem draw (h : e.Consistent) {supply : IdSupply} (hle : e.supply.next ≤ supply.next) :
    ({ e with supply } : Editor).Consistent where
  cursor_le := h.cursor_le
  nodup := h.nodup
  drawn := fun id hid => Nat.lt_of_lt_of_le (h.drawn id hid) hle
  editing := h.editing
  evaluated := h.evaluated

theorem mint (h : e.Consistent) : e.mint.2.Consistent :=
  h.draw (Nat.le_succ _)

theorem dismiss (h : e.Consistent) : e.dismiss.Consistent :=
  h.of_stream rfl rfl rfl rfl h.editing

theorem closeEdit (h : e.Consistent) : e.closeEdit.Consistent := by
  refine h.of_stream (closeEdit_tokens e) (closeEdit_cursor e) (closeEdit_supply e)
    (closeEdit_evaluation e) ?_
  intro box hbox
  rw [closeEdit_edit] at hbox
  cases hbox

/-! ## Steps -/

/-- A token under an id that is drawn and not in use is placed. -/
theorem place (h : e.Consistent) {t : Token} (hfresh : t.id ∉ e.ids)
    (hdrawn : t.id.number < e.supply.next) (index : Nat) : (e.place index t).Consistent := by
  -- the ids afterwards are those before and the new one
  have hperm : (e.place index t).ids.Perm (t.id :: e.ids) := by
    rw [ids, place_split, List.map_append, List.map_cons]
    refine List.perm_middle.trans ?_
    rw [← List.map_append, List.take_append_drop]
  constructor
  · simp only [Editor.place, Editor.dismiss, reevaluate, List.length_append, List.length_cons,
      List.length_take, List.length_drop]
    omega
  · exact hperm.nodup_iff.mpr (List.nodup_cons.mpr ⟨hfresh, h.nodup⟩)
  · intro id hid
    rcases List.mem_cons.mp (hperm.mem_iff.mp hid) with rfl | hid
    · exact hdrawn
    · exact h.drawn id hid
  · intro box hbox
    exact hperm.mem_iff.mpr (List.mem_cons_of_mem _ (h.editing box hbox))
  · rfl

/-- The next id of the supply is in use nowhere. -/
theorem mint_not_mem (h : e.Consistent) : e.mint.1 ∉ e.ids := by
  intro hmem
  exact Nat.lt_irrefl _ (h.drawn _ hmem)

/-- A new token is placed under the next id of the supply. -/
theorem insertNew_eq (h : e.Consistent) (index : Nat) (content : Content) :
    e.insertNew index content = e.mint.2.place index ⟨e.mint.1, content⟩ :=
  insert_of_not_mem (e := e.mint.2) (t := ⟨e.mint.1, content⟩) h.mint_not_mem index

theorem insert (h : e.Consistent) {t : Token} (ht : t.id.number < e.supply.next) (index : Nat) :
    (e.insert index t).Consistent := by
  by_cases hmem : t.id ∈ e.ids
  · rw [insert_of_mem hmem]
    exact h.mint.place h.mint_not_mem (Nat.lt_succ_self _) index
  · rw [insert_of_not_mem hmem]
    exact h.place hmem ht index

theorem insertNew (h : e.Consistent) (index : Nat) (content : Content) :
    (e.insertNew index content).Consistent :=
  h.mint.insert (Nat.lt_succ_self _) index

/-- A token is taken out, and the cursor put where there still are tokens before it. -/
theorem erase (h : e.Consistent) {index cursor : Nat} (hlt : index < e.tokens.length)
    (hcursor : cursor ≤ e.tokens.length - 1) :
    ({ e.removeIndex index with cursor } : Editor).reevaluate.Consistent := by
  have hids : (e.removeIndex index).ids = e.ids.eraseIdx index := by
    rw [ids, removeIndex_tokens, List.eraseIdx_map]
  constructor
  · simpa [reevaluate, List.length_eraseIdx_of_lt hlt] using hcursor
  · show (e.removeIndex index).ids.Nodup
    rw [hids]
    exact h.nodup.eraseIdx index
  · intro id hid
    have hmem : id ∈ e.ids.eraseIdx index := hids ▸ hid
    have hnext : (e.removeIndex index).supply = e.supply := removeIndex_supply e index
    simpa [reevaluate, hnext] using h.drawn id (List.mem_of_mem_eraseIdx hmem)
  · intro box hbox
    -- a box that is still open is open on another token, which stays
    rcases edit_of_removeIndex hlt hbox with ⟨hopen, hne⟩
    show box.id ∈ (e.removeIndex index).ids
    rw [hids, List.mem_eraseIdx_iff_getElem?]
    rcases List.mem_iff_getElem?.mp (h.editing box hopen) with ⟨i, hi⟩
    refine ⟨i, ?_, hi⟩
    rintro rfl
    apply hne
    simpa [List.getElem?_map, List.getElem?_eq_getElem hlt] using hi.symm
  · rfl

theorem remove (h : e.Consistent) (id : TokenId) : (e.remove id).2.Consistent := by
  unfold Editor.remove
  split
  · exact h
  · next index hpos =>
    rcases getElem_of_position? hpos with ⟨hlt, -⟩
    refine h.erase hlt ?_
    rw [removeIndex_tokens, List.length_eraseIdx_of_lt hlt]
    exact Nat.min_le_right _ _

theorem delete (h : e.Consistent) (id : TokenId) : (e.delete id).2.Consistent := by
  unfold Editor.delete
  split
  · exact h
  · next index hpos =>
    rcases getElem_of_position? hpos with ⟨hlt, -⟩
    have hle := h.cursor_le
    refine h.erase hlt ?_
    rw [removeIndex_tokens, removeIndex_cursor, List.length_eraseIdx_of_lt hlt]
    split <;> omega

theorem replace (h : e.Consistent) (id : TokenId) (content : Content) :
    (e.replace id content).2.Consistent := by
  unfold Editor.replace
  split
  · exact h
  · next index hpos =>
    rcases getElem_of_position? hpos with ⟨hlt, rfl⟩
    -- the token keeps its id, and so the stream its ids
    have hids : (e.tokens.set index ⟨e.tokens[index].id, content⟩).map Token.id = e.ids := by
      have hlt' : index < e.ids.length := by simpa using hlt
      have hself : e.ids.set index e.ids[index] = e.ids := List.set_getElem_self hlt'
      rw [List.map_set]
      rwa [List.getElem_map] at hself
    constructor
    · simpa [reevaluate] using h.cursor_le
    · show (List.map Token.id _).Nodup
      rw [reevaluate, hids]
      exact h.nodup
    · intro id hid
      rw [ids, reevaluate, hids] at hid
      exact h.drawn id hid
    · intro box hbox
      rw [ids, reevaluate, hids]
      exact h.editing box hbox
    · rfl

theorem replaceNew (h : e.Consistent) (id : TokenId) (content : Content) :
    (e.replaceNew id content).2.Consistent :=
  h.mint.replace id content

theorem setCursor (h : e.Consistent) {cursor : Nat} (hle : cursor ≤ e.tokens.length) :
    ({ e with cursor } : Editor).Consistent where
  cursor_le := hle
  nodup := h.nodup
  drawn := h.drawn
  editing := h.editing
  evaluated := h.evaluated

theorem moveCursor (h : e.Consistent) (delta : Int) : (e.moveCursor delta).Consistent :=
  h.setCursor (Nat.min_le_right _ _)

theorem placeCursor (h : e.Consistent) (index : Nat) : (e.placeCursor index).Consistent :=
  h.setCursor (Nat.min_le_right _ _)

theorem reset (e : Editor) : (Editor.reset e).Consistent :=
  (Consistent.new e.options e.supply).of_stream rfl rfl rfl rfl (by intro box hbox; cases hbox)

theorem searchBuffer (h : e.Consistent) : e.searchBuffer.Consistent := by
  unfold Editor.searchBuffer
  split
  · exact h.closeEdit.of_stream rfl rfl rfl rfl h.closeEdit.editing
  · exact h.dismiss

theorem setBuffer (h : e.Consistent) (text : String) : (Editor.setBuffer e text).Consistent :=
  Consistent.searchBuffer (h.of_stream rfl rfl rfl rfl h.editing)

theorem backspace (h : e.Consistent) : e.backspace.Consistent := by
  unfold Editor.backspace
  split
  · exact Consistent.searchBuffer (h.of_stream rfl rfl rfl rfl h.editing)
  · split
    · exact h
    · next hcursor =>
      have hle := h.cursor_le
      exact h.erase (by omega) (by omega)

theorem commitNumber (h : e.Consistent) : (e.commitNumber?.getD e).Consistent := by
  unfold commitNumber?
  cases Numeral.typed? e.buffer with
  | none => exact h
  | some v => exact h.insertNew _ _

theorem commitOperator (h : e.Consistent) (op : Operator) :
    (e.commitOperator op).Consistent :=
  h.commitNumber.insertNew _ _

theorem commit (h : e.Consistent) : e.commit.Consistent := by
  unfold Editor.commit
  split
  · exact h
  · split
    · next e' he' =>
      have hnumber := h.commitNumber
      rwa [he'] at hnumber
    · split
      · split
        · exact h.insertNew _ _
        · exact h
      · exact h

theorem pick (h : e.Consistent) (id : String) : (e.pick id).2.Consistent := by
  unfold Editor.pick
  split
  · exact h
  · exact h.insertNew _ _

theorem press (h : e.Consistent) (k : Key) : (e.press k).Consistent := by
  unfold Editor.press
  split
  · exact h.backspace
  · split
    · exact h.commitOperator _
    · split
      · exact h
      · exact Consistent.searchBuffer (h.of_stream rfl rfl rfl rfl h.editing)
  · exact h.commit
  · exact h.moveCursor _
  · exact h.moveCursor _
  · exact h.dismiss

/-- The edit box may be opened on any token of the stream. -/
theorem openBox (h : e.Consistent) {box : EditBox} (hid : box.id ∈ e.ids) :
    ({ e with edit := some box } : Editor).Consistent := by
  refine h.of_stream rfl rfl rfl rfl ?_
  intro box' hbox
  cases hbox
  exact hid

theorem searchEdit (h : e.Consistent) : e.searchEdit.Consistent := by
  unfold Editor.searchEdit
  split
  · exact h
  · split
    · exact h.of_stream rfl rfl rfl rfl h.editing
    · exact h.of_stream rfl rfl rfl rfl h.editing

theorem openEdit (h : e.Consistent) (id : TokenId) : (e.openEdit id).2.Consistent := by
  unfold Editor.openEdit
  split
  · exact h
  · next t ht =>
    have hid : id ∈ e.dismiss.closeEdit.ids := by
      rw [ids, closeEdit_tokens]
      exact mem_ids_of_token? ht
    exact Consistent.searchEdit (h.dismiss.closeEdit.openBox hid)

theorem typeEdit (h : e.Consistent) (text : String) : (e.typeEdit text).Consistent := by
  unfold Editor.typeEdit
  split
  · exact h
  · next box hbox => exact Consistent.searchEdit (h.openBox (h.editing box hbox))

theorem commitEdit (h : e.Consistent) : (Editor.commitEdit e).2.Consistent := by
  unfold Editor.commitEdit
  split
  · exact h
  · dsimp only
    split
    · exact h.closeEdit
    · split
      · exact h.closeEdit.replace _ _
      · exact h.closeEdit
    · split
      · exact h.closeEdit.replaceNew _ _
      · exact h.closeEdit
    · split
      · exact h.closeEdit.replaceNew _ _
      · exact h.closeEdit

theorem pickEdit (h : e.Consistent) (id : String) : (e.pickEdit id).2.Consistent := by
  unfold Editor.pickEdit
  split
  · exact h
  · split
    · exact h
    · dsimp only
      split
      · exact h.closeEdit.replace _ _
      · exact h.closeEdit

theorem setOptions (h : e.Consistent) (options : EditorOptions) :
    (Editor.setOptions e options).Consistent := by
  have hoptions : ({ e with options } : Editor).Consistent :=
    h.of_stream rfl rfl rfl rfl h.editing
  unfold Editor.setOptions
  dsimp only
  split
  · exact hoptions
  · exact hoptions.dismiss

theorem receive (h : e.Consistent) (r : Lookup.Response) : (e.receive r).2.Consistent := by
  unfold Editor.receive
  split
  · exact h.of_stream rfl rfl rfl rfl h.editing
  · exact h

theorem react (h : e.Consistent) (ev : InputEvent) : (e.react ev).Consistent := by
  cases ev with
  | key k => exact h.press k
  | click index => exact h.placeCursor index
  | pick id =>
      unfold Editor.react
      dsimp only
      split
      · exact h.pickEdit id
      · exact h.pick id

end Consistent

/-- The ids of the tokens that an operation brings along have been drawn from a supply. -/
def Operation.Drawn (supply : IdSupply) : Operation → Prop
  | .insert _ t => t.id.number < supply.next
  | _ => True

/-- Every operation keeps the stream consistent. -/
theorem Consistent.apply (h : e.Consistent) {op : Operation} (hop : op.Drawn e.supply) :
    (e.apply op).2.Consistent := by
  cases op with
  | press k => exact h.press k
  | react ev => exact h.react ev
  | setBuffer text => exact h.setBuffer text
  | insertNew index content => exact h.insertNew index content
  | insert index t => exact h.insert hop index
  | remove id => exact h.remove id
  | delete id => exact h.delete id
  | replace id content => exact h.replaceNew id content
  | moveCursor delta => exact h.moveCursor delta
  | placeCursor index => exact h.placeCursor index
  | pick candidate => exact h.pick candidate
  | setOptions options => exact h.setOptions options
  | takeRequest => exact h.of_stream rfl rfl rfl rfl h.editing
  | receive r => exact h.receive r
  | openEdit id => exact h.openEdit id
  | typeEdit text => exact h.typeEdit text
  | commitEdit => exact h.commitEdit
  | pickEdit candidate => exact h.pickEdit candidate
  | closeEdit => exact h.closeEdit
  | reset => exact Consistent.reset e

/-! ## Reachable states -/

/-- The states that a new editor can get into. Ids come from one supply, from which others may draw
at any time; a token that is brought along has an id that was drawn before. -/
inductive Reachable : Editor → Prop where
  | new (options : EditorOptions) (supply : IdSupply) :
      Reachable { Editor.new options with supply }
  | apply {e : Editor} (h : Reachable e) (op : Operation) (hop : op.Drawn e.supply) :
      Reachable (e.apply op).2
  /-- A token is replaced by a copy of another one, for which no id is drawn. -/
  | copy {e : Editor} (h : Reachable e) (id : TokenId) (content : Content) :
      Reachable (e.replace id content).2
  /-- Ids are drawn for tokens that are not in the stream. -/
  | draw {e : Editor} (h : Reachable e) (supply : IdSupply)
      (hle : e.supply.next ≤ supply.next) : Reachable { e with supply }

/-- Every reachable state is consistent. -/
theorem Reachable.consistent (h : Reachable e) : e.Consistent := by
  induction h with
  | new options supply => exact Consistent.new options supply
  | apply _ op hop ih => exact ih.apply hop
  | copy _ id content ih => exact ih.replace id content
  | draw _ supply hle ih => exact ih.draw hle

end FormulaBar.Editor
