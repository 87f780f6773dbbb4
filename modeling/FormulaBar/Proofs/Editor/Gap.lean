import FormulaBar.Proofs.Editor.Effects
import FormulaBar.Proofs.Editor.Keystrokes

/-!
# The cursor stays in its gap

The cursor parts the stream into what stands in front of it and what stands behind it. Taking a
token out takes it out of the part that it is in and leaves the other part as it is, and a token
that is put in is the last one in front of the cursor. So what has just been put in can be taken
back.

1. **Parts** of the stream, and what is left of them without a token.
2. **Removals** and **insertions**, part by part.
3. **Taking back** what has just been put in.
-/

namespace FormulaBar.Editor

variable {e e' : Editor}

/-! ## Parts -/

/-- The tokens in front of the cursor. -/
def front (e : Editor) : List Token := e.tokens.take e.cursor

/-- The tokens behind the cursor. -/
def back (e : Editor) : List Token := e.tokens.drop e.cursor

/-- The cursor parts a stream where the front ends. -/
theorem parts_of_append {us vs : List Token} (htokens : e.tokens = us ++ vs)
    (hcursor : e.cursor = us.length) : e.front = us ∧ e.back = vs := by
  constructor
  · rw [front, htokens, List.take_left' hcursor.symm]
  · rw [back, htokens, List.drop_left' hcursor.symm]

theorem front_append_back (e : Editor) : e.front ++ e.back = e.tokens :=
  List.take_append_drop _ _

theorem without_of_not_mem {id : TokenId} {ts : List Token} (h : id ∉ ts.map Token.id) :
    without [id] ts = ts := by
  refine List.filter_eq_self.mpr ?_
  intro t ht
  simpa using Token.id_ne_of_not_mem h ht

/-- Where no id occurs twice, taking out the token at a place is taking out the one with its id. -/
theorem eraseIdx_eq_without {ts : List Token} (hnodup : (ts.map Token.id).Nodup) {index : Nat}
    {t : Token} (ht : ts[index]? = some t) : ts.eraseIdx index = without [t.id] ts := by
  induction ts generalizing index with
  | nil => cases ht
  | cons u us ih =>
      obtain ⟨hu, hus⟩ := List.nodup_cons.mp hnodup
      cases index with
      | zero =>
          obtain rfl : u = t := Option.some_inj.mp ht
          have hself : without [u.id] (u :: us) = without [u.id] us :=
            without_cons_of_mem List.mem_cons_self us
          rw [hself, without_of_not_mem hu]
          rfl
      | succ index =>
          have ht : us[index]? = some t := ht
          have hne : u.id ≠ t.id := by
            intro hsame
            exact hu (hsame ▸ List.mem_map_of_mem (List.mem_of_getElem? ht))
          have hother : without [t.id] (u :: us) = u :: without [t.id] us :=
            List.filter_cons_of_pos (by simpa using hne)
          rw [hother, ← ih hus ht]
          rfl

/-! ## Removals -/

/-- The token at a place is taken out of the part that it is in. -/
theorem Consistent.eraseIdx_parts (h : e.Consistent) {index : Nat} {t : Token}
    (ht : e.tokens[index]? = some t) :
    e.tokens.eraseIdx index = without [t.id] e.front ++ without [t.id] e.back ∧
      (without [t.id] e.front).length = if index < e.cursor then e.cursor - 1 else e.cursor := by
  have hlength : e.front.length = e.cursor := List.length_take_of_le h.cursor_le
  have hnodup : (e.front.map Token.id ++ e.back.map Token.id).Nodup := by
    rw [← List.map_append, front_append_back]
    exact h.nodup
  obtain ⟨hfront, -, hapart⟩ := List.nodup_append.mp hnodup
  constructor
  · rw [← without_append, front_append_back]
    exact eraseIdx_eq_without h.nodup ht
  · split
    · next hlt =>
      have hin : e.front[index]? = some t := by
        rw [front, List.getElem?_take_of_lt hlt, ht]
      rw [← eraseIdx_eq_without hfront hin, List.length_eraseIdx_of_lt (by omega), hlength]
    · next hge =>
      -- the token stands behind the cursor, and so not in front of it
      have hin : e.back[index - e.cursor]? = some t := by
        rw [back, List.getElem?_drop, Nat.add_sub_cancel' (Nat.not_lt.mp hge), ht]
      have hmem : t.id ∈ e.back.map Token.id := List.mem_map_of_mem (List.mem_of_getElem? hin)
      rw [without_of_not_mem, hlength]
      intro hmem'
      exact hapart _ hmem' _ hmem rfl

/-- A token is taken out by its id, and the cursor goes along. -/
theorem Consistent.delete_parts (h : e.Consistent) {id : TokenId} (hid : id ∈ e.ids) :
    (e.delete id).1 = true ∧ (e.delete id).2.front = without [id] e.front ∧
      (e.delete id).2.back = without [id] e.back := by
  obtain ⟨index, hposition⟩ := Option.isSome_iff_exists.mp (position?_isSome.mpr hid)
  obtain ⟨hindex, rfl⟩ := getElem_of_position? hposition
  have ht : e.tokens[index]? = some e.tokens[index] := List.getElem?_eq_getElem hindex
  obtain ⟨htokens, hlength⟩ := h.eraseIdx_parts ht
  unfold Editor.delete
  rw [hposition]
  refine ⟨rfl, parts_of_append ?_ ?_⟩
  · rw [← htokens]
    exact removeIndex_tokens e index
  · have hle := h.cursor_le
    rw [hlength]
    show (if index < (e.removeIndex index).cursor then (e.removeIndex index).cursor - 1
      else min (e.removeIndex index).cursor (e.removeIndex index).tokens.length) = _
    rw [removeIndex_cursor, removeIndex_tokens, List.length_eraseIdx_of_lt hindex]
    split
    · rfl
    · omega

theorem backspace_of_empty (hbuffer : e.buffer = "") (hcursor : e.cursor ≠ 0) :
    e.press .backspace =
      ({ e.removeIndex (e.cursor - 1) with cursor := e.cursor - 1 } : Editor).reevaluate := by
  have hempty : ¬(!e.buffer.isEmpty) = true := by simp [hbuffer]
  show e.backspace = _
  rw [backspace, if_neg hempty, if_neg hcursor]

/-- The token before the cursor is taken out, and the cursor goes along. -/
theorem Consistent.backspace_parts (h : e.Consistent) (hbuffer : e.buffer = "")
    (hcursor : 0 < e.cursor) :
    ∃ t, e.tokens[e.cursor - 1]? = some t ∧ (e.press .backspace).front = without [t.id] e.front ∧
      (e.press .backspace).back = without [t.id] e.back := by
  have hindex : e.cursor - 1 < e.tokens.length := by
    have hle := h.cursor_le
    omega
  have ht : e.tokens[e.cursor - 1]? = some e.tokens[e.cursor - 1] :=
    List.getElem?_eq_getElem hindex
  obtain ⟨htokens, hlength⟩ := h.eraseIdx_parts ht
  rw [backspace_of_empty hbuffer (Nat.ne_of_gt hcursor)]
  refine ⟨_, ht, parts_of_append ?_ ?_⟩
  · rw [← htokens]
    exact removeIndex_tokens e _
  · have hlt : e.cursor - 1 < e.cursor := by omega
    rw [hlength, if_pos hlt]
    rfl

/-! ## Insertions -/

/-- A token is put in under an id that is not in use, which is its own if possible. -/
theorem Consistent.exists_insert (h : e.Consistent) (index : Nat) (t : Token) :
    ∃ id supply, id ∉ e.ids ∧ (t.id ∉ e.ids → id = t.id) ∧
      e.insert index t = ({ e with supply } : Editor).place index ⟨id, t.content⟩ := by
  by_cases hmem : t.id ∈ e.ids
  · exact ⟨_, _, h.mint_not_mem, fun hnot => absurd hmem hnot, insert_of_mem hmem index⟩
  · exact ⟨t.id, e.supply, hmem, fun _ => rfl, insert_of_not_mem hmem index⟩

/-- A token that is placed is the last one in front of the cursor. -/
theorem place_parts (e : Editor) (index : Nat) (t : Token) :
    (e.place index t).front = e.tokens.take (min index e.tokens.length) ++ [t] ∧
      (e.place index t).back = e.tokens.drop (min index e.tokens.length) := by
  refine parts_of_append ?_ ?_
  · rw [List.append_assoc]
    rfl
  · rw [List.length_append, List.length_take_of_le (Nat.min_le_right _ _)]
    rfl

/-! ## Taking back -/

theorem removeIndex_buffer (e : Editor) (index : Nat) :
    (e.removeIndex index).buffer = e.buffer := by
  unfold removeIndex
  dsimp only
  split
  · exact closeEdit_buffer _
  · rfl

/-- A token that has been placed at the cursor is taken out again. -/
theorem Consistent.restores_erase (h : e.Consistent) (hbuffer : e.buffer = "") (supply : IdSupply)
    (t : Token) :
    Unaltered e
      ({ (({ e with supply } : Editor).place e.cursor t).removeIndex e.cursor with
        cursor := e.cursor } : Editor).reevaluate := by
  have hlength : (e.tokens.take e.cursor).length = e.cursor :=
    List.length_take_of_le h.cursor_le
  obtain ⟨hplaced, -⟩ := place_tokens (e := { e with supply }) h.cursor_le t
  have htokens : ((({ e with supply } : Editor).place e.cursor t).removeIndex e.cursor).tokens =
      e.tokens := by
    rw [removeIndex_tokens, hplaced]
    show (e.tokens.take e.cursor ++ t :: e.tokens.drop e.cursor).eraseIdx e.cursor = e.tokens
    rw [List.eraseIdx_append_of_length_le (Nat.le_of_eq hlength), hlength, Nat.sub_self,
      List.eraseIdx_cons_zero, List.take_append_drop]
  constructor
  · exact htokens
  · rfl
  · exact (removeIndex_buffer _ _).trans hbuffer.symm
  · show Formula.evaluate _ = e.evaluation
    rw [htokens, h.evaluated]

/-- An operator that has just been typed is taken back. -/
theorem Consistent.restores_backspace (h : e.Consistent) (hbuffer : e.buffer = "")
    (o : Operator) : Unaltered e ((e.press (.char o.glyph)).press .backspace) := by
  have hpress : e.press (.char o.glyph) =
      e.mint.2.place e.cursor ⟨e.mint.1, .operator o⟩ := by
    have hcommit : e.press (.char o.glyph) = e.commitOperator o := by
      simp only [Editor.press, Operator.ofChar?_glyph]
    rw [hcommit, Editor.commitOperator, commitNumber?_of_empty hbuffer]
    exact h.insertNew_eq _ _
  obtain ⟨-, hcursor⟩ := place_tokens (e := e.mint.2) h.cursor_le ⟨e.mint.1, .operator o⟩
  have hpositive : (e.mint.2.place e.cursor ⟨e.mint.1, .operator o⟩).cursor ≠ 0 := by
    rw [hcursor]
    exact Nat.succ_ne_zero _
  rw [hpress, backspace_of_empty rfl hpositive, hcursor]
  exact h.restores_erase hbuffer _ _

/-- A token that has just been put in at the cursor is taken out by its id. -/
theorem Consistent.restores_delete (h : e.Consistent) (hbuffer : e.buffer = "")
    (supply : IdSupply) {t : Token} (ht : t.id ∉ e.ids) :
    Unaltered e ((({ e with supply } : Editor).place e.cursor t).delete t.id).2 := by
  have hlength : (e.tokens.take e.cursor).length = e.cursor :=
    List.length_take_of_le h.cursor_le
  obtain ⟨htokens, hcursor⟩ := place_tokens (e := { e with supply }) h.cursor_le t
  have hposition : (({ e with supply } : Editor).place e.cursor t).position? t.id =
      some e.cursor := by
    have hfront : t.id ∉ (e.tokens.take e.cursor).map Token.id := by
      intro hmem
      obtain ⟨u, hu, hid⟩ := List.mem_map.mp hmem
      exact ht (hid ▸ List.mem_map_of_mem (List.mem_of_mem_take hu))
    rw [position?, htokens]
    show Token.position? (e.tokens.take e.cursor ++ t :: e.tokens.drop e.cursor) t.id = _
    rw [Token.position?_append hfront, hlength]
  unfold Editor.delete
  rw [hposition]
  dsimp only
  rw [removeIndex_cursor, hcursor, if_pos (Nat.lt_succ_self _)]
  exact h.restores_erase hbuffer supply t

/-- A token that is taken out is missing from the part of the stream that it was in and no other, a
token that is put in is the last one in front of the cursor, and what has just been put in can be
taken back. -/
theorem Reachable.cursor_gap (h : e.Reachable) :
    (∀ id ∈ e.ids, (e.delete id).1 = true ∧ (e.delete id).2.front = without [id] e.front ∧
      (e.delete id).2.back = without [id] e.back) ∧
    (e.buffer = "" → 0 < e.cursor → ∃ t, e.tokens[e.cursor - 1]? = some t ∧
      (e.press .backspace).front = without [t.id] e.front ∧
      (e.press .backspace).back = without [t.id] e.back) ∧
    (∀ index t, ∃ id, id ∉ e.ids ∧ (t.id ∉ e.ids → id = t.id) ∧
      (e.insert index t).front = e.tokens.take (min index e.tokens.length) ++ [⟨id, t.content⟩] ∧
      (e.insert index t).back = e.tokens.drop (min index e.tokens.length)) ∧
    (e.buffer = "" →
      (∀ o : Operator, Unaltered e ((e.press (.char o.glyph)).press .backspace)) ∧
      ∀ t, ∃ id, (e.insert e.cursor t).tokens[e.cursor]? = some ⟨id, t.content⟩ ∧
        Unaltered e ((e.insert e.cursor t).delete id).2) := by
  have hconsistent := h.consistent
  refine ⟨fun id hid => hconsistent.delete_parts hid, hconsistent.backspace_parts, ?_, ?_⟩
  · intro index t
    obtain ⟨id, supply, hunused, hown, hinsert⟩ := hconsistent.exists_insert index t
    obtain ⟨hfront, hback⟩ := place_parts { e with supply } index ⟨id, t.content⟩
    rw [hinsert]
    exact ⟨id, hunused, hown, hfront, hback⟩
  · intro hbuffer
    refine ⟨hconsistent.restores_backspace hbuffer, fun t => ?_⟩
    obtain ⟨id, supply, hunused, -, hinsert⟩ := hconsistent.exists_insert e.cursor t
    have hlength : (e.tokens.take e.cursor).length = e.cursor :=
      List.length_take_of_le hconsistent.cursor_le
    obtain ⟨htokens, -⟩ :=
      place_tokens (e := { e with supply }) hconsistent.cursor_le ⟨id, t.content⟩
    rw [hinsert]
    refine ⟨id, ?_, hconsistent.restores_delete hbuffer supply hunused⟩
    rw [htokens]
    show (e.tokens.take e.cursor ++ _ :: e.tokens.drop e.cursor)[e.cursor]? = _
    rw [List.getElem?_append_right (Nat.le_of_eq hlength), hlength, Nat.sub_self]
    rfl

/-- A pair of parentheses with the cursor between them. -/
def parenthesised : Editor :=
  (Editor.new {}).run
    [.insertNew 0 (.operator .lparen), .insertNew 7 (.operator .rparen), .placeCursor 1]

theorem parenthesised_gap :
    Reachable parenthesised ∧ parenthesised.ids = [⟨1⟩, ⟨2⟩] ∧ parenthesised.cursor = 1 ∧
      (parenthesised.delete ⟨2⟩).2.front = without [⟨2⟩] parenthesised.front ∧
      (parenthesised.press .backspace).back = without [⟨1⟩] parenthesised.back ∧
      (parenthesised.insert 7 ⟨⟨3⟩, .operator .add⟩).back = [] ∧
      Unaltered parenthesised ((parenthesised.press (.char '*')).press .backspace) := by
  have hone := (Reachable.new {} .initial).apply (.insertNew 0 (.operator .lparen)) trivial
  have htwo := hone.apply (.insertNew 7 (.operator .rparen)) trivial
  have hreach : Reachable parenthesised := htwo.apply (.placeCursor 1) trivial
  have hbuffer : parenthesised.buffer = "" := by decide
  have hcursor : parenthesised.cursor = 1 := by decide
  have htokens : parenthesised.tokens = [⟨⟨1⟩, .operator .lparen⟩, ⟨⟨2⟩, .operator .rparen⟩] := by
    decide
  obtain ⟨hdelete, hbackspace, hinsert, hrestore⟩ := hreach.cursor_gap
  have hbehind := (hdelete ⟨2⟩ (by decide)).2.1
  obtain ⟨t, ht, -, hleft⟩ := hbackspace hbuffer (by rw [hcursor]; exact Nat.one_pos)
  rw [hcursor, htokens] at ht
  obtain rfl := Option.some_inj.mp ht
  obtain ⟨id, -, -, -, hend⟩ := hinsert 7 ⟨⟨3⟩, .operator .add⟩
  rw [htokens] at hend
  exact ⟨hreach, by decide, hcursor, hbehind, hleft, hend, (hrestore hbuffer).1 .mul⟩

end FormulaBar.Editor
