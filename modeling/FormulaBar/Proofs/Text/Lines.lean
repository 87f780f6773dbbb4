import FormulaBar.Text.Lines
import Mathlib.Data.List.DropRight
import Mathlib.Data.List.TakeWhile

/-!
# Texts without comments

A text in which no line begins with a slash is not changed when its comment lines are dropped.

1. **Trimming** takes blanks off both ends of a text.
2. **Comment lines** by their first character.
3. **Texts** that keep all their lines.
-/

namespace FormulaBar.Text

/-! ## Trimming -/

/-- Only blanks are trimmed off. -/
theorem exists_trimChars (cs : List Char) :
    ∃ front back, cs = front ++ (trimChars cs ++ back) ∧
      (∀ c ∈ front, isBlank c = true) ∧ ∀ c ∈ back, isBlank c = true := by
  have hblanks : ∀ (bs : List Char), ∀ c ∈ bs.takeWhile isBlank, isBlank c = true := by
    intro bs c hc
    exact List.mem_takeWhile_imp hc
  let back := ((cs.dropWhile isBlank).reverse.takeWhile isBlank).reverse
  have hback : trimChars cs ++ back = cs.dropWhile isBlank := by
    rw [trimChars, ← List.reverse_append, List.takeWhile_append_dropWhile, List.reverse_reverse]
  refine ⟨cs.takeWhile isBlank, back, ?_, hblanks cs, ?_⟩
  · rw [hback, List.takeWhile_append_dropWhile]
  · intro c hc
    exact hblanks _ c (List.mem_reverse.mp hc)

/-- A text without blanks at its ends is left as it is. -/
theorem trimChars_trimChars (cs : List Char) : trimChars (trimChars cs) = trimChars cs := by
  have hprefix : trimChars cs <+: cs.dropWhile isBlank := List.rdropWhile_prefix isBlank _
  have hfront : (trimChars cs).dropWhile isBlank = trimChars cs := by
    cases htrim : trimChars cs with
    | nil => rfl
    | cons c rest =>
        obtain ⟨back, hback⟩ := hprefix
        have hc := List.head?_dropWhile_not isBlank cs
        rw [← hback, htrim] at hc
        exact List.dropWhile_cons_of_neg (by simpa using hc)
  show List.rdropWhile isBlank ((trimChars cs).dropWhile isBlank) = _
  rw [hfront]
  exact List.rdropWhile_idempotent isBlank _

/-- Nothing is trimmed off just those texts that have no blanks at their ends. -/
theorem trimChars_eq_self_iff {cs : List Char} :
    trimChars cs = cs ↔
      (∀ c ∈ cs.head?, isBlank c = false) ∧ ∀ c ∈ cs.getLast?, isBlank c = false := by
  have hsuffix : cs.dropWhile isBlank <:+ cs := List.dropWhile_suffix isBlank
  have hprefix : trimChars cs <+: cs.dropWhile isBlank := List.rdropWhile_prefix isBlank _
  constructor
  · intro h
    rw [h] at hprefix
    have hfront : cs.dropWhile isBlank = cs := hsuffix.eq_of_length_le hprefix.length_le
    have hback : cs.rdropWhile isBlank = cs := by
      conv => rhs; rw [← h, trimChars, hfront]
      rfl
    refine ⟨?_, ?_⟩
    · intro c hc
      have hhead := List.head?_dropWhile_not isBlank cs
      rw [hfront, hc] at hhead
      exact hhead
    · intro c hc
      obtain ⟨hne, rfl⟩ := List.mem_getLast?_eq_getLast hc
      simpa using List.rdropWhile_eq_self_iff.mp hback hne
  · rintro ⟨hfirst, hlast⟩
    have hfront : cs.dropWhile isBlank = cs := by
      cases cs with
      | nil => rfl
      | cons c cs => exact List.dropWhile_cons_of_neg (by simpa using hfirst c rfl)
    have hback : cs.rdropWhile isBlank = cs := by
      rw [List.rdropWhile_eq_self_iff]
      intro hne
      simpa using hlast _ (List.getLast?_eq_getLast_of_ne_nil hne)
    rw [trimChars, hfront]
    exact hback
/-- No blank comes to stand at an end beside a character that is none. -/
theorem trimChars_beside {c : Char} (hc : isBlank c = false) {cs front back : List Char}
    (h : trimChars cs = cs) (hbeside : front ++ back = [c]) :
    trimChars (front ++ cs ++ back) = front ++ cs ++ back := by
  obtain ⟨hfirst, hlast⟩ := trimChars_eq_self_iff.mp h
  rw [trimChars_eq_self_iff]
  rcases List.append_eq_singleton_iff.mp hbeside with ⟨rfl, rfl⟩ | ⟨rfl, rfl⟩
  · cases cs with
    | nil => simpa using hc
    | cons d cs =>
        refine ⟨hfirst, ?_⟩
        rw [List.nil_append, List.getLast?_concat]
        simpa using hc
  · cases cs with
    | nil => simpa using hc
    | cons d cs =>
        rw [List.append_nil, List.singleton_append]
        refine ⟨by simpa using hc, ?_⟩
        rw [List.getLast?_cons_cons]
        exact hlast

theorem trim_trim (s : String) : trim (trim s) = trim s := by
  rw [trim, trim, String.toList_ofList, trimChars_trimChars]

/-! ## Comment lines -/

section Comments

variable {c : Char} {line : List Char}

/-- A blank at the front of a line does not make it a comment. -/
theorem isComment_blank (h : isBlank c = true) : isComment (c :: line) = isComment line := by
  rw [isComment, isComment, trimChars, trimChars, List.dropWhile_cons_of_pos h]

/-- A line that begins with something else than a slash is no comment. -/
theorem not_isComment (hblank : isBlank c = false) (hslash : c ≠ '/') :
    isComment (c :: line) = false := by
  obtain ⟨front, back, hline, hfront, -⟩ := exists_trimChars (c :: line)
  have hnone : front = [] := by
    cases front with
    | nil => rfl
    | cons b front =>
        -- a blank would stand in the place of the first character
        have hb : isBlank b = true := hfront b List.mem_cons_self
        cases (List.cons.inj hline).1
        rw [hblank] at hb
        cases hb
  rw [hnone, List.nil_append] at hline
  rw [isComment]
  cases htrim : trimChars (c :: line) with
  | nil => rfl
  | cons c' cs =>
      rw [htrim] at hline
      cases (List.cons.inj hline).1
      have hne : ('/' == c) = false := beq_false_of_ne (Ne.symm hslash)
      rw [List.isPrefixOf, hne]
      rfl

end Comments

/-! ## Texts -/

/-- No line of the text begins with a slash or has blanks alone at its end, and there is no carriage
return. The flag says whether the text goes on in a line that has begun. -/
inductive Uncommented : Bool → List Char → Prop where
  | nil : Uncommented true []
  | newline {begun : Bool} {cs : List Char} (h : Uncommented false cs) :
      Uncommented begun ('\n' :: cs)
  /-- A blank in front of a line. -/
  | blank {c : Char} {cs : List Char} (hblank : isBlank c = true) (hend : c ≠ '\n' ∧ c ≠ '\r')
      (h : Uncommented false cs) : Uncommented false (c :: cs)
  /-- The character that a line begins with. -/
  | first {c : Char} {cs : List Char} (hblank : isBlank c = false) (hslash : c ≠ '/')
      (h : Uncommented true cs) : Uncommented false (c :: cs)
  /-- A further character of a line. -/
  | inner {c : Char} {cs : List Char} (hend : c ≠ '\n' ∧ c ≠ '\r') (h : Uncommented true cs) :
      Uncommented true (c :: cs)

section Texts

variable {begun : Bool} {c : Char} {cs xs : List Char}

/-- What is not blank does not end a line. -/
theorem not_end_of_not_blank (h : isBlank c = false) : c ≠ '\n' ∧ c ≠ '\r' := by
  constructor
  · rintro rfl
    cases h
  · rintro rfl
    cases h

/-- What may begin a line may also stand further on in it. -/
theorem Uncommented.later (h : Uncommented begun cs) : Uncommented true cs := by
  induction h with
  | nil => exact .nil
  | newline h => exact .newline h
  | blank _ hend _ ih => exact .inner hend ih
  | first hblank _ h => exact .inner (not_end_of_not_blank hblank) h
  | inner hend h => exact .inner hend h

theorem Uncommented.inner_append (h : Uncommented true cs)
    (hxs : ∀ c ∈ xs, c ≠ '\n' ∧ c ≠ '\r') : Uncommented true (xs ++ cs) := by
  induction xs with
  | nil => exact h
  | cons c xs ih =>
      have hrest := ih (fun c hc => hxs c (List.mem_cons_of_mem _ hc))
      exact .inner (hxs c List.mem_cons_self) hrest

theorem lines_cons (hn : c ≠ '\n') (hr : c ≠ '\r') (cs : List Char) :
    lines (c :: cs) = (c :: (lines cs).headD []) :: (lines cs).tail := by
  rw [lines.eq_def]
  split
  · next h => cases h
  · next h => exact absurd (List.cons.inj h).1 hn
  · next h => exact absurd (List.cons.inj h).1 hr
  · next h =>
    cases h
    cases lines cs <;> rfl

theorem intercalate_nil_cons (line : List Char) (rest : List (List Char)) :
    ['\n'].intercalate ([] :: line :: rest) = '\n' :: ['\n'].intercalate (line :: rest) := by
  simp [List.intercalate]

theorem intercalate_cons (c : Char) (rest : List (List Char)) :
    ['\n'].intercalate ((c :: rest.headD []) :: rest.tail) = c :: ['\n'].intercalate rest := by
  rcases rest with _ | ⟨line, _ | ⟨next, rest⟩⟩
  · rfl
  · simp [List.intercalate]
  · simp [List.intercalate]

/-- The lines of an uncommented text make it up and are no comments. Of a line that has begun before
the text this is not known. -/
theorem Uncommented.lines (h : Uncommented begun cs) :
    ['\n'].intercalate (lines cs) = cs ∧
    (∀ line ∈ (Text.lines cs).tail, isComment line = false) ∧
    (begun = false → ∃ line rest, Text.lines cs = line :: rest ∧ isComment line = false) := by
  induction h with
  | nil => exact ⟨rfl, nofun, nofun⟩
  | newline h ih =>
      obtain ⟨hsame, htail, hhead⟩ := ih
      obtain ⟨line, rest, hlines, hline⟩ := hhead rfl
      have hcons : Text.lines ('\n' :: _) = [] :: line :: rest := congrArg ([] :: ·) hlines
      rw [hlines] at hsame htail
      rw [hcons]
      refine ⟨?_, ?_, fun _ => ⟨[], _, rfl, rfl⟩⟩
      · rw [intercalate_nil_cons, hsame]
      · intro l hl
        rcases List.mem_cons.mp hl with rfl | hl
        · exact hline
        · exact htail l hl
  | blank hblank hend h ih =>
      obtain ⟨hsame, htail, hhead⟩ := ih
      obtain ⟨line, rest, hlines, hline⟩ := hhead rfl
      rw [lines_cons hend.1 hend.2, intercalate_cons, hsame]
      refine ⟨rfl, htail, fun _ => ⟨_, _, rfl, ?_⟩⟩
      rw [isComment_blank hblank, hlines]
      exact hline
  | first hblank hslash h ih =>
      obtain ⟨hsame, htail, -⟩ := ih
      obtain ⟨hn, hr⟩ := not_end_of_not_blank hblank
      rw [lines_cons hn hr, intercalate_cons, hsame]
      exact ⟨rfl, htail, fun _ => ⟨_, _, rfl, not_isComment hblank hslash⟩⟩
  | inner hend h ih =>
      obtain ⟨hsame, htail, -⟩ := ih
      rw [lines_cons hend.1 hend.2, intercalate_cons, hsame]
      exact ⟨rfl, htail, nofun⟩

/-- A text without comments is left as it is. -/
theorem Uncommented.stripComments (h : Uncommented false cs) : stripComments cs = cs := by
  obtain ⟨hsame, htail, hhead⟩ := h.lines
  obtain ⟨line, rest, hlines, hline⟩ := hhead rfl
  have hkeep : (Text.lines cs).filter (fun line => !isComment line) = Text.lines cs := by
    rw [List.filter_eq_self, hlines]
    rw [hlines] at htail
    intro l hl
    rcases List.mem_cons.mp hl with rfl | hl
    · rw [hline]
      rfl
    · rw [htail l hl]
      rfl
  rw [Text.stripComments, hkeep, hsame]

end Texts

end FormulaBar.Text
