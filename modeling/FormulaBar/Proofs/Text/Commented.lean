import FormulaBar.Proofs.Text.Lines

/-!
# Comment lines put into a text

A line ends at a line feed, and a carriage return in front of it belongs to its end; a carriage
return anywhere else is a blank of its line. So what the lines of a text are can be told line by
line, and comment lines can be put in wherever a line begins.

1. **Whole lines** of a text and its last one.
2. **Lines** of a text that is put together.
3. **Comment lines**, whatever ends them.
4. **Commented texts**.
-/

namespace FormulaBar.Text

/-! ## Whole lines -/

/-- Texts made of whole lines, each with its line feed. Behind such a text a line begins. -/
inductive WholeLines : List Char → Prop where
  | nil : WholeLines []
  | line {line rest : List Char} (hline : '\n' ∉ line) (h : WholeLines rest) :
      WholeLines (line ++ '\n' :: rest)

/-- Every text is made of whole lines and a last one, which may be empty. -/
theorem exists_wholeLines (cs : List Char) :
    ∃ front last, cs = front ++ last ∧ WholeLines front ∧ '\n' ∉ last := by
  induction cs with
  | nil => exact ⟨[], [], rfl, .nil, List.not_mem_nil⟩
  | cons c cs ih =>
      obtain ⟨front, last, rfl, hfront, hlast⟩ := ih
      by_cases hc : c = '\n'
      · -- an empty line stands in front
        subst hc
        exact ⟨'\n' :: front, last, rfl, .line List.not_mem_nil hfront, hlast⟩
      · cases hfront with
        | nil =>
            refine ⟨[], c :: last, rfl, .nil, ?_⟩
            simpa using ⟨Ne.symm hc, hlast⟩
        | @line line rest hline hrest =>
            -- the first line becomes longer
            refine ⟨(c :: line) ++ '\n' :: rest, last, rfl, .line ?_ hrest, hlast⟩
            simpa using ⟨Ne.symm hc, hline⟩

/-- A text that stops with a line feed is made of whole lines. -/
theorem WholeLines.of_getLast? {cs : List Char} (h : cs.getLast? = some '\n') :
    WholeLines cs := by
  obtain ⟨front, last, rfl, hfront, hlast⟩ := exists_wholeLines cs
  rw [List.getLast?_append] at h
  cases hc : last.getLast? with
  | none => rwa [List.getLast?_eq_none_iff.mp hc, List.append_nil]
  | some c =>
      -- the last line would hold a line feed
      rw [hc] at h
      cases h
      exact absurd (List.mem_of_getLast? hc) hlast

/-- A line without the carriage return that belongs to its end. -/
def chomp (line : List Char) : List Char :=
  if line.getLast? = some '\r' then line.dropLast else line

theorem chomp_append (line : List Char) : chomp (line ++ ['\r']) = line := by
  simp [chomp]

theorem chomp_cases (line : List Char) : chomp line = line ∨ line = chomp line ++ ['\r'] := by
  by_cases h : line.getLast? = some '\r'
  · right
    obtain ⟨front, rfl⟩ := List.getLast?_eq_some_iff.mp h
    rw [chomp_append]
  · left
    exact if_neg h

/-! ## Lines -/

section Lines

variable {c : Char} {line before cs : List Char}

/-- A character belongs to the line that it stands in front of, unless it ends a line itself. -/
theorem lines_character (hn : c ≠ '\n') (hr : c = '\r' → cs.head? ≠ some '\n') :
    lines (c :: cs) = (c :: (lines cs).headD []) :: (lines cs).tail := by
  by_cases hc : c = '\r'
  · subst hc
    rw [lines.eq_def]
    split
    · next h => cases h
    · next h => exact absurd (List.cons.inj h).1 hn
    · next h =>
      cases h
      exact absurd rfl (hr rfl)
    · next h =>
      cases h
      cases lines cs <;> rfl
  · exact lines_cons hn hc cs

/-- The first line of a text, up to its line feed. -/
theorem lines_line (h : '\n' ∉ line) (cs : List Char) :
    lines (line ++ '\n' :: cs) = chomp line :: lines cs := by
  induction line with
  | nil => rfl
  | cons c line ih =>
      have hc : c ≠ '\n' := by
        rintro rfl
        exact h List.mem_cons_self
      have hline : '\n' ∉ line := fun hmem => h (List.mem_cons_of_mem c hmem)
      cases line with
      | nil =>
          by_cases hr : c = '\r'
          · subst hr
            rfl
          · have hchomp : chomp [c] = [c] := if_neg (by simpa using hr)
            rw [List.cons_append, lines_character hc (fun h => absurd h hr), ih hline, hchomp]
            rfl
      | cons c' line =>
          have hhead : c = '\r' → (c' :: line ++ '\n' :: cs).head? ≠ some '\n' := by
            intro _ hhead
            cases hhead
            exact hline List.mem_cons_self
          have hchomp : chomp (c :: c' :: line) = c :: chomp (c' :: line) := by
            simp only [chomp, List.getLast?_cons_cons, List.dropLast_cons_cons]
            split <;> rfl
          rw [List.cons_append, lines_character hc hhead, ih hline, hchomp]
          rfl

/-- A last line without a line feed is kept as it is. -/
theorem lines_last (h : '\n' ∉ line) (hne : line ≠ []) : lines line = [line] := by
  induction line with
  | nil => exact absurd rfl hne
  | cons c line ih =>
      have hc : c ≠ '\n' := by
        rintro rfl
        exact h List.mem_cons_self
      have hline : '\n' ∉ line := fun hmem => h (List.mem_cons_of_mem c hmem)
      have hhead : c = '\r' → line.head? ≠ some '\n' := by
        intro _ hhead
        exact hline (List.mem_of_mem_head? hhead)
      rw [lines_character hc hhead]
      cases line with
      | nil => rfl
      | cons c' line =>
          rw [ih hline (List.cons_ne_nil _ _)]
          rfl

/-- The lines behind whole lines are further lines. -/
theorem WholeLines.lines_append (h : WholeLines before) (cs : List Char) :
    lines (before ++ cs) = lines before ++ lines cs := by
  induction h with
  | nil => rfl
  | @line line rest hline _ ih =>
      rw [List.append_assoc, List.cons_append, lines_line hline, lines_line hline, ih]
      rfl

end Lines

/-! ## Comment lines -/

theorem trimChars_blank {c : Char} (h : isBlank c = true) (line : List Char) :
    trimChars (line ++ [c]) = trimChars line := by
  have hdrop : ([c].dropWhile isBlank) = [] := by
    rw [List.dropWhile_cons_of_pos h]
    rfl
  rw [trimChars, trimChars, List.dropWhile_append]
  by_cases hline : line.dropWhile isBlank = []
  · rw [hline, hdrop]
    rfl
  · have hsome : (line.dropWhile isBlank).isEmpty = false := by
      simpa using hline
    rw [hsome, if_neg Bool.false_ne_true, List.reverse_append]
    exact congrArg List.reverse (List.dropWhile_cons_of_pos h)

/-- The end of a line is blank. -/
theorem isComment_chomp (line : List Char) : isComment (chomp line) = isComment line := by
  rcases chomp_cases line with h | h
  · rw [h]
  · have hblank : isBlank '\r' = true := by decide
    conv => rhs; rw [h, isComment, trimChars_blank hblank]
    rfl

/-- A comment line is not empty. -/
theorem ne_nil_of_isComment {line : List Char} (h : isComment line = true) : line ≠ [] := by
  rintro rfl
  cases h

/-! ## Commented texts -/

/-- The texts that come about when comment lines are put into a text: before it, between its lines
and behind it. A carriage return at the end of a comment belongs to the end of its line. -/
inductive Commented (text : List Char) : List Char → Prop where
  | plain : Commented text text
  /-- A comment line, where a line begins. -/
  | insert {before comment after : List Char} (h : Commented text (before ++ after))
      (hbefore : WholeLines before) (hline : '\n' ∉ comment) (hcomment : isComment comment = true) :
      Commented text (before ++ (comment ++ '\n' :: after))
  /-- A comment at the end of the text, without a line feed. -/
  | append {before comment : List Char} (h : Commented text before)
      (hbefore : WholeLines before) (hline : '\n' ∉ comment) (hcomment : isComment comment = true) :
      Commented text (before ++ comment)
  /-- The end of a last line that had none, so that a line may begin behind it. -/
  | finish {before last lineEnd : List Char} (h : Commented text (before ++ last))
      (hbefore : WholeLines before) (hlast : '\n' ∉ last) (hne : last ≠ [])
      (hend : lineEnd = ['\n'] ∨ lineEnd = ['\r', '\n']) :
      Commented text (before ++ (last ++ lineEnd))

end FormulaBar.Text
