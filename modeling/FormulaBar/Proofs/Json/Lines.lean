import FormulaBar.Proofs.Json.Writing
import FormulaBar.Proofs.Text.Commented

/-!
# JSON is lexed line by line

No lexeme goes beyond the end of its line, since a string has to escape the characters at which
lines end and no other lexeme holds a blank. So the lexemes of a text are those of its lines, and a
line that no lexeme begins on belongs to no text at all: a comment is such a line.

1. **Readers** that look no further than the end of a line.
2. **Lexemes** of a text that is broken somewhere.
3. **Lines** of a text, whatever ends them.
4. **Comments** have no lexemes.
-/

namespace FormulaBar.Json

open FormulaBar.Text (Commented WholeLines chomp chomp_cases digit? isComment lines
  ne_nil_of_isComment spanDigits spanSign stripComments)

/-! ## Readers -/

/-- The characters at which a line ends. -/
def isBreak (c : Char) : Bool := c == '\n' || c == '\r'

/-- A reader that looks no further than to a break: what stands from there on is left as it is. -/
def Confined {α : Type} (w : Char) (read : List Char → Option (α × List Char)) : Prop :=
  ∀ cs rest : List Char,
    read (cs ++ w :: rest) = (read cs).map fun r => (r.1, r.2 ++ w :: rest)

section Readers

variable {α β : Type} {w : Char}

theorem confined_pure (a : α) : Confined w fun cs => some (a, cs) := by
  intro cs rest
  rfl

theorem Confined.bind {read : List Char → Option (α × List Char)}
    {next : α → List Char → Option (β × List Char)} (h : Confined w read)
    (hnext : ∀ a, Confined w (next a)) :
    Confined w fun cs => (read cs).bind fun r => next r.1 r.2 := by
  intro cs rest
  dsimp only
  rw [h]
  cases read cs with
  | none => rfl
  | some r => exact hnext r.1 r.2 rest

theorem Confined.map {read : List Char → Option (α × List Char)} (h : Confined w read)
    (f : α → β) : Confined w fun cs => (read cs).map fun r => (f r.1, r.2) := by
  intro cs rest
  dsimp only
  rw [h]
  cases read cs <;> rfl

theorem isBreak_cases (hw : isBreak w = true) : w = '\n' ∨ w = '\r' := by
  simpa [isBreak] using hw

theorem spanDigits_break (hw : isBreak w = true) (cs rest : List Char) :
    spanDigits (cs ++ w :: rest) = ((spanDigits cs).1, (spanDigits cs).2 ++ w :: rest) := by
  have hnone : digit? w = none := by
    rcases isBreak_cases hw with rfl | rfl <;> rfl
  induction cs with
  | nil => simp only [List.nil_append, spanDigits, hnone]
  | cons c cs ih =>
      simp only [List.cons_append, spanDigits, ih]
      cases digit? c <;> rfl

theorem spanSign_break (hw : isBreak w = true) (cs rest : List Char) :
    spanSign (cs ++ w :: rest) = ((spanSign cs).1, (spanSign cs).2 ++ w :: rest) := by
  fun_cases spanSign cs with
  | case1 cs => rfl
  | case2 cs => rfl
  | case3 cs hminus hplus =>
      -- a break is no sign, and the first character is none either
      rcases cs with _ | ⟨c, cs⟩
      · rcases isBreak_cases hw with rfl | rfl <;> rfl
      · rw [List.cons_append, spanSign.eq_def]
        split
        · next h => exact absurd (by rw [(List.cons.inj h).1]) (hminus cs)
        · next h => exact absurd (by rw [(List.cons.inj h).1]) (hplus cs)
        · rfl

/-! ### Numbers -/

theorem confined_spanWhole? (hw : isBreak w = true) : Confined w spanWhole? := by
  intro cs rest
  unfold spanWhole?
  rw [spanDigits_break hw]
  rcases spanDigits cs with ⟨_ | ⟨d, ds⟩, after⟩
  · rfl
  · dsimp only
    split <;> rfl

theorem confined_spanFraction? (hw : isBreak w = true) : Confined w spanFraction? := by
  intro cs rest
  fun_cases spanFraction? cs with
  | case1 cs after h =>
      simp only [List.cons_append, spanFraction?, spanDigits_break hw, h]
      rfl
  | case2 cs d ds after h =>
      simp only [List.cons_append, spanFraction?, spanDigits_break hw, h]
      rfl
  | case3 cs hpoint =>
      rcases cs with _ | ⟨c, cs⟩
      · rcases isBreak_cases hw with rfl | rfl <;> rfl
      · rw [List.cons_append, spanFraction?.eq_def]
        split
        · next h => exact absurd (by rw [(List.cons.inj h).1]) (hpoint cs)
        · rfl

theorem confined_spanExponentDigits? (hw : isBreak w = true) :
    Confined w spanExponentDigits? := by
  intro cs rest
  unfold spanExponentDigits?
  rw [spanSign_break hw]
  dsimp only
  rw [spanDigits_break hw]
  rcases spanDigits (spanSign cs).2 with ⟨_ | ⟨d, ds⟩, after⟩ <;> rfl

theorem confined_spanExponent? (hw : isBreak w = true) : Confined w spanExponent? := by
  intro cs rest
  have hdigits := (confined_spanExponentDigits? hw).map some
  fun_cases spanExponent? cs with
  | case1 cs => exact hdigits cs rest
  | case2 cs => exact hdigits cs rest
  | case3 cs hsmall hlarge =>
      rcases cs with _ | ⟨c, cs⟩
      · rcases isBreak_cases hw with rfl | rfl <;> rfl
      · rw [List.cons_append, spanExponent?.eq_def]
        split
        · next h => exact absurd (by rw [(List.cons.inj h).1]) (hsmall cs)
        · next h => exact absurd (by rw [(List.cons.inj h).1]) (hlarge cs)
        · rfl

theorem confined_spanUnsigned? (hw : isBreak w = true) (negative : Bool) :
    Confined w (spanUnsigned? negative) :=
  (confined_spanWhole? hw).bind fun whole =>
    (confined_spanFraction? hw).bind fun fraction =>
      (confined_spanExponent? hw).bind fun exponent =>
        confined_pure (⟨negative, whole, fraction, exponent⟩ : Number)

theorem confined_spanNumber? (hw : isBreak w = true) : Confined w spanNumber? := by
  intro cs rest
  fun_cases spanNumber? cs with
  | case1 cs => exact confined_spanUnsigned? hw true cs rest
  | case2 cs hminus =>
      rcases cs with _ | ⟨c, cs⟩
      · rcases isBreak_cases hw with rfl | rfl <;> rfl
      · rw [← confined_spanUnsigned? hw, List.cons_append, spanNumber?.eq_def]
        split
        · next h => exact absurd (by rw [(List.cons.inj h).1]) (hminus cs)
        · rfl

/-! ### Strings -/

theorem hexValues?_of_break (hw : isBreak w = true) {a b c d : Char} (h : w ∈ [a, b, c, d]) :
    hexValues? a b c d = none := by
  have hnone : hexValue? w = none := by
    rcases isBreak_cases hw with rfl | rfl <;> rfl
  simp only [List.mem_cons, List.not_mem_nil, or_false] at h
  unfold hexValues?
  rcases h with rfl | rfl | rfl | rfl
  · rw [hnone]
    rfl
  · rw [hnone]
    cases hexValue? a <;> rfl
  · rw [hnone]
    cases hexValue? a <;> cases hexValue? b <;> rfl
  · rw [hnone]
    cases hexValue? a <;> cases hexValue? b <;> cases hexValue? c <;> rfl

/-- A backslash that begins no escape. -/
theorem spanString?_unknown {e : Char} {cs : List Char} (h : unescape? e = none)
    (hcode : ∀ a b c d cs', e = 'u' → cs = a :: b :: c :: d :: cs' → hexValues? a b c d = none) :
    spanString? ('\\' :: e :: cs) = none := by
  rw [spanString?.eq_def]
  split
  · next h' => cases h'
  · next h' => cases h'
  · next a b c d cs' h' =>
    cases h'
    rw [hcode a b c d cs' rfl rfl]
  · next h' =>
    cases h'
    rw [h]
  · next hescape h' =>
    cases h'
    exact (hescape e cs rfl rfl).elim

theorem spanString?_refused {c : Char} (h : c.toNat < 0x20) (cs : List Char) :
    spanString? (c :: cs) = none := by
  have hquote : c ≠ '"' := by
    rintro rfl
    exact absurd h (by decide)
  have hslash : c ≠ '\\' := by
    rintro rfl
    exact absurd h (by decide)
  rw [spanString?, if_pos h]
  · exact hquote
  · exact fun _ _ _ _ _ hc => absurd hc hslash
  · exact fun _ _ hc => absurd hc hslash

theorem confined_spanString? (hw : isBreak w = true) : Confined w spanString? := by
  intro cs rest
  have hcontrol : w.toNat < 0x20 := by
    rcases isBreak_cases hw with rfl | rfl <;> decide
  fun_induction spanString? cs with
  | case1 => rw [List.nil_append, spanString?_refused hcontrol]; rfl
  | case2 cs => rfl
  | case3 a b c d cs h =>
      simp only [List.cons_append, spanString?, h]
      rfl
  | case4 a b c d cs n h ih =>
      simp only [List.cons_append, spanString?, h, ih]
      cases spanString? cs <;> rfl
  | case5 e cs hshort h =>
      refine spanString?_unknown h ?_
      intro a b c d cs' he hcs
      refine hexValues?_of_break hw ?_
      -- fewer than four digits stand before the break
      rcases cs with _ | ⟨c₁, _ | ⟨c₂, _ | ⟨c₃, _ | ⟨c₄, cs⟩⟩⟩⟩
      · simp_all
      · simp_all
      · simp_all
      · simp_all
      · exact (hshort _ _ _ _ _ he rfl).elim
  | case6 e cs hshort c h ih =>
      rw [List.cons_append, List.cons_append, spanString?_letter _ h, ih]
      cases spanString? cs <;> rfl
  | case7 c cs hquote hshort hescape hc =>
      rw [List.cons_append, spanString?_refused hc]
      rfl
  | case8 c cs hquote hshort hescape hc ih =>
      by_cases hslash : c = '\\'
      · rcases cs with _ | ⟨e, cs⟩
        · -- a backslash escapes no break
          subst hslash
          rcases isBreak_cases hw with rfl | rfl
          · exact spanString?_unknown rfl fun _ _ _ _ _ he => absurd he (by decide)
          · exact spanString?_unknown rfl fun _ _ _ _ _ he => absurd he (by decide)
        · exact (hescape e cs hslash rfl).elim
      · rw [List.cons_append, spanString?_plain _ hquote hslash hc, ih]
        cases spanString? cs <;> rfl

/-! ## Lexemes -/

/-- A word without a break begins a text that is broken somewhere only if it begins what stands
before the break. -/
theorem not_word_of_break (hw : isBreak w = true) {cs rest after : List Char} (word : List Char)
    (hword : (word.all fun c => !isBreak c) = true)
    (hcs : ∀ between, cs = word ++ between → False) (h : cs ++ w :: rest = word ++ after) :
    False := by
  rcases List.append_eq_append_iff.mp h with ⟨front, hfront, hrest⟩ | ⟨between, hbetween, -⟩
  · cases front with
    | nil => exact hcs [] (by simpa using hfront.symm)
    | cons c front =>
        -- the break would be in the word
        cases (List.cons.inj hrest).1
        have hmem : w ∈ word := hfront ▸ List.mem_append_right cs List.mem_cons_self
        have hnone := List.all_eq_true.mp hword w hmem
        rw [hw] at hnone
        cases hnone
  · exact hcs between hbetween

theorem confined_next? (hw : isBreak w = true) : Confined w next? := by
  intro cs rest
  fun_cases next? cs
  case case10 cs =>
    simp only [List.cons_append, next?, confined_spanString? hw cs rest]
    cases spanString? cs <;> rfl
  case case11 hopen hclose hopen' hclose' hcomma hcolon hnull htrue hfalse hquote =>
    -- no word but a number begins before the break, and then none does with the break behind it
    rw [next?.eq_def]
    split
    case h_1 h => exact (not_word_of_break hw ['['] rfl hopen h).elim
    case h_2 h => exact (not_word_of_break hw [']'] rfl hclose h).elim
    case h_3 h => exact (not_word_of_break hw ['{'] rfl hopen' h).elim
    case h_4 h => exact (not_word_of_break hw ['}'] rfl hclose' h).elim
    case h_5 h => exact (not_word_of_break hw [','] rfl hcomma h).elim
    case h_6 h => exact (not_word_of_break hw [':'] rfl hcolon h).elim
    case h_7 h => exact (not_word_of_break hw ['n', 'u', 'l', 'l'] rfl hnull h).elim
    case h_8 h => exact (not_word_of_break hw ['t', 'r', 'u', 'e'] rfl htrue h).elim
    case h_9 h => exact (not_word_of_break hw ['f', 'a', 'l', 's', 'e'] rfl hfalse h).elim
    case h_10 h => exact (not_word_of_break hw ['"'] rfl hquote h).elim
    case h_11 => exact (confined_spanNumber? hw).map Lexeme.number cs rest
  all_goals rfl

end Readers

/-! ## Lexemes -/

/-- The lexemes of two parts of a text, if both have some. -/
def andThen (first rest : Option (List Lexeme)) : Option (List Lexeme) :=
  first.bind fun ts => rest.map (ts ++ ·)

section Lexing

variable {w c : Char} {cs rest : List Char}

theorem andThen_some_nil (ts : Option (List Lexeme)) : andThen (some []) ts = ts := by
  cases ts <;> rfl

theorem andThen_nil (ts : Option (List Lexeme)) : andThen ts (some []) = ts := by
  cases ts with
  | none => rfl
  | some ts => exact congrArg some (List.append_nil ts)

theorem andThen_assoc (xs ys zs : Option (List Lexeme)) :
    andThen (andThen xs ys) zs = andThen xs (andThen ys zs) := by
  cases xs <;> cases ys <;> cases zs <;> simp [andThen]

theorem map_cons_andThen (t : Lexeme) (xs ys : Option (List Lexeme)) :
    andThen (xs.map (t :: ·)) ys = (andThen xs ys).map (t :: ·) := by
  cases xs <;> cases ys <;> rfl

theorem lexemes?_none (hblank : isBlank c = false) (h : next? (c :: cs) = none) :
    lexemes? (c :: cs) = none := by
  rw [lexemes?.eq_def]
  dsimp only
  rw [hblank, if_neg Bool.false_ne_true]
  split
  · rfl
  · next hsome =>
    rw [h] at hsome
    cases hsome

/-- A break parts the lexemes before it from those behind it. -/
theorem lexemes?_break (hw : isBreak w = true) (cs rest : List Char) :
    lexemes? (cs ++ w :: rest) = andThen (lexemes? cs) (lexemes? rest) := by
  have hblank : isBlank w = true := by
    rcases isBreak_cases hw with rfl | rfl <;> rfl
  induction hn : cs.length using Nat.strong_induction_on generalizing cs with
  | _ n ih =>
    cases cs with
    | nil =>
        have hnil : lexemes? [] = some [] := by rw [lexemes?.eq_def]
        rw [List.nil_append, lexemes?_blank hblank, hnil, andThen_some_nil]
    | cons c cs =>
        cases hc : isBlank c with
        | true =>
            rw [List.cons_append, lexemes?_blank hc, lexemes?_blank hc]
            exact ih cs.length (by rw [← hn]; exact Nat.lt_succ_self _) cs rfl
        | false =>
            have hconfined := confined_next? hw (c :: cs) rest
            cases hnext : next? (c :: cs) with
            | none =>
                rw [hnext] at hconfined
                rw [lexemes?_none hc hnext]
                exact lexemes?_none hc hconfined
            | some r =>
                obtain ⟨t, after⟩ := r
                rw [hnext] at hconfined
                have hlt : after.length < n := hn ▸ length_next?_lt hnext
                have hafter := ih after.length hlt after rfl
                rw [lexemes?_next hc hnext, map_cons_andThen, ← hafter]
                exact lexemes?_next hc hconfined

end Lexing

/-! ## Lines -/

/-- The lexemes of lines, if all of them have some. -/
def lineLexemes? : List (List Char) → Option (List Lexeme)
  | [] => some []
  | line :: rest => andThen (lexemes? line) (lineLexemes? rest)

section Lines

variable {line : List Char}

theorem lexemes?_nil : lexemes? [] = some [] := by
  rw [lexemes?.eq_def]

theorem lineLexemes?_singleton (line : List Char) : lineLexemes? [line] = lexemes? line :=
  andThen_nil _

theorem lineLexemes?_append (ls rest : List (List Char)) :
    lineLexemes? (ls ++ rest) = andThen (lineLexemes? ls) (lineLexemes? rest) := by
  induction ls with
  | nil => exact (andThen_some_nil _).symm
  | cons line ls ih =>
      show andThen _ (lineLexemes? (ls ++ rest)) = andThen (andThen _ _) _
      rw [ih, andThen_assoc]

/-- The carriage return at the end of a line is blank. -/
theorem lexemes?_chomp (line : List Char) : lexemes? (chomp line) = lexemes? line := by
  rcases chomp_cases line with h | h
  · rw [h]
  · have hbreak := lexemes?_break (w := '\r') rfl (chomp line) []
    rw [← h, lexemes?_nil, andThen_nil] at hbreak
    exact hbreak.symm

/-- Lines that are put together have their lexemes one after the other. -/
theorem lexemes?_intercalate (ls : List (List Char)) :
    lexemes? (['\n'].intercalate ls) = lineLexemes? ls := by
  induction ls with
  | nil => exact lexemes?_nil
  | cons line ls ih =>
      cases ls with
      | nil =>
          rw [lineLexemes?_singleton]
          simp [List.intercalate]
      | cons next ls =>
          have hsplit : ['\n'].intercalate (line :: next :: ls) =
              line ++ '\n' :: ['\n'].intercalate (next :: ls) := by
            simp [List.intercalate]
          rw [hsplit, lexemes?_break rfl, ih]
          rfl

/-- The lexemes of a text are those of its lines, whatever ends them. -/
theorem lexemes?_lines (cs : List Char) : lexemes? cs = lineLexemes? (lines cs) := by
  obtain ⟨front, last, rfl, hfront, hlast⟩ := Text.exists_wholeLines cs
  induction hfront with
  | nil =>
      by_cases hne : last = []
      · subst hne
        exact lexemes?_nil
      · rw [List.nil_append, Text.lines_last hlast hne, lineLexemes?_singleton]
  | @line line rest hline _ ih =>
      rw [List.append_assoc, List.cons_append, lexemes?_break rfl, ih, Text.lines_line hline,
        lineLexemes?, lexemes?_chomp]

/-! ## Comments -/

/-- A number begins with its sign or a digit. -/
theorem head_of_spanNumber? {c : Char} {cs : List Char} {r : Number × List Char}
    (h : spanNumber? (c :: cs) = some r) : c = '-' ∨ Text.isDigit c = true := by
  unfold spanNumber? at h
  split at h
  · next hcs => exact .inl (List.cons.inj hcs).1
  · right
    simp only [spanUnsigned?, Option.bind_eq_bind, Option.bind_eq_some_iff] at h
    obtain ⟨_, hwhole, -⟩ := h
    rw [Text.isDigit]
    cases hc : digit? c with
    | some d => rfl
    | none =>
        -- without a digit there is no whole part
        simp only [spanWhole?, spanDigits, hc] at hwhole
        cases hwhole

/-- No lexeme begins with a blank of any kind or with a slash. -/
theorem not_blank_of_next? {c : Char} {cs : List Char} {r : Lexeme × List Char}
    (h : next? (c :: cs) = some r) : Text.isBlank c = false ∧ c ≠ '/' := by
  unfold next? at h
  split at h
  case h_11 =>
    obtain ⟨n, hnumber, -⟩ := Option.map_eq_some_iff.mp h
    rcases head_of_spanNumber? hnumber with rfl | hdigit
    · decide
    · obtain ⟨d, hd⟩ := Option.isSome_iff_exists.mp hdigit
      have hall : ∀ d : Text.Digit, Text.isBlank d.toChar = false ∧ d.toChar ≠ '/' := by
        decide
      rw [← Numeral.toChar_of_digit? hd]
      exact hall d
  all_goals
    next hcs =>
    rw [(List.cons.inj hcs).1]
    decide

/-- What separates lexemes is blank in every text. -/
theorem text_isBlank (h : isBlank c = true) : Text.isBlank c = true := by
  simp only [isBlank, Bool.or_eq_true, beq_iff_eq] at h
  rcases h with ((rfl | rfl) | rfl) | rfl <;> rfl

/-- A comment line has no lexemes. -/
theorem lexemes?_comment (h : isComment line = true) : lexemes? line = none := by
  induction line with
  | nil => cases h
  | cons c line ih =>
      cases hblank : isBlank c with
      | true =>
          rw [Text.isComment_blank (text_isBlank hblank)] at h
          rw [lexemes?_blank hblank]
          exact ih h
      | false =>
          refine lexemes?_none hblank ?_
          cases hnext : next? (c :: line) with
          | none => rfl
          | some r =>
              obtain ⟨hc, hslash⟩ := not_blank_of_next? hnext
              rw [Text.not_isComment hc hslash] at h
              cases h

/-- The lexemes of the lines that are no comments. -/
def keptLexemes? (ls : List (List Char)) : Option (List Lexeme) :=
  lineLexemes? (ls.filter fun line => !isComment line)

theorem lexemes?_stripComments (cs : List Char) :
    lexemes? (stripComments cs) = keptLexemes? (lines cs) :=
  lexemes?_intercalate _

theorem keptLexemes?_append (ls rest : List (List Char)) :
    keptLexemes? (ls ++ rest) = andThen (keptLexemes? ls) (keptLexemes? rest) := by
  rw [keptLexemes?, List.filter_append, lineLexemes?_append]
  rfl

theorem keptLexemes?_comment (h : isComment line = true) (rest : List (List Char)) :
    keptLexemes? (line :: rest) = keptLexemes? rest := by
  have hdrop : ¬(!isComment line) = true := by simp [h]
  rw [keptLexemes?, List.filter_cons, if_neg hdrop]
  rfl

theorem keptLexemes?_chomp (line : List Char) (rest : List (List Char)) :
    keptLexemes? (chomp line :: rest) = keptLexemes? (line :: rest) := by
  unfold keptLexemes?
  rw [List.filter_cons, List.filter_cons, Text.isComment_chomp]
  split
  · show andThen _ _ = andThen _ _
    rw [lexemes?_chomp]
  · rfl

/-- Where all lines have lexemes, none is a comment. -/
theorem keptLexemes?_of_isSome {ls : List (List Char)} (h : (lineLexemes? ls).isSome = true) :
    keptLexemes? ls = lineLexemes? ls := by
  induction ls with
  | nil => rfl
  | cons line ls ih =>
      cases hline : lexemes? line with
      | none =>
          rw [lineLexemes?, hline] at h
          cases h
      | some ts =>
          have hrest : (lineLexemes? ls).isSome = true := by
            rw [lineLexemes?, hline] at h
            cases hls : lineLexemes? ls with
            | none =>
                rw [hls] at h
                cases h
            | some => rfl
          have hcomment : isComment line = false := by
            cases hc : isComment line with
            | false => rfl
            | true =>
                rw [lexemes?_comment hc] at hline
                cases hline
          have hkeep : (!isComment line) = true := by simp [hcomment]
          rw [keptLexemes?, List.filter_cons, if_pos hkeep, lineLexemes?, lineLexemes?, ← ih hrest]
          rfl

/-- Comment lines that are put into a text do not change the lexemes of what is kept of it. -/
theorem keptLexemes?_commented {text cs : List Char} (h : Commented text cs) :
    keptLexemes? (lines cs) = keptLexemes? (lines text) := by
  induction h with
  | plain => rfl
  | @insert before comment after _ hbefore hline hcomment ih =>
      rw [hbefore.lines_append, keptLexemes?_append] at ih
      rw [hbefore.lines_append, Text.lines_line hline, keptLexemes?_append, keptLexemes?_comment,
        ih]
      rwa [Text.isComment_chomp]
  | @append before comment _ hbefore hline hcomment ih =>
      have hlast := Text.lines_last hline (ne_nil_of_isComment hcomment)
      rw [hbefore.lines_append, hlast, keptLexemes?_append, keptLexemes?_comment hcomment, ← ih]
      exact andThen_nil _
  | @finish before last lineEnd _ hbefore hlast hne hend ih =>
      have hlines : keptLexemes? (lines (last ++ lineEnd)) = keptLexemes? (lines last) := by
        rw [Text.lines_last hlast hne]
        rcases hend with rfl | rfl
        · rw [Text.lines_line hlast]
          exact keptLexemes?_chomp last []
        · have hreturn : '\n' ∉ last ++ ['\r'] := by simpa using hlast
          have hsplit : last ++ ['\r', '\n'] = (last ++ ['\r']) ++ '\n' :: [] := by simp
          rw [hsplit, Text.lines_line hreturn, Text.chomp_append]
          rfl
      rw [hbefore.lines_append, keptLexemes?_append] at ih
      rw [hbefore.lines_append, keptLexemes?_append, hlines, ih]

/-- What is kept of a commented text has the lexemes of the text, if that has any. -/
theorem lexemes?_commented {text cs : List Char} (h : Commented text cs)
    (htext : (lexemes? text).isSome = true) : lexemes? (stripComments cs) = lexemes? text := by
  rw [lexemes?_lines] at htext
  rw [lexemes?_stripComments, keptLexemes?_commented h, keptLexemes?_of_isSome htext,
    ← lexemes?_lines]

end Lines

end FormulaBar.Json
