import FormulaBar.Text.Lowercase

/-!
# Lowercase of a part of a text

The lowercase form of a part of a text is a part of the lowercase form of the text, if it is taken
between what stands around it: the form of a capital sigma hangs on its neighbours. A text whose
sigmas all have neighbours within the text that fix their form has one lowercase form wherever it
stands, and a text with any other sigma has a second one beside a letter.

1. **Containment** of one text in another.
2. **Sigmas** and the neighbours that fix their form.
3. **Parts** of a text in lowercase.
4. **Settled** texts, which have one lowercase form.
5. **Unsettled** texts, whose lowercase form is lost beside a letter.
-/

namespace FormulaBar.Text

/-! ## Containment -/

theorem contains_iff (part text : List Char) : contains part text = true ↔ part <:+: text := by
  induction text with
  | nil =>
      rw [contains, List.isEmpty_iff]
      exact List.infix_nil.symm
  | cons c text ih =>
      rw [contains, Bool.or_eq_true, List.isPrefixOf_iff_prefix, ih, List.infix_cons_iff]

/-! ## Sigmas -/

/-- Whether the first character that is not ignorable for case is a cased one, if there is one. -/
def firstCased? (cs : List Char) : Option Bool :=
  (cs.find? fun c => !inRanges caseIgnorableRanges c).map (inRanges casedRanges)

theorem meetsCased_eq (cs : List Char) : meetsCased cs = (firstCased? cs == some true) := by
  unfold meetsCased firstCased?
  induction cs with
  | nil => rfl
  | cons c cs ih =>
      cases hc : inRanges caseIgnorableRanges c with
      | true => rw [List.dropWhile_cons_of_pos hc, List.find?_cons_of_neg (by simp [hc]), ih]
      | false =>
          rw [List.dropWhile_cons_of_neg (by simp [hc]), List.find?_cons_of_pos (by simp [hc])]
          cases hcased : inRanges casedRanges c <;> simp [hcased]

/-- What stands further away counts only if all that is near is ignorable for case. -/
theorem firstCased?_append (near far : List Char) :
    firstCased? (near ++ far) = (firstCased? near).or (firstCased? far) := by
  rw [firstCased?, List.find?_append, Option.map_or]
  rfl

/-- A sigma is final if it stands behind a cased character and not in front of one. -/
theorem lowerSigma_eq_final_iff (before after : List Char) :
    lowerSigma before after = 'ς' ↔
      firstCased? before = some true ∧ firstCased? after ≠ some true := by
  rw [lowerSigma, meetsCased_eq, meetsCased_eq]
  split
  · next h => simpa using h
  · next h => simpa using h

theorem lowerSigma_cases (before after : List Char) :
    lowerSigma before after = 'ς' ∨ lowerSigma before after = 'σ' := by
  unfold lowerSigma
  split
  · exact .inl rfl
  · exact .inr rfl

/-- Whether the neighbours of a sigma fix its form, whatever stands beyond them: a character without
case before it, a cased one behind it, or one of either kind on both sides. -/
def fixesSigma (before after : List Char) : Bool :=
  firstCased? before == some false || firstCased? after == some true ||
    (firstCased? before == some true && firstCased? after == some false)

theorem lowerSigma_of_fixes {before after : List Char} (h : fixesSigma before after = true)
    (before' after' : List Char) :
    lowerSigma (before ++ before') (after ++ after') = lowerSigma before after := by
  unfold lowerSigma fixesSigma at *
  simp only [meetsCased_eq, firstCased?_append] at h ⊢
  cases hbefore : firstCased? before with
  | none => simp_all
  | some b => cases hafter : firstCased? after <;> cases b <;> simp_all

/-- Where the form of a sigma is not fixed, a letter behind it takes the final form away, or a letter
before it brings that form. -/
theorem not_fixes_cases {before after : List Char} (h : fixesSigma before after = false) :
    (lowerSigma before after = 'ς' ∧ lowerSigma before (after ++ ['a']) = 'σ') ∨
      (lowerSigma before after = 'σ' ∧ lowerSigma (before ++ ['a']) after = 'ς') := by
  have hletter : firstCased? ['a'] = some true := by decide +kernel
  unfold lowerSigma fixesSigma at *
  simp only [meetsCased_eq, firstCased?_append, hletter] at h ⊢
  cases hbefore : firstCased? before with
  | none => cases hafter : firstCased? after with
    | none => simp_all
    | some b => cases b <;> simp_all
  | some b => cases hafter : firstCased? after with
    | none => cases b <;> simp_all
    | some b' => cases b <;> cases b' <;> simp_all

/-! ## Parts -/

/-- The lowercase form of `cs` after the characters `before`, nearest first, and in front of
`after`. -/
def lowerBetween (before after : List Char) : List Char → List Char
  | [] => []
  | c :: cs =>
    (if c = 'Σ' then [lowerSigma before (cs ++ after)] else lowerChar c) ++
      lowerBetween (c :: before) after cs

section Parts

variable (before after : List Char)

theorem lowerFrom_eq (cs : List Char) : lowerFrom before cs = lowerBetween before [] cs := by
  induction cs generalizing before with
  | nil => rfl
  | cons c cs ih =>
      rw [lowerFrom, lowerBetween, List.append_nil, ih]
      split <;> rfl

theorem lowerBetween_append (cs rest : List Char) :
    lowerBetween before after (cs ++ rest) =
      lowerBetween before (rest ++ after) cs ++ lowerBetween (cs.reverse ++ before) after rest := by
  induction cs generalizing before with
  | nil => rfl
  | cons c cs ih =>
      rw [List.cons_append, lowerBetween, ih, lowerBetween]
      simp only [List.append_assoc, List.reverse_cons, List.singleton_append]

/-- A part of a text is found in the lowercase form of the text by its own form at its place. -/
theorem lower_parts (front part back : List Char) :
    lower (front ++ part ++ back) = lowerBetween [] (part ++ back) front ++
      lowerBetween front.reverse back part ++
        lowerBetween ((front ++ part).reverse) [] back := by
  rw [lower, lowerFrom_eq, lowerBetween_append, lowerBetween_append]
  simp only [List.append_nil]

theorem lower_eq (cs : List Char) : lower cs = lowerBetween [] [] cs := lowerFrom_eq [] cs

end Parts

/-! ## Settled texts -/

/-- Whether the sigmas of a text after the characters `before`, nearest first, have neighbours that
fix their form. -/
def settledFrom (before : List Char) : List Char → Bool
  | [] => true
  | c :: cs => (c != 'Σ' || fixesSigma before cs) && settledFrom (c :: before) cs

/-- Whether every capital sigma of a text has neighbours within the text that fix its form. -/
def settled (cs : List Char) : Bool := settledFrom [] cs

theorem lowerBetween_of_settled {before cs : List Char} (h : settledFrom before cs = true)
    (before' after : List Char) :
    lowerBetween (before ++ before') after cs = lowerBetween before [] cs := by
  induction cs generalizing before with
  | nil => rfl
  | cons c cs ih =>
      rw [settledFrom, Bool.and_eq_true, Bool.or_eq_true, bne_iff_ne] at h
      obtain ⟨hc, hcs⟩ := h
      rw [lowerBetween, lowerBetween, ← List.cons_append, ih hcs, List.append_nil]
      by_cases hsigma : c = 'Σ'
      · have hfixes := hc.resolve_left (fun hne => hne hsigma)
        rw [if_pos hsigma, if_pos hsigma, lowerSigma_of_fixes hfixes]
      · rw [if_neg hsigma, if_neg hsigma]

/-- The lowercase form of a settled text occurs in that of every text in which it occurs. -/
theorem lower_infix_of_settled {part text : List Char} (h : settled part = true)
    (hpart : part <:+: text) : lower part <:+: lower text := by
  obtain ⟨front, back, rfl⟩ := hpart
  have hform : lowerBetween front.reverse back part = lower part := by
    rw [lower_eq]
    exact lowerBetween_of_settled h front.reverse back
  rw [lower_parts, hform]
  exact List.infix_append _ _ _

/-! ## Unsettled texts -/

theorem exists_sigma_of_not_settled {before cs : List Char}
    (h : settledFrom before cs = false) :
    ∃ front rest, cs = front ++ 'Σ' :: rest ∧ fixesSigma (front.reverse ++ before) rest = false := by
  induction cs generalizing before with
  | nil => cases h
  | cons c cs ih =>
      rw [settledFrom, Bool.and_eq_false_iff, Bool.or_eq_false_iff] at h
      rcases h with ⟨hc, hfixes⟩ | hcs
      · refine ⟨[], cs, ?_, hfixes⟩
        rw [List.nil_append, bne_eq_false_iff_eq.mp hc]
      · obtain ⟨front, rest, rfl, hfixes⟩ := ih hcs
        refine ⟨c :: front, rest, rfl, ?_⟩
        simpa using hfixes

/-- Every sigma that has the form `x` at one place in a text has it at another place as well. -/
def FormStays (x : Char) (before after before' after' : List Char) : Prop :=
  ∀ front rest, lowerSigma (front ++ before) (rest ++ after) = x →
    lowerSigma (front ++ before') (rest ++ after') = x

section Counting

variable {x : Char} {before after before' after' : List Char}

theorem FormStays.within (h : FormStays x before after before' after') (front rest : List Char) :
    FormStays x (front ++ before) (rest ++ after) (front ++ before') (rest ++ after') := by
  intro front' rest' hform
  rw [← List.append_assoc, ← List.append_assoc] at hform ⊢
  exact h (front' ++ front) (rest' ++ rest) hform

theorem FormStays.count_le (h : FormStays x before after before' after') (cs : List Char) :
    (lowerBetween before after cs).count x ≤ (lowerBetween before' after' cs).count x := by
  induction cs generalizing before before' with
  | nil => exact Nat.le_refl _
  | cons c cs ih =>
      have hcs := ih (h.within [c] [])
      rw [lowerBetween, lowerBetween, List.count_append, List.count_append]
      refine Nat.add_le_add ?_ hcs
      split
      · by_cases hform : lowerSigma before (cs ++ after) = x
        · have hform' : lowerSigma before' (cs ++ after') = x := h [] cs hform
          exact Nat.le_of_eq (by rw [hform, hform'])
        · rw [List.count_singleton, if_neg (by simpa using hform)]
          exact Nat.zero_le _
      · exact Nat.le_refl _

/-- A sigma that gains the form makes it more frequent. -/
theorem FormStays.count_lt (h : FormStays x before after before' after') {front rest : List Char}
    (hform : lowerSigma (front.reverse ++ before) (rest ++ after) ≠ x)
    (hform' : lowerSigma (front.reverse ++ before') (rest ++ after') = x) :
    (lowerBetween before after (front ++ 'Σ' :: rest)).count x <
      (lowerBetween before' after' (front ++ 'Σ' :: rest)).count x := by
  have hfront := (h.within [] ('Σ' :: rest)).count_le front
  have hrest := (h.within ('Σ' :: front.reverse) []).count_le rest
  have hsigma : [lowerSigma (front.reverse ++ before) (rest ++ after)].count x <
      [lowerSigma (front.reverse ++ before') (rest ++ after')].count x := by
    rw [hform', List.count_singleton_self, List.count_singleton, if_neg (by simpa using hform)]
    exact Nat.one_pos
  simp only [lowerBetween_append, lowerBetween, if_true, List.count_append]
  exact Nat.add_lt_add_of_le_of_lt hfront (Nat.add_lt_add_of_lt_of_le hsigma hrest)

end Counting

/-- A final sigma does not become one by a letter behind the text. -/
theorem formStays_final : FormStays 'ς' [] ['a'] [] [] := by
  intro front rest hform
  rw [lowerSigma_eq_final_iff, firstCased?_append rest] at hform
  rw [lowerSigma_eq_final_iff, List.append_nil rest]
  refine ⟨hform.1, ?_⟩
  intro hrest
  rw [hrest] at hform
  exact hform.2 rfl

/-- A sigma that is not final has not become so by a letter before the text. -/
theorem formStays_medial : FormStays 'σ' ['a'] [] [] [] := by
  intro front rest hform
  rw [List.append_nil front]
  refine (lowerSigma_cases front (rest ++ [])).resolve_left ?_
  intro hfinal
  rw [lowerSigma_eq_final_iff] at hfinal
  have hletter : lowerSigma (front ++ ['a']) (rest ++ []) = 'ς' := by
    rw [lowerSigma_eq_final_iff, firstCased?_append, hfinal.1]
    exact ⟨rfl, hfinal.2⟩
  rw [hletter] at hform
  exact absurd hform (by decide)

theorem lowerChar_letter : lowerChar 'a' = ['a'] := by
  decide +kernel

theorem lower_append_letter (part : List Char) :
    lower (part ++ ['a']) = lowerBetween [] ['a'] part ++ ['a'] := by
  rw [lower_eq, lowerBetween_append, lowerBetween, lowerBetween, lowerChar_letter]
  rfl

theorem lower_cons_letter (part : List Char) :
    lower ('a' :: part) = 'a' :: lowerBetween ['a'] [] part := by
  rw [lower_eq, lowerBetween, lowerChar_letter]
  rfl

/-- The lowercase form of a text that is not settled does not occur in that of the text beside a
letter. -/
theorem exists_not_infix {part : List Char} (h : settled part = false) :
    ∃ front back, front ++ back = ['a'] ∧ ¬lower part <:+: lower (front ++ part ++ back) := by
  obtain ⟨front, rest, hpart, hfixes⟩ := exists_sigma_of_not_settled h
  rw [List.append_nil] at hfixes
  rcases not_fixes_cases hfixes with ⟨hfinal, hlost⟩ | ⟨hmedial, hgained⟩
  · -- a letter behind the text takes a final sigma away and brings none
    refine ⟨[], ['a'], rfl, ?_⟩
    have hlt : (lowerBetween [] ['a'] part).count 'ς' < (lower part).count 'ς' := by
      rw [lower_eq, hpart]
      refine formStays_final.count_lt ?_ ?_
      · rw [List.append_nil, hlost]
        decide
      · rw [List.append_nil, List.append_nil, hfinal]
    intro hinfix
    rw [List.nil_append, lower_append_letter] at hinfix
    have hle := hinfix.sublist.count_le 'ς'
    rw [List.count_append] at hle
    exact absurd hle (Nat.not_le.mpr hlt)
  · -- a letter before the text takes a sigma that is not final away and brings none
    refine ⟨['a'], [], rfl, ?_⟩
    have hlt : (lowerBetween ['a'] [] part).count 'σ' < (lower part).count 'σ' := by
      rw [lower_eq, hpart]
      refine formStays_medial.count_lt ?_ ?_
      · rw [List.append_nil, hgained]
        decide
      · rw [List.append_nil, List.append_nil, hmedial]
    intro hinfix
    rw [List.append_nil, List.singleton_append, lower_cons_letter] at hinfix
    have hle := hinfix.sublist.count_le 'σ'
    exact absurd hle (Nat.not_le.mpr hlt)

end FormulaBar.Text
