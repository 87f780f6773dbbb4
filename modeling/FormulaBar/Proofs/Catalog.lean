import FormulaBar.Catalog
import FormulaBar.Proofs.Text.Lines
import FormulaBar.Proofs.Text.Lowercase

/-!
# What a search finds

A search keeps the candidates that it finds as they stand in the catalog. It finds all those that
hold the query as it was typed, and finds the fewer the more is typed, for just those queries whose
lowercase form does not hang on what stands around them. The final form of a sigma does, so what is
found by a whole word may be missed by a part of it.

1. **Found** candidates, by lowercase texts.
2. **Literal matches** and longer queries.
-/

namespace FormulaBar.Catalog

open FormulaBar.Text (contains_iff lower settled trimChars)

/-! ## Found candidates -/

section Search

variable {query : String}

theorem isHit_iff (q : List Char) (c : Candidate) :
    isHit q c = true ↔ q <:+: lower c.name.toList ∨ q <:+: lower c.category.toList := by
  rw [isHit, Bool.or_eq_true, contains_iff, contains_iff]

/-- A query that is not blank selects from the catalog by its lowercase form. -/
theorem search_eq_filter (hquery : trimChars query.toList ≠ []) (catalog : List Candidate) :
    search catalog query = catalog.filter (isHit (lower (trimChars query.toList))) := by
  rw [search]
  split
  · next hblank => exact absurd hblank hquery
  · rfl

theorem mem_search_iff (hquery : trimChars query.toList ≠ []) {catalog : List Candidate}
    {c : Candidate} :
    c ∈ search catalog query ↔ c ∈ catalog ∧
      (lower (trimChars query.toList) <:+: lower c.name.toList ∨
        lower (trimChars query.toList) <:+: lower c.category.toList) := by
  rw [search_eq_filter hquery, List.mem_filter, isHit_iff]

/-- What is found is selected from the catalog: nothing changes places, and a candidate that stands
there repeatedly is found as often. -/
theorem search_selects (hquery : trimChars query.toList ≠ []) (catalog : List Candidate) :
    (search catalog query).Sublist catalog ∧
      (catalog.filter fun c => c ∈ search catalog query) = search catalog query := by
  have hsearch := search_eq_filter hquery catalog
  refine ⟨hsearch ▸ List.filter_sublist, ?_⟩
  conv => rhs; rw [hsearch]
  refine List.filter_congr ?_
  intro c hc
  rw [hsearch, Bool.eq_iff_iff, decide_eq_true_iff, List.mem_filter]
  exact and_iff_right hc

/-! ## Literal matches -/

/-- A candidate holds a text in its name or category as it stands. -/
def Holds (part : List Char) (c : Candidate) : Prop :=
  part <:+: c.name.toList ∨ part <:+: c.category.toList

theorem mem_search_of_holds (hquery : trimChars query.toList ≠ [])
    (hsettled : settled (trimChars query.toList) = true) {catalog : List Candidate}
    {c : Candidate} (hc : c ∈ catalog) (h : Holds (trimChars query.toList) c) :
    c ∈ search catalog query := by
  refine (mem_search_iff hquery).mpr ⟨hc, ?_⟩
  exact h.imp (Text.lower_infix_of_settled hsettled) (Text.lower_infix_of_settled hsettled)

/-- A query that contains another one finds no more than that does. -/
theorem search_sublist_of_infix (hquery : trimChars query.toList ≠ [])
    (hsettled : settled (trimChars query.toList) = true) {wider : String}
    (hwider : trimChars query.toList <:+: trimChars wider.toList) (catalog : List Candidate) :
    (search catalog wider).Sublist (search catalog query) := by
  have hne : trimChars wider.toList ≠ [] := by
    intro hnil
    rw [hnil] at hwider
    exact hquery (List.infix_nil.mp hwider)
  have hlower := Text.lower_infix_of_settled hsettled hwider
  rw [search_eq_filter hne, search_eq_filter hquery]
  refine List.monotone_filter_right catalog ?_
  intro c hc
  rw [isHit_iff] at hc ⊢
  exact hc.imp hlower.trans hlower.trans

/-- A candidate of which nothing but the name is known. -/
def named (name : String) : Candidate := ⟨"", name, "", 0⟩

/-- A query that is not settled misses a name that consists of the query and a letter, and that the
whole name finds. -/
theorem exists_missed (hquery : trimChars query.toList ≠ [])
    (hsettled : settled (trimChars query.toList) = false) :
    ∃ name : String, trimChars name.toList = name.toList ∧
      trimChars query.toList <:+: name.toList ∧
      search [named name] query = [] ∧ search [named name] name = [named name] := by
  obtain ⟨front, back, hletter, hmissed⟩ := Text.exists_not_infix hsettled
  let name := String.ofList (front ++ trimChars query.toList ++ back)
  have hchars : name.toList = front ++ trimChars query.toList ++ back := String.toList_ofList
  have hpart : trimChars query.toList <:+: name.toList := hchars ▸ List.infix_append _ _ _
  have htrim : trimChars name.toList = name.toList := by
    rw [hchars]
    exact Text.trimChars_beside (by decide) (Text.trimChars_trimChars _) hletter
  have hname : trimChars name.toList ≠ [] := by
    rw [htrim]
    intro hnil
    rw [hnil] at hpart
    exact hquery (List.infix_nil.mp hpart)
  refine ⟨name, htrim, hpart, ?_, ?_⟩
  · rw [List.eq_nil_iff_forall_not_mem]
    intro c hc
    obtain ⟨hnamed, hfound⟩ := (mem_search_iff hquery).mp hc
    rw [List.mem_singleton.mp hnamed] at hfound
    rcases hfound with hfound | hfound
    · exact hmissed (hchars ▸ hfound)
    · -- only an empty text occurs in the empty category, and that occurs everywhere
      have hnil : lower (trimChars query.toList) = [] := List.infix_nil.mp hfound
      rw [hnil] at hmissed
      exact hmissed List.nil_infix
  · rw [search_eq_filter hname, htrim]
    refine List.filter_eq_self.mpr ?_
    intro c hc
    rw [List.mem_singleton.mp hc, isHit_iff]
    exact .inl List.infix_rfl

/-- Whatever is found stands in the catalog in the same order and as often. A query whose every
capital sigma is settled by the letters of the query finds all that holds it as it stands, and so
finds no less than any query that contains it. No other query does either. -/
theorem search_literal (query : String) (hquery : trimChars query.toList ≠ []) :
    (∀ catalog, (search catalog query).Sublist catalog ∧
      (catalog.filter fun c => c ∈ search catalog query) = search catalog query) ∧
    ((∀ catalog, ∀ c ∈ catalog, Holds (trimChars query.toList) c → c ∈ search catalog query) ↔
      settled (trimChars query.toList) = true) ∧
    ((∀ wider : String, trimChars query.toList <:+: trimChars wider.toList →
        ∀ catalog, (search catalog wider).Sublist (search catalog query)) ↔
      settled (trimChars query.toList) = true) := by
  refine ⟨search_selects hquery, ⟨?_, ?_⟩, ?_, ?_⟩
  · intro hliteral
    by_contra hsettled
    rw [Bool.not_eq_true] at hsettled
    obtain ⟨name, -, hname, hmissed, -⟩ := exists_missed hquery hsettled
    have hfound := hliteral [named name] (named name) List.mem_cons_self (.inl hname)
    rw [hmissed] at hfound
    cases hfound
  · exact fun hsettled _ _ hc h => mem_search_of_holds hquery hsettled hc h
  · intro hnarrows
    by_contra hsettled
    rw [Bool.not_eq_true] at hsettled
    obtain ⟨name, htrim, hname, hmissed, hfound⟩ := exists_missed hquery hsettled
    have hsublist := hnarrows name (htrim.symm ▸ hname) [named name]
    rw [hmissed, hfound] at hsublist
    cases hsublist
  · exact fun hsettled _ hwider catalog => search_sublist_of_infix hquery hsettled hwider catalog

/-- A sigma between letters is no obstacle: the query finds every candidate that holds it. -/
theorem medial_sigma_found :
    trimChars " ΑΣΑ ".toList ≠ [] ∧
    ∀ catalog, ∀ c ∈ catalog, Holds "ΑΣΑ".toList c → c ∈ search catalog " ΑΣΑ " := by
  have htrim : trimChars " ΑΣΑ ".toList = "ΑΣΑ".toList := by
    decide +kernel
  have hquery : trimChars " ΑΣΑ ".toList ≠ [] := by
    rw [htrim]
    decide
  have hsettled : settled (trimChars " ΑΣΑ ".toList) = true := by
    decide +kernel
  refine ⟨hquery, ?_⟩
  rw [← htrim]
  exact (search_literal " ΑΣΑ " hquery).2.1.mpr hsettled

/-- A query that ends in a sigma misses a name that contains it, and a longer query finds it. -/
theorem final_sigma_missed :
    trimChars "ΑΣ".toList ≠ [] ∧ Holds (trimChars "ΑΣ".toList) (named "ΑΣΑ") ∧
      trimChars "ΑΣ".toList <:+: trimChars "ΑΣΑ".toList ∧
      search [named "ΑΣΑ"] "ΑΣ" = [] ∧ search [named "ΑΣΑ"] "ΑΣΑ" = [named "ΑΣΑ"] := by
  have hinfix : trimChars "ΑΣ".toList <:+: "ΑΣΑ".toList := ⟨[], ['Α'], by decide +kernel⟩
  have htrim : trimChars "ΑΣΑ".toList = "ΑΣΑ".toList := by
    decide +kernel
  refine ⟨by decide +kernel, .inl hinfix, htrim.symm ▸ hinfix, ?_, ?_⟩
  · decide +kernel
  · decide +kernel

end Search

end FormulaBar.Catalog
