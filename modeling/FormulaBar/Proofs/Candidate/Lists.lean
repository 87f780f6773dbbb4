import FormulaBar.Candidate.Json
import FormulaBar.Proofs.Json.Doubles
import FormulaBar.Proofs.Json.Writing
import Mathlib.Data.List.Forall2

/-!
# Candidate lists survive JSON

A list of candidates that is written and read again is the same list, whatever the ids, names and
categories are, as long as the values are finite. A value that is not finite is written as null,
which no value is read from. Lists that have been read have finite values only.

1. **Lists** are read record by record.
2. **Values**, and what is assumed of the number literals that they are written as.
3. **Records** and lists of them.
-/

namespace FormulaBar.Candidate

open Json (parse?_text)

/-! ## Lists -/

section Lists

variable {α β : Type}

/-- A list is read if every one of its items is. -/
theorem mapM_eq_some_iff {read : α → Option β} {xs : List α} {ys : List β} :
    xs.mapM read = some ys ↔ List.Forall₂ (fun x y => read x = some y) xs ys := by
  induction xs generalizing ys with
  | nil =>
      rw [List.forall₂_nil_left_iff]
      exact Option.some_inj.trans eq_comm
  | cons x xs ih =>
      rw [List.mapM_cons, List.forall₂_cons_left_iff]
      simp only [Option.bind_eq_bind, Option.bind_eq_some_iff, Option.pure_def, ih]
      constructor
      · rintro ⟨y, hy, ys', hys, heq⟩
        cases heq
        exact ⟨y, ys', hy, hys, rfl⟩
      · rintro ⟨y, ys', hy, hys, rfl⟩
        exact ⟨y, hy, ys', hys, rfl⟩

theorem exists_of_mem_left {R : α → β → Prop} {xs : List α} {ys : List β} (h : List.Forall₂ R xs ys)
    {x : α} (hx : x ∈ xs) : ∃ y ∈ ys, R x y := by
  induction h with
  | nil => cases hx
  | cons hR _ ih =>
      rcases List.mem_cons.mp hx with rfl | hx
      · exact ⟨_, List.mem_cons_self, hR⟩
      · obtain ⟨y, hy, hRy⟩ := ih hx
        exact ⟨y, List.mem_cons_of_mem _ hy, hRy⟩

theorem exists_of_mem_right {R : α → β → Prop} {xs : List α} {ys : List β}
    (h : List.Forall₂ R xs ys) {y : β} (hy : y ∈ ys) : ∃ x ∈ xs, R x y :=
  exists_of_mem_left (List.Forall₂.flip h) hy

end Lists

/-- A text is read as a list of candidates if it is an array of records of them. -/
theorem readList?_eq_some_iff {text : String} {cs : List Candidate} :
    readList? text = some cs ↔ ∃ items, Json.parse? text = some (.array items) ∧
      List.Forall₂ (fun v c => ofJson? v = some c) items cs := by
  rw [readList?, Option.bind_eq_bind, Option.bind_eq_some_iff]
  constructor
  · rintro ⟨v, hv, hcs⟩
    cases v with
    | array items => exact ⟨items, hv, mapM_eq_some_iff.mp hcs⟩
    | null | bool | number | string | object => cases hcs
  · rintro ⟨items, hitems, hcs⟩
    exact ⟨_, hitems, mapM_eq_some_iff.mpr hcs⟩

/-! ## Values -/

/-- The number that is written for a double is read as this double. -/
def ReadBack (x : Float) : Prop :=
  Json.parse? ((Json.ofFloat x).text .compact) >>= Json.float? = some x

section Values

variable {x : Float} {c : Candidate}

theorem readBack_iff : ReadBack x ↔ (Json.ofFloat x).float? = some x := by
  rw [ReadBack, parse?_text]
  rfl

/-- Null is written for what is not finite, and no value is read from it. -/
theorem float?_ofFloat_of_not_finite (hx : ¬x.isFinite = true) : (Json.ofFloat x).float? = none := by
  have hindex : Numeral.infinityIndex ≤ Numeral.index x := by
    rwa [Numeral.isFinite_iff, Nat.not_lt] at hx
  rw [Json.ofFloat, Json.Number.ofFloat?, if_pos hindex]
  rfl

theorem isFinite_zero : (0 : Float).isFinite = true := by
  decide

/-- A value that is read is finite. -/
theorem isFinite_float? {v : Json} (h : v.float? = some x) : x.isFinite = true := by
  cases v with
  | number n => exact Json.Number.isFinite_toFloat? h
  | null | bool | string | array | object => cases h

/-- A candidate that is read has a finite value, also where none is given. -/
theorem isFinite_of_ofJson? {v : Json} (h : ofJson? v = some c) : c.value.isFinite = true := by
  simp only [ofJson?, Option.bind_eq_bind, Option.bind_eq_some_iff] at h
  obtain ⟨fields, -, id, -, name, -, category, -, value, hvalue, hc⟩ := h
  cases hc
  unfold Json.Fields.optional at hvalue
  split at hvalue
  · exact isFinite_float? hvalue
  · cases hvalue
    exact isFinite_zero

end Values

/-! ## Records -/

section Records

variable {c : Candidate}

/-- The fields that are written for a candidate. -/
theorem fields?_toJson (c : Candidate) :
    c.toJson.fields? fieldNames = some
      [("id", .ofText c.id), ("name", .ofText c.name), ("category", .ofText c.category),
        ("value", .ofFloat c.value)] := by
  rfl

/-- The texts of a candidate are read as they stand, and its value as the number allows. -/
theorem ofJson?_toJson (c : Candidate) :
    ofJson? c.toJson = (Json.ofFloat c.value).float?.map fun value => { c with value } := by
  have hvalue : ofJson? c.toJson =
      (Json.ofFloat c.value).float? >>= fun value => some { c with value } := by
    unfold ofJson?
    rw [fields?_toJson]
    rfl
  rw [hvalue]
  cases (Json.ofFloat c.value).float? <;> rfl

theorem ofJson?_toJson_eq_some_iff {c' : Candidate} (h : ReadBack c.value) :
    ofJson? c.toJson = some c' ↔ c' = c := by
  rw [ofJson?_toJson, readBack_iff.mp h]
  exact Option.some_inj.trans eq_comm

theorem readList?_writeList (cs : List Candidate) :
    readList? (writeList cs) = (cs.map toJson).mapM ofJson? := by
  rw [readList?, writeList, parse?_text]
  rfl

/-- Lists whose values are read back are read back. -/
theorem readList?_writeList_of_readBack {cs : List Candidate} (h : ∀ c ∈ cs, ReadBack c.value) :
    readList? (writeList cs) = some cs := by
  rw [readList?_writeList, mapM_eq_some_iff, List.forall₂_map_left_iff, List.forall₂_same]
  intro c hc
  exact (ofJson?_toJson_eq_some_iff (h c hc)).mpr rfl

/-- One value that is not finite spoils the list. -/
theorem readList?_writeList_of_not_finite {cs : List Candidate}
    (h : ∃ c ∈ cs, ¬c.value.isFinite = true) : readList? (writeList cs) = none := by
  rw [readList?_writeList, Option.eq_none_iff_forall_ne_some]
  intro cs' hread
  obtain ⟨c, hc, hvalue⟩ := h
  rw [mapM_eq_some_iff, List.forall₂_map_left_iff] at hread
  obtain ⟨c', -, hc'⟩ := exists_of_mem_left hread hc
  rw [ofJson?_toJson, float?_ofFloat_of_not_finite hvalue] at hc'
  cases hc'

/-- A list of candidates is read back from what is written for it if all of its values are finite,
and is refused if one is not. A list that has been read from any text is read back. What is assumed
is that the number written for a finite value is read as this value. -/
theorem lists_read_back :
    (∀ cs : List Candidate, (∀ c ∈ cs, c.value.isFinite = true → ReadBack c.value) →
      (∀ c ∈ cs, c.value.isFinite = true) → readList? (writeList cs) = some cs) ∧
    (∀ cs : List Candidate, (∃ c ∈ cs, ¬c.value.isFinite = true) →
      readList? (writeList cs) = none) ∧
    ∀ (text : String) (cs : List Candidate), readList? text = some cs →
      (∀ c ∈ cs, c.value.isFinite = true → ReadBack c.value) →
      readList? (writeList cs) = some cs := by
  refine ⟨?_, fun cs => readList?_writeList_of_not_finite, ?_⟩
  · intro cs hback hfinite
    exact readList?_writeList_of_readBack fun c hc => hback c hc (hfinite c hc)
  · intro text cs hread hback
    -- whatever has been read is finite, so that the second reading needs no more than the first
    obtain ⟨items, -, hitems⟩ := readList?_eq_some_iff.mp hread
    apply readList?_writeList_of_readBack
    intro c hc
    obtain ⟨v, -, hv⟩ := exists_of_mem_right hitems hc
    exact hback c hc (isFinite_of_ofJson? hv)

/-- A numeric id becomes the text of its number, a category that is null and a value that is missing
become what they stand for, and an unknown field is left out. What is written for the result is read
as this result. -/
theorem mixed_records_read_back :
    let items : List Json :=
      [.ofMembers [("id", .ofNat 7), ("name", .ofText "Größe\n"), ("unit", .array [.ofNat 1]),
          ("category", .null)],
        .ofMembers [("value", .number ⟨true, 2, [5], none⟩), ("id", .ofText "007"),
          ("name", .ofText "debt")]]
    let cs : List Candidate := [⟨"7", "Größe\n", "", 0⟩, ⟨"007", "debt", "", -2.5⟩]
    let spoilt : Candidate := ⟨"007", "debt", "", Numeral.ofIndex true Numeral.infinityIndex⟩
    readList? ((Json.array items).text .compact) = some cs ∧ readList? (writeList cs) = some cs ∧
      readList? (writeList [spoilt]) = none := by
  intro items cs spoilt
  have hread : readList? ((Json.array items).text .compact) = some cs := by
    rw [readList?, parse?_text]
    decide +kernel
  have hback : ∀ c ∈ cs, c.value.isFinite = true → ReadBack c.value := by
    intro c hc _
    rw [readBack_iff]
    revert c hc
    decide +kernel
  have hspoilt : ∃ c ∈ [spoilt], ¬c.value.isFinite = true := by
    decide +kernel
  obtain ⟨-, hrefused, hagain⟩ := lists_read_back
  exact ⟨hread, hagain _ cs hread hback, hrefused [spoilt] hspoilt⟩

end Records

end FormulaBar.Candidate
