import FormulaBar.Json.Record
import Mathlib.Data.List.Basic

/-!
# Records are read by name

What is read of an object depends on the values under each known name and on nothing else: not on
the order of the members, and not on the values under any other name. Only a name without a text is
refused wherever it stands.

1. **Members** under a name, and those with known names.
2. **Reading** the members with known names.
3. **Fields** that may be absent.
-/

namespace FormulaBar.Json

/-! ## Members -/

/-- The values under a name, in order. -/
def valuesOf (name : String) (ms : List (StringValue × Json)) : List Json :=
  (ms.filter fun m => m.1 = some name).map Prod.snd

/-- Whether a member has one of the known names. -/
def isKnown (known : List String) (m : StringValue × Json) : Bool :=
  m.1.any fun name => name ∈ known

/-- The members with known names as fields, in order. -/
def fieldsOf (known : List String) (ms : List (StringValue × Json)) : Fields :=
  ms.filterMap fun (name?, v) =>
    name?.bind fun name => if name ∈ known then some (name, v) else none

section Members

variable {known : List String} {name other : String} {v : Json} {ms : List (StringValue × Json)}

theorem valuesOf_cons_self : valuesOf name ((some name, v) :: ms) = v :: valuesOf name ms := by
  rw [valuesOf, List.filter_cons_of_pos (by simp)]
  rfl

theorem valuesOf_cons_of_ne (h : other ≠ name) :
    valuesOf name ((some other, v) :: ms) = valuesOf name ms := by
  rw [valuesOf, List.filter_cons_of_neg (by simpa using h)]
  rfl

/-- The order of the members matters only to repeated names. -/
theorem valuesOf_perm (name : String) {ms' : List (StringValue × Json)} (h : ms'.Perm ms) :
    (valuesOf name ms').Perm (valuesOf name ms) :=
  (h.filter _).map _

/-- The values under a known name are among the members with known names. -/
theorem valuesOf_filter (h : name ∈ known) :
    valuesOf name (ms.filter (isKnown known)) = valuesOf name ms := by
  have hsame : ∀ m : StringValue × Json,
      (decide (m.1 = some name) && isKnown known m) = decide (m.1 = some name) := by
    intro m
    by_cases hm : m.1 = some name
    · rw [isKnown, hm, Option.any_some, decide_eq_true h, Bool.and_true]
    · rw [decide_eq_false hm, Bool.false_and]
  simp only [valuesOf, List.filter_filter, hsame]

theorem fieldsOf_cons_of_mem (h : name ∈ known) :
    fieldsOf known ((some name, v) :: ms) = (name, v) :: fieldsOf known ms :=
  List.filterMap_cons_some (if_pos h)

theorem fieldsOf_cons_of_notMem (h : name ∉ known) :
    fieldsOf known ((some name, v) :: ms) = fieldsOf known ms :=
  List.filterMap_cons_none (if_neg h)

/-- The first value under a known name is the one that is found. -/
theorem lookup_fieldsOf (h : name ∈ known) :
    (fieldsOf known ms).lookup name = (valuesOf name ms).head? := by
  induction ms with
  | nil => rfl
  | cons m ms ih =>
      obtain ⟨_ | other, v⟩ := m
      · exact ih
      · by_cases hother : other = name
        · subst hother
          rw [fieldsOf_cons_of_mem h, valuesOf_cons_self, List.lookup_cons_self]
          rfl
        · rw [valuesOf_cons_of_ne hother, ← ih]
          by_cases hknown : other ∈ known
          · rw [fieldsOf_cons_of_mem hknown, List.lookup_cons, beq_false_of_ne (Ne.symm hother)]
          · rw [fieldsOf_cons_of_notMem hknown]

theorem mem_fieldsOf : (name, v) ∈ fieldsOf known ms ↔ name ∈ known ∧ v ∈ valuesOf name ms := by
  simp only [fieldsOf, valuesOf, List.mem_filterMap, List.mem_map, List.mem_filter,
    Option.bind_eq_some_iff, Option.ite_none_right_eq_some, decide_eq_true_eq]
  constructor
  · rintro ⟨m, hm, other, hother, hknown, ⟨⟩⟩
    exact ⟨hknown, m, ⟨hm, hother⟩, rfl⟩
  · rintro ⟨hknown, m, ⟨hm, hname⟩, rfl⟩
    exact ⟨m, hm, name, hname, hknown, rfl⟩

/-- A known name is among the fields only if there is a value under it. -/
theorem any_fieldsOf (h : valuesOf name ms = []) :
    (fieldsOf known ms).any (fun field => field.1 = name) = false := by
  rw [List.any_eq_false]
  rintro ⟨other, v⟩ hfield hother
  have hname : other = name := of_decide_eq_true hother
  have hv : v ∈ valuesOf other ms := (mem_fieldsOf.mp hfield).2
  rw [hname, h] at hv
  cases hv

end Members

/-! ## Reading -/

/-- All names have texts. -/
def allNamed (ms : List (StringValue × Json)) : Bool := ms.all fun m => m.1.isSome

/-- No known name has more than one value. -/
def Unrepeated (known : List String) (ms : List (StringValue × Json)) : Prop :=
  ∀ name ∈ known, (valuesOf name ms).length ≤ 1

section Reading

variable {known : List String} {name : String} {v : Json} {ms : List (StringValue × Json)}

theorem Unrepeated.of_cons (h : Unrepeated known ((some name, v) :: ms)) :
    Unrepeated known ms ∧ (name ∈ known → valuesOf name ms = []) := by
  constructor
  · intro other hother
    have hlength := h other hother
    by_cases hname : name = other
    · subst hname
      rw [valuesOf_cons_self, List.length_cons] at hlength
      omega
    · rwa [valuesOf_cons_of_ne hname] at hlength
  · intro hknown
    have hlength := h name hknown
    rw [valuesOf_cons_self, List.length_cons] at hlength
    exact List.eq_nil_of_length_eq_zero (by omega)

/-- The members with known names are read unless one of them is repeated, and unless the name of
any member has no text. -/
theorem knownMembers?_eq (h : Unrepeated known ms) :
    knownMembers? known ms = if allNamed ms then some (fieldsOf known ms) else none := by
  induction ms with
  | nil => rfl
  | cons m ms ih =>
      obtain ⟨_ | name, v⟩ := m
      · rfl
      · obtain ⟨hrest, hfirst⟩ := h.of_cons
        have hnamed : allNamed ((some name, v) :: ms) = allNamed ms := by
          rfl
        rw [knownMembers?, ih hrest, hnamed]
        cases allNamed ms with
        | false => rfl
        | true =>
            simp only [Option.bind_eq_bind, Option.bind_some, if_true]
            -- a known name is not repeated, so it is not among the fields of the rest
            by_cases hknown : name ∈ known
            · rw [if_pos hknown, any_fieldsOf (hfirst hknown), fieldsOf_cons_of_mem hknown]
              rfl
            · rw [if_neg hknown, fieldsOf_cons_of_notMem hknown]

/-- The members that are read are always those with known names. -/
theorem eq_fieldsOf_of_knownMembers? {fields : Fields} (h : knownMembers? known ms = some fields) :
    fields = fieldsOf known ms := by
  induction ms generalizing fields with
  | nil =>
      cases h
      rfl
  | cons m ms ih =>
      obtain ⟨_ | name, v⟩ := m
      · cases h
      · obtain ⟨rest, hrest, hfields⟩ := Option.bind_eq_some_iff.mp h
        by_cases hknown : name ∈ known
        · rw [if_pos hknown, Option.ite_none_left_eq_some] at hfields
          rw [fieldsOf_cons_of_mem hknown, ← ih hrest]
          exact (Option.some.inj hfields.2).symm
        · rw [if_neg hknown] at hfields
          rw [fieldsOf_cons_of_notMem hknown, ← ih hrest]
          exact (Option.some.inj hfields).symm

end Reading

/-! ## Fields -/

section Fields

variable {α : Type} {read : Json → Option α}

/-- A field is read from the one value under its name, and is its default if there is none. -/
theorem Fields.optional_eq (known : List String) {name : String} {ms : List (StringValue × Json)}
    {v? : Option Json} (hknown : name ∈ known) (h : valuesOf name ms = v?.toList) (default : α) :
    (fieldsOf known ms).optional name default read = (v?.map read).getD (some default) := by
  rw [optional, lookup_fieldsOf hknown, h]
  cases v? with
  | none => rfl
  | some v => rfl

/-- What has been written for a field is read back. -/
theorem read_map_write {write : α → Json} (hread : ∀ a, read (write a) = some a)
    (field : Option α) (default : α) :
    ((field.map write).map read).getD (some default) = some (field.getD default) := by
  cases field with
  | none => rfl
  | some a => exact hread a

end Fields

end FormulaBar.Json
