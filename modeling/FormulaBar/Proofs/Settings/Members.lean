import FormulaBar.Proofs.Json.Record
import FormulaBar.Proofs.Settings.Commented
import FormulaBar.Proofs.Settings.Saving

/-!
# Settings are read by name

An object says each field of the settings at most once, anywhere among its members. What it does not
say takes its default, and what else it holds is skipped, whatever it is.

1. **Given** fields, and the settings that they make.
2. **Objects** and what they give.
3. **Texts** of objects, in any spelling.
-/

namespace FormulaBar.Settings

open Json (StringValue Spelled allNamed fieldsOf isKnown valuesOf)

/-! ## Given fields -/

/-- What is given for each field, if anything is. A string need not have a text. -/
structure Given where
  baseUrl : Option StringValue := none
  path : Option StringValue := none
  timeoutSecs : Option UInt64 := none
  cacheTtlSecs : Option UInt64 := none
  autocomplete : Option Bool := none

/-- The settings that have the given fields, and the defaults for all others. There are none if a
given string has no text. -/
def Given.settings? (given : Given) : Option Settings := do
  let standard : Settings := {}
  let baseUrl ← given.baseUrl.getD (some standard.baseUrl)
  let path ← given.path.getD (some standard.path)
  return { baseUrl, path
           timeoutSecs := given.timeoutSecs.getD standard.timeoutSecs
           cacheTtlSecs := given.cacheTtlSecs.getD standard.cacheTtlSecs
           autocomplete := given.autocomplete.getD standard.autocomplete }

/-! ## Objects -/

/-- There is one member for each given field, with a value of its type, and none for the others. -/
structure Gives (members : List (StringValue × Json)) (given : Given) : Prop where
  baseUrl : valuesOf "lookup.baseUrl" members = (given.baseUrl.map Json.string).toList
  path : valuesOf "lookup.path" members = (given.path.map Json.string).toList
  timeoutSecs : valuesOf "lookup.timeoutSecs" members =
    (given.timeoutSecs.map fun n => Json.ofNat n.toNat).toList
  cacheTtlSecs : valuesOf "lookup.cacheTtlSecs" members =
    (given.cacheTtlSecs.map fun n => Json.ofNat n.toNat).toList
  autocomplete : valuesOf "editor.autocomplete" members =
    (given.autocomplete.map Json.bool).toList

section Objects

variable {members members' : List (StringValue × Json)} {given : Given}

theorem Gives.unrepeated (h : Gives members given) : Json.Unrepeated fieldNames members := by
  have hlength : ∀ v? : Option Json, v?.toList.length ≤ 1 := by
    intro v?
    cases v? with
    | none => exact Nat.zero_le 1
    | some v => exact Nat.le_refl 1
  intro name hname
  simp only [fieldNames, List.mem_cons, List.not_mem_nil, or_false] at hname
  rcases hname with rfl | rfl | rfl | rfl | rfl
  · exact h.baseUrl ▸ hlength _
  · exact h.path ▸ hlength _
  · exact h.timeoutSecs ▸ hlength _
  · exact h.cacheTtlSecs ▸ hlength _
  · exact h.autocomplete ▸ hlength _

/-- An object describes the settings that it gives, if all of its names have texts. -/
theorem ofJson?_object (h : Gives members given) :
    ofJson? (.object members) = if allNamed members then given.settings? else none := by
  have htext : ∀ (s? : Option StringValue) (default : String),
      ((s?.map Json.string).map Json.text?).getD (some default) = s?.getD (some default) := by
    intro s? default
    cases s? <;> rfl
  have hbool : ∀ b, (Json.bool b).bool? = some b := fun _ => rfl
  rw [ofJson?, Json.fields?, Json.knownMembers?_eq h.unrepeated]
  cases allNamed members with
  | false => rfl
  | true =>
      simp only [if_true, Option.bind_eq_bind, Option.bind_some,
        Json.Fields.optional_eq fieldNames (by decide) h.baseUrl,
        Json.Fields.optional_eq fieldNames (by decide) h.path,
        Json.Fields.optional_eq fieldNames (by decide) h.timeoutSecs,
        Json.Fields.optional_eq fieldNames (by decide) h.cacheTtlSecs,
        Json.Fields.optional_eq fieldNames (by decide) h.autocomplete,
        htext, Json.read_map_write uint64?_ofNat, Json.read_map_write hbool]
      rfl

/-- Neither the order of the members with known names nor any other member matters. -/
theorem Gives.of_perm (h : Gives members given)
    (hperm : (members'.filter (isKnown fieldNames)).Perm (members.filter (isKnown fieldNames))) :
    Gives members' given := by
  have hvalues : ∀ {name : String} {v? : Option Json}, name ∈ fieldNames →
      valuesOf name members = v?.toList → valuesOf name members' = v?.toList := by
    intro name v? hname hgiven
    have hsame := Json.valuesOf_perm name hperm
    rw [Json.valuesOf_filter hname, Json.valuesOf_filter hname, hgiven] at hsame
    -- there is at most one value, so it stands where it stood
    cases v? with
    | none => exact hsame.eq_nil
    | some v => exact List.perm_singleton.mp hsame
  exact ⟨hvalues (by decide) h.baseUrl, hvalues (by decide) h.path,
    hvalues (by decide) h.timeoutSecs, hvalues (by decide) h.cacheTtlSecs,
    hvalues (by decide) h.autocomplete⟩

end Objects

/-! ## Texts -/

/-- A text that spells a value has no comments, and describes the settings that the value does. -/
theorem parse?_spelled {v : Json} {text : String} (h : Spelled v.lexemes text.toList) :
    parse? text = ofJson? v := by
  have hjson : Json.parse? text = some v := h.parse?
  have hsome : (Json.parse? text).isSome = true := by
    rw [hjson]
    rfl
  rw [parse?, parse?_stripComments .plain hsome, hjson]
  rfl

/-- A text of an object is read as the settings that the object gives, whatever other members it has
and in whatever order they stand, if the names of all members have texts. A text of an object with
the same known members in another order, and with other unknown ones, is read the same. -/
theorem read_by_name (members : List (StringValue × Json)) (given : Given) (text : String)
    (hgives : Gives members given)
    (htext : Spelled (Json.object members).lexemes text.toList) :
    parse? text = (if allNamed members then given.settings? else none) ∧
    ∀ (members' : List (StringValue × Json)) (text' : String),
      (members'.filter (isKnown fieldNames)).Perm (members.filter (isKnown fieldNames)) →
      allNamed members' = allNamed members →
      Spelled (Json.object members').lexemes text'.toList →
      parse? text' = parse? text := by
  have hread : parse? text = _ := (parse?_spelled htext).trans (ofJson?_object hgives)
  refine ⟨hread, ?_⟩
  intro members' text' hperm hnamed htext'
  have hgives' : Gives members' given := hgives.of_perm hperm
  rw [hread, parse?_spelled htext', ofJson?_object hgives', hnamed]

/-- Two fields are given out of order, between arrays and objects that are skipped although nothing
could be made of their numbers and strings. They are read without these and the other way round just
as well. -/
theorem scattered_fields_read :
    let skipped : Json := .array [.object [(none, .string none)], .number ⟨true, 1, [], some 999⟩]
    let flag : StringValue × Json := (some "editor.autocomplete", .bool false)
    let path : StringValue × Json := (some "lookup.path", .ofText "/x")
    let members := [(some "lookup", skipped), flag, (some "", .null), path, (some "", skipped)]
    let text := (Json.object members).text .compact
    Gives members { path := some (some "/x"), autocomplete := some false } ∧
      Spelled (Json.object members).lexemes text.toList ∧
      parse? text = some { path := "/x", autocomplete := false } ∧
      parse? ((Json.object [path, flag]).text .indented) = parse? text := by
  intro skipped flag path members text
  have hgives : Gives members { path := some (some "/x"), autocomplete := some false } :=
    ⟨rfl, rfl, rfl, rfl, rfl⟩
  have htext : Spelled (Json.object members).lexemes text.toList := (Json.written_text _ _).spelled
  obtain ⟨hread, hother⟩ := read_by_name members _ text hgives htext
  refine ⟨hgives, htext, hread, ?_⟩
  exact hother [path, flag] _ (.swap _ _ _) rfl (Json.written_text _ _).spelled

/-- A name that is half of a surrogate pair is refused, although it is unknown. -/
theorem halved_name_refused :
    let members : List (StringValue × Json) := [(none, .ofNat 1)]
    let text := "\x7b\"\\ud800\":1\x7d"
    Gives members {} ∧ Spelled (Json.object members).lexemes text.toList ∧
      parse? text = none := by
  intro members text
  have hwritten : ((Json.object members).text .compact).toList = text.toList := by
    decide +kernel
  have htext : Spelled (Json.object members).lexemes text.toList :=
    hwritten ▸ (Json.written_text _ _).spelled
  refine ⟨⟨rfl, rfl, rfl, rfl, rfl⟩, htext, ?_⟩
  rw [parse?_spelled htext]
  rfl

end FormulaBar.Settings
