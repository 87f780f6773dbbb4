import FormulaBar.Proofs.Json.Writing
import FormulaBar.Settings.Store

/-!
# Saved settings are read back

Whatever the settings are, no line of the text that is saved for them is a comment, and reading this
text gives the same settings.

1. **Fields**: the value that is written for settings describes them.
2. **Files**: what is saved is read back.
-/

namespace FormulaBar.Settings

open Json (parse?_text stripComments_text)

/-! ## Fields -/

/-- Every 64-bit word is read back from its number. -/
theorem uint64?_ofNat (n : UInt64) : (Json.ofNat n.toNat).uint64? = some n := by
  have hlt : n.toNat < Nat.pow 2 64 := n.toNat_lt
  show Json.Number.toUInt64? ⟨false, n.toNat, [], none⟩ = some n
  unfold Json.Number.toUInt64?
  simp only [Json.Number.isInteger, List.isEmpty_nil, Option.isNone_none, Bool.not_false,
    Bool.and_true, decide_eq_true hlt, if_true, UInt64.ofNat_toNat]

/-- The fields that are written for settings. -/
theorem fields?_toJson (s : Settings) :
    s.toJson.fields? fieldNames = some
      [("lookup.baseUrl", .ofText s.baseUrl), ("lookup.path", .ofText s.path),
        ("lookup.timeoutSecs", .ofNat s.timeoutSecs.toNat),
        ("lookup.cacheTtlSecs", .ofNat s.cacheTtlSecs.toNat),
        ("editor.autocomplete", .bool s.autocomplete)] := by
  rfl

/-- Settings are described by the value that is written for them. -/
theorem ofJson?_toJson (s : Settings) : ofJson? s.toJson = some s := by
  -- the texts and the flag are read as they stand, and the numbers have to fit
  have hwords : ofJson? s.toJson =
      (Json.ofNat s.timeoutSecs.toNat).uint64? >>= fun timeoutSecs =>
        (Json.ofNat s.cacheTtlSecs.toNat).uint64? >>= fun cacheTtlSecs =>
          some { s with timeoutSecs, cacheTtlSecs } := by
    unfold ofJson?
    rw [fields?_toJson]
    rfl
  rw [hwords, uint64?_ofNat, uint64?_ofNat]
  rfl

/-! ## Files -/

/-- Whatever is saved is read back: no comment is found in the text, it is the text of the value
that is written, and it says the same settings. -/
theorem saved_read_back (s : Settings) :
    Text.stripComments s.text.toList = s.text.toList ∧ Json.parse? s.text = some s.toJson ∧
    parse? s.text = some s ∧
    ∀ place : Place, (place.save s).1 = true → (place.save s).2.read? = some s.text := by
  have hkept : Text.stripComments s.text.toList = s.text.toList := stripComments_text _ _
  have hjson : Json.parse? s.text = some s.toJson := parse?_text _ _
  refine ⟨hkept, hjson, ?_, ?_⟩
  · rw [parse?, hkept, String.ofList_toList, hjson]
    exact ofJson?_toJson s
  · intro place hsaved
    unfold Place.save Place.write at hsaved ⊢
    split at hsaved
    · cases hsaved
    · cases hsaved
    · cases hsaved
    · rfl

/-- Texts that look like comments, escapes and line ends, and the largest numbers, are kept in a new
file. -/
theorem awkward_settings_read_back :
    let s : Settings :=
      { baseUrl := "// \"\n//\r\n", path := " \\u0000\t ", timeoutSecs := 18446744073709551615,
        cacheTtlSecs := 18446744073709551615, autocomplete := false }
    parse? s.text = some s ∧ (Place.missing.save s).2.read? = some s.text := by
  intro s
  obtain ⟨-, -, hread, hsaved⟩ := saved_read_back s
  exact ⟨hread, hsaved .missing rfl⟩

end FormulaBar.Settings
