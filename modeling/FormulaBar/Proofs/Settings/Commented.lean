import FormulaBar.Proofs.Json.Lines
import FormulaBar.Settings.Basic

/-!
# Comment lines do not change settings

A settings file may be commented at will: what is kept of it reads as the same JSON value, and so
says the same settings or none at all.
-/

namespace FormulaBar.Settings

open Text (Commented WholeLines stripComments)

/-- What is kept of a commented JSON text is the same value: every string in it is whole. -/
theorem parse?_stripComments {t u : String} (h : Commented t.toList u.toList)
    (ht : (Json.parse? t).isSome = true) :
    Json.parse? (String.ofList (stripComments u.toList)) = Json.parse? t := by
  have hlexemes : (Json.lexemes? t.toList).isSome = true := by
    rw [Json.parse?] at ht
    cases hts : Json.lexemes? t.toList with
    | none =>
        rw [hts] at ht
        cases ht
    | some ts => rfl
  rw [Json.parse?, Json.parse?, String.toList_ofList, Json.lexemes?_commented h hlexemes]

/-- A JSON text with comment lines put in before, between or behind its lines, whatever ends them,
is read as the settings that the text describes, or is refused as the text is. What is kept of it
is the very value of the text, so no string in it has been cut. -/
theorem commented_read (t u : String) (ht : (Json.parse? t).isSome = true)
    (h : Commented t.toList u.toList) :
    parse? u = (Json.parse? t >>= ofJson?) ∧
      Json.parse? (String.ofList (stripComments u.toList)) = Json.parse? t := by
  have hkept := parse?_stripComments h ht
  refine ⟨?_, hkept⟩
  rw [parse?, hkept]

/-- Comments in front of a text, between its lines and behind a last line that has no end. The
carriage return within a line is a blank, and the slashes of the path stay. -/
theorem commented_path_read :
    let text := "\x7b\r\n\"lookup.path\":\r\"//x\"\x7d"
    let commented := "// a\n\x7b\r\n\t//b\r\n\"lookup.path\":\r\"//x\"\x7d\r\n //"
    (Json.parse? text).isSome = true ∧ Commented text.toList commented.toList ∧
      parse? commented = some { path := "//x" } := by
  intro text commented
  let brace := "\x7b\r\n".toList
  let member := "\"lookup.path\":\r\"//x\"\x7d".toList
  let front := "// a\n\x7b\r\n\t//b\r\n".toList
  have hjson : (Json.parse? text).isSome = true := by
    decide +kernel
  have hplain : Commented text.toList (brace ++ member) := by
    have hsplit : brace ++ member = text.toList := by
      decide
    rw [hsplit]
    exact .plain
  let body := brace ++ ("\t//b\r".toList ++ '\n' :: member)
  have hbetween : Commented text.toList body :=
    .insert hplain (.of_getLast? (by decide)) (by decide) (by decide)
  have hfront : Commented text.toList ([] ++ ("// a".toList ++ '\n' :: body)) :=
    .insert hbetween .nil (by decide) (by decide)
  have hended : Commented text.toList (front ++ (member ++ ['\r', '\n'])) :=
    .finish hfront (.of_getLast? (by decide)) (by decide) (by decide) (.inr rfl)
  have hbehind : Commented text.toList ((front ++ (member ++ ['\r', '\n'])) ++ " //".toList) :=
    .append hended (.of_getLast? (by decide)) (by decide) (by decide)
  have hcommented : Commented text.toList commented.toList := by
    have hsplit : (front ++ (member ++ ['\r', '\n'])) ++ " //".toList = commented.toList := by
      decide
    rwa [hsplit] at hbehind
  refine ⟨hjson, hcommented, ?_⟩
  rw [(commented_read text commented hjson hcommented).1]
  decide +kernel

end FormulaBar.Settings
