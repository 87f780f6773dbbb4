import FormulaBar.Proofs.Candidate.Lists
import FormulaBar.Proofs.Editor.Suggestion
import FormulaBar.Proofs.Json.Record
import FormulaBar.Proofs.Numeral.Whole

/-!
# Integers as ids

An id that is given as an integer becomes a text. The integers that fit a signed 64-bit word keep
their digits, so their texts tell them apart, and picking one of them binds the record that carried
the integer. Larger ones become doubles first: those with the same nearest double have one text, and
picking it binds the first of their records.

1. **Texts** of integers, and which integers share one.
2. **Records** that carry an integer as their id.
3. **Lists** of them, and what is picked from them.
-/

namespace FormulaBar.Candidate

open FormulaBar.Numeral
open FormulaBar.Text (isDigit)

/-! ## Texts -/

/-- The number literal of an integer. Zero has no sign. -/
def intLiteral (z : Int) : Json.Number := ⟨decide (z < 0), z.natAbs, [], none⟩

/-- The double nearest to an integer that is not negative. -/
def nearestDouble (z : Int) : Float := ofIndex false (nearestIndex z.toNat 1)

/-- The text of an integer as an id: its digits if it fits a signed 64-bit word, and otherwise the
plain numeral of the nearest double. -/
def idText (z : Int) : String := if z < 2 ^ 63 then toString z else plain (nearestDouble z)

/-- Two integers that no id tells apart. -/
def SameId (z z' : Int) : Prop :=
  z = z' ∨ 2 ^ 63 ≤ z ∧ 2 ^ 63 ≤ z' ∧ nearestDouble z = nearestDouble z'

/-- The integers that fit a 64-bit word, signed or unsigned. -/
def FitsWord (z : Int) : Prop := -2 ^ 63 ≤ z ∧ z < 2 ^ 64

instance (z : Int) : Decidable (FitsWord z) :=
  inferInstanceAs (Decidable (-2 ^ 63 ≤ z ∧ z < 2 ^ 64))

section Texts

variable {z z' : Int}

/-- An integer that fits a signed word is a natural number, whose digits are its text, or a negative
one, whose text has a sign. -/
theorem idText_cases (hz : z < 2 ^ 63) :
    (∃ n : Nat, z = n ∧ n < 2 ^ 63 ∧ idText z = natText n) ∨
      ∃ n : Nat, z = .negSucc n ∧ idText z = "-" ++ natText (n + 1) := by
  rw [idText, if_pos hz]
  rcases lt_or_ge z 0 with hneg | hpos
  · obtain ⟨n, rfl⟩ := Int.eq_negSucc_of_lt_zero hneg
    refine .inr ⟨n, rfl, ?_⟩
    rw [natText_eq]
    rfl
  · obtain ⟨n, rfl⟩ := Int.eq_ofNat_of_zero_le hpos
    refine .inl ⟨n, rfl, by omega, ?_⟩
    rw [natText_eq]
    rfl

theorem idText_of_le (hz : 2 ^ 63 ≤ z) : idText z = plain (nearestDouble z) :=
  if_neg (Int.not_lt.mpr hz)

theorem intLiteral_natCast (n : Nat) : intLiteral n = .ofNat n := by
  rw [intLiteral, decide_eq_false (Int.not_lt.mpr (Int.natCast_nonneg n))]
  rfl

theorem intLiteral_negSucc (n : Nat) : intLiteral (.negSucc n) = ⟨true, n + 1, [], none⟩ := by
  rw [intLiteral, decide_eq_true (Int.negSucc_lt_zero n)]
  rfl

/-- The id of an integer literal is the text of the integer. -/
theorem idText?_intLiteral (hz : FitsWord z) : (intLiteral z).idText? = some (idText z) := by
  obtain ⟨hlow, hhigh⟩ := hz
  rcases lt_or_ge z (2 ^ 63) with hsmall | hlarge
  · rcases idText_cases hsmall with ⟨n, rfl, hn, htext⟩ | ⟨n, rfl, htext⟩
    · rw [htext, intLiteral_natCast]
      exact if_pos (decide_eq_true hn)
    · have hwhole : decide (0 < n + 1 ∧ n + 1 ≤ 2 ^ 63) = true := decide_eq_true (by omega)
      rw [htext, intLiteral_negSucc]
      unfold Json.Number.idText?
      simp only [Json.Number.isInteger, List.isEmpty_nil, Option.isNone_none, Bool.not_true,
        Bool.and_false, Bool.false_and, Bool.and_true, Bool.false_eq_true, if_false]
      exact if_pos hwhole
  · obtain ⟨n, rfl⟩ := Int.eq_ofNat_of_zero_le (Int.le_trans (by decide) hlarge)
    have hnot : ¬decide (n < 2 ^ 63) = true := by
      rw [decide_eq_true_eq]
      omega
    have hread : (Json.Number.ofNat n).toFloat? = some (nearestDouble n) :=
      Json.Number.toFloat?_ofNat (by omega)
    -- it is neither of the signed words, so that its double is read
    rw [intLiteral_natCast, idText_of_le hlarge, ← Option.map_some, ← hread]
    exact (if_neg hnot).trans (if_neg Bool.false_ne_true)

/-! ### Integers that share a text -/

theorem nearestDouble_finite (hz : z < 2 ^ 64) :
    (nearestDouble z).isFinite = true ∧ isNegative (nearestDouble z) = false ∧
      index (nearestDouble z) = nearestIndex z.toNat 1 := by
  have hn : z.toNat ≤ 2 ^ 64 := by omega
  have hindex := index_one_lt hn
  exact ⟨isFinite_ofIndex false hindex, isNegative_ofIndex false (Nat.le_of_lt hindex),
    index_ofIndex false (Nat.le_of_lt hindex)⟩

/-- The plain numeral of a double from the first one beyond the signed words on is the decimal text
of no signed word: of these only the largest ones have such a double, which is the first one, and
its numeral is not theirs. -/
theorem natText_ne_plain {n : Nat} (hn : n < 2 ^ 63) (hz : 2 ^ 63 ≤ z) (hz' : z < 2 ^ 64) :
    natText n ≠ plain (nearestDouble z) := by
  intro h
  have hchars : digitText n = plainChars (nearestDouble z) := String.ofList_injective h
  obtain ⟨hfinite, hsign, hindex⟩ := nearestDouble_finite hz'
  have hnearest := eq_of_digitText_eq_plainChars hfinite hsign hchars
  -- the nearest double of `2 ^ 63` lies between these two, so that it is both of them
  have hsame : nearestIndex z.toNat 1 = nearestIndex n 1 := by
    rw [← hindex, hnearest]
    exact index_ofIndex false (Nat.le_of_lt (index_one_lt (by omega)))
  have hlow : nearestIndex n 1 ≤ nearestIndex (2 ^ 63) 1 :=
    nearestIndex_mono Nat.one_pos Nat.one_pos (Nat.mul_le_mul_right 1 (Nat.le_of_lt hn))
  have hhigh : nearestIndex (2 ^ 63) 1 ≤ nearestIndex z.toNat 1 :=
    nearestIndex_mono Nat.one_pos Nat.one_pos (Nat.mul_le_mul_right 1 (by omega))
  have hfirst : nearestDouble z = ofIndex false (nearestIndex (2 ^ 63) 1) :=
    congrArg (ofIndex false) (Nat.le_antisymm (hsame.trans_le hlow) hhigh)
  have htext : plainChars (ofIndex false (nearestIndex (2 ^ 63) 1)) = digitText 9223372036854776000 := by
    decide +kernel
  rw [hfirst, htext] at hchars
  have := digitText_injective hchars
  omega

/-- A sign is no part of a text that is read as a number without one. -/
theorem toList_sign_ne {cs : List Char} (h : ∀ c ∈ cs, isDigit c = true ∨ c = '.') (text : String) :
    ("-" ++ text).toList ≠ cs := by
  rintro rfl
  have hsign : '-' ∈ ("-" ++ text).toList := by
    rw [String.toList_append]
    exact List.mem_append_left _ (by decide)
  exact absurd (h '-' hsign) (by decide)

theorem toList_natText (n : Nat) : (natText n).toList = digitText n := String.toList_ofList

theorem sign_ne_natText (text : String) (n : Nat) : "-" ++ text ≠ natText n := by
  intro h
  refine toList_sign_ne ?_ text (congrArg String.toList h)
  intro c hc
  rw [toList_natText] at hc
  exact .inl (isDigit_of_mem_digitText hc)

/-- The texts of the signed words tell them apart. -/
theorem idText_injective (hz : z < 2 ^ 63) (hz' : z' < 2 ^ 63) (h : idText z = idText z') :
    z = z' := by
  rcases idText_cases hz with ⟨n, rfl, -, htext⟩ | ⟨n, rfl, htext⟩
  · rcases idText_cases hz' with ⟨n', rfl, -, htext'⟩ | ⟨n', rfl, htext'⟩
    · rw [htext, htext'] at h
      rw [digitText_injective (String.ofList_injective h)]
    · rw [htext, htext'] at h
      exact absurd h.symm (sign_ne_natText _ n)
  · rcases idText_cases hz' with ⟨n', rfl, -, htext'⟩ | ⟨n', rfl, htext'⟩
    · rw [htext, htext'] at h
      exact absurd h (sign_ne_natText _ n')
    · rw [htext, htext'] at h
      have hchars := congrArg String.toList h
      rw [String.toList_append, String.toList_append, List.append_cancel_left_eq, toList_natText,
        toList_natText] at hchars
      have hdigits : n + 1 = n' + 1 := digitText_injective hchars
      rw [Nat.succ.inj hdigits]

/-- They are not the texts of larger integers. -/
theorem idText_ne (hz : z < 2 ^ 63) (hz' : 2 ^ 63 ≤ z') (hword : z' < 2 ^ 64) :
    idText z ≠ idText z' := by
  rw [idText_of_le hz']
  rcases idText_cases hz with ⟨n, rfl, hn, htext⟩ | ⟨n, rfl, htext⟩
  · rw [htext]
    exact natText_ne_plain hn hz' hword
  · obtain ⟨hfinite, hsign, -⟩ := nearestDouble_finite hword
    rw [htext]
    intro h
    have hchars := congrArg String.toList h
    rw [plain, String.toList_ofList] at hchars
    exact toList_sign_ne (plainChars_of_not_negative hfinite hsign).1 _ hchars

/-- Integers share a text only if they are beyond the signed words and have the same nearest
double. -/
theorem idText_eq_iff (hz : FitsWord z) (hz' : FitsWord z') :
    idText z = idText z' ↔ SameId z z' := by
  constructor
  · intro h
    rcases lt_or_ge z (2 ^ 63) with hsmall | hlarge
    · rcases lt_or_ge z' (2 ^ 63) with hsmall' | hlarge'
      · exact .inl (idText_injective hsmall hsmall' h)
      · exact absurd h (idText_ne hsmall hlarge' hz'.2)
    · rcases lt_or_ge z' (2 ^ 63) with hsmall' | hlarge'
      · exact absurd h.symm (idText_ne hsmall' hlarge hz.2)
      · rw [idText_of_le hlarge, idText_of_le hlarge'] at h
        obtain ⟨hfinite, hsign, -⟩ := nearestDouble_finite hz.2
        obtain ⟨hfinite', hsign', -⟩ := nearestDouble_finite hz'.2
        have hchars := String.ofList_injective h
        exact .inr ⟨hlarge, hlarge',
          plainChars_injective hfinite hfinite' hsign hsign' hchars⟩
  · rintro (rfl | ⟨hlarge, hlarge', hsame⟩)
    · rfl
    · rw [idText_of_le hlarge, idText_of_le hlarge', hsame]

end Texts

/-! ## Records -/

/-- A record carries an integer as its id: under this name, or in the first place. -/
inductive CarriesId (z : Int) : Json → Prop where
  | named {ms : List (Json.StringValue × Json)}
      (h : Json.valuesOf "id" ms = [.number (intLiteral z)]) : CarriesId z (.object ms)
  | placed (vs : List Json) : CarriesId z (.array (.number (intLiteral z) :: vs))

/-- What a record says of a candidate besides its id. -/
def details? (v : Json) : Option (String → Candidate) := do
  let fields ← v.fields? fieldNames
  let name ← fields.required "name" Json.text?
  let category ← fields.optional "category" "" categoryOfJson?
  let value ← fields.optional "value" 0 Json.float?
  return fun id => { id, name, category, value }

section Records

variable {z : Int} {v : Json}

theorem CarriesId.lookup (h : CarriesId z v) {fields : Json.Fields}
    (hfields : v.fields? fieldNames = some fields) :
    fields.lookup "id" = some (.number (intLiteral z)) := by
  cases h with
  | named hvalues =>
      rw [Json.eq_fieldsOf_of_knownMembers? hfields, Json.lookup_fieldsOf (by decide), hvalues]
      rfl
  | placed vs =>
      obtain ⟨-, hfields⟩ := Option.ite_none_right_eq_some.mp hfields
      cases hfields
      rfl

/-- A record that carries an integer is read if its other fields are. -/
theorem CarriesId.ofJson?_eq (h : CarriesId z v) (hz : FitsWord z) :
    ofJson? v = (details? v).map (· (idText z)) := by
  unfold ofJson? details?
  cases hfields : v.fields? fieldNames with
  | none => rfl
  | some fields =>
      have hid : fields.required "id" idOfJson? = some (idText z) := by
        rw [Json.Fields.required, h.lookup hfields]
        exact idText?_intLiteral hz
      simp only [Option.bind_eq_bind, Option.bind_some, hid, Option.map_bind, Option.pure_def,
        Function.comp_def, Option.map_some]

/-- What is read of a record that carries an integer has the text of the integer as its id. -/
theorem CarriesId.id_eq (h : CarriesId z v) (hz : FitsWord z) {c : Candidate}
    (hread : ofJson? v = some c) : c.id = idText z := by
  rw [h.ofJson?_eq hz, Option.map_eq_some_iff] at hread
  obtain ⟨make, hmake, rfl⟩ := hread
  simp only [details?, Option.bind_eq_bind, Option.bind_eq_some_iff, Option.pure_def] at hmake
  obtain ⟨fields, -, name, -, category, -, value, -, hmake⟩ := hmake
  cases hmake
  rfl

end Records

/-! ## Lists -/

/-- Picking the text of an integer inserts a variable that is bound to the first record whose integer
it does not tell apart from that one. -/
def BindsFirst (e : Editor) (zs : List Int) (z : Int) : Prop :=
  ∃ (i : Nat) (z' : Int) (c : Candidate), zs[i]? = some z' ∧ e.candidates[i]? = some c ∧
    SameId z z' ∧ (∀ j < i, ∀ z'', zs[j]? = some z'' → ¬SameId z z'') ∧
    (e.pick (idText z)).1 = true ∧
    e.Inserts (e.pick (idText z)).2 (.variable c.name c.category c.value c.id)

section Lists

variable {zs : List Int} {items : List Json} {cs : List Candidate}

/-- Records that carry integers are read if their other fields are. -/
theorem mapM_ofJson?_eq (hids : List.Forall₂ CarriesId zs items) (hwords : ∀ z ∈ zs, FitsWord z) :
    items.mapM ofJson? =
      (items.mapM details?).map fun makes => List.zipWith (fun make z => make (idText z)) makes zs := by
  induction hids with
  | nil => rfl
  | cons hid _ ih =>
      rw [List.forall_mem_cons] at hwords
      rw [List.mapM_cons, List.mapM_cons, hid.ofJson?_eq hwords.1, ih hwords.2]
      simp only [Option.bind_eq_bind, Option.bind_map, Option.map_bind, Option.pure_def,
        Function.comp_def, Option.map_some, List.zipWith_cons_cons]

/-- The ids of the candidates are the texts of the integers, one by one. -/
theorem map_id_eq (hids : List.Forall₂ CarriesId zs items) (hwords : ∀ z ∈ zs, FitsWord z)
    (hread : items.mapM ofJson? = some cs) : cs.map Candidate.id = zs.map idText := by
  rw [mapM_eq_some_iff] at hread
  induction hids generalizing cs with
  | nil =>
      cases hread
      rfl
  | cons hid _ ih =>
      rw [List.forall_mem_cons] at hwords
      obtain _ | ⟨hfirst, hrest⟩ := hread
      rw [List.map_cons, List.map_cons, hid.id_eq hwords.1 hfirst, ih hwords.2 hrest]

/-- The first candidate with the text of an integer as its id is the one that is picked. -/
theorem bindsFirst_of_map_id (hwords : ∀ z ∈ zs, FitsWord z) {e : Editor}
    (hids : e.candidates.map Candidate.id = zs.map idText) {z : Int} (hz : z ∈ zs) :
    BindsFirst e zs z := by
  have hlength : e.candidates.length = zs.length := by
    simpa only [List.length_map] using congrArg List.length hids
  have hid (i : Nat) (hi : i < e.candidates.length) (hi' : i < zs.length) :
      e.candidates[i].id = idText zs[i] := by
    have hget := congrArg (·[i]?) hids
    simpa only [List.getElem?_map, List.getElem?_eq_getElem hi, List.getElem?_eq_getElem hi',
      Option.map_some, Option.some_inj] using hget
  have hsame (i : Nat) (hi : i < zs.length) : idText zs[i] = idText z ↔ SameId z zs[i] :=
    eq_comm.trans (idText_eq_iff (hwords z hz) (hwords _ (List.getElem_mem hi)))
  -- one of the candidates has the text as its id, namely that of the record of `z`
  obtain ⟨c, hfind⟩ : ∃ c, Candidate.find? e.candidates (idText z) = some c := by
    obtain ⟨k, hk, rfl⟩ := List.mem_iff_getElem.mp hz
    rw [← Option.isSome_iff_exists, Candidate.find?, List.find?_isSome]
    exact ⟨e.candidates[k], List.getElem_mem (hlength ▸ hk), decide_eq_true (hid k _ hk)⟩
  have hpick : e.pick (idText z) = (true, e.insertNew e.cursor (.ofCandidate c)) := by
    rw [Editor.pick, hfind]
  have hinserts : e.Inserts (e.pick (idText z)).2 (.variable c.name c.category c.value c.id) := by
    rw [hpick]
    exact Editor.insertNew_inserts e _
  obtain ⟨hc, i, hi, rfl, hfirst⟩ := List.find?_eq_some_iff_getElem.mp hfind
  have hi' : i < zs.length := hlength ▸ hi
  refine ⟨i, zs[i], e.candidates[i], List.getElem?_eq_getElem hi', List.getElem?_eq_getElem hi, ?_,
    ?_, congrArg Prod.fst hpick, hinserts⟩
  · rw [← hsame i hi', ← hid i hi hi']
    exact of_decide_eq_true hc
  · intro j hj z' hz' hother
    obtain ⟨hj', rfl⟩ := List.getElem?_eq_some_iff.mp hz'
    rw [← hsame j hj', ← hid j (by omega) hj'] at hother
    have := hfirst j hj
    rw [decide_eq_true hother] at this
    cases this

/-- What is read of a list whose records carry integers that fit a 64-bit word. The records are
read if their other fields are, and the ids are the texts of the integers, one by one. These are
the digits for the integers that fit a signed word, and for larger ones the plain numeral of the
nearest double; two of them are the same only for larger integers with the same nearest double.
Picking one of them binds the record that carried the integer, or the first of those that it does
not tell apart from it. -/
theorem integer_ids {text : String} (htext : Json.parse? text = some (.array items))
    (hids : List.Forall₂ CarriesId zs items) (hwords : ∀ z ∈ zs, FitsWord z) :
    readList? text = ((items.mapM details?).map fun makes =>
      List.zipWith (fun make z => make (idText z)) makes zs) ∧
    (∀ z ∈ zs, ∀ z' ∈ zs, idText z = idText z' ↔ SameId z z') ∧
    ∀ cs, readList? text = some cs → cs.map Candidate.id = zs.map idText ∧
      ∀ e : Editor, e.candidates = cs → ∀ z ∈ zs, BindsFirst e zs z := by
  have hread : readList? text = items.mapM ofJson? := by
    rw [readList?, htext]
    rfl
  rw [hread]
  refine ⟨mapM_ofJson?_eq hids hwords,
    fun z hz z' hz' => idText_eq_iff (hwords z hz) (hwords z' hz'), ?_⟩
  intro cs hcs
  have htexts := map_id_eq hids hwords hcs
  refine ⟨htexts, ?_⟩
  rintro e rfl z hz
  exact bindsFirst_of_map_id hwords htexts hz

/-- Whatever shape the records have and wherever the id stands, integers that no double tells apart
from their neighbours keep their digits as long as they fit a signed word. -/
theorem mixed_integers_picked :
    let zs : List Int := [-7, 2 ^ 53 + 1, 2 ^ 64 - 1]
    let items : List Json :=
      [.ofMembers [("id", .number (intLiteral (-7))), ("name", .ofText "a")],
        .array [.number (intLiteral (2 ^ 53 + 1)), .ofText "b"],
        .ofMembers [("name", .ofText "c"), ("id", .number (intLiteral (2 ^ 64 - 1)))]]
    let cs : List Candidate :=
      [⟨"-7", "a", "", 0⟩, ⟨"9007199254740993", "b", "", 0⟩, ⟨"18446744073709552000", "c", "", 0⟩]
    readList? ((Json.array items).text .compact) = some cs ∧
      BindsFirst { Editor.new {} with candidates := cs } zs (2 ^ 53 + 1) := by
  intro zs items cs
  have htext := Json.parse?_text .compact (Json.array items)
  have hids : List.Forall₂ CarriesId zs items :=
    .cons (.named rfl) (.cons (.placed _) (.cons (.named rfl) .nil))
  have hwords : ∀ z ∈ zs, FitsWord z := by
    decide
  obtain ⟨hread, -, hpicked⟩ := integer_ids htext hids hwords
  have hcs : readList? ((Json.array items).text .compact) = some cs := by
    rw [hread]
    decide +kernel
  exact ⟨hcs, (hpicked cs hcs).2 _ rfl _ (by decide)⟩

/-- The two largest words share a text, which is the digits of neither, and picking it for the
second one binds the record of the first. -/
theorem largest_words_share_id :
    let zs : List Int := [2 ^ 64 - 2, 2 ^ 64 - 1]
    let items : List Json :=
      [.ofMembers [("id", .number (intLiteral (2 ^ 64 - 2))), ("name", .ofText "a")],
        .ofMembers [("id", .number (intLiteral (2 ^ 64 - 1))), ("name", .ofText "b")]]
    let first : Candidate := ⟨"18446744073709552000", "a", "", 0⟩
    let second : Candidate := ⟨"18446744073709552000", "b", "", 0⟩
    let e : Editor := { Editor.new {} with candidates := [first, second] }
    List.Forall₂ CarriesId zs items ∧ (∀ z ∈ zs, FitsWord z) ∧ zs.Nodup ∧
      readList? ((Json.array items).text .compact) = some [first, second] ∧
      first.id ∉ zs.map toString ∧
      e.pick second.id =
        (true, e.insertNew e.cursor (.variable "a" "" 0 "18446744073709552000")) ∧
      (e.pick second.id).2.tokens =
        [⟨⟨1⟩, .variable "a" "" 0 "18446744073709552000"⟩] := by
  intro zs items first second e
  have hread : readList? ((Json.array items).text .compact) = some [first, second] := by
    rw [readList?, Json.parse?_text]
    decide +kernel
  exact ⟨.cons (.named rfl) (.cons (.named rfl) .nil), by decide, by decide, hread,
    by decide +kernel, rfl, rfl⟩

end Lists

end FormulaBar.Candidate
