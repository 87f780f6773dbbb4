import FormulaBar.Proofs.Settings.Saving

/-!
# The settings file over whole runs

A load or a save leaves something in the place of the file, or finds that nothing can be put there.
From then on only a write, a removal or another save changes what is loaded.

1. **Places**: what loading and saving do to them.
2. **Filled places**, where something stands already.
3. **Runs** of operations on a store, and what is loaded in the course of them.
-/

namespace FormulaBar

namespace Settings

/-- Settings are read back from their text. -/
theorem parse?_text (s : Settings) : parse? s.text = some s := by
  have hjson : Json.parse? s.text = some s.toJson := Json.parse?_text _ _
  rw [parse?, text, Json.stripComments_text, String.ofList_toList, ← text, hjson]
  exact ofJson?_toJson s

/-- The default file says the defaults. -/
theorem parse?_defaultFile : parse? defaultFile = some {} := by
  rw [parse?, Json.parse?, String.toList_ofList]
  -- its lines are taken apart one by one, since the whole is a long row of bytes
  delta defaultFile defaultBaseUrl
  simp only [String.toList_append]
  decide +kernel

end Settings

/-! ## Places -/

namespace Place

variable {p : Place}

theorem load_of_exists (h : p.exists? = true) : p.load = (p.loadFrom, p) := by
  rw [load, if_pos h]

theorem load_of_not_exists (h : p.exists? = false) :
    p.load = ({}, (p.write (some Settings.defaultFile)).2) := by
  rw [load, h]
  rfl

theorem loadFrom_file (contents : String) :
    (directory (.file (some contents))).loadFrom = (Settings.parse? contents).getD {} := by
  rfl

/-- Where there is nothing to be read, the defaults stand in. -/
theorem loadFrom_of_not_exists (h : p.exists? = false) : p.loadFrom = {} := by
  rcases p with _ | _ | (_ | contents | _ | _)
  · rfl
  · rfl
  · rfl
  · cases h
  · cases h
  · rfl

/-- A load answers what is read from the file as it is. -/
theorem load_fst (p : Place) : p.load.1 = p.loadFrom := by
  cases h : p.exists? with
  | true => rw [load_of_exists h]
  | false => rw [load_of_not_exists h, loadFrom_of_not_exists h]

/-- A write changes the file, or nothing if it fails. -/
theorem write_cases (p : Place) (contents : Option String) :
    p.write contents = (true, .directory (.file contents)) ∨ p.write contents = (false, p) := by
  rcases p with _ | _ | (_ | _ | _ | _)
  · exact .inl rfl
  · exact .inr rfl
  · exact .inl rfl
  · exact .inl rfl
  · exact .inr rfl
  · exact .inr rfl

/-- What a load leaves behind is read as what it has answered, the default file included. -/
theorem loadFrom_load (p : Place) : p.load.2.loadFrom = p.loadFrom := by
  cases h : p.exists? with
  | true => rw [load_of_exists h]
  | false =>
      rw [load_of_not_exists h, loadFrom_of_not_exists h]
      rcases p.write_cases (some Settings.defaultFile) with hwritten | hfailed
      · rw [hwritten, loadFrom_file, Settings.parse?_defaultFile]
        rfl
      · rw [hfailed, loadFrom_of_not_exists h]

/-- Settings that have been saved are read from the file. -/
theorem loadFrom_save {s : Settings} (h : (p.save s).1 = true) : (p.save s).2.loadFrom = s := by
  unfold save at h ⊢
  rcases p.write_cases (some s.text) with hwritten | hfailed
  · rw [hwritten, loadFrom_file, Settings.parse?_text]
    rfl
  · rw [hfailed] at h
    cases h

/-! ## Filled places -/

/-- Something stands where the file belongs, or in the place of its directory. -/
def Filled (p : Place) : Prop := p.entry? ≠ some .missing

theorem write_filled (p : Place) (contents : Option String) : (p.write contents).2.Filled := by
  unfold Filled
  rcases p with _ | _ | (_ | _ | _ | _) <;> exact nofun

theorem load_filled (p : Place) : p.load.2.Filled := by
  cases h : p.exists? with
  | true =>
      rw [load_of_exists h]
      rcases p with _ | _ | (_ | _ | _ | _)
      · cases h
      · cases h
      · cases h
      · exact nofun
      · exact nofun
      · cases h
  | false =>
      rw [load_of_not_exists h]
      exact write_filled _ _

end Place

/-! ## Runs -/

namespace Store

/-- Whether an operation writes or removes the file on purpose. -/
def Operation.rewrites : Operation → Bool
  | .write _ | .remove | .save => true
  | .blockDirectory | .blockFile | .blockLink | .load | .reload | .set _ => false

/-- In a filled place nothing is put in the way of a file, and no default file is written. -/
theorem apply_place {s : Store} (h : s.place.Filled) {op : Operation} (hop : op.rewrites = false) :
    (s.apply op).2.place = s.place := by
  obtain ⟨p, current⟩ := s
  cases op with
  | write | remove | save => cases hop
  | reload | set => rfl
  | blockDirectory | blockFile | blockLink | load =>
      rcases p with _ | _ | (_ | _ | _ | _)
      · exact absurd rfl h
      · rfl
      · exact absurd rfl h
      · rfl
      · rfl
      · rfl

/-- Carries out operations one after the other. -/
def run (s : Store) (ops : List Operation) : Store := ops.foldl (fun s op => (s.apply op).2) s

theorem run_place {s : Store} (h : s.place.Filled) {ops : List Operation}
    (hops : ∀ op ∈ ops, op.rewrites = false) : (s.run ops).place = s.place := by
  induction ops generalizing s with
  | nil => rfl
  | cons op ops ih =>
      have hplace := apply_place h (hops op List.mem_cons_self)
      have hrest := ih (hplace ▸ h) fun op' hop' => hops op' (List.mem_cons_of_mem _ hop')
      exact hrest.trans hplace

theorem run_append_cons (s : Store) (before : List Operation) (op : Operation)
    (between : List Operation) :
    s.run (before ++ op :: between) = ((s.run before).apply op).2.run between :=
  List.foldl_append

/-- What a load would answer. -/
def loaded (s : Store) : Settings := (s.apply .load).2.current

/-- What a load from the file as it is would answer. -/
def reloaded (s : Store) : Settings := (s.apply .reload).2.current

theorem loaded_eq (s : Store) : s.loaded = s.place.loadFrom := s.place.load_fst

/-- At every point of a run, a load does not change what is there. It answers what is read from the
file as it is, before and after, until the file is written, removed or saved; so it does where it has
just written the default file. What has been saved is what is loaded from then on, and a save that
failed has changed nothing. -/
theorem run_loads (s : Store) (before between : List Operation)
    (hbetween : ∀ op ∈ between, op.rewrites = false) :
    ((s.run before).place.exists? = true →
      (s.run (before ++ [.load])).place = (s.run before).place) ∧
    ((s.run before).reloaded = (s.run before).loaded ∧
      (s.run (before ++ .load :: between)).loaded = (s.run before).loaded ∧
      (s.run (before ++ .load :: between)).reloaded = (s.run before).loaded) ∧
    (((s.run before).apply .save).1 = true →
      (s.run (before ++ .save :: between)).loaded = (s.run before).current) ∧
    (((s.run before).apply .save).1 = false →
      s.run (before ++ [.save]) = s.run before ∧
        (s.run (before ++ .save :: between)).loaded = (s.run before).loaded) := by
  simp only [run_append_cons]
  generalize s.run before = t
  have hload : ((t.apply .load).2.run between).place = t.place.load.2 :=
    run_place t.place.load_filled hbetween
  refine ⟨?_, ⟨t.loaded_eq.symm, ?_, ?_⟩, ?_, ?_⟩
  · intro hexists
    exact congrArg Prod.snd (Place.load_of_exists hexists)
  · rw [loaded_eq, loaded_eq, hload, Place.loadFrom_load]
  · rw [loaded_eq, ← Place.loadFrom_load, ← hload]
    rfl
  · intro hsaved
    have hplace : ((t.apply .save).2.run between).place = (t.place.save t.current).2 :=
      run_place (t.place.write_filled _) hbetween
    rw [loaded_eq, hplace]
    exact Place.loadFrom_save hsaved
  · intro hfailed
    have hplace : t.place.save t.current = (false, t.place) := by
      refine (t.place.write_cases _).resolve_left ?_
      intro hwritten
      have hsaved : (t.place.save t.current).1 = true := congrArg Prod.fst hwritten
      cases hsaved.symm.trans hfailed
    -- a place where a write fails is filled, so it stays as it is from then on
    have hfilled : t.place.Filled := by
      have hwritten := t.place.write_filled (some t.current.text)
      rwa [show t.place.write (some t.current.text) = (false, t.place) from hplace] at hwritten
    have hsame : (t.apply .save).2 = t := by
      show { t with place := (t.place.save t.current).2 } = t
      rw [hplace]
    refine ⟨hsame, ?_⟩
    rw [hsame, loaded_eq, loaded_eq, run_place hfilled hbetween]

/-- Settings are saved, and what is put in the way of them or made current afterwards does not matter.
Where a directory stands in the place of the file, nothing is saved, and the defaults are loaded as
before. -/
theorem blocked_loads :
    let changed : Settings := { path := "/x", autocomplete := false }
    let between : List Operation := [.set {}, .blockFile, .load, .blockLink]
    (∀ op ∈ between, op.rewrites = false) ∧
      (run {} (.load :: .set changed :: .save :: between)).loaded = changed ∧
      (run {} (.blockFile :: .set changed :: .save :: between)).loaded = {} := by
  intro changed between
  have hbetween : ∀ op ∈ between, op.rewrites = false := by
    simp [between, Operation.rewrites]
  obtain ⟨-, -, hsaved, -⟩ := run_loads {} [.load, .set changed] between hbetween
  obtain ⟨-, -, -, hfailed⟩ := run_loads {} [.blockFile, .set changed] between hbetween
  exact ⟨hbetween, hsaved rfl, (hfailed rfl).2⟩

end Store

end FormulaBar
