import FormulaBar.Service.Client

/-!
# What an operation does to a client

1. **Cache**: what is found after an answer is kept or dropped.
2. **Searching**: the ways through a search, with what each answers and leaves.
3. **Runs**: operations one after the other, each at its own time.
-/

namespace FormulaBar.Service

/-! ## Cache -/

namespace Cache

variable {cache : Cache} {ttl now : Nat} {query other : String} {found : List Candidate}

theorem mem_of_lookup {a : CachedAnswer} (h : cache.lookup query = some a) :
    (query, a) ∈ cache := by
  obtain ⟨before, after, rfl, -⟩ := List.lookup_eq_some_iff.mp h
  exact List.mem_append_right before List.mem_cons_self

/-- Dropping entries that do not belong to a query leaves its answer. -/
theorem lookup_filter {p : String × CachedAnswer → Bool}
    (h : ∀ a, (query, a) ∈ cache → p (query, a) = true) :
    (cache.filter p).lookup query = cache.lookup query := by
  induction cache with
  | nil => rfl
  | cons entry rest ih =>
    have hrest : (rest.filter p).lookup query = rest.lookup query :=
      ih fun a ha => h a (List.mem_cons_of_mem entry ha)
    by_cases hq : query = entry.1
    · have hp : p entry = true := by
        have := h entry.2 (by rw [hq]; exact List.mem_cons_self)
        rwa [hq] at this
      rw [List.filter_cons_of_pos hp, List.lookup_cons, List.lookup_cons, hrest]
    · have hcons : (entry :: rest).lookup query = rest.lookup query := by
        rw [List.lookup_cons, beq_false_of_ne hq]
      by_cases hp : p entry = true
      · rw [List.filter_cons_of_pos hp, List.lookup_cons, beq_false_of_ne hq, hcons]
        exact hrest
      · rw [List.filter_cons_of_neg hp, hcons, hrest]

theorem lookup_drop_of_ne (h : other ≠ query) :
    (cache.drop query).lookup other = cache.lookup other :=
  lookup_filter fun _ _ => by simpa using h

theorem mem_of_mem_drop {entry : String × CachedAnswer} (h : entry ∈ cache.drop query) :
    entry ∈ cache :=
  (List.mem_filter.mp h).1

/-- There is nothing to drop for a query that has no answer. -/
theorem drop_eq_self (h : cache.lookup query = none) : cache.drop query = cache := by
  rw [drop, List.filter_eq_self]
  intro entry hentry
  have hne : (query != entry.1) = true := List.lookup_eq_none_iff.mp h entry hentry
  rwa [bne_comm]

theorem lookup_keep_self :
    (cache.keep ttl now query found).lookup query = some ⟨now, found⟩ :=
  List.lookup_cons_self

/-- While everything is fresh, an answer that is kept leaves all others. -/
theorem lookup_keep_of_ne (h : other ≠ query)
    (hfresh : ∀ entry ∈ cache, entry.2.isFresh ttl now = true) :
    (cache.keep ttl now query found).lookup other = cache.lookup other := by
  rw [keep, List.lookup_cons, beq_false_of_ne h]
  apply lookup_filter
  intro a ha
  have := hfresh _ ha
  simp_all

theorem mem_keep {entry : String × CachedAnswer} (h : entry ∈ cache.keep ttl now query found) :
    entry = (query, ⟨now, found⟩) ∨ entry ∈ cache := by
  rcases List.mem_cons.mp h with h | h
  · exact .inl h
  · exact .inr (List.mem_filter.mp h).1

theorem fresh?_eq_some_iff : cache.fresh? ttl now query = some found ↔
    ∃ a, cache.lookup query = some a ∧ a.isFresh ttl now = true ∧ a.candidates = found := by
  simp [fresh?, and_assoc]

theorem fresh?_eq_none_iff : cache.fresh? ttl now query = none ↔
    ∀ a, cache.lookup query = some a → a.isFresh ttl now = false := by
  simp [fresh?, Option.filter_eq_none_iff]

end Cache

/-! ## Searching -/

/-- A query that asks for nothing. -/
def Blank (query : String) : Prop := Text.trimChars query.toList = []

theorem catalogSearch_blank {query : String} (h : Blank query) (catalog : List Candidate) :
    Catalog.search catalog query = [] := by
  have h : Text.trimChars query.toList = [] := h
  rw [Catalog.search, h]

namespace Client

variable {c : Client} {now : Nat} {query : String}

/-- The ways through a search, each with what it answers and the client it leaves. -/
inductive Searched (c : Client) (now : Nat) (query : String) :
    Except Error (List Candidate) × Client → Prop
  | blank (hblank : Blank query) : Searched c now query (.ok [], c)
  | hit {found : List Candidate} (hquery : ¬Blank query)
      (hhit : c.cache.fresh? c.ttl now query = some found) : Searched c now query (.ok found, c)
  | failed {e : Error} (hquery : ¬Blank query) (hmiss : c.cache.fresh? c.ttl now query = none)
      (hsent : c.fetch.1 = .error e) :
      Searched c now query (.error e, { c.fetch.2 with cache := c.cache.drop query })
  /-- A client without a time to keep answers for throws them away. -/
  | unkept {catalog : List Candidate} (hquery : ¬Blank query)
      (hmiss : c.cache.fresh? c.ttl now query = none) (hsent : c.fetch.1 = .ok catalog)
      (httl : c.ttl = 0) :
      Searched c now query
        (.ok (Catalog.search catalog query), { c.fetch.2 with cache := c.cache.drop query })
  | kept {catalog : List Candidate} (hquery : ¬Blank query)
      (hmiss : c.cache.fresh? c.ttl now query = none) (hsent : c.fetch.1 = .ok catalog)
      (httl : c.ttl ≠ 0) :
      Searched c now query
        (.ok (Catalog.search catalog query),
          { c.fetch.2 with
            cache := (c.cache.drop query).keep c.ttl now query (Catalog.search catalog query) })

theorem search_blank (h : Blank query) : c.search now query = (.ok [], c) :=
  if_pos h

theorem search_hit {found : List Candidate} (hquery : ¬Blank query)
    (hhit : c.cache.fresh? c.ttl now query = some found) :
    c.search now query = (.ok found, c) := by
  have hquery : Text.trimChars query.toList ≠ [] := hquery
  rw [search, if_neg hquery, hhit]

theorem searched (c : Client) (now : Nat) (query : String) :
    Searched c now query (c.search now query) := by
  by_cases hblank : Blank query
  · rw [search_blank hblank]
    exact .blank hblank
  cases hfresh : c.cache.fresh? c.ttl now query with
  | some found =>
    rw [search_hit hblank hfresh]
    exact .hit hblank hfresh
  | none =>
    have hquery : Text.trimChars query.toList ≠ [] := hblank
    rw [search, if_neg hquery, hfresh]
    cases hsent : c.connection.send.1 with
    | error e =>
      simp only [fetch, hsent]
      exact .failed hblank hfresh hsent
    | ok catalog =>
      simp only [fetch, hsent]
      split
      next httl => exact .unkept hblank hfresh hsent httl
      next httl => exact .kept hblank hfresh hsent httl

/-- A search that finds no fresh answer sends a request, and searches what it comes back with. -/
theorem search_miss (hquery : ¬Blank query) (hmiss : c.cache.fresh? c.ttl now query = none) :
    (c.search now query).1 = c.fetch.1.map (Catalog.search · query) ∧
      (c.search now query).2.connection = c.fetch.2.connection := by
  have h := searched c now query
  generalize c.search now query = outcome at h ⊢
  cases h with
  | blank hblank => exact absurd hblank hquery
  | hit _ hhit => rw [hmiss] at hhit; nomatch hhit
  | failed _ _ hsent => rw [hsent]; exact ⟨rfl, rfl⟩
  | unkept _ _ hsent => rw [hsent]; exact ⟨rfl, rfl⟩
  | kept _ _ hsent => rw [hsent]; exact ⟨rfl, rfl⟩

/-- Suggesting is searching with failures taken for finding nothing. -/
theorem suggest_eq (c : Client) (now : Nat) (query : String) :
    c.suggest now query = ((c.search now query).1.toOption.getD [], (c.search now query).2) := by
  rw [suggest]
  split
  next h => rw [h]; rfl
  next h => rw [h]; rfl

/-- A search keeps no answer but its own, at its own time. -/
theorem mem_cache_search {entry : String × CachedAnswer}
    (h : entry ∈ (c.search now query).2.cache) :
    entry ∈ c.cache ∨ ∃ found, (c.search now query).1 = .ok found ∧ ¬Blank query ∧
      entry = (query, ⟨now, found⟩) := by
  have hsearched := searched c now query
  generalize c.search now query = outcome at hsearched h ⊢
  cases hsearched with
  | blank => exact .inl h
  | hit => exact .inl h
  | failed => exact .inl (Cache.mem_of_mem_drop h)
  | unkept => exact .inl (Cache.mem_of_mem_drop h)
  | kept hquery =>
    rcases Cache.mem_keep h with h | h
    · exact .inr ⟨_, rfl, hquery, h⟩
    · exact .inl (Cache.mem_of_mem_drop h)

theorem search_ttl (c : Client) (now : Nat) (query : String) :
    (c.search now query).2.ttl = c.ttl := by
  have h := searched c now query
  generalize c.search now query = outcome at h ⊢
  cases h <;> rfl

theorem search_connection (c : Client) (now : Nat) (query : String) :
    (c.search now query).2.connection = c.connection ∨
      (c.search now query).2.connection = c.fetch.2.connection := by
  have h := searched c now query
  generalize c.search now query = outcome at h ⊢
  cases h with
  | blank => exact .inl rfl
  | hit => exact .inl rfl
  | failed => exact .inr rfl
  | unkept => exact .inr rfl
  | kept => exact .inr rfl

/-! ## Runs -/

/-- The query that an operation puts to a client. -/
def Operation.query? : Operation → Option String
  | .search query => some query
  | .suggest query => some query
  | .fetch => none
  | .forget => none

/-- An operation puts a query, or it is one of the other two. -/
theorem Operation.query_cases (op : Operation) :
    (∃ query, op.query? = some query) ∨ op = .fetch ∨ op = .forget := by
  cases op with
  | search query => exact .inl ⟨query, rfl⟩
  | suggest query => exact .inl ⟨query, rfl⟩
  | fetch => exact .inr (.inl rfl)
  | forget => exact .inr (.inr rfl)

/-- What an operation that puts a query leaves is what the search for it leaves. -/
theorem apply_query {op : Operation} (h : op.query? = some query) :
    (c.apply now op).2 = (c.search now query).2 := by
  cases op with
  | search query' => cases h; rfl
  | suggest query' =>
    cases h
    rw [apply, suggest_eq]
  | fetch => nomatch h
  | forget => nomatch h

/-- Something done to a client, after the time it is done at. -/
abbrev Visit := Nat × Operation

/-- The client of a service with prepared answers that has not been asked for anything yet. -/
def new (answers : List Exchange) (ttl : Nat) : Client :=
  { connection := .scripted { answers }, ttl }

/-- What is left of a client after some visits. -/
def run (c : Client) (visits : List Visit) : Client :=
  visits.foldl (fun c visit => (c.apply visit.1 visit.2).2) c

/-- What a client answers to some visits. -/
def replies (c : Client) : List Visit → List Reply
  | [] => []
  | visit :: rest =>
    (c.apply visit.1 visit.2).1 :: (c.apply visit.1 visit.2).2.replies rest

/-- How many requests of a client have reached the service. -/
def requests (c : Client) : Nat := c.connection.requests

theorem run_snoc (c : Client) (visits : List Visit) (visit : Visit) :
    c.run (visits ++ [visit]) = ((c.run visits).apply visit.1 visit.2).2 := by
  rw [run, List.foldl_append]
  rfl

/-- What each operation keeps of a client, a run keeps. -/
theorem run_induction {P : Client → Prop} (h : P c)
    (hstep : ∀ c now op, P c → P (c.apply now op).2) (visits : List Visit) : P (c.run visits) := by
  induction visits generalizing c with
  | nil => exact h
  | cons visit rest ih => exact ih (hstep c visit.1 visit.2 h)

theorem apply_ttl (c : Client) (now : Nat) (op : Operation) : (c.apply now op).2.ttl = c.ttl := by
  rcases op.query_cases with ⟨query, hquery⟩ | rfl | rfl
  · rw [apply_query hquery, search_ttl]
  · rfl
  · rfl

theorem run_ttl (c : Client) (visits : List Visit) : (c.run visits).ttl = c.ttl :=
  run_induction (P := fun c' => c'.ttl = c.ttl) rfl
    (fun c' now op h => (apply_ttl c' now op).trans h) visits

theorem apply_connection (c : Client) (now : Nat) (op : Operation) :
    (c.apply now op).2.connection = c.connection ∨
      (c.apply now op).2.connection = c.fetch.2.connection := by
  rcases op.query_cases with ⟨query, hquery⟩ | rfl | rfl
  · rw [apply_query hquery]
    exact search_connection c now query
  · exact .inr rfl
  · exact .inl rfl

/-- The client of a service with prepared answers only ever counts the requests. -/
theorem run_connection (answers : List Exchange) (ttl : Nat) (visits : List Visit) :
    ((new answers ttl).run visits).connection =
      .scripted ⟨answers, ((new answers ttl).run visits).requests⟩ := by
  have h : ∃ n, ((new answers ttl).run visits).connection = .scripted ⟨answers, n⟩ := by
    apply run_induction (P := fun c => ∃ n, c.connection = .scripted ⟨answers, n⟩)
    · exact ⟨0, rfl⟩
    · rintro c now op ⟨n, hn⟩
      rcases apply_connection c now op with h | h
      · exact ⟨n, h.trans hn⟩
      · refine ⟨n + 1, h.trans ?_⟩
        simp only [fetch, hn]
        rfl
  obtain ⟨n, hn⟩ := h
  rw [requests, hn]
  rfl

/-! ## A service -/

/-- A catalog of one candidate. -/
def revenue : List Candidate := [{ id := "r", name := "Revenue", category := "", value := 5 }]

/-- The body in which a service sends that catalog. -/
def revenueBody : List UInt8 :=
  "[\x7b\"id\":\"r\",\"name\":\"Revenue\",\"value\":5\x7d]".toList.map Char.toUInt8

end Client

end FormulaBar.Service
