import FormulaBar.Proofs.Service.Client

/-!
# A service that always sends the same catalog

To the one who asks, the client of such a service is the catalog itself, whatever it keeps and for
how long.
-/

namespace FormulaBar.Service

/-- A response is a success, and its body reads as a catalog. -/
def Exchange.Gives (catalog : List Candidate) : Exchange → Prop
  | .dropped => False
  | .truncated _ => False
  | .complete status body => isSuccess status = true ∧
    Candidate.readList? (String.ofList (Text.decode body)) = some catalog

theorem Exchange.Gives.catalog_eq {catalog : List Candidate} {x : Exchange}
    (h : x.Gives catalog) : x.catalog = .ok catalog := by
  cases x with
  | dropped => exact h.elim
  | truncated status => exact h.elim
  | complete status body =>
    obtain ⟨hstatus, hbody⟩ := h
    rw [Exchange.catalog, if_pos hstatus, hbody]

namespace Client

variable {answers : List Exchange} {catalog : List Candidate} {c : Client}

/-- What a catalog at hand answers to an operation. -/
def Operation.answer (catalog : List Candidate) : Operation → Reply
  | .search query => .outcome (.ok (Catalog.search catalog query))
  | .suggest query => .candidates (Catalog.search catalog query)
  | .fetch => .outcome (.ok catalog)
  | .forget => .none

/-- A client asks a given service, and has kept only what a catalog would answer. -/
structure Mirrors (answers : List Exchange) (catalog : List Candidate) (c : Client) : Prop where
  script : ∃ n, c.connection = .scripted ⟨answers, n⟩
  kept : ∀ entry ∈ c.cache, entry.2.candidates = Catalog.search catalog entry.1

theorem Mirrors.fetch (h : Mirrors answers catalog c)
    (hgives : ∀ n, (Script.upcoming ⟨answers, n⟩).Gives catalog) :
    c.fetch.1 = .ok catalog ∧ Mirrors answers catalog c.fetch.2 := by
  obtain ⟨n, hn⟩ := h.script
  have hsend : c.connection.send = (.ok catalog, .scripted ⟨answers, n + 1⟩) := by
    rw [hn, Connection.send, (hgives n).catalog_eq]
  rw [Client.fetch, hsend]
  exact ⟨rfl, ⟨n + 1, rfl⟩, h.kept⟩

theorem Mirrors.search (h : Mirrors answers catalog c)
    (hgives : ∀ n, (Script.upcoming ⟨answers, n⟩).Gives catalog) (now : Nat) (query : String) :
    (c.search now query).1 = .ok (Catalog.search catalog query) ∧
      Mirrors answers catalog (c.search now query).2 := by
  obtain ⟨hfetch, hafter⟩ := h.fetch hgives
  have hdrop : ∀ entry ∈ c.cache.drop query,
      entry.2.candidates = Catalog.search catalog entry.1 :=
    fun entry hentry => h.kept entry (Cache.mem_of_mem_drop hentry)
  have hsearched := searched c now query
  generalize c.search now query = outcome at hsearched ⊢
  cases hsearched with
  | blank hblank =>
    rw [catalogSearch_blank hblank]
    exact ⟨rfl, h⟩
  | hit _ hhit =>
    obtain ⟨a, ha, -, rfl⟩ := Cache.fresh?_eq_some_iff.mp hhit
    exact ⟨congrArg Except.ok (h.kept _ (Cache.mem_of_lookup ha)), h⟩
  | failed _ _ hsent =>
    rw [hfetch] at hsent
    nomatch hsent
  | unkept _ _ hsent =>
    rw [hfetch] at hsent
    cases hsent
    exact ⟨rfl, hafter.script, hdrop⟩
  | kept _ _ hsent =>
    rw [hfetch] at hsent
    cases hsent
    refine ⟨rfl, hafter.script, ?_⟩
    intro entry hentry
    rcases Cache.mem_keep hentry with rfl | hentry
    · rfl
    · exact hdrop entry hentry

/-- A client that has kept what the catalog would answer answers like it, and stays so. -/
theorem Mirrors.apply (h : Mirrors answers catalog c)
    (hgives : ∀ n, (Script.upcoming ⟨answers, n⟩).Gives catalog) (now : Nat) (op : Operation) :
    (c.apply now op).1 = op.answer catalog ∧ Mirrors answers catalog (c.apply now op).2 := by
  cases op with
  | search query =>
    obtain ⟨hanswer, hafter⟩ := h.search hgives now query
    exact ⟨congrArg Reply.outcome hanswer, hafter⟩
  | suggest query =>
    obtain ⟨hanswer, hafter⟩ := h.search hgives now query
    rw [Client.apply, suggest_eq, hanswer]
    exact ⟨rfl, hafter⟩
  | fetch =>
    obtain ⟨hanswer, hafter⟩ := h.fetch hgives
    exact ⟨congrArg Reply.outcome hanswer, hafter⟩
  | forget => exact ⟨rfl, h.script, List.forall_mem_nil _⟩

theorem Mirrors.replies (h : Mirrors answers catalog c)
    (hgives : ∀ n, (Script.upcoming ⟨answers, n⟩).Gives catalog) (visits : List Visit) :
    c.replies visits = visits.map fun visit => visit.2.answer catalog := by
  induction visits generalizing c with
  | nil => rfl
  | cons visit rest ih =>
    obtain ⟨hanswer, hafter⟩ := h.apply hgives visit.1 visit.2
    rw [Client.replies, hanswer, ih hafter, List.map_cons]

/-- If all responses of a service are successes with one catalog, its client answers whatever is
done to it as that catalog does, at any times and however long it keeps its answers. -/
theorem replies_eq_catalog (answers : List Exchange) (catalog : List Candidate)
    (hgives : ∀ n, (Script.upcoming ⟨answers, n⟩).Gives catalog) (ttl : Nat)
    (visits : List Visit) :
    (new answers ttl).replies visits = visits.map fun visit => visit.2.answer catalog := by
  have hnew : Mirrors answers catalog (new answers ttl) := ⟨⟨0, rfl⟩, nofun⟩
  exact hnew.replies hgives visits

/-- A service sends its catalog with one status and then with another. -/
theorem revenue_replies :
    (new [.complete 200 revenueBody, .complete 203 revenueBody] 5).replies
        [(0, .search "rev"), (2, .suggest "REV "), (9, .search "rev"), (9, .fetch)] =
      [.outcome (.ok revenue), .candidates revenue, .outcome (.ok revenue),
        .outcome (.ok revenue)] := by
  have hgives : ∀ n, (Script.upcoming
      ⟨[.complete 200 revenueBody, .complete 203 revenueBody], n⟩).Gives revenue := by
    have hread : Candidate.readList? (String.ofList (Text.decode revenueBody)) = some revenue := by
      decide +kernel
    intro n
    match n with
    | 0 => exact ⟨rfl, hread⟩
    | 1 => exact ⟨rfl, hread⟩
    | _ + 2 => exact ⟨rfl, hread⟩
  have hsearch : Catalog.search revenue "rev" = revenue ∧
      Catalog.search revenue "REV " = revenue := by
    decide +kernel
  rw [replies_eq_catalog _ revenue hgives]
  simp only [List.map_cons, List.map_nil, Operation.answer, hsearch]

end Client

end FormulaBar.Service
