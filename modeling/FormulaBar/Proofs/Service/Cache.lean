import FormulaBar.Proofs.Service.Client
import Mathlib.Data.List.Induction
import Mathlib.Data.Nat.Find

/-!
# What a client remembers

As long as its answers stay fresh, a client sends no second request for a query that it has found
candidates for, and repeats what it found first; if they never do, it might as well keep none.

1. **Histories**: which visit found what, and what was forgotten since.
2. **Freshness**: the times of visits at which answers are still, or never, used again.
3. **Fresh answers**: what is kept is what was found first.
4. **Stale answers**: clients that use no answer again cannot be told apart.
5. **Whole runs**.
-/

namespace FormulaBar.Service.Client

variable {c : Client} {visits : List Visit} {visit : Visit} {now ttl i : Nat}
  {query : String} {found : List Candidate}

/-! ## Histories -/

/-- The visit at a place put a query to a client, and candidates were found for it. -/
def FoundAt (c : Client) (visits : List Visit) (i : Nat) (query : String)
    (found : List Candidate) : Prop :=
  ∃ now op, visits[i]? = some (now, op) ∧ op.query? = some query ∧
    ((c.run (visits.take i)).search now query).1 = .ok found

/-- From a place on, nothing was forgotten. -/
def KeptSince (visits : List Visit) (i : Nat) : Prop :=
  ∀ visit ∈ visits.drop i, visit.2 ≠ .forget

/-- A query has been answered since the client last forgot. -/
def Succeeded (c : Client) (visits : List Visit) (query : String) : Prop :=
  ∃ i found, FoundAt c visits i query found ∧ KeptSince visits i

/-- What the first answer to a query since the client last forgot has found. -/
def FirstFound (c : Client) (visits : List Visit) (query : String)
    (found : List Candidate) : Prop :=
  ∃ i, FoundAt c visits i query found ∧ KeptSince visits i ∧
    ∀ j < i, KeptSince visits j → ∀ other, ¬FoundAt c visits j query other

theorem FoundAt.lt (h : FoundAt c visits i query found) : i < visits.length := by
  obtain ⟨now, op, hi, -, -⟩ := h
  exact (List.getElem?_eq_some_iff.mp hi).1

theorem foundAt_snoc_of_lt (hi : i < visits.length) :
    FoundAt c (visits ++ [visit]) i query found ↔ FoundAt c visits i query found := by
  rw [FoundAt, FoundAt, List.getElem?_append_left hi,
    List.take_append_of_le_length (Nat.le_of_lt hi)]

theorem foundAt_snoc_length : FoundAt c (visits ++ [visit]) visits.length query found ↔
    visit.2.query? = some query ∧ ((c.run visits).search visit.1 query).1 = .ok found := by
  rw [FoundAt, List.getElem?_concat_length, List.take_left]
  constructor
  · rintro ⟨now, op, hvisit, hquery, hfound⟩
    cases hvisit
    exact ⟨hquery, hfound⟩
  · rintro ⟨hquery, hfound⟩
    exact ⟨visit.1, visit.2, rfl, hquery, hfound⟩

theorem keptSince_snoc (hi : i ≤ visits.length) :
    KeptSince (visits ++ [visit]) i ↔ KeptSince visits i ∧ visit.2 ≠ .forget := by
  rw [KeptSince, KeptSince, List.drop_append_of_le_length hi, List.forall_mem_append,
    List.forall_mem_singleton]

theorem succeeded_iff_exists_firstFound :
    Succeeded c visits query ↔ ∃ found, FirstFound c visits query found := by
  classical
  constructor
  · intro h
    obtain ⟨found, hfound, hkept⟩ := Nat.find_spec h
    refine ⟨found, Nat.find h, hfound, hkept, ?_⟩
    intro j hj hkeptj other hother
    exact Nat.find_min h hj ⟨other, hother, hkeptj⟩
  · rintro ⟨found, i, hfound, hkept, -⟩
    exact ⟨i, found, hfound, hkept⟩

/-- One more visit forgets everything, or leaves what was found first, or is the first to find
something. -/
theorem firstFound_snoc : FirstFound c (visits ++ [visit]) query found ↔
    visit.2 ≠ .forget ∧ (FirstFound c visits query found ∨
      ¬Succeeded c visits query ∧ visit.2.query? = some query ∧
        ((c.run visits).search visit.1 query).1 = .ok found) := by
  constructor
  · rintro ⟨i, hfound, hkept, hfirst⟩
    have hi : i ≤ visits.length := by
      have := hfound.lt
      rw [List.length_append, List.length_singleton] at this
      exact Nat.le_of_lt_succ this
    obtain ⟨hkept, hvisit⟩ := (keptSince_snoc hi).mp hkept
    have hbefore : ∀ j < i, KeptSince visits j → ∀ other, ¬FoundAt c visits j query other := by
      intro j hj hkeptj other hother
      have hlt : j < visits.length := Nat.lt_of_lt_of_le hj hi
      exact hfirst j hj ((keptSince_snoc (Nat.le_of_lt hlt)).mpr ⟨hkeptj, hvisit⟩) other
        ((foundAt_snoc_of_lt hlt).mpr hother)
    refine ⟨hvisit, ?_⟩
    rcases Nat.lt_or_eq_of_le hi with hlt | rfl
    · -- an earlier visit was the first
      exact .inl ⟨i, (foundAt_snoc_of_lt hlt).mp hfound, hkept, hbefore⟩
    · -- this visit is the first
      refine .inr ⟨?_, foundAt_snoc_length.mp hfound⟩
      rintro ⟨j, other, hother, hkeptj⟩
      exact hbefore j hother.lt hkeptj other hother
  · rintro ⟨hvisit, ⟨i, hfound, hkept, hfirst⟩ | ⟨hnone, hfound⟩⟩
    · have hi : i < visits.length := hfound.lt
      have hkept := (keptSince_snoc (Nat.le_of_lt hi)).mpr ⟨hkept, hvisit⟩
      refine ⟨i, (foundAt_snoc_of_lt hi).mpr hfound, hkept, ?_⟩
      intro j hj hkeptj other hother
      have hlt : j < visits.length := Nat.lt_trans hj hi
      exact hfirst j hj ((keptSince_snoc (Nat.le_of_lt hlt)).mp hkeptj).1 other
        ((foundAt_snoc_of_lt hlt).mp hother)
    · refine ⟨visits.length, foundAt_snoc_length.mpr hfound, ?_, ?_⟩
      · have hend : KeptSince visits visits.length := by
          intro visit hmem
          rw [List.drop_length] at hmem
          nomatch hmem
        exact (keptSince_snoc (Nat.le_refl _)).mpr ⟨hend, hvisit⟩
      · intro j hj hkeptj other hother
        exact hnone ⟨j, other, (foundAt_snoc_of_lt hj).mp hother,
          ((keptSince_snoc (Nat.le_of_lt hj)).mp hkeptj).1⟩

/-! ## Freshness -/

/-- Answers are kept for a while, and one that was given at any of some times is still fresh at
all that follow. -/
def StaysFresh (ttl : Nat) (times : List Nat) : Prop :=
  0 < ttl ∧ times.Pairwise fun earlier later => later - earlier < ttl

/-- An answer that was given at any of some times is fresh at none that follows. -/
def Stale (ttl : Nat) (times : List Nat) : Prop :=
  times.Pairwise fun earlier later => ttl ≤ later - earlier

/-- Without a time to keep answers for, none is ever fresh. -/
theorem stale_zero (times : List Nat) : Stale 0 times :=
  List.pairwise_of_forall fun _ _ => Nat.zero_le _

/-- An operation keeps no answer but its own, at its own time. -/
theorem mem_cache_apply {op : Operation} {entry : String × CachedAnswer}
    (h : entry ∈ (c.apply now op).2.cache) :
    entry ∈ c.cache ∨ ∃ query found, op.query? = some query ∧ ¬Blank query ∧
      (c.search now query).1 = .ok found ∧ entry = (query, ⟨now, found⟩) := by
  rcases op.query_cases with ⟨query, hquery⟩ | rfl | rfl
  · rw [apply_query hquery] at h
    rcases mem_cache_search h with h | ⟨found, hfound, hblank, hentry⟩
    · exact .inl h
    · exact .inr ⟨query, found, hquery, hblank, hfound, hentry⟩
  · exact .inl h
  · cases h

/-- Every answer that is kept was given at the time of a visit. -/
theorem fetchedAt_mem_times (answers : List Exchange) (ttl : Nat) (visits : List Visit) :
    ∀ entry ∈ ((new answers ttl).run visits).cache,
      entry.2.fetchedAt ∈ visits.map Prod.fst := by
  induction visits using List.reverseRecOn with
  | nil => nofun
  | append_singleton visits visit ih =>
    intro entry hentry
    rw [run_snoc] at hentry
    rw [List.map_append, List.mem_append]
    rcases mem_cache_apply hentry with h | ⟨query, found, -, -, -, rfl⟩
    · exact .inl (ih entry h)
    · exact .inr List.mem_cons_self

/-! ## Fresh answers -/

/-- While everything is fresh, a search adds what it has found if there was no answer to its query
and leaves everything else. -/
theorem lookup_search (hfresh : ∀ entry ∈ c.cache, entry.2.isFresh c.ttl now = true)
    (httl : c.ttl ≠ 0) (hquery : ¬Blank query) (asked : String) :
    ((c.search now asked).2.cache.lookup query).map CachedAnswer.candidates = some found ↔
      (c.cache.lookup query).map CachedAnswer.candidates = some found ∨
        (c.cache.lookup query).map CachedAnswer.candidates = none ∧ asked = query ∧
          (c.search now asked).1 = .ok found := by
  -- a miss means that there is no answer at all, since a stale one is ruled out
  have hmiss : ∀ asked, c.cache.fresh? c.ttl now asked = none → c.cache.lookup asked = none := by
    intro asked hasked
    by_contra hsome
    obtain ⟨a, ha⟩ := Option.ne_none_iff_exists'.mp hsome
    have hstale := Cache.fresh?_eq_none_iff.mp hasked a ha
    have := hfresh _ (Cache.mem_of_lookup ha)
    simp_all
  have h := searched c now asked
  generalize c.search now asked = outcome at h ⊢
  cases h with
  | blank hblank =>
    constructor
    · exact .inl
    · rintro (h | ⟨-, rfl, -⟩)
      · exact h
      · exact absurd hblank hquery
  | hit _ hhit =>
    constructor
    · exact .inl
    · rintro (h | ⟨hnone, rfl, -⟩)
      · exact h
      · obtain ⟨a, ha, -⟩ := Cache.fresh?_eq_some_iff.mp hhit
        rw [ha] at hnone
        nomatch hnone
  | failed _ hasked =>
    rw [Cache.drop_eq_self (hmiss asked hasked)]
    constructor
    · exact .inl
    · rintro (h | ⟨-, -, hok⟩)
      · exact h
      · nomatch hok
  | unkept _ _ _ hzero => exact absurd hzero httl
  | kept _ hasked =>
    rw [Cache.drop_eq_self (hmiss asked hasked)]
    by_cases heq : asked = query
    · subst heq
      simp [Cache.lookup_keep_self, hmiss asked hasked]
    · rw [Cache.lookup_keep_of_ne (Ne.symm heq) hfresh]
      simp [heq]

/-- What is kept for each query is what was found for it first. -/
def Remembers (c : Client) (visits : List Visit) : Prop :=
  ∀ query, ¬Blank query → ∀ found,
    ((c.run visits).cache.lookup query).map CachedAnswer.candidates = some found ↔
      FirstFound c visits query found

theorem Remembers.eq_none_iff (h : Remembers c visits) (hquery : ¬Blank query) :
    ((c.run visits).cache.lookup query).map CachedAnswer.candidates = none ↔
      ¬Succeeded c visits query := by
  rw [succeeded_iff_exists_firstFound, Option.eq_none_iff_forall_ne_some, not_exists]
  exact forall_congr' fun found => not_congr (h query hquery found)

theorem Remembers.snoc (h : Remembers c visits)
    (hfresh : ∀ entry ∈ (c.run visits).cache, entry.2.isFresh c.ttl visit.1 = true)
    (httl : c.ttl ≠ 0) : Remembers c (visits ++ [visit]) := by
  intro query hquery found
  rw [firstFound_snoc, run_snoc, ← h query hquery found, ← h.eq_none_iff hquery]
  rw [← run_ttl c visits] at hfresh httl
  obtain ⟨now, op⟩ := visit
  rcases op.query_cases with ⟨asked, hop⟩ | rfl | rfl
  · -- what a visit leaves does not depend on whether it searches or suggests
    have hforget : op ≠ .forget := by
      rintro rfl
      cases hop
    rw [apply_query hop, lookup_search hfresh httl hquery, hop]
    constructor
    · rintro (h | ⟨hnone, rfl, hok⟩)
      · exact ⟨hforget, .inl h⟩
      · exact ⟨hforget, .inr ⟨hnone, rfl, hok⟩⟩
    · rintro ⟨-, h | ⟨hnone, heq, hok⟩⟩
      · exact .inl h
      · cases heq
        exact .inr ⟨hnone, rfl, hok⟩
  · simp [apply, fetch, Operation.query?]
  · simp [apply, forget]

/-- What has been kept at some times is fresh when it stays fresh. -/
theorem isFresh_run {answers : List Exchange}
    (h : StaysFresh ttl (visits.map Prod.fst ++ [now])) :
    ∀ entry ∈ ((new answers ttl).run visits).cache, entry.2.isFresh ttl now = true := by
  intro entry hentry
  have htime := fetchedAt_mem_times answers ttl visits entry hentry
  have hlast := (List.pairwise_append.mp h.2).2.2 _ htime now List.mem_cons_self
  exact decide_eq_true hlast

theorem remembers_run (answers : List Exchange) (h : StaysFresh ttl (visits.map Prod.fst)) :
    Remembers (new answers ttl) visits := by
  induction visits using List.reverseRecOn with
  | nil =>
    intro query hquery found
    constructor
    · nofun
    · rintro ⟨i, hfound, -⟩
      exact absurd hfound.lt (Nat.not_lt_zero i)
  | append_singleton visits visit ih =>
    rw [List.map_append] at h
    have hbefore : StaysFresh ttl (visits.map Prod.fst) := ⟨h.1, (List.pairwise_append.mp h.2).1⟩
    exact (ih hbefore).snoc (isFresh_run h) (Nat.ne_of_gt h.1)

/-! ## Stale answers -/

/-- A client keeps nothing that it could use at some times. -/
def NoneFresh (c : Client) (times : List Nat) : Prop :=
  ∀ entry ∈ c.cache, ∀ time ∈ times, c.ttl ≤ time - entry.2.fetchedAt

theorem NoneFresh.miss (h : NoneFresh c [now]) (query : String) :
    c.cache.fresh? c.ttl now query = none := by
  rw [Cache.fresh?_eq_none_iff]
  intro a ha
  have := h _ (Cache.mem_of_lookup ha) now List.mem_cons_self
  exact decide_eq_false (Nat.not_lt.mpr this)

theorem NoneFresh.head {times : List Nat} (h : NoneFresh c (now :: times)) :
    NoneFresh c [now] := by
  intro entry hentry time htime
  rw [List.mem_singleton.mp htime]
  exact h entry hentry now List.mem_cons_self

theorem noneFresh_run {answers : List Exchange}
    (h : Stale ttl (visits.map Prod.fst ++ [now])) :
    NoneFresh ((new answers ttl).run visits) [now] := by
  intro entry hentry time htime
  rw [List.mem_singleton] at htime
  subst htime
  have hentry := fetchedAt_mem_times answers ttl visits entry hentry
  rw [run_ttl]
  exact (List.pairwise_append.mp h).2.2 _ hentry time List.mem_cons_self

theorem NoneFresh.apply {times : List Nat} (h : NoneFresh c (now :: times)) (op : Operation)
    (hnow : ∀ time ∈ times, c.ttl ≤ time - now) : NoneFresh (c.apply now op).2 times := by
  intro entry hentry time htime
  rw [apply_ttl]
  rcases mem_cache_apply hentry with hold | ⟨query, found, -, -, -, rfl⟩
  · exact h entry hold time (List.mem_cons_of_mem now htime)
  · exact hnow time htime

/-- Clients of one service that have nothing fresh do the same. -/
theorem apply_agrees {c₀ : Client} {now₀ : Nat} (hconn : c₀.connection = c.connection)
    (h₀ : NoneFresh c₀ [now₀]) (h : NoneFresh c [now]) (op : Operation) :
    (c₀.apply now₀ op).1 = (c.apply now op).1 ∧
      (c₀.apply now₀ op).2.connection = (c.apply now op).2.connection := by
  have hsearch : ∀ query, (c₀.search now₀ query).1 = (c.search now query).1 ∧
      (c₀.search now₀ query).2.connection = (c.search now query).2.connection := by
    intro query
    by_cases hblank : Blank query
    · rw [search_blank hblank, search_blank hblank]
      exact ⟨rfl, hconn⟩
    · obtain ⟨hanswer₀, hconn₀⟩ := search_miss hblank (h₀.miss query)
      obtain ⟨hanswer, hconn'⟩ := search_miss hblank (h.miss query)
      rw [hanswer₀, hconn₀, hanswer, hconn', fetch, fetch, hconn]
      exact ⟨rfl, rfl⟩
  cases op with
  | search query =>
    simp only [apply]
    exact ⟨congrArg Reply.outcome (hsearch query).1, (hsearch query).2⟩
  | suggest query =>
    obtain ⟨hanswer, hafter⟩ := hsearch query
    simp only [apply, suggest_eq, hanswer, hafter, and_self]
  | fetch => simp only [apply, fetch, hconn, and_self]
  | forget => exact ⟨rfl, hconn⟩

/-- Clients of one service that never have anything fresh cannot be told apart, whatever their
times. -/
theorem runs_agree {c₀ : Client} {visits₀ : List Visit} (hconn : c₀.connection = c.connection)
    (hops : visits₀.map Prod.snd = visits.map Prod.snd)
    (h₀ : NoneFresh c₀ (visits₀.map Prod.fst)) (hstale₀ : Stale c₀.ttl (visits₀.map Prod.fst))
    (h : NoneFresh c (visits.map Prod.fst)) (hstale : Stale c.ttl (visits.map Prod.fst)) :
    c₀.replies visits₀ = c.replies visits ∧
      (c₀.run visits₀).connection = (c.run visits).connection := by
  induction visits generalizing c₀ c visits₀ with
  | nil =>
    rw [List.map_nil, List.map_eq_nil_iff] at hops
    subst hops
    exact ⟨rfl, hconn⟩
  | cons visit rest ih =>
    obtain ⟨now, op⟩ := visit
    -- the two first visits differ in their times alone
    obtain ⟨⟨now₀, op₀⟩, rest₀, rfl, hop, hrest⟩ := List.map_eq_cons_iff.mp hops
    have hop : op₀ = op := hop
    subst hop
    obtain ⟨hnow₀, hstale₀⟩ := List.pairwise_cons.mp hstale₀
    obtain ⟨hnow, hstale⟩ := List.pairwise_cons.mp hstale
    have hfirst := apply_agrees hconn h₀.head h.head op₀
    have hlater := ih hfirst.2 hrest (h₀.apply op₀ hnow₀) (by rwa [Stale, apply_ttl])
      (h.apply op₀ hnow) (by rwa [Stale, apply_ttl])
    exact ⟨congrArg₂ List.cons hfirst.1 hlater.1, hlater.2⟩

/-! ## Whole runs -/

/-- A search sends one request, and answers from what it comes back with. -/
def Asks (c : Client) (now : Nat) (query : String) : Prop :=
  (c.search now query).2.requests = c.requests + 1 ∧
    (c.search now query).1 = c.fetch.1.map (Catalog.search · query)

/-- The next request of a client brings what the service has prepared for it. -/
theorem fetch_run (answers : List Exchange) (ttl : Nat) (visits : List Visit) :
    let c := (new answers ttl).run visits
    c.fetch = ((Script.upcoming ⟨answers, c.requests⟩).catalog,
      { c with connection := .scripted ⟨answers, c.requests + 1⟩ }) := by
  intro c
  have hscript : c.connection = .scripted ⟨answers, c.requests⟩ :=
    run_connection answers ttl visits
  rw [fetch]
  conv_lhs => rw [hscript]
  rfl

theorem asks_of_miss {answers : List Exchange} (hquery : ¬Blank query)
    (hmiss : ((new answers ttl).run visits).cache.fresh? ((new answers ttl).run visits).ttl now
      query = none) : ((new answers ttl).run visits).Asks now query := by
  obtain ⟨hanswer, hconn⟩ := search_miss hquery hmiss
  refine ⟨?_, hanswer⟩
  rw [requests, hconn, fetch_run]
  rfl

/-- A failed search leaves the answers to all other queries. -/
theorem lookup_search_of_error {e : Error} {other : String}
    (h : (c.search now query).1 = .error e) (hother : other ≠ query) :
    (c.search now query).2.cache.lookup other = c.cache.lookup other := by
  have hsearched := searched c now query
  generalize c.search now query = outcome at h hsearched ⊢
  cases hsearched with
  | blank => nomatch h
  | hit => nomatch h
  | failed => exact Cache.lookup_drop_of_ne hother
  | unkept => nomatch h
  | kept => nomatch h

theorem search_of_firstFound {answers : List Exchange}
    (hfresh : StaysFresh ttl (visits.map Prod.fst ++ [now])) (hquery : ¬Blank query)
    (h : FirstFound (new answers ttl) visits query found) :
    ((new answers ttl).run visits).search now query =
      (.ok found, (new answers ttl).run visits) := by
  have hremembers := remembers_run answers ⟨hfresh.1, (List.pairwise_append.mp hfresh.2).1⟩
  obtain ⟨a, ha, hfound⟩ := Option.map_eq_some_iff.mp ((hremembers query hquery found).mpr h)
  apply search_hit hquery
  rw [Cache.fresh?_eq_some_iff, run_ttl]
  exact ⟨a, ha, isFresh_run hfresh _ (Cache.mem_of_lookup ha), hfound⟩

theorem asks_of_not_succeeded {answers : List Exchange}
    (hfresh : StaysFresh ttl (visits.map Prod.fst ++ [now])) (hquery : ¬Blank query)
    (h : ¬Succeeded (new answers ttl) visits query) :
    ((new answers ttl).run visits).Asks now query := by
  have hremembers := remembers_run answers ⟨hfresh.1, (List.pairwise_append.mp hfresh.2).1⟩
  have hnone := (hremembers.eq_none_iff hquery).mpr h
  apply asks_of_miss hquery
  rw [Cache.fresh?_eq_none_iff]
  intro a ha
  rw [ha] at hnone
  nomatch hnone

theorem asks_of_stale {answers : List Exchange}
    (hstale : Stale ttl (visits.map Prod.fst ++ [now])) (hquery : ¬Blank query) :
    ((new answers ttl).run visits).Asks now query :=
  asks_of_miss hquery ((noneFresh_run hstale).miss query)

/-- A client at any point of its life.

A blank query finds nothing without a request, a fetch sends a request and leaves what is kept, a
suggestion is a search with failures taken for finding nothing, and a failed search leaves the
answers to all other queries. While answers stay fresh, a query is asked for until it succeeds,
and from then on what it found first is repeated until the client forgets. When no answer is ever
fresh, in particular with no time to keep answers for, every query is asked for, and it makes no
difference how long answers would be kept. -/
theorem run_answers (answers : List Exchange) (ttl : Nat) (past : List Visit) (now : Nat) :
    let start := new answers ttl
    let c := start.run past
    let times := past.map Prod.fst
    (∀ query, Blank query → c.search now query = (.ok [], c)) ∧
    c.fetch = ((Script.upcoming ⟨answers, c.requests⟩).catalog,
      { c with connection := .scripted ⟨answers, c.requests + 1⟩ }) ∧
    (∀ query, c.suggest now query =
      ((c.search now query).1.toOption.getD [], (c.search now query).2)) ∧
    (∀ query e, (c.search now query).1 = .error e → ∀ other, other ≠ query →
      (c.search now query).2.cache.lookup other = c.cache.lookup other) ∧
    (StaysFresh ttl (times ++ [now]) → ∀ query, ¬Blank query →
      ((c.search now query).2.requests = c.requests ↔ Succeeded start past query) ∧
      (∀ found, FirstFound start past query found → c.search now query = (.ok found, c)) ∧
      (¬Succeeded start past query → c.Asks now query)) ∧
    (Stale ttl (times ++ [now]) → ∀ query, ¬Blank query → c.Asks now query) ∧
    (Stale ttl times → ∀ past₀ : List Visit, past₀.map Prod.snd = past.map Prod.snd →
      (new answers 0).replies past₀ = start.replies past ∧
      ((new answers 0).run past₀).requests = c.requests) := by
  intro start c times
  refine ⟨fun query hblank => search_blank hblank, fetch_run answers ttl past,
    fun query => suggest_eq c now query, fun query e he other => lookup_search_of_error he,
    ?_, fun hstale query hquery => asks_of_stale hstale hquery, ?_⟩
  · intro hfresh query hquery
    have hfirst : ∀ found, FirstFound start past query found →
        c.search now query = (.ok found, c) :=
      fun found => search_of_firstFound hfresh hquery
    have hasks : ¬Succeeded start past query → c.Asks now query :=
      asks_of_not_succeeded hfresh hquery
    refine ⟨⟨?_, ?_⟩, hfirst, hasks⟩
    · intro hsame
      by_contra hnot
      have := (hasks hnot).1
      omega
    · intro h
      obtain ⟨found, hfound⟩ := succeeded_iff_exists_firstFound.mp h
      rw [hfirst found hfound]
  · intro hstale past₀ hops
    have hconn : (new answers 0).connection = start.connection := rfl
    have hagree := runs_agree hconn hops nofun (stale_zero _) nofun hstale
    exact ⟨hagree.1, congrArg Connection.requests hagree.2⟩

/-- A service breaks down after its first answer, which a fetch finds out; the query that has been
answered is answered again. -/
theorem answered_after_breakdown :
    let start := new [.complete 200 revenueBody, .dropped] 10
    let past : List Visit := [(0, .search "rev"), (1, .fetch)]
    (start.run past).fetch.1 = .error (.network "connection closed") ∧
      (start.run past).search 2 "rev" = (.ok revenue, start.run past) := by
  intro start past
  have hfresh : StaysFresh 10 (past.map Prod.fst ++ [2]) := by
    unfold StaysFresh
    decide
  have hquery : ¬Blank "rev" := by
    unfold Blank
    decide
  have hfirst : FirstFound start past "rev" revenue := by
    refine ⟨0, ⟨0, .search "rev", rfl, rfl, ?_⟩, ?_, nofun⟩
    · decide +kernel
    · unfold KeptSince
      decide
  have hanswers := run_answers [.complete 200 revenueBody, .dropped] 10 past 2
  refine ⟨?_, (hanswers.2.2.2.2.1 hfresh "rev" hquery).2.1 revenue hfirst⟩
  decide +kernel

end FormulaBar.Service.Client
