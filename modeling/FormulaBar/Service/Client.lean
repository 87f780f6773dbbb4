import FormulaBar.Candidate.Json
import FormulaBar.Catalog
import FormulaBar.Service.Error
import FormulaBar.Text.Bytes

/-!
# The client of the service

The service has one catalog, which it sends whole; the client narrows it down and keeps the answers.

1. **Exchanges**: what a request may come back with, and what the client makes of it.
2. **Scripts**: a service that gives prepared answers and counts the requests.
3. **Cache**: answers by query, each with the time it was fetched at.
4. **Client**: a blank query asks for nothing, a fresh answer is used again, failures are not kept.
5. **Operations** on a client, as data.
-/

namespace FormulaBar.Service

/-! ## Exchanges -/

/-- What a request may come back with. -/
inductive Exchange where
  /-- The connection is closed without an answer. -/
  | dropped
  /-- The body breaks off. -/
  | truncated (status : Nat)
  | complete (status : Nat) (body : List UInt8)
deriving Repr, DecidableEq

/-- Whether a status means success. -/
def isSuccess (status : Nat) : Bool := decide (200 ≤ status ∧ status ≤ 299)

/-- The candidates that a request has fetched, or why there are none. A body that breaks off is a
network error unless the status is an error of its own. -/
def Exchange.catalog : Exchange → Except Error (List Candidate)
  | .dropped => .error (.network "connection closed")
  | .truncated status =>
    if isSuccess status then .error (.network "body incomplete") else .error (.http status "")
  | .complete status body =>
    let text := String.ofList (Text.decode body)
    if isSuccess status then
      match Candidate.readList? text with
      | some candidates => .ok candidates
      | none => .error (.parse "not a list of candidates")
    else .error (.http status text)

/-! ## Scripts -/

/-- A service with prepared answers, the last of which repeats. -/
structure Script where
  answers : List Exchange
  /-- How many requests have come in. -/
  requests : Nat := 0
deriving Repr, DecidableEq

/-- What the next request comes back with; without prepared answers it is not answered. -/
def Script.upcoming (s : Script) : Exchange :=
  (s.answers[s.requests]?.or s.answers.getLast?).getD .dropped

/-- A service, which may be out of reach. -/
inductive Connection where
  | unreachable
  | scripted (script : Script)
deriving Repr, DecidableEq

/-- How many requests have reached the service. -/
def Connection.requests : Connection → Nat
  | .unreachable => 0
  | .scripted s => s.requests

/-- Sends a request. -/
def Connection.send : Connection → Except Error (List Candidate) × Connection
  | .unreachable => (.error (.network "unreachable"), .unreachable)
  | .scripted s =>
    (s.upcoming.catalog, .scripted { s with requests := s.requests + 1 })

/-! ## Cache -/

/-- An answer that was kept. -/
structure CachedAnswer where
  fetchedAt : Nat
  candidates : List Candidate
deriving Repr, DecidableEq

/-- Answers by query. -/
abbrev Cache := List (String × CachedAnswer)

/-- Whether an answer may still be used. -/
def CachedAnswer.isFresh (a : CachedAnswer) (ttl now : Nat) : Bool :=
  decide (now - a.fetchedAt < ttl)

/-- The answer to a query, if it may still be used. -/
def Cache.fresh? (cache : Cache) (ttl now : Nat) (query : String) : Option (List Candidate) :=
  ((cache.lookup query).filter fun a => a.isFresh ttl now).map CachedAnswer.candidates

/-- Keeps an answer, and drops those that may no longer be used. -/
def Cache.keep (cache : Cache) (ttl now : Nat) (query : String) (candidates : List Candidate) :
    Cache :=
  (query, ⟨now, candidates⟩) ::
    cache.filter fun entry => entry.2.isFresh ttl now && entry.1 != query

/-- Drops the answer to a query. -/
def Cache.drop (cache : Cache) (query : String) : Cache :=
  cache.filter fun entry => entry.1 != query

/-! ## Client -/

/-- A client of a service. -/
structure Client where
  connection : Connection
  /-- How long an answer may be used again; zero for not at all. -/
  ttl : Nat
  cache : Cache := []
deriving Repr, DecidableEq

namespace Client

/-- Fetches the whole catalog. -/
def fetch (c : Client) : Except Error (List Candidate) × Client :=
  (c.connection.send.1, { c with connection := c.connection.send.2 })

/-- The candidates that a query finds at a given time, or why none could be searched. -/
def search (c : Client) (now : Nat) (query : String) : Except Error (List Candidate) × Client :=
  if Text.trimChars query.toList = [] then (.ok [], c)
  else
    match c.cache.fresh? c.ttl now query with
    | some candidates => (.ok candidates, c)
    | none =>
      -- An answer that is too old goes even if no new one can be fetched.
      let c := { c with cache := c.cache.drop query }
      match c.fetch with
      | (.error e, c) => (.error e, c)
      | (.ok catalog, c) =>
        let candidates := Catalog.search catalog query
        let cache := if c.ttl = 0 then c.cache else c.cache.keep c.ttl now query candidates
        (.ok candidates, { c with cache })

/-- The candidates that a query finds; there are none if they could not be searched. -/
def suggest (c : Client) (now : Nat) (query : String) : List Candidate × Client :=
  match c.search now query with
  | (.ok candidates, c) => (candidates, c)
  | (.error _, c) => ([], c)

/-- Forgets all answers. -/
def forget (c : Client) : Client := { c with cache := [] }

/-! ## Operations -/

/-- What can be done to a client. -/
inductive Operation where
  | search (query : String)
  | suggest (query : String)
  | fetch
  | forget
deriving Repr, DecidableEq

/-- What an operation answers. -/
inductive Reply where
  | none
  | candidates (found : List Candidate)
  | outcome (result : Except Error (List Candidate))

/-- Carries out an operation at a given time. -/
def apply (c : Client) (now : Nat) : Operation → Reply × Client
  | .search query => (.outcome (c.search now query).1, (c.search now query).2)
  | .suggest query => (.candidates (c.suggest now query).1, (c.suggest now query).2)
  | .fetch => (.outcome (Client.fetch c).1, (Client.fetch c).2)
  | .forget => (.none, Client.forget c)

end Client

end FormulaBar.Service
