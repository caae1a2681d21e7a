import PluginResolution.Catalog.Client

/-!
Running calls on one processor. Calls that may go on do so in turn, each until it waits or ends;
when all wait, the clock moves on to the moment at which the next fetch is answered.
-/
namespace PluginResolution.Catalog

structure Flight where
  id : Nat
  arrival : Nat
  answer : Except PluginDirectory.Error String

inductive Turn where
  | begin (id : Nat) (given : String) (forced : Bool)
  | resume (id : Nat)
  | answered (id : Nat) (answer : Except PluginDirectory.Error String)

structure Schedule where
  client : Client
  /-- How long a fetch takes, in milliseconds. -/
  latency : Nat := 0
  /-- What the next fetches give; the last answer repeats. -/
  answers : List (Except PluginDirectory.Error String)
  fetches : Nat := 0
  ready : List Turn := []
  flights : List Flight := []
  ended : List (Nat × Except CatalogError Catalog) := []

namespace Schedule

def nextAnswer : List (Except PluginDirectory.Error String) →
    Except PluginDirectory.Error String × List (Except PluginDirectory.Error String)
  | [] => (.error (.network "no answer"), [])
  | [a] => (a, [a])
  | a :: r => (a, r)

def wake (before : Client) (s : Schedule) : Schedule :=
  let woken := s.client.calls.filterMap fun c =>
    match c.phase with
    | .admitted _ =>
      match before.find? c.id with
      | some ⟨_, _, _, .queued _⟩ => some (.resume c.id)
      | _ => none
    | _ => none
  { s with ready := s.ready ++ woken }

/-- Lets an event happen, and sends off the fetch that it begins. A fetch that takes no time is
answered in the same step. -/
def apply (s : Schedule) (id : Nat) (e : Client.Event) : Schedule :=
  let before := s.client
  match before.step e with
  | none => s
  | some (.ended result, client) =>
    wake before { s with client, ended := s.ended ++ [(id, result)] }
  | some (.waits, client) => wake before { s with client }
  | some (.fetches, client) =>
    let (answer, answers) := nextAnswer s.answers
    let s := { s with client, answers, fetches := s.fetches + 1 }
    if s.latency = 0 then
      match s.client.step (.answer id answer) with
      | some (.ended result, client) =>
        wake before { s with client, ended := s.ended ++ [(id, result)] }
      | _ => s
    else { s with flights := s.flights ++ [⟨id, s.client.now + s.latency, answer⟩] }

def Turn.take (s : Schedule) : Turn → Schedule
  | .begin id given forced => (s.apply id (.enter id given forced)).apply id (.resume id)
  | .resume id => s.apply id (.resume id)
  | .answered id answer => s.apply id (.answer id answer)

def settle : Nat → Schedule → Schedule
  | 0, s => s
  | fuel + 1, s =>
    match s.ready with
    | [] => s
    | t :: r => settle fuel (Turn.take { s with ready := r } t)

def arrive (s : Schedule) (f : Flight) : Schedule :=
  let due := s.flights.filter (·.arrival ≤ f.arrival)
  { s with
    client := { s.client with now := max s.client.now f.arrival }
    flights := s.flights.filter fun g => !(g.arrival ≤ f.arrival)
    ready := s.ready ++ due.map fun g => .answered g.id g.answer }

def nextFlight? : List Flight → Option Flight
  | [] => none
  | f :: r =>
    match nextFlight? r with
    | some g => if g.arrival < f.arrival then some g else some f
    | none => some f

def finish : Nat → Schedule → Schedule
  | 0, s => s
  | fuel + 1, s =>
    let s := settle (4 * (s.ready.length + s.client.calls.length) + 4) s
    match nextFlight? s.flights with
    | none => s
    | some f => finish fuel (s.arrive f)

def moves (s : Schedule) : Nat :=
  s.ready.length + s.client.calls.length + s.flights.length + 1

structure Wanted where
  given : String
  forced : Bool

def turns (first : Nat) : List Wanted → List Turn
  | [] => []
  | w :: r => .begin first w.given w.forced :: turns (first + 1) r

def clear (s : Schedule) : Schedule :=
  { s with ended := [] }

def result? (s : Schedule) (id : Nat) : Option (Except CatalogError Catalog) :=
  s.ended.lookup id

def concurrently (s : Schedule) (calls : List Wanted) : Schedule :=
  let s := { s.clear with ready := turns 0 calls }
  finish s.moves s

def cancelling (s : Schedule) (first : Wanted) (others : List Wanted) : Schedule :=
  let s := settle 4 { s.clear with ready := turns 0 [first] }
  let s := settle (4 * others.length + 4) { s with ready := turns 1 others }
  -- an answer to a call that is given up arrives nowhere
  let s := { s.apply 0 (.cancel 0) with flights := s.flights.filter (·.id ≠ 0) }
  finish s.moves s

def pass (s : Schedule) (milliseconds : Nat) : Schedule :=
  { s with client := { s.client with now := s.client.now + milliseconds } }

end Schedule

end PluginResolution.Catalog
