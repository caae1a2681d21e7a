import PluginResolution.Catalog.Cache
import PluginResolution.PluginDirectory.Basic

/-!
Calls for catalogs. A call answers from the cache if it may; else it waits until it is the first
call of its version line, takes what an earlier call stored meanwhile, or fetches the directory
itself. Between two waits a call is one step, and a call may be given up at any wait.
-/
namespace PluginResolution.Catalog

inductive Phase where
  /-- Waits for its turn; so many catalogs of its line had been stored when it began. -/
  | queued (seen : Nat)
  | admitted (seen : Nat)
  | fetching
  deriving DecidableEq, Repr

structure Call where
  id : Nat
  host : HostVersion
  forced : Bool
  phase : Phase
  deriving DecidableEq, Repr

def Call.line (c : Call) : String :=
  c.host.line

def Call.admit (c : Call) : Call :=
  match c.phase with
  | .queued seen => { c with phase := .admitted seen }
  | _ => c

/-- The calls that have not ended, in the order in which they began, and what is kept. -/
structure Client where
  misconfigured : Option PluginDirectory.Error := none
  cache : Cache
  now : Nat := 0
  calls : List Call := []
  deriving DecidableEq, Repr

inductive Outcome where
  | ended (result : Except CatalogError Catalog)
  | fetches
  | waits

namespace Client

def find? (s : Client) (id : Nat) : Option Call :=
  s.calls.find? (·.id = id)

def setPhase (s : Client) (id : Nat) (p : Phase) : Client :=
  { s with calls := s.calls.map fun c => if c.id = id then { c with phase := p } else c }

def promote (line : String) : List Call → List Call
  | [] => []
  | c :: r => if c.line = line then c.admit :: r else c :: promote line r

def leave (s : Client) (c : Call) : Client :=
  { s with calls := promote c.line (s.calls.filter (·.id ≠ c.id)) }

def fetch (s : Client) (c : Call) : Outcome × Client :=
  match s.misconfigured with
  | some e => (.ended (.error e.toCatalogError), s.leave c)
  | none => (.fetches, s.setPhase c.id .fetching)

def join (s : Client) (id : Nat) (host : HostVersion) (forced : Bool) : Client :=
  let seen := s.cache.count host.line
  let phase := if s.calls.any (·.line = host.line) then .queued seen else .admitted seen
  { s with calls := s.calls ++ [⟨id, host, forced, phase⟩] }

def keep (s : Client) (c : Call) (catalog : Catalog) : Client :=
  { s with cache := s.cache.store s.now catalog }.leave c

def enter (s : Client) (id : Nat) (given : String) (forced : Bool) : Outcome × Client :=
  match HostVersion.parse given with
  | .error e => (.ended (.error (.invalidHostVersion e.given)), s)
  | .ok host =>
    match if forced then none else s.cache.fresh? s.now host.line with
    | some catalog => (.ended (.ok catalog), s)
    | none => (.waits, s.join id host forced)

def resume (s : Client) (c : Call) (seen : Nat) : Outcome × Client :=
  match s.cache.newer? c.line seen with
  | some catalog => (.ended (.ok catalog), s.leave c)
  | none => s.fetch c

def finish (s : Client) (c : Call) (answer : Except PluginDirectory.Error String) :
    Outcome × Client :=
  match answer.bind PluginDirectory.parse with
  | .error e => (.ended (.error e.toCatalogError), s.leave c)
  | .ok d =>
    let catalog := PluginDirectory.catalogFor d c.host
    (.ended (.ok catalog), s.keep c catalog)

inductive Event where
  | enter (id : Nat) (given : String) (forced : Bool)
  | resume (id : Nat)
  | answer (id : Nat) (answer : Except PluginDirectory.Error String)
  | cancel (id : Nat)
  | pass (milliseconds : Nat)

/-- What an event does; `none` if it cannot happen. -/
def step (s : Client) : Event → Option (Outcome × Client)
  | .enter id given forced =>
    if (s.find? id).isSome then none else some (s.enter id given forced)
  | .resume id => do
    let c ← s.find? id
    match c.phase with
    | .admitted seen => some (s.resume c seen)
    | _ => none
  | .answer id answer => do
    let c ← s.find? id
    match c.phase with
    | .fetching => some (s.finish c answer)
    | _ => none
  | .cancel id => do
    let c ← s.find? id
    return (.waits, s.leave c)
  | .pass milliseconds => some (.waits, { s with now := s.now + milliseconds })

/-- One call by itself: it begins, goes on at once, and its fetch, if it makes one, is answered at
once. -/
def ask {m : Type → Type} [Monad m] (s : Client) (given : String) (forced : Bool)
    (fetched : m (Except PluginDirectory.Error String)) :
    m (Except CatalogError Catalog × Client) := do
  let stuck := .error (.unavailable "the call has not ended")
  match s.enter 0 given forced with
  | (.ended result, s) => return (result, s)
  | (_, s) =>
    match s.step (.resume 0) with
    | none => return (stuck, s)
    | some (.ended result, s) => return (result, s)
    | some (_, s) =>
      let answer ← fetched
      match s.step (.answer 0 answer) with
      | some (.ended result, s) => return (result, s)
      | _ => return (stuck, s)

end Client

end PluginResolution.Catalog
