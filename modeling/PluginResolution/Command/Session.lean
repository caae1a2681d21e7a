import PluginResolution.Catalog.Published
import PluginResolution.Command.Failure
import PluginResolution.Storage

namespace PluginResolution.Command

structure Session where
  root : DataRoot
  storage : Storage
  settings : Settings
  deriving DecidableEq, Repr

/-- Gives the catalog for a host version, fetched anew if the flag says so. -/
abbrev Catalogs (m : Type → Type) :=
  String → Bool → StateT FileTree m (Except CatalogError Catalog)

namespace Session

def attempt {ε α : Type} (explain : ε → Trouble) (act : ExceptT ε (StateM FileTree) α) :
    ExceptT Trouble (StateM FileTree) α := fun t =>
  match act t with
  | (.ok a, t) => (.ok a, t)
  | (.error e, t) => (.error (explain e), t)

def ofUnusable (e : Storage.Unusable) : Trouble :=
  match e.messages with
  | (what, none) => .other what
  | (what, some cause) => .explained what (.other cause)

def inForce (stored : Settings) (catalogUrl : Option String) : Settings :=
  match catalogUrl with
  | some url => { stored with catalogUrl := some url }
  | none => stored

def start (asked : Option String) (around : DataRoot.Surroundings) (catalogUrl : Option String) :
    ExceptT Trouble (StateM FileTree) Session := do
  let root ← attempt (fun e => .failure (.ofDataRoot e)) (DataRoot.resolve asked around)
  -- the settings say where records are, and are themselves in the database
  attempt ofUnusable (Storage.setUp root.database)
  let storage : Storage := ⟨root.database, root.ledger, .sqlite⟩
  let stored ← attempt (fun e => .failure (.ofLedger e)) storage.loadSettings
  let settings := inForce stored catalogUrl
  match settings.validate with
  | .error e => throw (.failure (.ofSettings e))
  | .ok () => return ⟨root, { storage with backend := settings.effectiveBackend }, settings⟩

def published {m : Type → Type} [Monad m] (w : Fetch.World (StateT FileTree m))
    (a : Fetch.Access) : Catalogs (StateT Catalog.Client m) := fun given forced t client => do
  let ((result, client), t) ← (client.catalog w a given forced).run t
  return ((result, t), client)

end Session

end PluginResolution.Command
