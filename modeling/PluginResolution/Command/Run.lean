import PluginResolution.Command.Invocation
import PluginResolution.Command.Listing
import PluginResolution.Command.Session

namespace PluginResolution.Command

structure Outcome where
  text : String := ""
  failure : Option Failure := none
  deriving DecidableEq, Repr

variable {m : Type → Type} [Monad m]

abbrev Work (m : Type → Type) (α : Type) := ExceptT Failure (StateT FileTree m) α

namespace Session

def onFiles {α : Type} (act : StateM FileTree α) : StateT FileTree m α :=
  fun t => return act t

def keep {α : Type} (act : Storage.Action α) : StateT FileTree m (Except Ledger.Error α) :=
  onFiles act.run

def ask {α : Type} (act : Storage.Action α) : Work m α := do
  match ← (keep act : StateT FileTree m _) with
  | .ok a => return a
  | .error e => throw (.ofLedger e)

def sources (s : Session) (catalogs : Catalogs m) : Resolution.Sources (StateT FileTree m) where
  records := keep s.storage.records
  catalog := catalogs
  artifactId key := return Naming.artifactId key

/-! ## Resolving -/

def hostVersion (s : Session) (o : ResolveOptions) : Except Failure String :=
  match o.hostVersion.or s.settings.defaultHostVersion with
  | some host => .ok host
  | none =>
    .error (.arguments ("no host version given; pass --host-version or run " ++
      "\x60kpm config set --default-host-version <V>\x60"))

def request (hostVersion : String) (o : ResolveOptions) : Resolution.Request :=
  { Resolution.Request.trimmed hostVersion o.key with
    artifactId := o.artifactId
    version := o.version
    forced := o.forced }

/-- Records a coordinate under a key; the other fields of the record stay. -/
def record (s : Session) (key : String) (c : Coordinate) : Work m Unit := do
  -- only a missing record may be replaced by an empty one
  let old ← match ← (keep (s.storage.get key) : StateT FileTree m _) with
    | .ok r => pure r
    | .error (.notFound _) => pure { key }
    | .error e => throw (.ofLedger e)
  ask (s.storage.upsert { old with artifactId := c.artifactId, version := c.version })

def resolve (s : Session) (catalogs : Catalogs m) (o : ResolveOptions) :
    Work m Resolution.Report := do
  match s.hostVersion o with
  | .error e => throw e
  | .ok host =>
    match ← (Resolution.resolve (s.sources catalogs) (request host o) :
        StateT FileTree m _) with
    | .error e => throw (.ofResolution e)
    | .ok report =>
      match report.coordinate with
      | some c => if o.save then s.record o.key c
      | none => pure ()
      return report

def resolved (o : ResolveOptions) (r : Resolution.Report) : Outcome where
  text := if o.asJson then r.toJson.pretty ++ "\n" else r.listing o.key
  failure := if r.isResolved then none else some (.unresolved o.key)

/-! ## The other tasks -/

def add (s : Session) (r : Ledger.Record) : Work m Unit :=
  if Text.isBlankText r.key then throw (.arguments "plugin key cannot be empty")
  else ask (s.storage.upsert r)

def changeSettings (s : Session) (u : Settings.Update) : Work m Settings := do
  let settings := (← ask s.storage.loadSettings).merge u
  match settings.validate with
  | .error e => throw (.ofSettings e)
  | .ok () =>
    ask (s.storage.saveSettings settings)
    return settings

def showSettings (s : Session) (stored : Settings) : String :=
  settingsListing stored ++
    (if s.settings.catalogUrl = stored.catalogUrl then ""
     else "  (catalog_url overridden for this run: " ++ s.settings.effectiveCatalogUrl ++ ")\n")

def printing (w : Work m String) : StateT FileTree m Outcome := do
  match ← w.run with
  | .ok text => return { text }
  | .error failure => return { failure := some failure }

def run (s : Session) (catalogs : Catalogs m) : Task → StateT FileTree m Outcome
  | .resolve o => do
    match ← (s.resolve catalogs o).run with
    | .ok report => return resolved o report
    | .error failure => return { failure := some failure }
  | .listRecords => printing do return recordTable (← ask s.storage.records)
  | .showRecord key => printing do return (← ask (s.storage.get key)).listing
  | .addRecord r => printing do
    s.add r
    return "✓ Recorded identifier for '" ++ r.key ++ "'\n"
  | .removeRecord key => printing do
    ask (s.storage.remove key)
    return "✓ Removed identifier for '" ++ key ++ "'\n"
  | .catalog hostVersion forced plugin => do
    match ← catalogs hostVersion forced with
    | .ok c => return { text := catalogTable c hostVersion plugin }
    | .error e => return { failure := some (.ofCatalog e) }
  | .showSettings => printing do return s.showSettings (← ask s.storage.loadSettings)
  | .changeSettings u =>
    if u.isEmpty then
      return { text := "No settings provided. Use --help to see available options.\n" }
    else printing do
      return "✓ Settings updated successfully:\n" ++ settingsListing (← s.changeSettings u)
  | .resetSettings => printing do
    ask (s.storage.saveSettings Settings.defaults)
    return "✓ Settings reset to defaults\n"
  | .paths => printing do
    match ← (onFiles (DataRoot.below s.root.root).run : StateT FileTree m _) with
    | .ok d => return d.listing ++ "\n"
    | .error e => throw (.ofDataRoot e)

end Session

end PluginResolution.Command
