import PluginResolution.Catalog
import PluginResolution.Ledger.Record
import PluginResolution.Settings

namespace PluginResolution.Command

def tableLine (key artifact version group : String) : String :=
  Text.padRight 24 key ++ " " ++ Text.padRight 36 artifact ++ " " ++ Text.padRight 12 version ++
    " " ++ group ++ "\n"

def tableRow (key : String) (artifact version group : Option String) : String :=
  tableLine (Text.truncate key 23) (Text.truncate (Text.orDefault "--" artifact) 35)
    (Text.truncate (Text.orDefault "--" version) 11) (Text.orDefault "--" group)

def tableHead : String :=
  tableLine "Plugin" "Artifact" "Version" "Group" ++
    String.ofList (List.replicate 100 '-') ++ "\n"

def recordTable (records : List Ledger.Record) : String :=
  if records.isEmpty then
    "No identifiers recorded.\n" ++
      "Use 'kpm resolve <plugin-key> --save' or 'kpm identifiers add' to record one.\n"
  else
    "Found " ++ toString records.length ++ " identifier(s):\n\n" ++ tableHead ++
      String.join (records.map fun r => tableRow r.key r.artifactId r.version r.groupId)

def catalogTable (c : Catalog) (hostVersion : String) (plugin : Option String) : String :=
  let entries := match plugin with
    | some key => (c.find? key).toList
    | none => c.entries
  let place := hostVersion ++ " (line " ++ c.line ++ ")"
  if entries.isEmpty then
    match plugin with
    | some key => "Plugin '" ++ key ++ "' is not in the catalog for " ++ place ++ ".\n"
    | none => "No plugins in the catalog for " ++ place ++ ".\n"
  else
    toString entries.length ++ " plugin(s) for " ++ place ++ ":\n\n" ++ tableHead ++
      String.join (entries.map fun e =>
        tableRow e.key e.coordinate.artifactId e.coordinate.version e.groupId)

def settingsListing (s : Settings) : String :=
  "Current settings:\n" ++
    "  catalog_url:            " ++ s.effectiveCatalogUrl ++ "\n" ++
    "  catalog_cache_ttl_secs: " ++ toString s.effectiveCacheTtl.toNat ++ "\n" ++
    "  request_timeout_secs:   " ++ toString s.effectiveRequestTimeout.toNat ++ "\n" ++
    "  max_retries:            " ++ toString s.effectiveMaxRetries.toNat ++ "\n" ++
    "  identifier_backend:     " ++ s.effectiveBackend.name ++ "\n" ++
    "  default_host_version:   " ++ s.defaultHostVersion.getD "(none)" ++ "\n"

end PluginResolution.Command
