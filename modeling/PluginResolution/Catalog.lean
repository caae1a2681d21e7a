import PluginResolution.Coordinate

namespace PluginResolution

structure Catalog.Entry where
  key : String
  groupId : Option String := none
  coordinate : Coordinate
  deriving DecidableEq, Repr

structure Catalog where
  line : String
  entries : List Catalog.Entry
  deriving DecidableEq, Repr

inductive CatalogError where
  | invalidHostVersion (given : String)
  | unavailable (detail : String)
  | malformed (detail : String)
  | configuration (detail : String)
  deriving DecidableEq, Repr

def CatalogError.message : CatalogError → String
  | .invalidHostVersion given => "Invalid host version: " ++ given
  | .unavailable detail => "Catalog unavailable: " ++ detail
  | .malformed detail => "Malformed catalog: " ++ detail
  | .configuration detail => "Catalog configuration error: " ++ detail

namespace Catalog

def find? (c : Catalog) (key : String) : Option Entry :=
  c.entries.find? (·.key = key)

def Entry.toJson (e : Entry) : Json :=
  .object (("plugin_key", .text e.key) :: (Json.textField "group_id" e.groupId ++
    [("coordinate", e.coordinate.toJson)]))

def Entry.ofJson? (j : Json.Syntax) : Option Entry := do
  match ← j.record? ["plugin_key", "group_id", "coordinate"] true with
  | [key, groupId, some coordinate] =>
    return ⟨← Json.Syntax.requiredText? key, ← Json.Syntax.text? groupId,
      ← Coordinate.ofJson? coordinate⟩
  | _ => none

def toJson (c : Catalog) : Json :=
  .object [("version_line", .text c.line), ("entries", .array (c.entries.map Entry.toJson))]

def ofJson? (j : Json.Syntax) : Option Catalog := do
  match ← j.record? ["version_line", "entries"] true with
  | [line, some (.array entries)] =>
    return ⟨← Json.Syntax.requiredText? line, ← entries.mapM Entry.ofJson?⟩
  | _ => none

end Catalog

end PluginResolution
