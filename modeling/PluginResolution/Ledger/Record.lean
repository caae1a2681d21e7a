import PluginResolution.Coordinate
import PluginResolution.Text.Column

namespace PluginResolution.Ledger

structure Record where
  key : String
  pluginName : Option String := none
  groupId : Option String := none
  artifactId : Option String := none
  packaging : Option String := none
  classifier : Option String := none
  version : Option String := none
  language : Option String := none
  deriving DecidableEq, Repr

inductive Error where
  | notFound (what : String)
  | storage (detail : String)
  | serialization (detail : String)
  | constraint (detail : String)
  deriving DecidableEq, Repr

def Error.message : Error → String
  | .notFound what => "Not found: " ++ what
  | .storage detail => "Storage error: " ++ detail
  | .serialization detail => "Serialization error: " ++ detail
  | .constraint detail => "Constraint violation: " ++ detail

def Error.missing (key : String) : Error :=
  .notFound ("plugin '" ++ key ++ "'")

def Error.blankKey : Error :=
  .constraint "plugin key must not be empty"

namespace Record

def ofCoordinate (key : String) (c : Coordinate) : Record :=
  { key, artifactId := c.artifactId, version := c.version }

def coordinate (r : Record) : Coordinate :=
  ⟨r.artifactId, r.version⟩

def hasIdentifier (r : Record) : Bool :=
  !r.coordinate.isEmpty

def fields (r : Record) : List (String × Option String) :=
  [("plugin_name", r.pluginName), ("group_id", r.groupId), ("artifact_id", r.artifactId),
    ("packaging", r.packaging), ("classifier", r.classifier), ("version", r.version),
    ("language", r.language)]

def toJson (r : Record) : Json :=
  .object (r.fields.flatMap fun (name, value) => Json.textField name value)

def ofJson? (key : String) (j : Json.Syntax) : Option Record := do
  let names := ["plugin_name", "group_id", "artifact_id", "packaging", "classifier", "version",
    "language"]
  match ← (← j.record? names false).mapM Json.Syntax.text? with
  | [pluginName, groupId, artifactId, packaging, classifier, version, language] =>
    return { key, pluginName, groupId, artifactId, packaging, classifier, version, language }
  | _ => none

def listing (r : Record) : String :=
  r.fields.foldl (fun out (name, value) => match value with
    | none => out
    | some v => out ++ "  " ++ Text.padRight 12 name ++ " " ++ v ++ "\n") (r.key ++ "\n")

end Record

end PluginResolution.Ledger
