import PluginResolution.HostVersion
import PluginResolution.PluginDirectory.Error
import PluginResolution.Yaml.Value.Basic

/-!
Published directories: a mapping from plugin keys to what is published of each plugin. Scalars are
taken as they are written, so that a version `0.20` is not the number 0.2, and one colon in front of
a scalar, which marks a symbol, is dropped.
-/
namespace PluginResolution

structure PluginDirectory.Plugin where
  key : String
  groupId : Option String := none
  artifactId : Option String := none
  /-- Version lines with the version published for each, in the order of the document. -/
  versions : List (String × String) := []
  deriving DecidableEq, Repr

abbrev PluginDirectory := List PluginDirectory.Plugin

namespace PluginDirectory

open Yaml (Tree)

def stripColon (s : String) : String :=
  match s.toList with
  | ':' :: r => String.ofList r
  | _ => s

def scalarText? : Tree → Option String
  | .scalar _ _ text => some text
  | _ => none

/-- Nothing is written, or a plain word for nothing. With a tag only a word for nothing counts, and
only under the tag for it. -/
def isNull : Tree → Bool
  | .scalar none true text => text = "" || Yaml.Scalar.isNullWord text
  | .scalar (some tag) true text =>
    tag = Yaml.Scalar.coreTag ++ "null" && Yaml.Scalar.isNullWord text
  | _ => false

/-- A scalar that may be left out: `none` where something else is written. -/
def optionalText? (t : Tree) : Option (Option String) :=
  if isNull t then some none else (scalarText? t).map some

def entries? : Tree → Option (List (Tree × Tree))
  | .mapping _ entries => some entries
  | .scalar _ true "" => some []
  | _ => none

/-- The value of the field, whose name may have a colon in front; it may be missing but not occur
twice. -/
def field? (name : String) (fields : List (String × Tree)) : Option (Option Tree) :=
  match fields.filter fun f => f.1 = name || f.1 = ":" ++ name with
  | [] => some none
  | [(_, t)] => some (some t)
  | _ => none

def textField? (name : String) (fields : List (String × Tree)) : Option (Option String) := do
  match ← field? name fields with
  | none => return none
  | some t => optionalText? t

def textEntries? (t : Tree) : Option (List (String × Tree)) := do
  (← entries? t).mapM fun (k, v) => do return (← scalarText? k, v)

/-- The versions of a plugin; a line without a version is passed over. -/
def versions? (t : Tree) : Option (List (String × String)) := do
  let entries ← (← textEntries? t).mapM fun (line, v) => do return (line, ← optionalText? v)
  return entries.filterMap fun (line, version) =>
    version.map fun v => (stripColon line, stripColon v)

def plugin? (key : String) (t : Tree) : Option Plugin :=
  if isNull t then some { key := stripColon key }
  else do
    let fields ← textEntries? t
    let groupId ← textField? "group_id" fields
    let artifactId ← textField? "artifact_id" fields
    let versions ← match ← field? "versions" fields with
      | none => pure []
      | some v => versions? v
    return {
      key := stripColon key
      groupId := groupId.map stripColon
      artifactId := artifactId.map stripColon
      versions }

def ofTree? (t : Tree) : Option PluginDirectory := do
  (← textEntries? t).mapM fun (key, v) => plugin? key v

def isMapping : Tree → Bool
  | .mapping .. => true
  | _ => false

def ofTree (t : Tree) : Except Error PluginDirectory :=
  if !isMapping t then .error (.invalidDocument "top level is not a mapping")
  else match ofTree? t with
    | some d => .ok d
    | none => .error (.invalidDocument "the mapping is no directory")

def parse (text : String) : Except Error PluginDirectory :=
  match Yaml.read? text with
  | none => .error .malformed
  | some t => ofTree t

def Plugin.version? (p : Plugin) (line : String) : Option String :=
  p.versions.lookup line

def catalogFor (d : PluginDirectory) (h : HostVersion) : Catalog where
  line := h.line
  entries := d.map fun p => ⟨p.key, p.groupId, ⟨p.artifactId, p.version? h.line⟩⟩

end PluginDirectory

end PluginResolution
