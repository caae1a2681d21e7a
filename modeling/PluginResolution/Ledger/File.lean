import PluginResolution.FileTree.Basic
import PluginResolution.KeyMap

/-!
The ledger as a file: a JSON object that has a record under each key. A file that is missing or
blank holds no record. A change is written to a file beside it, which then takes its place, so that
the ledger's file is the old one or the new one at any time.
-/
namespace PluginResolution.Ledger

/-- A ledger as a map; the key of each record is its own. -/
abbrev Contents := KeyMap Record

namespace Contents

def toJson (m : Contents) : Json :=
  .object (m.entries.map fun (key, r) => (key, r.toJson))

def text (m : Contents) : String :=
  m.toJson.pretty

def recordOf? : Option String × Json.Syntax → Option (String × Record)
  | (some key, j) => (Record.ofJson? key j).map (key, ·)
  | (none, _) => none

/-- The last of several records under one key counts. -/
def ofJson? : Json.Syntax → Option Contents
  | .object fields => (fields.mapM recordOf?).map KeyMap.ofList
  | _ => none

def ofText? (s : String) : Option Contents :=
  if Text.isBlankText s then some .empty else (Json.read s).bind ofJson?

end Contents

namespace File

abbrev Action (α : Type) := ExceptT Error (StateM FileTree) α

def failure (path : String) (e : FileTree.Fault) : Error :=
  .storage (path ++ ": " ++ e.message)

def attempt (path : String) (act : FileTree.Action Unit) : Action Unit := fun t =>
  match act t with
  | (.ok (), t') => (.ok (), t')
  | (.error e, t') => (.error (failure path e), t')

def read (t : FileTree) (path : String) : Except Error Contents :=
  match t.readText path with
  | .error .missing => .ok .empty
  | .error e => .error (failure path e)
  | .ok text =>
    match Contents.ofText? text with
    | some m => .ok m
    | none => .error (.serialization (path ++ ": this is no ledger"))

def draft (path : String) : String :=
  Path.withEnding path "json.tmp"

def surround (path : String) : Action Unit :=
  match Path.parent? path with
  | some dir => attempt dir (FileTree.makeDirs dir)
  | none => pure ()

def replace (path : String) (m : Contents) : Action Unit := do
  attempt (draft path) (FileTree.change (·.write (draft path) (.text m.text)))
  -- until the draft is renamed, the ledger's file is the old one
  attempt path (FileTree.change (·.rename (draft path) path))

def write (path : String) (m : Contents) : Action Unit := do
  surround path
  replace path m

def records (t : FileTree) (path : String) : Except Error (List Record) := do
  return (← read t path).values

def get (t : FileTree) (path key : String) : Except Error Record := do
  match (← read t path).find? key with
  | some r => return r
  | none => throw (.missing key)

def current (path : String) : Action Contents := fun t =>
  (read t path, t)

def upsert (path : String) (r : Record) : Action Unit := do
  if Text.isBlankText r.key then throw .blankKey
  let m ← current path
  write path (m.insert r.key r)

def remove (path key : String) : Action Unit := do
  let m ← current path
  match m.find? key with
  | none => throw (.missing key)
  | some _ => write path (m.erase key)

end File

end PluginResolution.Ledger
