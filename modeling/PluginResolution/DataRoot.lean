import PluginResolution.FileTree.Basic
import PluginResolution.Text.Blank

namespace PluginResolution

structure DataRoot where
  root : String
  database : String
  ledger : String
  deriving DecidableEq, Repr

namespace DataRoot

inductive Error where
  | noDataDirectory
  | notADirectory (path : String)
  | notCreated (path reason : String)
  | emptyPath
  deriving DecidableEq, Repr

def Error.message : Error → String
  | .noDataDirectory => "Cannot determine system data directory"
  | .notADirectory path => path ++ " exists but is not a directory"
  | .notCreated path reason => "Failed to create directory " ++ path ++ ": " ++ reason
  | .emptyPath => "Path cannot be empty"

structure Surroundings where
  dataRoot : Option String := none
  home : Option String := none
  userData : Option String := none
  deriving DecidableEq, Repr

/-- The directory for the data of the user's programs: the one named for it, if it is absolute,
else the usual one below the home directory. -/
def Surroundings.systemDirectory? (s : Surroundings) : Option String :=
  match s.userData.filter Path.isAbsolute with
  | some dir => some dir
  | none => (s.home.filter (!·.isEmpty)).map (Path.join · ".local/share")

/-- Chooses the data root: the path that was asked for, else the environment's unless it is blank,
else a directory of its own in the system's place. -/
def choose (asked : Option String) (s : Surroundings) : Except Error String :=
  match asked with
  | some path => if path.isEmpty then .error .emptyPath else .ok path
  | none => match s.dataRoot.filter (!Text.isBlankText ·) with
    | some path => .ok path
    | none => match s.systemDirectory? with
      | some dir => .ok (Path.join dir "kpm")
      | none => .error .noDataDirectory

abbrev Action (α : Type) := ExceptT Error (StateM FileTree) α

def ensure (path : String) : Action Unit := fun t =>
  if t.exists? path then
    (if t.isDirectory path then .ok () else .error (.notADirectory path), t)
  else match FileTree.makeDirs path t with
    | (.ok (), t') => (.ok (), t')
    | (.error e, t') => (.error (.notCreated path e.message), t')

def ofRoot (root : String) : DataRoot where
  root
  database := Path.join (Path.join root "data") "kpm.db"
  ledger := Path.join (Path.join root "plugins") "plugin_identifiers.json"

def below (root : String) : Action DataRoot := do
  ensure root
  ensure (Path.join root "data")
  ensure (Path.join root "plugins")
  return ofRoot root

def resolve (asked : Option String) (s : Surroundings) : Action DataRoot :=
  match choose asked s with
  | .error e => throw e
  | .ok root => below root

def listing (d : DataRoot) : String :=
  "data_root = " ++ d.root ++ "\ndatabase_path = " ++ d.database ++
    "\nidentifiers_file = " ++ d.ledger

end DataRoot

end PluginResolution
