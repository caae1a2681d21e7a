import PluginResolution.Ledger.File

namespace PluginResolution

structure Storage where
  database : String
  ledger : String
  backend : Backend
  deriving DecidableEq, Repr

namespace Storage

abbrev Action (α : Type) := ExceptT Ledger.Error (StateM FileTree) α

inductive Unusable where
  | directory (e : FileTree.Fault)
  /-- Something else is in its place. -/
  | cannotOpen
  | notADatabase
  deriving DecidableEq, Repr

namespace Unusable

def report (code : Nat) (detail : String) : String :=
  "(code: " ++ toString code ++ ") " ++ detail

def messages : Unusable → String × Option String
  | directory e => (e.message, none)
  | cannotOpen =>
    (Ledger.databaseFailure 14 "unable to open database file",
      some (report 14 "unable to open database file"))
  | notADatabase =>
    (Ledger.databaseFailure 26 "file is not a database", some (report 26 "file is not a database"))

end Unusable

/-- The database that a file holds. An empty file is an empty database. -/
def databaseOf : FileTree.Content → Option Database
  | .database d => some d
  | .text "" => some {}
  | _ => none

/-- The database at a path; an empty one if there is no file. -/
def openAt (t : FileTree) (path : String) : Except Unusable Database :=
  match t.read path with
  | .ok c => match databaseOf c with
    | some d => .ok d
    | none => .error .notADatabase
  | .error .missing => .ok {}
  | .error _ => .error .cannotOpen

def setUp (path : String) : ExceptT Unusable (StateM FileTree) Unit := fun t =>
  let (made, t) := match Path.parent? path with
    | some dir => FileTree.makeDirs dir t
    | none => (.ok (), t)
  match made with
  | .error e => (.error (.directory e), t)
  -- tables that are there keep what they hold
  | .ok () => match openAt t path with
    | .error e => (.error e, t)
    | .ok d => match t.write path (.database d.withTables) with
      | .ok t' => (.ok (), t')
      | .error _ => (.error .cannotOpen, t)

def current (s : Storage) : Action Database := fun t =>
  match t.read s.database with
  | .ok c => match databaseOf c with
    | some d => (.ok d, t)
    | none => (.error (.storage (Ledger.databaseFailure 26 "file is not a database")), t)
  | .error _ =>
    (.error (.storage (Ledger.databaseFailure 14 "unable to open database file")), t)

def query {α : Type} (s : Storage) (ask : Database → Except Ledger.Error α) : Action α := do
  let d ← s.current
  fun t => (ask d, t)

/-- Changes the database; a change that fails changes nothing. -/
def change (s : Storage) (step : Database → Except Ledger.Error Database) : Action Unit := do
  let d ← s.current
  fun t => match step d with
    | .error e => (.error e, t)
    | .ok d' => match t.write s.database (.database d') with
      | .ok t' => (.ok (), t')
      | .error _ =>
        (.error (.storage (Ledger.databaseFailure 14 "unable to open database file")), t)

def records (s : Storage) : Action (List Ledger.Record) :=
  match s.backend with
  | .sqlite => s.query Database.records
  | .json => fun t => (Ledger.File.records t s.ledger, t)

def get (s : Storage) (key : String) : Action Ledger.Record :=
  match s.backend with
  | .sqlite => s.query (·.get key)
  | .json => fun t => (Ledger.File.get t s.ledger key, t)

/-- Replaces or adds the record under its key, which may not be blank. -/
def upsert (s : Storage) (r : Ledger.Record) : Action Unit :=
  if Text.isBlankText r.key then throw .blankKey
  else match s.backend with
    | .sqlite => s.change (·.upsert r)
    | .json => Ledger.File.upsert s.ledger r

def remove (s : Storage) (key : String) : Action Unit :=
  match s.backend with
  | .sqlite => s.change (·.remove key)
  | .json => Ledger.File.remove s.ledger key

def loadSettings (s : Storage) : Action Settings :=
  s.query Database.loadSettings

def saveSettings (s : Storage) (settings : Settings) : Action Unit :=
  s.change (·.saveSettings settings)

end Storage

end PluginResolution
