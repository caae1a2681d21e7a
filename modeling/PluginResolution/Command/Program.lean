import PluginResolution.Command.Run
import PluginResolution.Command.VariableFile
import PluginResolution.Text.Utf8

namespace PluginResolution.Command

inductive Ending where
  | refused (r : Refusal)
  | help
  | ran (text : String) (trouble : Option Trouble)
  deriving DecidableEq, Repr

def versionText : String :=
  "kpm 0.3.0\n"

def Ending.exitCode : Ending → Nat
  | .refused r => r.exitCode
  | .help => 0
  | .ran _ none => 0
  | .ran _ (some t) => t.exitCode

def Ending.complaint? : Ending → Option String
  | .ran _ (some t) => some ("Error: " ++ t.message ++ "\n")
  | _ => none

structure Environment where
  bindings : Variables := []
  /-- The home directory of the user, where no variable names one. -/
  userHome : Option String := none
  deriving DecidableEq, Repr

namespace Environment

/-- Where a file of variables may be: in the current directory or above it, nearest first. -/
def variableFiles (t : FileTree) : List String :=
  (Path.upwards t.current).map fun dir => Path.ofParts (dir ++ [".env"])

/-- The text of the nearest file of variables, up to a line that is no text. -/
def variableText (t : FileTree) : String :=
  let content := (variableFiles t).findSome? fun path =>
    match t.stat path with
    | .ok (.file c) => some c
    | _ => none
  match content with
  | some (.text s) => s
  | some (.bytes b) => String.ofList (Text.linesOfUtf8 [] b)
  | _ => ""

def loaded (e : Environment) (t : FileTree) : Environment :=
  { e with bindings := VariableFile.load e.bindings (variableText t) }

def surroundings (e : Environment) : DataRoot.Surroundings where
  dataRoot := List.lookup "KPM_DATA_DIR" e.bindings
  home := match List.lookup "HOME" e.bindings with
    | some "" => e.userHome
    | some home => some home
    | none => e.userHome
  userData := List.lookup "XDG_DATA_HOME" e.bindings

def variableNames : List String :=
  ["HOME", "XDG_DATA_HOME"] ++ Verb.sharedForms.filterMap (·.standIn)

/-- The files that a run may read or change, those at URLs apart. -/
def files (e : Environment) (t : FileTree) (arguments : List String) : List String :=
  let e := e.loaded t
  match Invocation.read e.bindings arguments with
  | .error _ => []
  | .ok i => match DataRoot.choose i.dataRoot e.surroundings with
    | .error _ => []
    | .ok root =>
      let d := DataRoot.ofRoot root
      [d.database, d.ledger, Ledger.File.draft d.ledger]

end Environment

variable {m : Type → Type} [Monad m]

def showPaths (asked : Option String) (around : DataRoot.Surroundings) :
    StateT FileTree m Ending := do
  match ← (Session.onFiles (DataRoot.resolve asked around).run : StateT FileTree m _) with
  | .ok d => return .ran (d.listing ++ "\n") none
  | .error e => return .ran "" (some (.failure (.ofDataRoot e)))

def perform (w : Fetch.World (StateT FileTree m)) (i : Invocation)
    (around : DataRoot.Surroundings) (task : Task) : StateT FileTree m Ending := do
  let start := Session.start i.dataRoot around i.catalogUrl
  match ← (Session.onFiles start.run : StateT FileTree m _) with
  | .error trouble => return .ran "" (some trouble)
  | .ok s =>
    let access := Fetch.Access.ofSettings s.settings
    fun t => do
      let ((outcome, t), _) ←
        ((s.run (Session.published w access) task).run t).run (.ofAccess access)
      return (.ran outcome.text (outcome.failure.map .failure), t)

def program (w : Fetch.World (StateT FileTree m)) (e : Environment) (arguments : List String) :
    StateT FileTree m Ending := fun t =>
  let e := e.loaded t
  match Invocation.read e.bindings arguments with
  | .error r => return (.refused r, t)
  | .ok i =>
    match i.task with
    | none => return (.help, t)
    | some .paths => (showPaths i.dataRoot e.surroundings).run t
    | some task => (perform w i e.surroundings task).run t

end PluginResolution.Command
