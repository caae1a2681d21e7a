import PluginResolution.Database
import PluginResolution.FileTree.Path

/-!
File trees: directories and files without links, by absolute path. Operations fail as those of a
file system do; one that fails changes nothing, except that creating a chain of directories keeps
those already made.
-/
namespace PluginResolution

namespace FileTree

inductive Content where
  | text (s : String)
  | bytes (b : List UInt8)
  | database (d : Database)
  deriving DecidableEq, Repr

inductive Node where
  | directory
  | file (content : Content)
  deriving DecidableEq, Repr

inductive Fault where
  | missing
  | present
  | notDirectory
  | isDirectory
  | nameTooLong
  /-- The path ends in a dot, which names no entry of a directory. -/
  | busy
  | nulByte
  | notText
  deriving DecidableEq, Repr

def Fault.message : Fault → String
  | .missing => "No such file or directory (os error 2)"
  | .present => "File exists (os error 17)"
  | .notDirectory => "Not a directory (os error 20)"
  | .isDirectory => "Is a directory (os error 21)"
  | .nameTooLong => "File name too long (os error 36)"
  | .busy => "Device or resource busy (os error 16)"
  | .nulByte => "file name contained an unexpected NUL byte"
  | .notText => "stream did not contain valid UTF-8"

structure Place where
  parts : List String
  /-- The path is written so that only a directory can be there. -/
  asDirectory : Bool
  deriving DecidableEq, Repr

end FileTree

structure FileTree where
  nodes : List (List String × FileTree.Node)
  current : List String
  deriving DecidableEq, Repr

namespace FileTree

abbrev Action (α : Type) := ExceptT Fault (StateM FileTree) α

def node? (t : FileTree) (parts : List String) : Option Node :=
  if parts.isEmpty then some .directory else t.nodes.lookup parts

def put (t : FileTree) (parts : List String) (n : Node) : FileTree :=
  { t with nodes := (parts, n) :: t.nodes.filter (·.1 ≠ parts) }

def erase (t : FileTree) (parts : List String) : FileTree :=
  { t with nodes := t.nodes.filter (·.1 ≠ parts) }

/-- Follows the parts of a path from a directory; the last one need not exist. -/
def walk (t : FileTree) (dir : List String) : List String → Except Fault Place
  | [] => .ok ⟨dir, true⟩
  | name :: rest =>
    if name = "." then walk t dir rest
    else if name = ".." then walk t dir.dropLast rest
    else if 255 < name.utf8ByteSize then .error .nameTooLong
    else if rest.isEmpty then .ok ⟨dir ++ [name], false⟩
    else match t.node? (dir ++ [name]) with
      | none => .error .missing
      | some (.file _) => .error .notDirectory
      | some .directory => walk t (dir ++ [name]) rest

def locate (t : FileTree) (path : String) : Except Fault Place :=
  if path.toList.contains '\x00' then .error .nulByte
  else if path.isEmpty then .error .missing
  else if 4096 ≤ path.utf8ByteSize then .error .nameTooLong
  else do
    let start := if Path.isAbsolute path then [] else t.current
    let place ← t.walk start ((Path.segments path).filter (· ≠ ""))
    return { place with asDirectory := place.asDirectory || path.toList.getLast? = some '/' }

def stat (t : FileTree) (path : String) : Except Fault Node := do
  let place ← t.locate path
  match t.node? place.parts with
  | none => throw .missing
  | some .directory => return .directory
  | some (.file c) => if place.asDirectory then throw .notDirectory else return .file c

def isDirectory (t : FileTree) (path : String) : Bool :=
  match t.stat path with
  | .ok .directory => true
  | _ => false

def exists? (t : FileTree) (path : String) : Bool :=
  match t.stat path with
  | .ok _ => true
  | .error _ => false

def read (t : FileTree) (path : String) : Except Fault Content := do
  match ← t.stat path with
  | .directory => throw .isDirectory
  | .file c => return c

def readText (t : FileTree) (path : String) : Except Fault String := do
  match ← t.read path with
  | .text s => return s
  | _ => throw .notText

def write (t : FileTree) (path : String) (content : Content) : Except Fault FileTree := do
  let place ← t.locate path
  if place.asDirectory then throw .isDirectory
  match t.node? place.parts with
  | some .directory => throw .isDirectory
  | _ => return t.put place.parts (.file content)

def rename (t : FileTree) (source target : String) : Except Fault FileTree := do
  let a ← t.locate source
  let b ← t.locate target
  if [source, target].any Path.endsInDots then throw .busy
  match t.node? a.parts with
  | none => throw .missing
  | some n =>
    if b.asDirectory then throw .notDirectory
    match t.node? b.parts with
    | some .directory => throw .isDirectory
    | _ => return (t.erase a.parts).put b.parts n

def makeDir (t : FileTree) (path : String) : Except Fault FileTree := do
  let place ← t.locate path
  match t.node? place.parts with
  | some _ => throw .present
  | none => return t.put place.parts .directory

def change (f : FileTree → Except Fault FileTree) : Action Unit := fun t =>
  match f t with
  | .ok t' => (.ok (), t')
  | .error e => (.error e, t)

def ensureDir (path : String) : Action Unit := do
  let t ← get
  match t.makeDir path with
  | .ok t' => set t'
  | .error e => if t.isDirectory path then return () else throw e

/-- Creates a directory after those above it. The first argument bounds their number. -/
def makeDirsWithin : Nat → String → Action Unit
  | 0, _ => throw .missing
  | depth + 1, path => do
    if path.isEmpty then return ()
    let t ← get
    match t.makeDir path with
    | .ok t' => set t'
    -- the directory around it is missing
    | .error .missing =>
      makeDirsWithin depth ((Path.parent? path).getD "")
      ensureDir path
    | .error e => if t.isDirectory path then return () else throw e

def makeDirs (path : String) : Action Unit :=
  makeDirsWithin (path.length + 1) path

end FileTree

end PluginResolution
