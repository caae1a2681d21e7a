import PluginResolution.Command.Help
import PluginResolution.FileTree.Stored

/-!
The command line. The files that a run may need are loaded into a file tree, the run goes through
it, and what has changed is stored. No host is asked: a catalog comes from a file.
-/
namespace PluginResolution.Command

def nodeAt (path : String) : IO (Option FileTree.Node) := do
  let place := (← IO.currentDir) / path
  if ← place.isDir then return some .directory
  else if ← place.pathExists then
    return some (.file (.ofStored (← IO.FS.readBinFile place).toList))
  else return none

def load (t : FileTree) (path : String) : IO FileTree :=
  (Path.upwards (t.partsOf path)).foldrM (fun parts t => do
    match ← nodeAt (Path.ofParts parts) with
    | some n => return t.put parts n
    | none => return t) t

def store (old t : FileTree) : IO Unit := do
  for (parts, n) in t.newSince old do
    match n with
    | .directory => IO.FS.createDirAll (Path.ofParts parts)
    | .file c => IO.FS.writeBinFile (Path.ofParts parts) (ByteArray.mk c.stored.toArray)
  for parts in t.goneSince old do
    IO.FS.removeFile (Path.ofParts parts)

def world : Fetch.World (StateT FileTree IO) where
  send _ := return .error "no host can be asked"
  wait ms := IO.sleep ms.toUInt32
  fileText path := do return (← load (← get) path).readText path

def bindingsOf (names : List String) : IO Variables :=
  names.filterMapM fun name => do return (← IO.getEnv name).map (name, ·)

def runHere (arguments : List String) : IO Ending := do
  let nowhere : FileTree := ⟨[], []⟩
  let here : FileTree := ⟨[], nowhere.partsOf (← IO.currentDir).toString⟩
  let t ← (Environment.variableFiles here).foldlM load here
  let mentioned := VariableFile.names (Environment.variableText t)
  let e : Environment := { bindings := ← bindingsOf (Environment.variableNames ++ mentioned) }
  let t ← (e.files t arguments).foldlM load t
  let (ending, after) ← (program world e arguments).run t
  store t after
  return ending

end PluginResolution.Command

def main (arguments : List String) : IO UInt32 := do
  let ending ← PluginResolution.Command.runHere arguments
  IO.print ending.text
  IO.eprint ending.remark
  return ending.exitCode.toUInt32
