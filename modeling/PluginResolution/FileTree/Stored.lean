import PluginResolution.Database.Written
import PluginResolution.FileTree.Basic
import PluginResolution.Text.Utf8

namespace PluginResolution.FileTree

def Content.stored : Content → List UInt8
  | .text s => Text.utf8 s.toList
  | .bytes b => b
  | .database d => Text.utf8 d.text.toList

def Content.ofStored (b : List UInt8) : Content :=
  match Text.ofUtf8? b with
  | none => .bytes b
  | some s => match Database.ofText? s with
    | some d => .database d
    | none => .text s

def partsOf (t : FileTree) (path : String) : List String :=
  (Path.segments path).foldl
    (fun parts s =>
      if s = "" || s = "." then parts
      else if s = ".." then parts.dropLast
      else parts ++ [s])
    (if Path.isAbsolute path then [] else t.current)

def newSince (t old : FileTree) : List (List String × Node) :=
  (t.nodes.filter fun (parts, n) => old.node? parts ≠ some n).reverse

def goneSince (t old : FileTree) : List (List String) :=
  (old.nodes.map (·.1)).filter fun parts => (t.node? parts).isNone

end PluginResolution.FileTree
