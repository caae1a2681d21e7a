import PluginResolution.Yaml.Node

namespace PluginResolution.Yaml

inductive Tree where
  | scalar (tag : Option String) (plain : Bool) (text : String)
  | sequence (tag : Option String) (items : List Tree)
  | mapping (tag : Option String) (entries : List (Tree × Tree))

/-- A tag of the document's own, as opposed to one of a known kind of value. -/
def isLocal (tag : Option String) : Bool :=
  tag.any fun t => t.toList.head? = some '!'

namespace Node

mutual

def anchored : Node → List (Nat × Node)
  | .alias _ => []
  | .scalar p plain text => named p (.scalar p plain text)
  | .sequence p items => named p (.sequence p items) ++ anchoredItems items
  | .mapping p entries => named p (.mapping p entries) ++ anchoredEntries entries

def anchoredItems : List Node → List (Nat × Node)
  | [] => []
  | n :: r => anchored n ++ anchoredItems r

def anchoredEntries : List (Node × Node) → List (Nat × Node)
  | [] => []
  | (k, v) :: r => anchored k ++ anchored v ++ anchoredEntries r

def named (p : Properties) (n : Node) : List (Nat × Node) :=
  match p.anchor with
  | some id => [(id, n)]
  | none => []

end

mutual

/-- How many marks the node is written with, where a collection counts twice. -/
def size : Node → Nat
  | .alias _ => 1
  | .scalar .. => 1
  | .sequence _ items => 2 + sizeItems items
  | .mapping _ entries => 2 + sizeEntries entries

def sizeItems : List Node → Nat
  | [] => 0
  | n :: r => size n + sizeItems r

def sizeEntries : List (Node × Node) → Nat
  | [] => 0
  | (k, v) :: r => size k + size v + sizeEntries r

end

/-- A reader that may follow a limited number of aliases. -/
abbrev Expansion (α : Type) := StateT Nat Option α

def follow (anchors : List (Nat × Node)) : Node → Expansion (Node × Bool)
  | .alias id => do
    let left ← get
    -- an alias in an alias doubles the work: so many are followed and no more
    if left = 0 then failure
    set (left - 1)
    match anchors.lookup id with
    | some n => return (n, true)
    | none => failure
  | n => return (n, false)

/-- Replaces the aliases in a node with at most `depth` collections in each other. The keys of a
mapping with a local tag have no tag of their own. -/
def expand (anchors : List (Nat × Node)) : (depth : Nat) → (untagged : Bool) → Node → Expansion Tree
  | 0, untagged, n => do
    let (n, aliased) ← follow anchors n
    match n with
    | .scalar p plain text =>
      return .scalar (if untagged && !aliased then none else p.tag) plain text
    | _ => failure
  | depth + 1, untagged, n => do
    let (n, aliased) ← follow anchors n
    let untagged := untagged && !aliased
    match n with
    | .alias _ => failure
    | .scalar p plain text => return .scalar (if untagged then none else p.tag) plain text
    | .sequence p items =>
      return .sequence (if untagged then none else p.tag)
        (← items.mapM (expand anchors depth false))
    | .mapping p entries =>
      let inner := untagged || isLocal p.tag
      return .mapping (if untagged then none else p.tag)
        (← entries.mapM fun (k, v) => do
          return (← expand anchors depth inner k, ← expand anchors depth false v))

def maxDepth : Nat := 128

/-- The tree that a node stands for. Of several nodes with one anchor the last one counts. -/
def tree? (n : Node) : Option Tree := do
  return (← (expand n.anchored.reverse maxDepth false n).run (100 * n.size)).1

end Node

end PluginResolution.Yaml
