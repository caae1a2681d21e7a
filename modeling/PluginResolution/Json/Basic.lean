/-!
JSON values. `Json` is what the library writes. `Json.Syntax` is what a text says before its types
are asked for: it keeps repeated keys, numbers that are not natural, and strings that are no text
because an escape names half of a surrogate pair.
-/
namespace PluginResolution

inductive Json where
  | null
  | natural (n : Nat)
  | text (s : String)
  | array (items : List Json)
  | object (fields : List (String × Json))

def Json.ofText? : Option String → Json
  | none => .null
  | some s => .text s

def Json.ofNatural? : Option Nat → Json
  | none => .null
  | some n => .natural n

def Json.textField (name : String) : Option String → List (String × Json)
  | none => []
  | some s => [(name, .text s)]

inductive Json.Syntax where
  | null
  | boolean
  | natural (n : Nat)
  | otherNumber
  | text (s : String)
  | brokenText
  | array (items : List Json.Syntax)
  | object (fields : List (Option String × Json.Syntax))

mutual

def Json.toSyntax : Json → Json.Syntax
  | .null => .null
  | .natural n => .natural n
  | .text s => .text s
  | .array items => .array (Json.toSyntaxItems items)
  | .object fields => .object (Json.toSyntaxFields fields)

def Json.toSyntaxItems : List Json → List Json.Syntax
  | [] => []
  | j :: js => j.toSyntax :: Json.toSyntaxItems js

def Json.toSyntaxFields : List (String × Json) → List (Option String × Json.Syntax)
  | [] => []
  | (k, j) :: r => (some k, j.toSyntax) :: Json.toSyntaxFields r

end

end PluginResolution
