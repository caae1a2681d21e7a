import PluginResolution.Json.Basic

namespace PluginResolution.Json.Syntax

/-- The value of the only field of that name: `none` when it occurs twice, `some none` when it is
missing. -/
def field? (fields : List (Option String × Syntax)) (name : String) : Option (Option Syntax) :=
  match fields.filter (·.1 == some name) with
  | [] => some none
  | [(_, v)] => some (some v)
  | _ => none

/-- The fields of a record in the order of their names. An array may leave out trailing fields
unless `complete`. -/
def record? (names : List String) (complete : Bool) : Syntax → Option (List (Option Syntax))
  | .object fields =>
    if fields.any (·.1.isNone) then none else names.mapM (field? fields)
  | .array items =>
    if items.length > names.length || (complete && items.length < names.length) then none
    else some (items.map some ++ List.replicate (names.length - items.length) none)
  | _ => none

def text? : Option Syntax → Option (Option String)
  | none => some none
  | some .null => some none
  | some (.text s) => some (some s)
  | some _ => none

def requiredText? : Option Syntax → Option String
  | some (.text s) => some s
  | _ => none

def natural? (bound : Nat) : Option Syntax → Option (Option Nat)
  | none => some none
  | some .null => some none
  | some (.natural n) => if n < bound then some (some n) else none
  | some _ => none

end PluginResolution.Json.Syntax
