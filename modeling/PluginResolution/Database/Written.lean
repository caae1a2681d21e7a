import PluginResolution.Database

namespace PluginResolution

def Ledger.Table.toJson (t : Ledger.Table) : Json :=
  .object [("rows", .array (t.rows.map fun r => .array [.text r.key, r.toJson])),
    ("distinct", .array (t.distinct.map .text))]

def Ledger.Table.rowOf? : Json.Syntax → Option Ledger.Record
  | .array [.text key, j] => Ledger.Record.ofJson? key j
  | _ => none

def Ledger.Table.ofJson? (j : Json.Syntax) : Option Ledger.Table := do
  match ← j.record? ["rows", "distinct"] true with
  | [some (.array rows), some (.array fields)] =>
    return ⟨← rows.mapM rowOf?, ← fields.mapM (Json.Syntax.requiredText? ∘ some)⟩
  | _ => none

namespace Database

def heading : String :=
  "kpm database 1\n"

/-- The settings table is a list of at most one text. -/
def settingsToJson : Option (Option String) → Json
  | none => .null
  | some none => .array []
  | some (some s) => .array [.text s]

def settingsOf? : Json.Syntax → Option (Option (Option String))
  | .null => some none
  | .array [] => some (some none)
  | .array [.text s] => some (some (some s))
  | _ => none

def identifiersToJson : Option Ledger.Table → Json
  | none => .null
  | some t => t.toJson

def identifiersOf? : Json.Syntax → Option (Option Ledger.Table)
  | .null => some none
  | j => (Ledger.Table.ofJson? j).map some

def toJson (d : Database) : Json :=
  .object [(TableName.identifiers.text, identifiersToJson d.identifiers),
    (TableName.settings.text, settingsToJson d.settings)]

def ofJson? (j : Json.Syntax) : Option Database := do
  match ← j.record? [TableName.identifiers.text, TableName.settings.text] true with
  | [some identifiers, some settings] =>
    return ⟨← identifiersOf? identifiers, ← settingsOf? settings⟩
  | _ => none

def text (d : Database) : String :=
  heading ++ d.toJson.compact

def ofText? (s : String) : Option Database :=
  let n := heading.length
  if s.toList.take n == heading.toList then
    (Json.read (String.ofList (s.toList.drop n))).bind ofJson?
  else none

end Database

end PluginResolution
