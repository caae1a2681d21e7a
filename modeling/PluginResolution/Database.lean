import PluginResolution.Json.Printer
import PluginResolution.Json.Reader
import PluginResolution.Ledger.Table
import PluginResolution.Settings

namespace PluginResolution

structure Database where
  identifiers : Option Ledger.Table := none
  /-- The settings table, and the text in it if there is one. -/
  settings : Option (Option String) := none
  deriving DecidableEq, Repr

inductive Database.TableName where
  | identifiers
  | settings
  deriving DecidableEq, Repr

namespace Database

def TableName.text : TableName → String
  | .identifiers => "plugin_identifiers"
  | .settings => "settings_kv"

def missingTable (t : TableName) : Ledger.Error :=
  .storage (Ledger.databaseFailure 1 ("no such table: " ++ t.text))

def withTables (d : Database) : Database where
  identifiers := some (d.identifiers.getD {})
  settings := some (d.settings.getD none)

def drop (d : Database) : TableName → Database
  | .identifiers => { d with identifiers := none }
  | .settings => { d with settings := none }

def table (d : Database) : Except Ledger.Error Ledger.Table :=
  match d.identifiers with
  | some t => .ok t
  | none => .error (missingTable .identifiers)

def records (d : Database) : Except Ledger.Error (List Ledger.Record) := do
  return (← d.table).list

def get (d : Database) (key : String) : Except Ledger.Error Ledger.Record := do
  (← d.table).get key

def upsert (d : Database) (r : Ledger.Record) : Except Ledger.Error Database := do
  if Text.isBlankText r.key then throw .blankKey
  return { d with identifiers := some (← (← d.table).upsert r) }

def remove (d : Database) (key : String) : Except Ledger.Error Database := do
  return { d with identifiers := some (← (← d.table).remove key) }

def makeDistinct (d : Database) (field : String) : Option Database := do
  return { d with identifiers := some (← (← d.identifiers).makeDistinct field) }

/-- The stored settings; the defaults if there are none. -/
def loadSettings (d : Database) : Except Ledger.Error Settings :=
  match d.settings with
  | none => .error (missingTable .settings)
  | some none => .ok .defaults
  | some (some text) =>
    match (Json.read text).bind Settings.ofJson? with
    | some s => .ok s
    | none => .error (.serialization "the stored settings are no settings")

def saveSettingsText (d : Database) (text : String) : Except Ledger.Error Database :=
  match d.settings with
  | none => .error (missingTable .settings)
  | some _ => .ok { d with settings := some (some text) }

def saveSettings (d : Database) (s : Settings) : Except Ledger.Error Database :=
  d.saveSettingsText s.toJson.compact

end Database

end PluginResolution
