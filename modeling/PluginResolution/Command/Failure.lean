import PluginResolution.DataRoot
import PluginResolution.Resolution.Cascade
import PluginResolution.Settings

namespace PluginResolution.Command

inductive Failure where
  | general (detail : String)
  | arguments (detail : String)
  | unresolved (key : String)
  | catalog (detail : String)
  | database (detail : String)
  | io (detail : String)
  | settings (detail : String)
  deriving DecidableEq, Repr

namespace Failure

def message : Failure → String
  | general detail => detail
  | arguments detail => "Invalid arguments: " ++ detail
  | unresolved key => "Could not resolve plugin '" ++ key ++ "'"
  | catalog detail => "Catalog error: " ++ detail
  | database detail => "Database error: " ++ detail
  | io detail => "IO error: " ++ detail
  | settings detail => "Configuration error: " ++ detail

def exitCode : Failure → Nat
  | general _ => 1
  | arguments _ => 2
  | unresolved _ => 3
  | catalog _ => 69
  | database _ => 73
  | io _ => 74
  | settings _ => 78

def ofLedger : Ledger.Error → Failure
  | .notFound what => general ("Not found: " ++ what)
  | .constraint detail => arguments detail
  | e => database e.message

def ofCatalog : CatalogError → Failure
  | .invalidHostVersion given => arguments ("invalid host version '" ++ given ++ "'")
  | .configuration detail => settings detail
  | e => catalog e.message

def ofResolution : Resolution.Error → Failure
  | .invalidRequest fault => arguments fault.detail
  | e@(.sourceFailed .catalog _) => catalog e.message
  | e => database e.message

def ofSettings (e : Settings.Invalid) : Failure :=
  settings e.message

def ofDataRoot (e : DataRoot.Error) : Failure :=
  io e.message

end Failure

inductive Trouble where
  | failure (f : Failure)
  | other (detail : String)
  | explained (explanation : String) (inner : Trouble)
  deriving DecidableEq, Repr

namespace Trouble

def message : Trouble → String
  | failure f => f.message
  | other detail => detail
  | explained explanation inner => explanation ++ ": " ++ inner.message

def exitCode : Trouble → Nat
  | failure f => f.exitCode
  | other _ => 1
  | explained _ inner => inner.exitCode

end Trouble

end PluginResolution.Command
