import PluginResolution.Coordinate
import PluginResolution.Text.Blank

namespace PluginResolution.Resolution

structure Request where
  hostVersion : String
  key : String
  artifactId : Option String := none
  version : Option String := none
  /-- Pass over the ledger and every kept catalog. -/
  forced : Bool := false
  deriving DecidableEq, Repr

inductive Request.Fault where
  | blankKey
  | blankHostVersion
  | paddedKey (key : String)
  deriving DecidableEq, Repr

def Request.Fault.detail : Request.Fault → String
  | .blankKey => "plugin key must not be empty"
  | .blankHostVersion => "host version must not be empty"
  | .paddedKey key => "plugin key '" ++ key ++ "' has surrounding whitespace"

namespace Request

def trimmed (hostVersion key : String) : Request where
  hostVersion := Text.trim hostVersion
  key := Text.trim key

def known (r : Request) : Coordinate :=
  ⟨r.artifactId, r.version⟩

/-- Keys are compared exactly, so a key with blanks around it could never be found. -/
def validate (r : Request) : Except Fault Unit :=
  if Text.isBlankText r.key then .error .blankKey
  else if Text.isBlankText r.hostVersion then .error .blankHostVersion
  else if Text.trim r.key ≠ r.key then .error (.paddedKey r.key)
  else .ok ()

end Request

end PluginResolution.Resolution
