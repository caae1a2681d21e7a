import PluginResolution.Catalog

namespace PluginResolution.PluginDirectory

inductive Error where
  | requestFailed (status : Nat) (url : String)
  | network (detail : String)
  | invalidUrl (detail : String)
  | unsupportedScheme (scheme : String)
  | unreadable (path detail : String)
  | malformed
  | invalidDocument (detail : String)
  deriving DecidableEq, Repr

namespace Error

def message : Error → String
  | requestFailed status url =>
    "Plugin directory request failed with status " ++ toString status ++ ": " ++ url
  | network detail => "Network error: " ++ detail
  | invalidUrl detail => "Invalid URL: " ++ detail
  | unsupportedScheme scheme =>
    "Unsupported URL scheme '" ++ scheme ++ "' (expected http, https or file)"
  | unreadable path detail => "Cannot read " ++ path ++ ": " ++ detail
  | malformed => "YAML parsing error: the text has no meaning as a YAML document"
  | invalidDocument detail => "Invalid plugin directory: " ++ detail

def toCatalogError (e : Error) : CatalogError :=
  match e with
  | requestFailed _ _ => .unavailable e.message
  | network _ => .unavailable e.message
  | unreadable _ _ => .unavailable e.message
  | invalidUrl _ => .configuration e.message
  | unsupportedScheme _ => .configuration e.message
  | malformed => .malformed e.message
  | invalidDocument _ => .malformed e.message

end Error

end PluginResolution.PluginDirectory
