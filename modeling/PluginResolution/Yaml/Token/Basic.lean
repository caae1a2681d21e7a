import PluginResolution.Yaml.Cursor

namespace PluginResolution.Yaml

inductive Token where
  | versionDirective (major minor : Nat)
  | tagDirective (handle front : String)
  | documentStart
  | documentEnd
  | blockSequenceStart
  | blockMappingStart
  | blockEnd
  | flowSequenceStart
  | flowSequenceEnd
  | flowMappingStart
  | flowMappingEnd
  | blockEntry
  | flowEntry
  | key
  | value
  | alias (name : String)
  | anchor (name : String)
  | tag (handle suffix : String)
  | scalar (plain : Bool) (text : String)
  deriving DecidableEq, Repr

end PluginResolution.Yaml
