import PluginResolution.Text.Blank

namespace PluginResolution.Naming

def ending : String := "-plugin"

def pluginName (key : String) : String :=
  match key.toList.dropWhile (· ≠ ':') with
  | [] => key
  | _ :: name => String.ofList name

def artifactId (key : String) : String :=
  let name := pluginName (Text.trim key)
  if ending.toList.isSuffixOf name.toList then name else name ++ ending

end PluginResolution.Naming
