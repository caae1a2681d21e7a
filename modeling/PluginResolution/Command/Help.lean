import PluginResolution.Command.Program

namespace PluginResolution.Command

def Argument.placeholder : Argument → String
  | .hostVersion => "<host-version>"
  | _ => "<plugin-key>"

def Form.synopsis (f : Form) : String :=
  let named := "--" ++ f.word ++ (if f.kind.isSome then " <" ++ f.word ++ ">" else "")
  if f.isRequired then named else "[" ++ named ++ "]"

namespace Verb

def synopsis (front : List String) (v : Verb) : String :=
  " ".intercalate (front ++ v.word :: (v.positional?.map Argument.placeholder).toList ++
    v.ownForms.map Form.synopsis)

def synopses (v : Verb) : List String :=
  if v.verbs.isEmpty then [v.synopsis []] else v.verbs.map (synopsis [v.word])

end Verb

def helpText : String :=
  "Usage: " ++ Verb.program.word ++ " " ++ " ".intercalate (Verb.sharedForms.map Form.synopsis) ++
    " <command>\n\nCommands:\n" ++
    String.join (Verb.program.verbs.flatMap fun v => v.synopses.map ("  " ++ · ++ "\n"))

def Refusal.message : Refusal → String
  | unknownArgument => "unknown argument"
  | unknownCommand => "unknown command"
  | missingArgument => "a required argument is missing"
  | missingCommand => "a command is missing"
  | helpForMissingCommand => "a command is missing"
  | conflict => "arguments exclude each other"
  | missingValue => "an argument needs a value"
  | unreadableValue => "an argument has an invalid value"
  | unwantedValue => "a flag takes no value"
  | helpWanted => "help is asked for"
  | versionWanted => "the version is asked for"

def Ending.text : Ending → String
  | .refused .helpWanted => helpText
  | .refused .versionWanted => versionText
  | .refused _ => ""
  | .help => helpText
  | .ran text _ => text

def Ending.remark : Ending → String
  | .refused r => if r.exitCode = 0 then "" else "error: " ++ r.message ++ "\n"
  | e => e.complaint?.getD ""

end PluginResolution.Command
