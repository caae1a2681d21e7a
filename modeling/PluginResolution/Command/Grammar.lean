import PluginResolution.Settings
import PluginResolution.Text.Numeral

namespace PluginResolution.Command

/-- The words that choose what is done; `program` stands for the program itself. -/
inductive Verb where
  | program
  | resolve
  | identifiers
  | listRecords
  | showRecord
  | addRecord
  | removeRecord
  | catalog
  | config
  | showSettings
  | changeSettings
  | resetSettings
  | paths
  deriving DecidableEq, Repr

inductive Argument where
  | dataRoot
  | catalogUrl
  | verbose
  | help
  | programVersion
  | key
  | hostVersion
  | artifactId
  | version
  | forced
  | asJson
  | save
  | groupId
  | packaging
  | classifier
  | language
  | plugin
  | cacheTtl
  | requestTimeout
  | maxRetries
  | backend
  | defaultHostVersion
  | noDefaultHostVersion
  deriving DecidableEq, Repr

inductive Refusal where
  | unknownArgument
  | unknownCommand
  | missingArgument
  | missingCommand
  /-- A command is missing and nothing else is said: the help stands in for it. -/
  | helpForMissingCommand
  | conflict
  /-- The value is missing, or is an empty path. -/
  | missingValue
  | unreadableValue
  | unwantedValue
  | helpWanted
  | versionWanted
  deriving DecidableEq, Repr

def Refusal.exitCode : Refusal → Nat
  | .helpWanted => 0
  | .versionWanted => 0
  | _ => 2

inductive Datum where
  | text (s : String)
  | natural (n : Nat)
  | backend (b : Backend)
  deriving DecidableEq, Repr

inductive Kind where
  | text
  | path
  /-- A number below a bound; the flag says whether a zero may have a minus sign. -/
  | natural (bound : Nat) (signedZero : Bool)
  | backend
  deriving DecidableEq, Repr

def isSignedZero : List Char → Bool
  | '-' :: '0' :: r => r.all (· == '0')
  | _ => false

def Kind.read : Kind → String → Except Refusal Datum
  | .text, s => .ok (.text s)
  | .path, s => if s.isEmpty then .error .missingValue else .ok (.text s)
  | .natural bound signedZero, s =>
    if signedZero && isSignedZero s.toList then .ok (.natural 0)
    else match Text.natural? bound s.toList with
      | some n => .ok (.natural n)
      | none => .error .unreadableValue
  | .backend, s =>
    match Backend.parse s with
    | .ok b => .ok (.backend b)
    | .error _ => .error .unreadableValue

structure Form where
  argument : Argument
  /-- The word behind two hyphens. -/
  word : String := ""
  /-- The letter behind one hyphen. -/
  letter : Option Char := none
  kind : Option Kind := none
  /-- The environment variable that stands in for it. -/
  standIn : Option String := none
  isRequired : Bool := false
  deriving DecidableEq, Repr

namespace Verb

def word : Verb → String
  | program => "kpm"
  | resolve => "resolve"
  | identifiers => "identifiers"
  | listRecords => "list"
  | showRecord => "show"
  | addRecord => "add"
  | removeRecord => "remove"
  | catalog => "catalog"
  | config => "config"
  | showSettings => "show"
  | changeSettings => "set"
  | resetSettings => "reset"
  | paths => "paths"

def verbs : Verb → List Verb
  | program => [resolve, identifiers, catalog, config, paths]
  | identifiers => [listRecords, showRecord, addRecord, removeRecord]
  | config => [showSettings, changeSettings, resetSettings]
  | _ => []

def needsVerb : Verb → Bool
  | identifiers => true
  | config => true
  | _ => false

def find? (v : Verb) (word : String) : Option Verb :=
  v.verbs.find? (·.word = word)

def knows (v : Verb) (word : String) : Bool :=
  (v.find? word).isSome || (word = "help" && !v.verbs.isEmpty)

def positional? : Verb → Option Argument
  | resolve => some .key
  | showRecord => some .key
  | addRecord => some .key
  | removeRecord => some .key
  | catalog => some .hostVersion
  | _ => none

def textForm (argument : Argument) (word : String) : Form :=
  { argument, word, kind := some .text }

def ownForms : Verb → List Form
  | program => [{ argument := .programVersion, word := "version", letter := some 'V' }]
  | resolve => [textForm .hostVersion "host-version", textForm .artifactId "artifact-id",
      textForm .version "version", { argument := .forced, word := "force", letter := some 'f' },
      { argument := .asJson, word := "json" }, { argument := .save, word := "save" }]
  | addRecord => [{ textForm .artifactId "artifact-id" with isRequired := true },
      { textForm .version "version" with isRequired := true }, textForm .groupId "group-id",
      textForm .packaging "packaging", textForm .classifier "classifier",
      textForm .language "language"]
  | catalog => [{ argument := .forced, word := "force", letter := some 'f' },
      textForm .plugin "plugin"]
  | changeSettings => [textForm .catalogUrl "catalog-url",
      { argument := .cacheTtl, word := "catalog-cache-ttl",
        kind := some (.natural UInt64.size false) },
      { argument := .requestTimeout, word := "request-timeout",
        kind := some (.natural UInt64.size false) },
      { argument := .maxRetries, word := "max-retries",
        kind := some (.natural UInt32.size true) },
      { argument := .backend, word := "identifier-backend", kind := some .backend },
      textForm .defaultHostVersion "default-host-version",
      { argument := .noDefaultHostVersion, word := "clear-default-host-version" }]
  | _ => []

def sharedForms : List Form :=
  [{ argument := .dataRoot, word := "data-dir", kind := some .path,
     standIn := some "KPM_DATA_DIR" },
    { textForm .catalogUrl "catalog-url" with standIn := some "KPM_CATALOG_URL" },
    { argument := .verbose, word := "verbose", letter := some 'v' }]

/-- The named arguments that a command takes; its own one stands before a shared one. -/
def forms (v : Verb) : List Form :=
  v.ownForms ++
    sharedForms.filter (fun f => !v.ownForms.any (·.argument = f.argument)) ++
    [{ argument := .help, word := "help", letter := some 'h' }]

def excluding : List (Argument × Argument) :=
  [(.defaultHostVersion, .noDefaultHostVersion)]

end Verb

/-- Whether a value for the argument reaches every command, wherever it is written. -/
def Argument.isShared (a : Argument) : Bool :=
  Verb.sharedForms.any (·.argument = a)

end PluginResolution.Command
