import PluginResolution.Command.Arguments
import PluginResolution.Ledger.Record

namespace PluginResolution.Command

structure ResolveOptions where
  key : String
  hostVersion : Option String := none
  artifactId : Option String := none
  version : Option String := none
  forced : Bool := false
  asJson : Bool := false
  save : Bool := false
  deriving DecidableEq, Repr

inductive Task where
  | resolve (options : ResolveOptions)
  | listRecords
  | showRecord (key : String)
  | addRecord (record : Ledger.Record)
  | removeRecord (key : String)
  | catalog (hostVersion : String) (forced : Bool) (plugin : Option String)
  | showSettings
  | changeSettings (update : Settings.Update)
  | resetSettings
  | paths
  deriving DecidableEq, Repr

structure Invocation where
  dataRoot : Option String := none
  catalogUrl : Option String := none
  verbose : Bool := false
  /-- What to do; without it, show the help. -/
  task : Option Task := none
  deriving DecidableEq, Repr

namespace Level

def isGiven (levels : List Level) (a : Argument) : Bool :=
  (settled levels a).isSome

def datum? (levels : List Level) (a : Argument) : Option Datum :=
  (settled levels a).bind (·.datum)

def text? (levels : List Level) (a : Argument) : Option String :=
  match datum? levels a with
  | some (.text s) => some s
  | _ => none

def natural? (levels : List Level) (a : Argument) : Option Nat :=
  match datum? levels a with
  | some (.natural n) => some n
  | _ => none

def backend? (levels : List Level) (a : Argument) : Option Backend :=
  match datum? levels a with
  | some (.backend b) => some b
  | _ => none

def text (levels : List Level) (a : Argument) : String :=
  (text? levels a).getD ""

def update (levels : List Level) : Settings.Update where
  catalogUrl := .ofOption (text? levels .catalogUrl)
  cacheTtl := .ofOption ((natural? levels .cacheTtl).map UInt64.ofNat)
  requestTimeout := .ofOption ((natural? levels .requestTimeout).map UInt64.ofNat)
  maxRetries := .ofOption ((natural? levels .maxRetries).map UInt32.ofNat)
  backend := .ofOption (backend? levels .backend)
  defaultHostVersion :=
    if isGiven levels .noDefaultHostVersion then .reset
    else .ofOption (text? levels .defaultHostVersion)

def taskOf (levels : List Level) : Verb → Option Task
  | .resolve => some (.resolve {
      key := text levels .key
      hostVersion := text? levels .hostVersion
      artifactId := text? levels .artifactId
      version := text? levels .version
      forced := isGiven levels .forced
      asJson := isGiven levels .asJson
      save := isGiven levels .save })
  | .listRecords => some .listRecords
  | .showRecord => some (.showRecord (text levels .key))
  | .addRecord => some (.addRecord {
      key := text levels .key
      groupId := text? levels .groupId
      artifactId := text? levels .artifactId
      packaging := text? levels .packaging
      classifier := text? levels .classifier
      version := text? levels .version
      language := text? levels .language })
  | .removeRecord => some (.removeRecord (text levels .key))
  | .catalog =>
    some (.catalog (text levels .hostVersion) (isGiven levels .forced) (text? levels .plugin))
  | .showSettings => some .showSettings
  | .changeSettings => some (.changeSettings (update levels))
  | .resetSettings => some .resetSettings
  | .paths => some .paths
  | _ => none

def task? (levels : List Level) : Option Task :=
  levels.getLast?.bind fun l => taskOf levels l.verb

end Level

def Invocation.read (bindings : Variables) (arguments : List String) :
    Except Refusal Invocation := do
  let levels ← readLevels bindings .program arguments {}
  return {
    dataRoot := Level.text? levels .dataRoot
    catalogUrl := Level.text? levels .catalogUrl
    verbose := Level.isGiven levels .verbose
    task := Level.task? levels }

end PluginResolution.Command
