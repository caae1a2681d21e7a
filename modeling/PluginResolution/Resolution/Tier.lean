import PluginResolution.Catalog
import PluginResolution.Ledger.Record
import PluginResolution.Resolution.Request

namespace PluginResolution.Resolution

inductive Tier where
  | callerInput
  | identifierStore
  | catalog
  | namingHeuristic
  deriving DecidableEq, Repr

structure Sources (m : Type → Type) where
  records : m (Except Ledger.Error (List Ledger.Record))
  /-- The catalog for a host version, fetched anew if the flag says so. -/
  catalog : String → Bool → m (Except CatalogError Catalog)
  artifactId : String → m String

inductive SourceError where
  | ledger (e : Ledger.Error)
  | catalog (e : CatalogError)
  deriving DecidableEq, Repr

def SourceError.message : SourceError → String
  | .ledger e => e.message
  | .catalog e => e.message

namespace Tier

def name : Tier → String
  | .callerInput => "caller_input"
  | .identifierStore => "identifier_store"
  | .catalog => "catalog"
  | .namingHeuristic => "naming_heuristic"

def all : List Tier :=
  [.callerInput, .identifierStore, .catalog, .namingHeuristic]

/-- Whether a tier is asked, given what is found so far. The naming convention is trusted only
with the artifact id, and only once a version is known. -/
def applies (t : Tier) (r : Request) (found : Coordinate) : Bool :=
  match t with
  | .callerInput => true
  | .identifierStore => !r.forced
  | .catalog => true
  | .namingHeuristic => found.version.isSome && found.artifactId.isNone

def isRequired (t : Tier) (r : Request) : Bool :=
  match t with
  | .catalog => r.forced
  | _ => false

def findRecord? (key : String) (records : List Ledger.Record) : Option Ledger.Record :=
  records.find? fun r => r.key = key && r.hasIdentifier

/-- Asks the tier's source and fills in what is not yet set; says whether anything was adopted. -/
def contribute {m : Type → Type} [Monad m] (t : Tier) (s : Sources m) (r : Request)
    (found : Coordinate) : m (Except SourceError (Coordinate × Bool)) := do
  match t with
  | .callerInput => return .ok (found.fill r.known)
  | .identifierStore =>
    match ← s.records with
    | .error e => return .error (.ledger e)
    | .ok records =>
      match findRecord? r.key records with
      | none => return .ok (found, false)
      | some record => return .ok (found.fill record.coordinate)
  | .catalog =>
    match ← s.catalog r.hostVersion r.forced with
    | .error e => return .error (.catalog e)
    | .ok listed =>
      match listed.find? r.key with
      | none => return .ok (found, false)
      | some entry => return .ok (found.fill entry.coordinate)
  | .namingHeuristic =>
    let guess ← s.artifactId r.key
    return .ok (found.fillArtifactId (some guess))

end Tier

end PluginResolution.Resolution
