import PluginResolution.Json.Record
import PluginResolution.Text.Blank

namespace PluginResolution

inductive Backend where
  | sqlite
  | json
  deriving DecidableEq, Repr

structure Settings where
  catalogUrl : Option String := none
  /-- How long a fetched catalog stays fresh, in seconds. -/
  cacheTtl : Option UInt64 := none
  /-- How long one request may take, in seconds. -/
  requestTimeout : Option UInt64 := none
  maxRetries : Option UInt32 := none
  backend : Option Backend := none
  defaultHostVersion : Option String := none
  deriving DecidableEq, Repr

inductive Settings.Invalid where
  | emptyCatalogUrl
  | cacheTtl (seconds : UInt64)
  | requestTimeout (seconds : UInt64)
  | maxRetries (count : UInt32)
  | emptyHostVersion
  | unknownBackend (word : String)
  deriving DecidableEq, Repr

inductive Change (α : Type) where
  | keep
  | reset
  | set (value : α)
  deriving DecidableEq, Repr

def Change.apply {α : Type} : Change α → Option α → Option α
  | .keep, old => old
  | .reset, _ => none
  | .set value, _ => some value

def Change.isKeep {α : Type} : Change α → Bool
  | .keep => true
  | _ => false

def Change.ofOption {α : Type} : Option α → Change α
  | none => .keep
  | some value => .set value

def Change.value? {α : Type} : Change α → Option α
  | .set value => some value
  | _ => none

structure Settings.Update where
  catalogUrl : Change String := .keep
  cacheTtl : Change UInt64 := .keep
  requestTimeout : Change UInt64 := .keep
  maxRetries : Change UInt32 := .keep
  backend : Change Backend := .keep
  defaultHostVersion : Change String := .keep
  deriving DecidableEq, Repr

namespace Backend

def name : Backend → String
  | .sqlite => "sqlite"
  | .json => "json"

/-- The backend that a word names; case and blanks around it do not matter. -/
def parse (word : String) : Except Settings.Invalid Backend :=
  let word := String.ofList ((Text.trim word).toList.map Char.toLower)
  if word = "sqlite" then .ok .sqlite
  else if word = "json" then .ok .json
  else .error (.unknownBackend word)

def ofName? (name : String) : Option Backend :=
  if name = "sqlite" then some .sqlite
  else if name = "json" then some .json
  else none

/-- A backend is written as its name; it is also read as an object with its name over null. -/
def ofJson? : Option Json.Syntax → Option (Option Backend)
  | none => some none
  | some .null => some none
  | some (.text name) => (ofName? name).map some
  | some (.object [(some name, .null)]) => (ofName? name).map some
  | some _ => none

end Backend

namespace Settings

def defaultCatalogUrl : String :=
  "https://raw.githubusercontent.com/killbill/killbill-cloud/master/kpm/lib/kpm/" ++
    "plugins_directory.yml"

def defaults : Settings where
  catalogUrl := some defaultCatalogUrl
  cacheTtl := some 3600
  requestTimeout := some 30
  maxRetries := some 3
  backend := some .sqlite

def effectiveCatalogUrl (s : Settings) : String := s.catalogUrl.getD defaultCatalogUrl
def effectiveCacheTtl (s : Settings) : UInt64 := s.cacheTtl.getD 3600
def effectiveRequestTimeout (s : Settings) : UInt64 := s.requestTimeout.getD 30
def effectiveMaxRetries (s : Settings) : UInt32 := s.maxRetries.getD 3
def effectiveBackend (s : Settings) : Backend := s.backend.getD .sqlite

def merge (s : Settings) (u : Update) : Settings where
  catalogUrl := u.catalogUrl.apply s.catalogUrl
  cacheTtl := u.cacheTtl.apply s.cacheTtl
  requestTimeout := u.requestTimeout.apply s.requestTimeout
  maxRetries := u.maxRetries.apply s.maxRetries
  backend := u.backend.apply s.backend
  defaultHostVersion := u.defaultHostVersion.apply s.defaultHostVersion

def Update.isEmpty (u : Update) : Bool :=
  u.catalogUrl.isKeep && u.cacheTtl.isKeep && u.requestTimeout.isKeep && u.maxRetries.isKeep &&
    u.backend.isKeep && u.defaultHostVersion.isKeep

/-- The longest time that a catalog may stay fresh, a week. -/
def maxCacheTtl : UInt64 := 604800

def Invalid.message : Invalid → String
  | .emptyCatalogUrl => "Catalog URL cannot be empty"
  | .cacheTtl n =>
    "Catalog cache TTL must be at most " ++ toString maxCacheTtl.toNat ++ " seconds, got " ++
      toString n.toNat
  | .requestTimeout n =>
    "Request timeout must be between 1 and 600 seconds, got " ++ toString n.toNat
  | .maxRetries n => "Max retries must be at most 10, got " ++ toString n.toNat
  | .emptyHostVersion => "Default host version cannot be empty"
  | .unknownBackend word =>
    "Unknown identifier backend '" ++ word ++ "' (expected sqlite or json)"

def fault? (s : Settings) : Option Invalid :=
  if s.catalogUrl.any Text.isBlankText then some .emptyCatalogUrl
  else match s.cacheTtl.filter (maxCacheTtl < ·) with
  | some n => some (.cacheTtl n)
  | none => match s.requestTimeout.filter (fun n => n < 1 || 600 < n) with
    | some n => some (.requestTimeout n)
    | none => match s.maxRetries.filter (10 < ·) with
      | some n => some (.maxRetries n)
      | none =>
        if s.defaultHostVersion.any Text.isBlankText then some .emptyHostVersion else none

def validate (s : Settings) : Except Invalid Unit :=
  match s.fault? with
  | some e => .error e
  | none => .ok ()

/-- The settings with which every data root begins may be stored. -/
theorem validate_defaults : defaults.validate = .ok () := by
  rfl

def fieldNames : List String :=
  ["catalog_url", "catalog_cache_ttl_secs", "request_timeout_secs", "max_retries",
    "identifier_backend", "default_host_version"]

def toJson (s : Settings) : Json :=
  .object [("catalog_url", .ofText? s.catalogUrl),
    ("catalog_cache_ttl_secs", .ofNatural? (s.cacheTtl.map (·.toNat))),
    ("request_timeout_secs", .ofNatural? (s.requestTimeout.map (·.toNat))),
    ("max_retries", .ofNatural? (s.maxRetries.map (·.toNat))),
    ("identifier_backend", .ofText? (s.backend.map Backend.name)),
    ("default_host_version", .ofText? s.defaultHostVersion)]

/-- Reads the six values; `complete` asks an array to hold all of them. -/
def ofRecord? (complete : Bool) (j : Json.Syntax) : Option Settings := do
  match ← j.record? fieldNames complete with
  | [url, ttl, timeout, retries, backend, host] =>
    return {
      catalogUrl := ← Json.Syntax.text? url
      cacheTtl := (← Json.Syntax.natural? UInt64.size ttl).map UInt64.ofNat
      requestTimeout := (← Json.Syntax.natural? UInt64.size timeout).map UInt64.ofNat
      maxRetries := (← Json.Syntax.natural? UInt32.size retries).map UInt32.ofNat
      backend := ← Backend.ofJson? backend
      defaultHostVersion := ← Json.Syntax.text? host }
  | _ => none

def ofJson? (j : Json.Syntax) : Option Settings :=
  ofRecord? false j

namespace Update

/-- A value to set is written; leaving alone and resetting are both written as null. -/
def toJson (u : Update) : Json :=
  Settings.toJson {
    catalogUrl := u.catalogUrl.value?
    cacheTtl := u.cacheTtl.value?
    requestTimeout := u.requestTimeout.value?
    maxRetries := u.maxRetries.value?
    backend := u.backend.value?
    defaultHostVersion := u.defaultHostVersion.value? }

/-- A null or missing value is left alone. -/
def ofJson? (j : Json.Syntax) : Option Update := do
  let s ← ofRecord? true j
  return {
    catalogUrl := .ofOption s.catalogUrl
    cacheTtl := .ofOption s.cacheTtl
    requestTimeout := .ofOption s.requestTimeout
    maxRetries := .ofOption s.maxRetries
    backend := .ofOption s.backend
    defaultHostVersion := .ofOption s.defaultHostVersion }

end Update

end Settings

end PluginResolution
