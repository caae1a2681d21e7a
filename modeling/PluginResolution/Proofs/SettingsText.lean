import PluginResolution.Proofs.LedgerText
import PluginResolution.Database

namespace PluginResolution

namespace Json

@[simp] theorem text_ofText (s : Option String) :
    Syntax.text? (some (ofText? s).toSyntax) = some s := by
  cases s with
  | none => rfl
  | some s => rfl

theorem natural_ofNatural {bound : Nat} {n : Option Nat} (h : ∀ k ∈ n, k < bound) :
    Syntax.natural? bound (some (ofNatural? n).toSyntax) = some n := by
  cases n with
  | none => rfl
  | some k =>
    change (if k < bound then some (some k) else none) = some (some k)
    rw [if_pos (h k rfl)]

end Json

namespace Settings

open Json (Syntax)

@[simp] theorem natural_seconds (n : Option UInt64) :
    Syntax.natural? UInt64.size (some (Json.ofNatural? (n.map (·.toNat))).toSyntax) =
      some (n.map (·.toNat)) := by
  refine Json.natural_ofNatural fun k hk => ?_
  obtain ⟨m, -, rfl⟩ := Option.map_eq_some_iff.mp hk
  exact m.toNat_lt_size

@[simp] theorem natural_count (n : Option UInt32) :
    Syntax.natural? UInt32.size (some (Json.ofNatural? (n.map (·.toNat))).toSyntax) =
      some (n.map (·.toNat)) := by
  refine Json.natural_ofNatural fun k hk => ?_
  obtain ⟨m, -, rfl⟩ := Option.map_eq_some_iff.mp hk
  exact m.toNat_lt_size

@[simp] theorem backend_name (b : Option Backend) :
    Backend.ofJson? (some (Json.ofText? (b.map Backend.name)).toSyntax) = some b := by
  cases b with
  | none => rfl
  | some b => cases b <;> rfl

/-- Settings are read back from what is written of them. -/
theorem ofRecord_toJson (complete : Bool) (s : Settings) :
    ofRecord? complete s.toJson.toSyntax = some s := by
  have hrecord := Json.record_of_object (l := [("catalog_url", .ofText? s.catalogUrl),
    ("catalog_cache_ttl_secs", .ofNatural? (s.cacheTtl.map (·.toNat))),
    ("request_timeout_secs", .ofNatural? (s.requestTimeout.map (·.toNat))),
    ("max_retries", .ofNatural? (s.maxRetries.map (·.toNat))),
    ("identifier_backend", .ofText? (s.backend.map Backend.name)),
    ("default_host_version", .ofText? s.defaultHostVersion)]) (by simp) complete
  have hread : s.toJson.toSyntax.record? fieldNames complete = _ := hrecord
  -- numbers are written as naturals and come back within their bounds
  have hseconds (n : Option UInt64) : (n.map (·.toNat)).map UInt64.ofNat = n := by
    cases n <;> simp
  have hcount (n : Option UInt32) : (n.map (·.toNat)).map UInt32.ofNat = n := by
    cases n <;> simp
  rw [ofRecord?, hread]
  simp [hseconds, hcount]

theorem ofJson_toJson (s : Settings) : ofJson? s.toJson.toSyntax = some s :=
  s.ofRecord_toJson false

end Settings

namespace Database

variable {d d' : Database} {s : Settings}

/-- What was saved is loaded. -/
theorem loadSettings_of_save (h : d.saveSettings s = .ok d') : d'.loadSettings = .ok s := by
  rw [saveSettings, saveSettingsText] at h
  cases hs : d.settings with
  | none =>
    rw [hs] at h
    cases h
  | some stored =>
    rw [hs] at h
    cases h
    have hread : (Json.read s.toJson.compact).bind Settings.ofJson? = some s := by
      rw [Json.read_compact, Option.bind_some, Settings.ofJson_toJson]
    simp only [loadSettings, hread]

theorem loadSettings_congr (h : d'.settings = d.settings) : d'.loadSettings = d.loadSettings := by
  rw [loadSettings, loadSettings, h]

end Database

end PluginResolution
