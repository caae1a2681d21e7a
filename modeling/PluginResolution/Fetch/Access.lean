import PluginResolution.Settings

namespace PluginResolution.Fetch

structure Access where
  url : String := Settings.defaultCatalogUrl
  userAgent : String := "kpm-directory/0.3.0"
  /-- How long one request may take, in milliseconds. -/
  timeout : Nat := 30000
  maxRetries : Nat := 3
  /-- The delay before the first repetition, in the units of time of the world: in milliseconds,
  unless it counts in others. -/
  baseDelay : Nat := 500
  /-- How long a catalog stays fresh, in milliseconds. -/
  cacheTtl : Nat := 3600000
  deriving DecidableEq, Repr

/-- The access that the settings ask for, with at most 255 repetitions. -/
def Access.ofSettings (s : Settings) : Access where
  url := s.effectiveCatalogUrl
  timeout := s.effectiveRequestTimeout.toNat * 1000
  maxRetries := min s.effectiveMaxRetries.toNat 255
  cacheTtl := s.effectiveCacheTtl.toNat * 1000

end PluginResolution.Fetch
