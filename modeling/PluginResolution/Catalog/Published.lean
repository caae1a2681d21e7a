import PluginResolution.Catalog.Client
import PluginResolution.Fetch.Source

namespace PluginResolution.Catalog.Client

def ofAccess (a : Fetch.Access) : Client where
  misconfigured := match a.parsed with
    | .ok _ => none
    | .error e => some e
  cache := { ttl := a.cacheTtl }

def catalog {m : Type → Type} [Monad m] (w : Fetch.World m) (a : Fetch.Access) (s : Client)
    (given : String) (forced : Bool) : m (Except CatalogError Catalog × Client) :=
  s.ask given forced (a.fetch w)

end PluginResolution.Catalog.Client
