import PluginResolution.Naming
import PluginResolution.Resolution.Report

/-!
The cascade: tiers are asked in order until the coordinate is complete. A failing source is noted
and passed over, unless the request cannot do without it.
-/
namespace PluginResolution.Resolution

inductive Error where
  | invalidRequest (fault : Request.Fault)
  | sourceFailed (tier : Tier) (source : SourceError)
  deriving DecidableEq, Repr

def Error.message : Error → String
  | .invalidRequest fault => "Invalid argument: " ++ fault.detail
  | .sourceFailed tier source => tier.name ++ " lookup failed: " ++ source.message

structure Progress where
  found : Coordinate := {}
  contributors : List Tier := []
  degraded : List Degraded := []
  deriving DecidableEq, Repr

namespace Progress

def adopt (p : Progress) (t : Tier) (filled : Coordinate × Bool) : Progress where
  found := filled.1
  contributors := if filled.2 then p.contributors ++ [t] else p.contributors
  degraded := p.degraded

def tolerate (p : Progress) (t : Tier) (e : SourceError) : Progress :=
  { p with degraded := p.degraded ++ [⟨t, e.message⟩] }

def decided (p : Progress) (t : Tier) : Report where
  coordinate := some p.found
  decidedBy := some t
  contributors := p.contributors
  degraded := p.degraded

def undecided (p : Progress) : Report where
  contributors := p.contributors
  degraded := p.degraded

end Progress

variable {m : Type → Type} [Monad m]

def ask (s : Sources m) (r : Request) : List Tier → Progress → m (Except Error Report)
  | [], p => return .ok p.undecided
  | t :: ts, p => do
    if t.applies r p.found then
      match ← t.contribute s r p.found with
      | .error e =>
        if t.isRequired r then return .error (.sourceFailed t e)
        else ask s r ts (p.tolerate t e)
      | .ok filled =>
        let p := p.adopt t filled
        if p.found.isComplete then return .ok (p.decided t) else ask s r ts p
    else ask s r ts p

def resolveFrom (tiers : List Tier) (s : Sources m) (r : Request) : m (Except Error Report) :=
  match r.validate with
  | .error fault => return .error (.invalidRequest fault)
  | .ok () => ask s r tiers {}

def resolve (s : Sources m) (r : Request) : m (Except Error Report) :=
  resolveFrom Tier.all s r

end PluginResolution.Resolution
