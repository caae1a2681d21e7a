import PluginResolution.Resolution.Tier

namespace PluginResolution.Resolution

/-- A source that failed without ending the resolution. -/
structure Degraded where
  tier : Tier
  message : String
  deriving DecidableEq, Repr

structure Report where
  coordinate : Option Coordinate := none
  /-- The tier after which the coordinate was complete. -/
  decidedBy : Option Tier := none
  contributors : List Tier := []
  degraded : List Degraded := []
  deriving DecidableEq, Repr

namespace Report

def isResolved (r : Report) : Bool :=
  r.coordinate.isSome

def isDegraded (r : Report) : Bool :=
  !r.degraded.isEmpty

def toJson (r : Report) : Json :=
  .object [("coordinate", (r.coordinate.map Coordinate.toJson).getD .null),
    ("decided_by", .ofText? (r.decidedBy.map Tier.name)),
    ("contributors", .array (r.contributors.map fun t => .text t.name)),
    ("degraded", .array (r.degraded.map fun d =>
      .object [("tier", .text d.tier.name), ("message", .text d.message)]))]

def listing (r : Report) (key : String) : String :=
  let answer := match r.coordinate with
    | some c =>
      let decided := match r.decidedBy with
        | some t => "  decided by: " ++ t.name ++ "\n"
        | none => ""
      key ++ ": " ++ c.text ++ "\n" ++ decided
    | none => key ++ ": unresolved\n"
  let sources :=
    if r.contributors.isEmpty then ""
    else "  sources:    " ++ String.intercalate ", " (r.contributors.map Tier.name) ++ "\n"
  let warnings := r.degraded.map fun d =>
    "  warning:    " ++ d.tier.name ++ " failed: " ++ d.message ++ "\n"
  answer ++ sources ++ String.join warnings

end Report

end PluginResolution.Resolution
