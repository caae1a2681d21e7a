import PluginResolution.Json.Record

/-!
Coordinates of an installable plugin. A field is set when it is present and not empty; filling
adopts a set value only where none is set, so the first writer wins.
-/
namespace PluginResolution

structure Coordinate where
  /-- The artifact id as given, perhaps empty. -/
  artifactField : Option String := none
  /-- The version as given, perhaps empty. -/
  versionField : Option String := none
  deriving DecidableEq, Repr

def setValue (s : Option String) : Option String :=
  s.filter (· ≠ "")

namespace Coordinate

def artifactId (c : Coordinate) : Option String :=
  setValue c.artifactField

def version (c : Coordinate) : Option String :=
  setValue c.versionField

def isComplete (c : Coordinate) : Bool :=
  c.artifactId.isSome && c.version.isSome

def isEmpty (c : Coordinate) : Bool :=
  c.artifactId.isNone && c.version.isNone

/-- Adopts a set value where no artifact id is set, and says whether it did. -/
def fillArtifactId (c : Coordinate) (value : Option String) : Coordinate × Bool :=
  if (setValue value).isSome && c.artifactId.isNone then
    ({ c with artifactField := setValue value }, true)
  else (c, false)

def fillVersion (c : Coordinate) (value : Option String) : Coordinate × Bool :=
  if (setValue value).isSome && c.version.isNone then
    ({ c with versionField := setValue value }, true)
  else (c, false)

def fill (c source : Coordinate) : Coordinate × Bool :=
  let (c, artifact) := c.fillArtifactId source.artifactId
  let (c, version) := c.fillVersion source.version
  (c, artifact || version)

def complete? (c : Coordinate) : Option (String × String) :=
  match c.artifactId, c.version with
  | some a, some v => some (a, v)
  | _, _ => none

def text (c : Coordinate) : String :=
  c.artifactId.getD "?" ++ ":" ++ c.version.getD "?"

def toJson (c : Coordinate) : Json :=
  .object (Json.textField "artifact_id" c.artifactField ++ Json.textField "version" c.versionField)

def ofJson? (j : Json.Syntax) : Option Coordinate := do
  match ← j.record? ["artifact_id", "version"] false with
  | [a, v] => return ⟨← Json.Syntax.text? a, ← Json.Syntax.text? v⟩
  | _ => none

@[simp] theorem setValue_setValue (s : Option String) : setValue (setValue s) = setValue s := by
  cases s <;> simp [setValue, Option.filter]
  split <;> simp_all

/-- Filling a field keeps what is set and else takes the first set value offered. -/
@[simp] theorem artifactId_fillArtifactId (c : Coordinate) (value : Option String) :
    (c.fillArtifactId value).1.artifactId = c.artifactId.or (setValue value) := by
  unfold fillArtifactId
  cases hv : setValue value <;> cases hc : c.artifactId <;> simp [hc]
  rw [artifactId, ← hv, setValue_setValue]

@[simp] theorem version_fillArtifactId (c : Coordinate) (value : Option String) :
    (c.fillArtifactId value).1.version = c.version := by
  unfold fillArtifactId; split <;> rfl

@[simp] theorem version_fillVersion (c : Coordinate) (value : Option String) :
    (c.fillVersion value).1.version = c.version.or (setValue value) := by
  unfold fillVersion
  cases hv : setValue value <;> cases hc : c.version <;> simp [hc]
  rw [version, ← hv, setValue_setValue]

@[simp] theorem artifactId_fillVersion (c : Coordinate) (value : Option String) :
    (c.fillVersion value).1.artifactId = c.artifactId := by
  unfold fillVersion; split <;> rfl

@[simp] theorem artifactId_fill (c source : Coordinate) :
    (c.fill source).1.artifactId = c.artifactId.or source.artifactId := by
  simp only [fill, artifactId_fillVersion, artifactId_fillArtifactId]
  rw [artifactId, artifactId, setValue_setValue]

@[simp] theorem version_fill (c source : Coordinate) :
    (c.fill source).1.version = c.version.or source.version := by
  simp only [fill, version_fillVersion, version_fillArtifactId]
  rw [version, version, setValue_setValue]

end Coordinate

end PluginResolution
