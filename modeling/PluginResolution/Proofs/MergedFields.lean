import Mathlib.Data.List.Induction
import PluginResolution.Proofs.EagerMerge

namespace PluginResolution.Coordinate

open Resolution (firstSet)

inductive Filling where
  | artifactId (value : Option String)
  | version (value : Option String)
  | fields (source : Coordinate)
  deriving DecidableEq, Repr

namespace Filling

def apply (c : Coordinate) : Filling → Coordinate × Bool
  | artifactId value => c.fillArtifactId value
  | version value => c.fillVersion value
  | fields source => c.fill source

def offered : Filling → Coordinate
  | artifactId value => ⟨value, none⟩
  | version value => ⟨none, value⟩
  | fields source => source

end Filling

def filled (c : Coordinate) (fillings : List Filling) : Coordinate :=
  fillings.foldl (fun c f => (f.apply c).1) c

section Step

variable (c : Coordinate)

theorem artifactId_apply (f : Filling) :
    (f.apply c).1.artifactId = c.artifactId.or f.offered.artifactId := by
  cases f with
  | artifactId value => exact artifactId_fillArtifactId c value
  | version value =>
    -- nothing is offered for the other field
    rw [Filling.apply, artifactId_fillVersion, Filling.offered]
    exact (Option.or_none ..).symm
  | fields source => exact artifactId_fill c source

theorem version_apply (f : Filling) :
    (f.apply c).1.version = c.version.or f.offered.version := by
  cases f with
  | artifactId value =>
    rw [Filling.apply, version_fillArtifactId, Filling.offered]
    exact (Option.or_none ..).symm
  | version value => exact version_fillVersion c value
  | fields source => exact version_fill c source

/-- A field is adopted exactly when it was not set and something is offered for it. -/
theorem flag_fillArtifactId (value : Option String) :
    (c.fillArtifactId value).2 = true ↔ (c.fillArtifactId value).1.artifactId ≠ c.artifactId := by
  rw [artifactId_fillArtifactId, fillArtifactId]
  cases hv : setValue value <;> cases hc : c.artifactId <;> simp

theorem flag_fillVersion (value : Option String) :
    (c.fillVersion value).2 = true ↔ (c.fillVersion value).1.version ≠ c.version := by
  rw [version_fillVersion, fillVersion]
  cases hv : setValue value <;> cases hc : c.version <;> simp

theorem flag_apply (f : Filling) :
    (f.apply c).2 = true ↔
      (f.apply c).1.artifactId ≠ c.artifactId ∨ (f.apply c).1.version ≠ c.version := by
  cases f with
  | artifactId value =>
    rw [Filling.apply, flag_fillArtifactId, version_fillArtifactId]
    simp
  | version value =>
    rw [Filling.apply, flag_fillVersion, artifactId_fillVersion]
    simp
  | fields source =>
    -- the version is filled second, in a coordinate whose version is still the old one
    have hartifact := flag_fillArtifactId c source.artifactId
    have hversion := flag_fillVersion (c.fillArtifactId source.artifactId).1 source.version
    rw [version_fillArtifactId] at hversion
    rw [Filling.apply, fill]
    simp only [Bool.or_eq_true, artifactId_fillVersion]
    exact or_congr hartifact hversion

theorem complete_eq_some_iff {a v : String} :
    c.complete? = some (a, v) ↔ c.artifactId = some a ∧ c.version = some v := by
  rw [complete?]
  cases ha : c.artifactId <;> cases hv : c.version <;> simp

theorem isSome_complete : c.complete?.isSome = c.isComplete := by
  rw [complete?, isComplete]
  cases ha : c.artifactId <;> cases hv : c.version <;> rfl

/-- Where a field is set or nothing is offered for it, filling it changes nothing. -/
theorem fillArtifactId_of_or {value : Option String}
    (h : c.artifactId.or (setValue value) = c.artifactId) :
    c.fillArtifactId value = (c, false) := by
  rw [fillArtifactId, if_neg]
  cases hv : setValue value <;> cases hc : c.artifactId <;> simp_all

theorem fillVersion_of_or {value : Option String}
    (h : c.version.or (setValue value) = c.version) :
    c.fillVersion value = (c, false) := by
  rw [fillVersion, if_neg]
  cases hv : setValue value <;> cases hc : c.version <;> simp_all

/-- A source that was filled from has nothing to add. -/
theorem fill_fill (source : Coordinate) :
    (c.fill source).1.fill source = ((c.fill source).1, false) := by
  have hartifact : (c.fill source).1.fillArtifactId source.artifactId =
      ((c.fill source).1, false) := by
    apply fillArtifactId_of_or
    have hset : setValue source.artifactId = source.artifactId := setValue_setValue _
    rw [artifactId_fill, hset, Option.or_assoc, Option.or_self]
  have hversion : (c.fill source).1.fillVersion source.version = ((c.fill source).1, false) := by
    apply fillVersion_of_or
    have hset : setValue source.version = source.version := setValue_setValue _
    rw [version_fill, hset, Option.or_assoc, Option.or_self]
  rw [fill, hartifact]
  simp only [hversion, Bool.or_self]

end Step

section Run

variable (c : Coordinate) (fillings later : List Filling)

theorem filled_append : c.filled (fillings ++ later) = (c.filled fillings).filled later :=
  List.foldl_append

theorem firstSet_append (values more : List (Option String)) :
    firstSet (values ++ more) = (firstSet values).or (firstSet more) :=
  List.findSome?_append

theorem firstSet_singleton (value : Option String) : firstSet [value] = setValue value :=
  List.findSome?_singleton

/-- Either field, if a single filling keeps what is set and else takes what is offered. -/
theorem field_filled {field raw : Coordinate → Option String}
    (set : ∀ c, field c = setValue (raw c))
    (step : ∀ c (f : Filling), field (f.apply c).1 = (field c).or (field f.offered)) :
    field (c.filled fillings) = firstSet (raw c :: fillings.map (raw ·.offered)) := by
  -- on the fillings, the last of which finds the field as the ones before have left it
  induction fillings using List.reverseRecOn with
  | nil =>
    rw [List.map_nil, firstSet_singleton, ← set]
    rfl
  | append_singleton before f ih =>
    calc field (c.filled (before ++ [f]))
      _ = field (f.apply (c.filled before)).1 := by rw [filled_append]; rfl
      _ = (firstSet (raw c :: before.map (raw ·.offered))).or (setValue (raw f.offered)) := by
        rw [step, ih, set]
      _ = firstSet (raw c :: (before ++ [f]).map (raw ·.offered)) := by
        rw [← firstSet_singleton, ← firstSet_append, List.map_append, List.cons_append]
        rfl

theorem artifactId_filled :
    (c.filled fillings).artifactId =
      firstSet (c.artifactField :: fillings.map (·.offered.artifactField)) :=
  field_filled c fillings (fun _ => rfl) artifactId_apply

theorem version_filled :
    (c.filled fillings).version =
      firstSet (c.versionField :: fillings.map (·.offered.versionField)) :=
  field_filled c fillings (fun _ => rfl) version_apply

/-- What is not set yet is the first set value that is offered later. -/
theorem artifactId_filled_append :
    (c.filled (fillings ++ later)).artifactId =
      (c.filled fillings).artifactId.or (firstSet (later.map (·.offered.artifactField))) := by
  rw [artifactId_filled, artifactId_filled, List.map_append, ← List.cons_append, firstSet_append]

theorem version_filled_append :
    (c.filled (fillings ++ later)).version =
      (c.filled fillings).version.or (firstSet (later.map (·.offered.versionField))) := by
  rw [version_filled, version_filled, List.map_append, ← List.cons_append, firstSet_append]

end Run

/-- After any fillings each field is the first set value among its own and those that were offered.
The next filling is said to adopt something exactly when a field changes by it. A field that is set
stays whatever comes later, and one that is not becomes the first set value that is offered then.
Both fields are given out exactly when both are set. Filling from one source and then from another
is filling from the first with the second's values behind its own, and a source fills nothing a
second time. -/
theorem merging_keeps_first (start : Coordinate) (fillings : List Filling) :
    let c := start.filled fillings
    (c.artifactId = firstSet (start.artifactField :: fillings.map (·.offered.artifactField)) ∧
      c.version = firstSet (start.versionField :: fillings.map (·.offered.versionField))) ∧
    (∀ f : Filling, (f.apply c).2 = true ↔
      (f.apply c).1.artifactId ≠ c.artifactId ∨ (f.apply c).1.version ≠ c.version) ∧
    (∀ later : List Filling,
      (start.filled (fillings ++ later)).artifactId =
        c.artifactId.or (firstSet (later.map (·.offered.artifactField))) ∧
      (start.filled (fillings ++ later)).version =
        c.version.or (firstSet (later.map (·.offered.versionField)))) ∧
    (c.complete?.isSome = c.isComplete ∧
      ∀ a v, c.complete? = some (a, v) ↔ c.artifactId = some a ∧ c.version = some v) ∧
    ∀ a b : Coordinate,
      ((c.fill a).1.fill b).1.artifactId = (c.fill (a.fill b).1).1.artifactId ∧
      ((c.fill a).1.fill b).1.version = (c.fill (a.fill b).1).1.version ∧
      (c.fill a).1.fill a = ((c.fill a).1, false) := by
  intro c
  refine ⟨⟨artifactId_filled start fillings, version_filled start fillings⟩, ?_, ?_, ?_, ?_⟩
  · exact flag_apply c
  · intro later
    exact ⟨artifactId_filled_append start fillings later,
      version_filled_append start fillings later⟩
  · exact ⟨isSome_complete c, fun a v => complete_eq_some_iff c⟩
  · intro a b
    refine ⟨?_, ?_, fill_fill c a⟩
    · rw [artifactId_fill, artifactId_fill, artifactId_fill, artifactId_fill, Option.or_assoc]
    · rw [version_fill, version_fill, version_fill, version_fill, Option.or_assoc]

/-- An empty text is offered first and stands in nobody's way. -/
example : (filled {} [.version (some ""), .fields ⟨some "a", some "1"⟩, .version (some "2")]).text =
    "a:1" := by decide

end PluginResolution.Coordinate
