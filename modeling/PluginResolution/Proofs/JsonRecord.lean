import PluginResolution.Json.Record
import PluginResolution.Proofs.JsonSpelling
import PluginResolution.Proofs.ReadLists

namespace PluginResolution.Json

open Syntax (field?)

/-- Both texts of the value are read back, and as this. -/
structure ReadsBack {α : Type} (j : Json) (ofJson? : Syntax → Option α) (a : α) : Prop where
  compact : (read j.compact).bind ofJson? = some a
  pretty : (read j.pretty).bind ofJson? = some a

theorem ReadsBack.of_ofJson {α : Type} {j : Json} {ofJson? : Syntax → Option α} {a : α}
    (h : ofJson? j.toSyntax = some a) : j.ReadsBack ofJson? a := by
  constructor
  · rw [read_compact, Option.bind_some, h]
  · rw [read_pretty, Option.bind_some, h]

theorem toSyntaxFields_eq (l : List (String × Json)) :
    toSyntaxFields l = l.map fun e => (some e.1, e.2.toSyntax) := by
  induction l with
  | nil => rfl
  | cons e l ih => rw [toSyntaxFields, ih, List.map_cons]

def present (l : List (String × Option Json)) : List (String × Json) :=
  l.flatMap fun f => f.2.toList.map fun j => (f.1, j)

variable {l : List (String × Option Json)}

theorem present_cons (f : String × Option Json) (l : List (String × Option Json)) :
    present (f :: l) = (f.2.toList.map fun j => (f.1, j)) ++ present l :=
  List.flatMap_cons

theorem name_of_present {e : String × Json} (h : e ∈ present l) : e.1 ∈ l.map (·.1) := by
  obtain ⟨f, hf, he⟩ := List.mem_flatMap.mp h
  obtain ⟨j, -, rfl⟩ := List.mem_map.mp he
  exact List.mem_map_of_mem hf

/-- At most one of them has the name, and none if its value is left out. -/
theorem filter_present (hnodup : (l.map (·.1)).Nodup) {name : String} {value : Option Json}
    (h : (name, value) ∈ l) :
    (present l).filter (·.1 == name) = value.toList.map fun j => (name, j) := by
  induction l with
  | nil => exact absurd h List.not_mem_nil
  | cons f l ih =>
    obtain ⟨hnew, hrest⟩ := List.nodup_cons.mp hnodup
    rw [present_cons, List.filter_append]
    rcases List.mem_cons.mp h with rfl | h
    · have hothers : (present l).filter (·.1 == name) = [] := by
        rw [List.filter_eq_nil_iff]
        intro e he hname
        exact hnew (beq_iff_eq.mp hname ▸ name_of_present he)
      rw [hothers, List.append_nil]
      cases value with
      | none => rfl
      | some j => simp
    · have hmem : name ∈ l.map (·.1) := List.mem_map_of_mem h
      have hne : f.1 ≠ name := by
        rintro rfl
        exact hnew hmem
      rw [ih hrest h]
      cases f.2 with
      | none => rfl
      | some j => simp [hne]

theorem field_present (hnodup : (l.map (·.1)).Nodup) {name : String} {value : Option Json}
    (h : (name, value) ∈ l) :
    field? (toSyntaxFields (present l)) name = some (value.map toSyntax) := by
  have hfilter : (toSyntaxFields (present l)).filter (·.1 == some name) =
      value.toList.map fun j => (some name, j.toSyntax) := by
    rw [toSyntaxFields_eq, List.filter_map]
    have hsame : ((·.1 == some name) ∘ fun e : String × Json => (some e.1, e.2.toSyntax)) =
        (·.1 == name) := by
      funext e
      exact Option.some_beq_some
    rw [hsame, filter_present hnodup h, List.map_map]
    rfl
  rw [field?, hfilter]
  cases value with
  | none => rfl
  | some j => rfl

/-- A record is read from what is written of it, field by field in the order of its names. -/
theorem record_present (hnodup : (l.map (·.1)).Nodup) (complete : Bool) :
    (object (present l)).toSyntax.record? (l.map (·.1)) complete =
      some (l.map fun f => f.2.map toSyntax) := by
  have hnamed : (toSyntaxFields (present l)).any (·.1.isNone) = false := by
    rw [toSyntaxFields_eq, List.any_map, List.any_eq_false]
    intro e _
    simp
  have hfields : (l.map (·.1)).mapM (field? (toSyntaxFields (present l))) =
      some (l.map fun f => f.2.map toSyntax) := by
    rw [List.mapM_map]
    exact mapM_of_pointwise fun f hf => field_present hnodup hf
  rw [toSyntax, Syntax.record?, hnamed]
  exact hfields

/-- Where no field is left out. -/
theorem record_of_object {l : List (String × Json)} (hnodup : (l.map (·.1)).Nodup)
    (complete : Bool) :
    (object l).toSyntax.record? (l.map (·.1)) complete =
      some (l.map fun e => some e.2.toSyntax) := by
  have hall : present (l.map fun e => (e.1, some e.2)) = l := by
    rw [present, List.flatMap_map]
    exact List.flatMap_singleton' l
  have hnames : (l.map fun e => (e.1, some e.2)).map (·.1) = l.map (·.1) := by
    rw [List.map_map]
    rfl
  have hread := record_present (hnames ▸ hnodup) complete
  rw [hall, hnames, List.map_map] at hread
  exact hread

theorem text_map_text (value : Option String) :
    Syntax.text? ((value.map text).map toSyntax) = some value := by
  cases value with
  | none => rfl
  | some s => rfl

end PluginResolution.Json
