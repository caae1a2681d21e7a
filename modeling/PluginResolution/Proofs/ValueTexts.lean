import PluginResolution.Catalog
import PluginResolution.Proofs.SettingsText

namespace PluginResolution

open Json (Syntax present)

theorem Json.textField_eq (name : String) (value : Option String) :
    Json.textField name value = (value.map Json.text).toList.map fun j => (name, j) := by
  cases value with
  | none => rfl
  | some s => rfl

theorem Coordinate.ofJson_toJson (c : Coordinate) : ofJson? c.toJson.toSyntax = some c := by
  have hwritten : c.toJson = .object (present [("artifact_id", c.artifactField.map .text),
      ("version", c.versionField.map .text)]) := by
    rw [toJson, Json.textField_eq, Json.textField_eq, Json.present_cons, Json.present_cons]
    simp [present]
  have hread := Json.record_present (l := [("artifact_id", c.artifactField.map .text),
    ("version", c.versionField.map .text)]) (by simp) false
  simp only [List.map_cons, List.map_nil] at hread
  rw [ofJson?, hwritten, hread]
  simp only [Option.bind_eq_bind, Option.bind_some, Json.text_map_text]
  rfl

namespace Catalog

theorem Entry.ofJson_toJson (e : Entry) : ofJson? e.toJson.toSyntax = some e := by
  have hwritten : e.toJson = .object (present [("plugin_key", some (.text e.key)),
      ("group_id", e.groupId.map .text), ("coordinate", some e.coordinate.toJson)]) := by
    rw [toJson, Json.textField_eq, Json.present_cons, Json.present_cons, Json.present_cons]
    simp [present]
  have hread := Json.record_present (l := [("plugin_key", some (.text e.key)),
    ("group_id", e.groupId.map .text), ("coordinate", some e.coordinate.toJson)]) (by simp) true
  simp only [List.map_cons, List.map_nil, Option.map_some] at hread
  rw [ofJson?, hwritten, hread]
  -- the coordinate stands in the entry as an object of its own
  simp only [Option.bind_eq_bind, Option.bind_some, Json.text_map_text, Coordinate.ofJson_toJson]
  rfl

theorem ofJson_toJson (c : Catalog) : ofJson? c.toJson.toSyntax = some c := by
  have hread := Json.record_of_object (l := [("version_line", .text c.line),
    ("entries", .array (c.entries.map Entry.toJson))]) (by simp) true
  have hitems (es : List Entry) :
      Json.toSyntaxItems (es.map Entry.toJson) = es.map fun e => e.toJson.toSyntax := by
    induction es with
    | nil => rfl
    | cons e es ih => rw [List.map_cons, Json.toSyntaxItems, ih, List.map_cons]
  have hentries : (c.entries.map fun e => e.toJson.toSyntax).mapM Entry.ofJson? =
      some (c.entries.map id) := by
    rw [List.mapM_map]
    exact mapM_of_pointwise fun e _ => Entry.ofJson_toJson e
  simp only [List.map_cons, List.map_nil, Json.toSyntax, hitems] at hread
  rw [ofJson?, toJson, Json.toSyntax, hread]
  simp only [Option.bind_eq_bind, Option.bind_some, Syntax.requiredText?, hentries, List.map_id]
  rfl

end Catalog

/-- Settings can be saved where there is a table for them, and what was saved is loaded. -/
theorem Database.exists_save {d : Database} (h : d.settings.isSome = true) (s : Settings) :
    ∃ d', d.saveSettings s = .ok d' ∧ d'.loadSettings = .ok s := by
  obtain ⟨stored, hstored⟩ := Option.isSome_iff_exists.mp h
  have hsaved : d.saveSettings s = .ok { d with settings := some (some s.toJson.compact) } := by
    rw [saveSettings, saveSettingsText, hstored]
  exact ⟨_, hsaved, loadSettings_of_save hsaved⟩

/-- Everything that is written is read back from either of its texts: coordinates, the entries of
catalogs and whole catalogs, settings, and records, whose key is not written. So the settings that are
loaded are those that were saved. -/
theorem values_read_back :
    (∀ c : Coordinate, c.toJson.ReadsBack Coordinate.ofJson? c) ∧
    (∀ e : Catalog.Entry, e.toJson.ReadsBack Catalog.Entry.ofJson? e) ∧
    (∀ c : Catalog, c.toJson.ReadsBack Catalog.ofJson? c) ∧
    (∀ s : Settings, s.toJson.ReadsBack Settings.ofJson? s) ∧
    (∀ r : Ledger.Record, r.toJson.ReadsBack (Ledger.Record.ofJson? "") { r with key := "" }) ∧
    (∀ (d : Database) (s : Settings), d.settings.isSome = true →
      ∃ d', d.saveSettings s = .ok d' ∧ d'.loadSettings = .ok s) := by
  refine ⟨fun c => ?_, fun e => ?_, fun c => ?_, fun s => ?_, fun r => ?_, fun d s h => ?_⟩
  · exact .of_ofJson c.ofJson_toJson
  · exact .of_ofJson e.ofJson_toJson
  · exact .of_ofJson c.ofJson_toJson
  · exact .of_ofJson s.ofJson_toJson
  · exact .of_ofJson (r.ofJson_toJson "")
  · exact Database.exists_save h s

/-- Characters that are escaped, an empty text, and the largest numbers there are. -/
theorem values_read_back_of_escapes :
    let s : Settings := {
      catalogUrl := some "\"\\\n\x01é😀"
      cacheTtl := some 18446744073709551615
      maxRetries := some 4294967295
      defaultHostVersion := some "" }
    (Database.withTables {}).settings.isSome = true ∧
      ∃ d', (Database.withTables {}).saveSettings s = .ok d' ∧ d'.loadSettings = .ok s := by
  obtain ⟨-, -, -, -, -, hsaved⟩ := values_read_back
  exact ⟨rfl, hsaved _ _ rfl⟩

end PluginResolution
