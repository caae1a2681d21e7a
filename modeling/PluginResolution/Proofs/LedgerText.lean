import PluginResolution.Ledger.File
import PluginResolution.Proofs.JsonRecord

namespace PluginResolution.Ledger

open Json (Syntax toSyntaxFields textField)

section Fields

def writtenFields (l : List (String × Option String)) : List (Option String × Syntax) :=
  toSyntaxFields (l.flatMap fun f => textField f.1 f.2)

theorem writtenFields_eq (l : List (String × Option String)) :
    writtenFields l = toSyntaxFields (Json.present (l.map fun f => (f.1, f.2.map .text))) := by
  have hfield (f : String × Option String) :
      textField f.1 f.2 = (f.2.map Json.text).toList.map fun j => (f.1, j) := by
    cases f.2 with
    | none => rfl
    | some s => rfl
  rw [writtenFields, Json.present, List.flatMap_map]
  simp only [hfield]

/-- The values are read back under their names. -/
theorem record_writtenFields {l : List (String × Option String)} (hnodup : (l.map (·.1)).Nodup) :
    ((Syntax.object (writtenFields l)).record? (l.map (·.1)) false).bind (·.mapM Syntax.text?) =
      some (l.map (·.2)) := by
  have hnames : (l.map fun f => (f.1, f.2.map Json.text)).map (·.1) = l.map (·.1) := by
    rw [List.map_map]
    rfl
  have hrecord := Json.record_present (hnames ▸ hnodup) false
  rw [hnames, List.map_map, Json.toSyntax, ← writtenFields_eq] at hrecord
  rw [hrecord, Option.bind_some, List.mapM_map]
  exact mapM_of_pointwise fun f _ => Json.text_map_text f.2

end Fields

namespace Record

theorem nodup_names (r : Record) : (r.fields.map (·.1)).Nodup := by
  simp [fields]

/-- A record is read back, whatever its fields hold, under the key it stands at. -/
theorem ofJson_toJson (key : String) (r : Record) :
    ofJson? key r.toJson.toSyntax = some { r with key } := by
  have hread := record_writtenFields r.nodup_names
  have hjson : r.toJson.toSyntax = .object (writtenFields r.fields) := rfl
  rw [ofJson?, hjson]
  simp only [Option.bind_eq_bind]
  rw [← Option.bind_assoc]
  exact congrArg (Option.bind · _) hread

theorem key_of_ofJson {key : String} {j : Syntax} {r : Record}
    (h : ofJson? key j = some r) : r.key = key := by
  rw [ofJson?] at h
  obtain ⟨values, -, h⟩ := Option.bind_eq_some_iff.mp h
  obtain ⟨texts, -, h⟩ := Option.bind_eq_some_iff.mp h
  split at h
  · cases h
    rfl
  · cases h

end Record

namespace Contents

def Keyed (m : Contents) : Prop :=
  ∀ e ∈ m.entries, e.2.key = e.1

theorem keyed_empty : Keyed .empty :=
  fun _ h => absurd h List.not_mem_nil

theorem Keyed.insert {m : Contents} (h : m.Keyed) (r : Record) : Keyed (m.insert r.key r) := by
  intro e he
  rcases KeyMap.mem_insertEntry he with rfl | he
  · rfl
  · exact h e he

theorem Keyed.erase {m : Contents} (h : m.Keyed) (key : String) : Keyed (m.erase key) :=
  fun e he => h e (List.mem_filter.mp he).1

theorem mem_values {m : Contents} (h : m.Keyed) {r : Record} :
    r ∈ m.values ↔ m.find? r.key = some r := by
  rw [← KeyMap.mem_entries_iff, KeyMap.values, List.mem_map]
  constructor
  · rintro ⟨e, he, rfl⟩
    rwa [h e he]
  · intro he
    exact ⟨_, he, rfl⟩

/-- The records are in the order of their keys, each key once. -/
theorem values_sorted {m : Contents} (h : m.Keyed) :
    m.values.Pairwise (fun r s => r.key < s.key) := by
  rw [KeyMap.values, List.pairwise_map]
  refine m.sorted.imp_of_mem fun {e f} he hf hlt => ?_
  rwa [h e he, h f hf]

theorem ofJson_toJson {m : Contents} (h : m.Keyed) : ofJson? m.toJson.toSyntax = some m := by
  have hjson : m.toJson.toSyntax =
      .object (m.entries.map fun e => (some e.1, e.2.toJson.toSyntax)) := by
    rw [toJson, Json.toSyntax, Json.toSyntaxFields_eq, List.map_map]
    rfl
  have hentry : ∀ e ∈ m.entries, recordOf? (some e.1, e.2.toJson.toSyntax) = some e := by
    intro e he
    have hkey : { e.2 with key := e.1 } = e.2 := by rw [← h e he]
    rw [recordOf?, Record.ofJson_toJson, hkey, Option.map_some]
  rw [hjson, ofJson?, List.mapM_map]
  have hentries : m.entries.mapM (recordOf? ∘ fun e => (some e.1, e.2.toJson.toSyntax)) =
      some (m.entries.map id) := mapM_of_pointwise hentry
  rw [hentries, List.map_id, Option.map_some, KeyMap.ofList_entries]

/-- The text of a ledger is no blank one. -/
theorem text_not_blank (m : Contents) : Text.isBlankText m.text = false := by
  have hlist : m.text.toList = Json.prettyChars 0 m.toJson := String.toList_ofList
  -- it begins with a brace
  have hopen : ∃ r, Json.prettyChars 0 m.toJson = '\x7b' :: r := ⟨_, rfl⟩
  obtain ⟨r, hr⟩ := hopen
  rw [Text.isBlankText, hlist, hr, List.all_cons]
  rfl

theorem keyed_foldl_insert {l : List (String × Record)} (hl : ∀ e ∈ l, e.2.key = e.1)
    {m : Contents} (hm : m.Keyed) : Keyed (l.foldl (fun m e => m.insert e.1 e.2) m) := by
  induction l generalizing m with
  | nil => exact hm
  | cons e l ih =>
    have he : e.2.key = e.1 := hl e List.mem_cons_self
    have hinsert : Keyed (m.insert e.1 e.2) := by
      rw [← he]
      exact hm.insert e.2
    exact ih (fun e' he' => hl e' (List.mem_cons_of_mem _ he')) hinsert

theorem keyed_of_ofJson {j : Syntax} {m : Contents} (h : ofJson? j = some m) : m.Keyed := by
  cases j with
  | object fields =>
    obtain ⟨l, hl, rfl⟩ := Option.map_eq_some_iff.mp h
    refine keyed_foldl_insert (fun e he => ?_) keyed_empty
    obtain ⟨⟨name, j⟩, -, hf⟩ := mem_of_mapM hl he
    cases name with
    | none => cases hf
    | some key =>
      obtain ⟨r, hr, rfl⟩ := Option.map_eq_some_iff.mp hf
      exact Record.key_of_ofJson hr
  | _ => cases h

/-- Whatever text a ledger is read from, every record has its own key. -/
theorem keyed_of_ofText {text : String} {m : Contents} (h : ofText? text = some m) : m.Keyed := by
  rw [ofText?] at h
  split at h
  · cases h
    exact keyed_empty
  · obtain ⟨j, -, hj⟩ := Option.bind_eq_some_iff.mp h
    exact keyed_of_ofJson hj

/-- A ledger is read back from its text. -/
theorem ofText_text {m : Contents} (h : m.Keyed) : ofText? m.text = some m := by
  rw [ofText?, m.text_not_blank, text, Json.read_pretty]
  exact ofJson_toJson h

end Contents

end PluginResolution.Ledger
