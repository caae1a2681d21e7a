import PluginResolution.PluginDirectory.Basic
import PluginResolution.Proofs.ReadLists

namespace PluginResolution.PluginDirectory

open Yaml (Tree)

def IsScalar (t : Tree) : Prop :=
  ∃ s, scalarText? t = some s

def isNamed (name : String) (key : Tree) : Bool :=
  (scalarText? key).any fun s => s = name || s = ":" ++ name

def valuesAt (name : String) (fields : List (Tree × Tree)) : List Tree :=
  (fields.filter fun f => isNamed name f.1).map (·.2)

inductive ReadsField {α : Type} (read : Tree → Option α) (absent : α) : List Tree → α → Prop
  | absent : ReadsField read absent [] absent
  | present {t : Tree} {a : α} (h : read t = some a) : ReadsField read absent [t] a

def entryText? (e : Tree × Tree) : Option (String × Tree) := do
  return (← scalarText? e.1, e.2)

def IsEntry (e : Tree × Tree) (f : String × Tree) : Prop :=
  scalarText? e.1 = some f.1 ∧ e.2 = f.2

section Entries

variable {tag : Option String} {fields : List (Tree × Tree)} {texts : List (String × Tree)}

theorem entryText_eq_some_iff {e : Tree × Tree} {f : String × Tree} :
    entryText? e = some f ↔ IsEntry e f := by
  cases he : scalarText? e.1 with
  | none => simp [entryText?, IsEntry, he]
  | some s => simp [entryText?, IsEntry, he, Prod.ext_iff]

/-- Entries are read of a mapping, or where nothing is written. -/
theorem entries_eq_some {t : Tree} (h : entries? t = some fields) :
    (∃ tag, t = .mapping tag fields) ∨ ∃ tag, t = .scalar tag true "" := by
  rw [entries?.eq_def] at h
  split at h
  · cases h
    exact .inl ⟨_, rfl⟩
  · exact .inr ⟨_, rfl⟩
  · cases h

theorem textEntries_mapping (tag : Option String) (fields : List (Tree × Tree)) :
    textEntries? (.mapping tag fields) = fields.mapM entryText? :=
  rfl

theorem textEntries_mapping_iff :
    textEntries? (.mapping tag fields) = some texts ↔ List.Forall₂ IsEntry fields texts := by
  rw [textEntries_mapping, mapM_eq_some_iff]
  simp only [entryText_eq_some_iff]

theorem exists_textEntries_iff :
    (∃ texts, textEntries? (.mapping tag fields) = some texts) ↔
      ∀ f ∈ fields, IsScalar f.1 := by
  rw [textEntries_mapping, exists_mapM_iff]
  refine forall₂_congr fun e _ => ⟨?_, ?_⟩
  · rintro ⟨f, hf⟩
    exact ⟨f.1, (entryText_eq_some_iff.mp hf).1⟩
  · rintro ⟨s, hs⟩
    exact ⟨(s, e.2), entryText_eq_some_iff.mpr ⟨hs, rfl⟩⟩

theorem valuesAt_cons (name : String) (f : Tree × Tree) (fields : List (Tree × Tree)) :
    valuesAt name (f :: fields) =
      if isNamed name f.1 then f.2 :: valuesAt name fields else valuesAt name fields := by
  rw [valuesAt, List.filter_cons]
  split
  · rfl
  · rfl

theorem mem_of_valuesAt {name : String} {v : Tree} (h : v ∈ valuesAt name fields) :
    ∃ f ∈ fields, f.2 = v := by
  obtain ⟨f, hf, rfl⟩ := List.mem_map.mp h
  exact ⟨f, (List.mem_filter.mp hf).1, rfl⟩

theorem values_of_texts (h : List.Forall₂ IsEntry fields texts) (name : String) :
    (texts.filter fun f => f.1 = name || f.1 = ":" ++ name).map (·.2) = valuesAt name fields := by
  have hnamed : ∀ e f, IsEntry e f →
      (isNamed name e.1 = true ↔ (decide (f.1 = name) || decide (f.1 = ":" ++ name)) = true) := by
    intro e f hef
    rw [isNamed, hef.1]
    rfl
  -- both lists are filtered by the same names, key by key
  have hfiltered := List.rel_filter (fun e f hef => hnamed e f hef) h
  rw [valuesAt, eq_comm, ← List.forall₂_eq_eq_eq, List.forall₂_map_left_iff,
    List.forall₂_map_right_iff]
  exact hfiltered.imp fun e f hef => hef.2

/-- A field is found if no other has its name. -/
theorem field_eq_some_iff (h : List.Forall₂ IsEntry fields texts) {name : String}
    {t? : Option Tree} : field? name texts = some t? ↔ valuesAt name fields = t?.toList := by
  rw [← values_of_texts h, field?]
  cases texts.filter fun f => f.1 = name || f.1 = ":" ++ name with
  | nil => cases t? <;> simp
  | cons f r =>
    cases r with
    | nil => cases t? <;> simp
    | cons g r => cases t? <;> simp

end Entries

section Fields

variable {α : Type} {read : Tree → Option α} {absent : α} {vs : List Tree}

theorem exists_readsField_iff :
    (∃ a, ReadsField read absent vs a) ↔ vs.length ≤ 1 ∧ ∀ v ∈ vs, ∃ a, read v = some a := by
  constructor
  · rintro ⟨a, h⟩
    cases h with
    | absent => simp
    | present h => simp [h]
  · rintro ⟨hone, hread⟩
    match vs, hone with
    | [], _ => exact ⟨absent, .absent⟩
    | [v], _ =>
      obtain ⟨a, ha⟩ := hread v List.mem_cons_self
      exact ⟨a, .present ha⟩

/-- A field is looked up and then read. -/
theorem readsField_iff {fields : List (Tree × Tree)} {texts : List (String × Tree)}
    (h : List.Forall₂ IsEntry fields texts) {name : String} {a : α} :
    ((field? name texts).bind fun t? => match t? with
      | none => some absent
      | some t => read t) = some a ↔ ReadsField read absent (valuesAt name fields) a := by
  rw [Option.bind_eq_some_iff]
  constructor
  · rintro ⟨t?, hfield, hread⟩
    rw [(field_eq_some_iff h).mp hfield]
    cases t? with
    | none =>
      cases hread
      exact .absent
    | some t => exact .present hread
  · intro hreads
    generalize hvalues : valuesAt name fields = vs at hreads
    cases hreads with
    | absent => exact ⟨none, (field_eq_some_iff h).mpr hvalues, rfl⟩
    | @present t a hread => exact ⟨some t, (field_eq_some_iff h).mpr hvalues, hread⟩

end Fields

section Mapping

variable {tag : Option String} {fields : List (Tree × Tree)} {key : String} {p : Plugin}

structure ReadsPlugin (key : String) (fields : List (Tree × Tree)) (p : Plugin) : Prop where
  keys : ∀ f ∈ fields, IsScalar f.1
  key : p.key = stripColon key
  groupId : ∃ s?, ReadsField optionalText? none (valuesAt "group_id" fields) s? ∧
    p.groupId = s?.map stripColon
  artifactId : ∃ s?, ReadsField optionalText? none (valuesAt "artifact_id" fields) s? ∧
    p.artifactId = s?.map stripColon
  versions : ReadsField versions? [] (valuesAt "versions" fields) p.versions

theorem textField_iff {texts : List (String × Tree)} (h : List.Forall₂ IsEntry fields texts)
    {name : String} {s? : Option String} :
    textField? name texts = some s? ↔ ReadsField optionalText? none (valuesAt name fields) s? :=
  readsField_iff h

theorem plugin_mapping (key : String) (tag : Option String) (fields : List (Tree × Tree)) :
    plugin? key (.mapping tag fields) =
      (textEntries? (.mapping tag fields)).bind fun texts =>
        (textField? "group_id" texts).bind fun groupId =>
          (textField? "artifact_id" texts).bind fun artifactId =>
            ((field? "versions" texts).bind fun t? => match t? with
              | none => some []
              | some t => versions? t).bind fun versions =>
                some ⟨stripColon key, groupId.map stripColon, artifactId.map stripColon, versions⟩ := by
  have hmapping : isNull (.mapping tag fields) = false := rfl
  rw [plugin?, hmapping, if_neg Bool.false_ne_true]
  refine Option.bind_congr fun texts _ => ?_
  refine Option.bind_congr fun groupId _ => ?_
  refine Option.bind_congr fun artifactId _ => ?_
  rw [Option.bind_assoc]
  refine Option.bind_congr fun t? _ => ?_
  cases t? with
  | none => rfl
  | some t => rfl

theorem plugin_mapping_iff :
    plugin? key (.mapping tag fields) = some p ↔ ReadsPlugin key fields p := by
  rw [plugin_mapping]
  constructor
  · intro h
    obtain ⟨texts, htexts, h⟩ := Option.bind_eq_some_iff.mp h
    obtain ⟨groupId, hgroup, h⟩ := Option.bind_eq_some_iff.mp h
    obtain ⟨artifactId, hartifact, h⟩ := Option.bind_eq_some_iff.mp h
    obtain ⟨versions, hversions, h⟩ := Option.bind_eq_some_iff.mp h
    cases h
    -- all fields are looked up in the same texts
    have hentries := textEntries_mapping_iff.mp htexts
    exact {
      keys := exists_textEntries_iff.mp ⟨texts, htexts⟩
      key := rfl
      groupId := ⟨groupId, (textField_iff hentries).mp hgroup, rfl⟩
      artifactId := ⟨artifactId, (textField_iff hentries).mp hartifact, rfl⟩
      versions := (readsField_iff hentries).mp hversions }
  · intro h
    obtain ⟨texts, htexts⟩ := exists_textEntries_iff.mpr h.keys
    obtain ⟨groupId, hgroup, hgroupId⟩ := h.groupId
    obtain ⟨artifactId, hartifact, hartifactId⟩ := h.artifactId
    have hentries := textEntries_mapping_iff.mp htexts
    have hversions := (readsField_iff hentries).mpr h.versions
    refine Option.bind_eq_some_iff.mpr ⟨texts, htexts, ?_⟩
    refine Option.bind_eq_some_iff.mpr ⟨groupId, (textField_iff hentries).mpr hgroup, ?_⟩
    refine Option.bind_eq_some_iff.mpr ⟨artifactId, (textField_iff hentries).mpr hartifact, ?_⟩
    refine Option.bind_eq_some_iff.mpr ⟨p.versions, hversions, ?_⟩
    rw [← hgroupId, ← hartifactId, ← h.key]

end Mapping

section Directory

variable {tag : Option String} {entries : List (Tree × Tree)} {d : PluginDirectory}

theorem ofTree_mapping (tag : Option String) (entries : List (Tree × Tree)) :
    ofTree (.mapping tag entries) = match ofTree? (.mapping tag entries) with
      | some d => .ok d
      | none => .error (.invalidDocument "the mapping is no directory") :=
  rfl

theorem ofTree_eq_ok_iff :
    ofTree (.mapping tag entries) = .ok d ↔ ofTree? (.mapping tag entries) = some d := by
  rw [ofTree_mapping]
  cases ofTree? (.mapping tag entries) with
  | none => simp
  | some d => simp

/-- A mapping that is no directory is refused as that. -/
theorem ofTree_refused (h : ∀ d, ofTree (.mapping tag entries) ≠ .ok d) :
    ∃ detail, ofTree (.mapping tag entries) = .error (.invalidDocument detail) := by
  cases hread : ofTree? (.mapping tag entries) with
  | none =>
    refine ⟨"the mapping is no directory", ?_⟩
    rw [ofTree_mapping, hread]
  | some d => exact absurd (ofTree_eq_ok_iff.mpr hread) (h d)

/-- The plugins of a directory are read entry by entry. -/
theorem ofTree_entries_iff : ofTree? (.mapping tag entries) = some d ↔
    List.Forall₂ (fun e p => ∃ s, scalarText? e.1 = some s ∧ plugin? s e.2 = some p) entries d := by
  have hread : ofTree? (.mapping tag entries) =
      (entries.mapM entryText?).bind fun texts => texts.mapM fun f => plugin? f.1 f.2 := rfl
  have hentry (e : Tree × Tree) (p : Plugin) :
      (∃ f, entryText? e = some f ∧ plugin? f.1 f.2 = some p) ↔
        ∃ s, scalarText? e.1 = some s ∧ plugin? s e.2 = some p := by
    simp only [entryText_eq_some_iff]
    constructor
    · rintro ⟨f, ⟨hkey, hvalue⟩, h⟩
      exact ⟨f.1, hkey, hvalue ▸ h⟩
    · rintro ⟨s, hkey, h⟩
      exact ⟨(s, e.2), ⟨hkey, rfl⟩, h⟩
  rw [hread, mapM_bind_mapM_iff]
  simp only [hentry]

end Directory

end PluginResolution.PluginDirectory
