import PluginResolution.PluginDirectory.Basic
import PluginResolution.Proofs.OutlineMeaning

namespace PluginResolution

open Yaml (Outline Scalar Tree IsName IsWord)

/-- How the words of a document are written: with a colon in front, or as they are. -/
inductive Spelling where
  | plain
  | symbols
  deriving DecidableEq, Repr

def Spelling.write : Spelling → String → String
  | plain, s => s
  | symbols, s => ":" ++ s

theorem Spelling.toList_symbol (s : String) : (symbols.write s).toList = ':' :: s.toList := by
  simp [write]

def Spelling.meaning? (sp : Spelling) (s : String) : Option Scalar :=
  Scalar.ofPlain? (sp.write s)

namespace PluginDirectory

def optionalField (sp : Spelling) (name : String) (value : Option String) (rest : Outline) :
    Outline :=
  match value with
  | none => rest
  | some s => .word (sp.write name) (sp.write s) rest

def versionLines (sp : Spelling) : List (String × String) → Outline
  | [] => .nothing
  | (line, version) :: r => .word (sp.write line) (sp.write version) (versionLines sp r)

def versionsField (sp : Spelling) (versions : List (String × String)) : Outline :=
  match versions with
  | [] => .nothing
  | _ => .block (sp.write "versions") (versionLines sp versions) .nothing

def Plugin.outline (sp : Spelling) (p : Plugin) : Outline :=
  optionalField sp "group_id" p.groupId
    (optionalField sp "artifact_id" p.artifactId (versionsField sp p.versions))

def outline (sp : Spelling) : PluginDirectory → Outline
  | [] => .nothing
  | p :: r => .block (sp.write p.key) (p.outline sp) (outline sp r)

/-- The directory as a document, in which every mapping is indented by `indent` and one more
spaces. -/
def written (d : PluginDirectory) (sp : Spelling) (indent : Nat) : String :=
  (outline sp d).document indent

/-- All that is written of a plugin but the names of its fields. -/
def Plugin.words (p : Plugin) : List String :=
  p.key :: (p.groupId.toList ++ p.artifactId.toList ++ p.versions.flatMap fun v => [v.1, v.2])

def IsPlainWord (s : String) : Prop :=
  IsName s.toList ∧ Scalar.isNullWord s = false

instance (s : String) : Decidable (IsPlainWord s) :=
  inferInstanceAs (Decidable (_ ∧ _))

structure Spellable (d : PluginDirectory) : Prop where
  nonempty : d ≠ []
  names : ∀ p ∈ d, ∀ s ∈ p.words, IsPlainWord s
  keys : (d.map (·.key)).Nodup
  lines : ∀ p ∈ d, (p.versions.map (·.1)).Nodup

def short (d : PluginDirectory) (sp : Spelling) : Bool :=
  d.all fun p => decide ((sp.write p.key).length ≤ 1024) &&
    p.versions.all fun v => decide ((sp.write v.1).length ≤ 1024)

/-- All words of a plugin mean something, and no two of its version lines mean the same. -/
def Plugin.apart (sp : Spelling) (p : Plugin) : Bool :=
  p.words.all (fun s => (sp.meaning? s).isSome) &&
    decide (p.versions.map fun v => sp.meaning? v.1).Nodup

/-- That, and no two keys mean the same. -/
def apart (d : PluginDirectory) (sp : Spelling) : Bool :=
  d.all (Plugin.apart sp) && decide (d.map fun p => sp.meaning? p.key).Nodup

variable {d : PluginDirectory} {sp : Spelling}

theorem Plugin.forall_words {p : Plugin} {P : String → Prop} :
    (∀ s ∈ p.words, P s) ↔ P p.key ∧ (∀ s ∈ p.groupId, P s) ∧ (∀ s ∈ p.artifactId, P s) ∧
      ∀ v ∈ p.versions, P v.1 ∧ P v.2 := by
  constructor
  · intro h
    refine ⟨h _ (by simp [words]), fun s hs => h s ?_, fun s hs => h s ?_, fun v hv => ?_⟩
    · simp [words, Option.mem_def.mp hs]
    · simp [words, Option.mem_def.mp hs]
    · have hall {s : String} (hs : s ∈ [v.1, v.2]) : s ∈ p.versions.flatMap fun v => [v.1, v.2] :=
        List.mem_flatMap.mpr ⟨v, hv, hs⟩
      exact ⟨h _ (by simp [words, hall]), h _ (by simp [words, hall])⟩
  · rintro ⟨hkey, hgroup, hartifact, hversions⟩ s hs
    simp only [words, List.mem_cons, List.mem_append, List.mem_flatMap, Option.mem_toList] at hs
    rcases hs with rfl | (hs | hs) | ⟨v, hv, hs⟩
    · exact hkey
    · exact hgroup s hs
    · exact hartifact s hs
    · rcases hs with rfl | rfl | hs
      · exact (hversions v hv).1
      · exact (hversions v hv).2
      · cases hs

theorem isWord_write {s : String} (h : IsName s.toList) : IsWord (sp.write s).toList := by
  cases sp with
  | plain => exact .inl h
  | symbols => exact .inr ⟨s.toList, Spelling.toList_symbol s, h⟩

theorem isName_field {name : String}
    (h : name = "group_id" ∨ name = "artifact_id" ∨ name = "versions") : IsName name.toList := by
  rcases h with rfl | rfl | rfl
  · exact Yaml.isName_iff.mpr (by decide)
  · exact Yaml.isName_iff.mpr (by decide)
  · exact Yaml.isName_iff.mpr (by decide)

/-! ## The document -/

theorem spelled_optional {name : String} {value : Option String} {rest : Outline}
    (hname : IsName name.toList) (hvalue : ∀ s ∈ value, IsName s.toList) (hrest : rest.Spelled) :
    (optionalField sp name value rest).Spelled := by
  cases value with
  | none => exact hrest
  | some s => exact ⟨isWord_write hname, isWord_write (hvalue s rfl), hrest⟩

theorem spelled_lines {versions : List (String × String)}
    (h : ∀ v ∈ versions, IsName v.1.toList ∧ IsName v.2.toList) :
    (versionLines sp versions).Spelled := by
  induction versions with
  | nil => trivial
  | cons v r ih =>
    obtain ⟨hline, hversion⟩ := h v List.mem_cons_self
    exact ⟨isWord_write hline, isWord_write hversion,
      ih fun w hw => h w (List.mem_cons_of_mem v hw)⟩

theorem spelled_plugin {p : Plugin} (h : ∀ s ∈ p.words, IsName s.toList) :
    (p.outline sp).Spelled := by
  obtain ⟨-, hgroup, hartifact, hversions⟩ := Plugin.forall_words.mp h
  have hversions : (versionsField sp p.versions).Spelled := by
    cases hp : p.versions with
    | nil => trivial
    | cons v r =>
      rw [hp] at hversions
      exact ⟨isWord_write (isName_field (.inr (.inr rfl))), spelled_lines hversions, trivial⟩
  exact spelled_optional (isName_field (.inl rfl)) hgroup
    (spelled_optional (isName_field (.inr (.inl rfl))) hartifact hversions)

theorem spelled_outline (h : ∀ p ∈ d, ∀ s ∈ p.words, IsName s.toList) :
    (outline sp d).Spelled := by
  induction d with
  | nil => trivial
  | cons p r ih =>
    have hp := h p List.mem_cons_self
    exact ⟨isWord_write (hp p.key List.mem_cons_self), spelled_plugin hp,
      ih fun q hq => h q (List.mem_cons_of_mem p hq)⟩

theorem depth_lines (sp : Spelling) (versions : List (String × String)) :
    (versionLines sp versions).depth = 1 := by
  induction versions with
  | nil => rfl
  | cons v r ih => exact ih

theorem depth_optional (name : String) (value : Option String) (rest : Outline) :
    (optionalField sp name value rest).depth = rest.depth := by
  cases value with
  | none => rfl
  | some s => rfl

theorem depth_plugin (sp : Spelling) (p : Plugin) : (p.outline sp).depth ≤ 2 := by
  rw [Plugin.outline, depth_optional, depth_optional]
  cases p.versions with
  | nil => exact Nat.le_succ 1
  | cons v r =>
    have hlines := depth_lines sp (v :: r)
    exact Nat.le_of_eq (congrArg (fun n => max (n + 1) 1) hlines)

theorem depth_outline (d : PluginDirectory) : (outline sp d).depth ≤ 3 := by
  induction d with
  | nil => exact (by decide : 1 ≤ 3)
  | cons p r ih =>
    have hp := depth_plugin sp p
    rw [outline, Outline.depth]
    omega

/-! ## Its keys -/

theorem length_field {name : String}
    (h : name = "group_id" ∨ name = "artifact_id" ∨ name = "versions") :
    decide ((sp.write name).length ≤ 1024) = true := by
  rcases h with rfl | rfl | rfl
  · cases sp <;> rfl
  · cases sp <;> rfl
  · cases sp <;> rfl

theorem fits_lines (versions : List (String × String)) :
    (versionLines sp versions).fits =
      versions.all fun v => decide ((sp.write v.1).length ≤ 1024) := by
  induction versions with
  | nil => rfl
  | cons v r ih => rw [versionLines, Outline.fits, ih, List.all_cons]

theorem fits_plugin (p : Plugin) : (p.outline sp).fits =
    p.versions.all fun v => decide ((sp.write v.1).length ≤ 1024) := by
  have hoptional {name : String} (hname : decide ((sp.write name).length ≤ 1024) = true)
      (value : Option String) (rest : Outline) :
      (optionalField sp name value rest).fits = rest.fits := by
    cases value with
    | none => rfl
    | some s => rw [optionalField, Outline.fits, hname, Bool.true_and]
  rw [Plugin.outline, hoptional (length_field (.inl rfl)),
    hoptional (length_field (.inr (.inl rfl)))]
  cases p.versions with
  | nil => rfl
  | cons v r =>
    have hblock : (versionsField sp (v :: r)).fits =
        (decide ((sp.write "versions").length ≤ 1024) && (versionLines sp (v :: r)).fits && true) :=
      rfl
    rw [hblock, length_field (.inr (.inr rfl)), fits_lines, Bool.true_and, Bool.and_true]

theorem fits_outline (d : PluginDirectory) : (outline sp d).fits = d.short sp := by
  induction d with
  | nil => rfl
  | cons p r ih =>
    rw [outline, Outline.fits, fits_plugin, ih]
    rfl

/-! ## What its words mean -/

theorem meaning_field (sp : Spelling) {name : String}
    (h : name = "group_id" ∨ name = "artifact_id" ∨ name = "versions") :
    sp.meaning? name = some (.text (sp.write name)) := by
  rcases h with rfl | rfl | rfl
  · cases sp <;> rfl
  · cases sp <;> rfl
  · cases sp <;> rfl

theorem meanings_lines (versions : List (String × String)) :
    (versionLines sp versions).meanings = versions.map fun v => sp.meaning? v.1 := by
  induction versions with
  | nil => rfl
  | cons v r ih =>
    rw [List.map_cons, ← ih]
    rfl

theorem entriesRead_lines (versions : List (String × String)) :
    (versionLines sp versions).entriesRead =
      versions.all fun v => (sp.meaning? v.1).isSome && (sp.meaning? v.2).isSome := by
  induction versions with
  | nil => rfl
  | cons v r ih =>
    rw [List.all_cons, ← ih]
    rfl

/-- The names of the fields of a plugin are told apart. -/
theorem nodup_fields (p : Plugin) : (p.outline sp).meanings.Nodup := by
  have hoptional (name : String) (value : Option String) (rest : Outline) :
      (optionalField sp name value rest).keys.Sublist (sp.write name :: rest.keys) := by
    cases value with
    | none => exact List.sublist_cons_self _ _
    | some s => exact List.Sublist.refl _
  have hversions : (versionsField sp p.versions).keys.Sublist [sp.write "versions"] := by
    cases p.versions with
    | nil => exact List.nil_sublist _
    | cons v r => exact List.Sublist.refl _
  have hartifact := (hoptional "artifact_id" p.artifactId
    (versionsField sp p.versions)).trans (hversions.cons_cons _)
  have hkeys := (hoptional "group_id" p.groupId _).trans (hartifact.cons_cons _)
  have hall : ([sp.write "group_id", sp.write "artifact_id", sp.write "versions"].map
      Scalar.ofPlain?).Nodup := by
    change [sp.meaning? "group_id", sp.meaning? "artifact_id", sp.meaning? "versions"].Nodup
    rw [meaning_field sp (.inl rfl), meaning_field sp (.inr (.inl rfl)),
      meaning_field sp (.inr (.inr rfl))]
    cases sp with
    | plain => decide
    | symbols => decide
  exact hall.sublist (hkeys.map _)

theorem entriesRead_optional {name : String}
    (h : name = "group_id" ∨ name = "artifact_id" ∨ name = "versions") (value : Option String)
    (rest : Outline) : (optionalField sp name value rest).entriesRead =
      (value.toList.all (fun s => (sp.meaning? s).isSome) && rest.entriesRead) := by
  cases value with
  | none => rfl
  | some s =>
    have hname : (Scalar.ofPlain? (sp.write name)).isSome = true := by
      rw [← Spelling.meaning?, meaning_field sp h, Option.isSome_some]
    rw [optionalField, Outline.entriesRead, hname, Bool.true_and, Option.toList_some,
      List.all_cons, List.all_nil, Bool.and_true]
    rfl

theorem entriesRead_versions (versions : List (String × String)) :
    (versionsField sp versions).entriesRead =
      ((versions.all fun v => (sp.meaning? v.1).isSome && (sp.meaning? v.2).isSome) &&
        decide (versions.map fun v => sp.meaning? v.1).Nodup) := by
  cases versions with
  | nil => rfl
  | cons v r =>
    have hname : (Scalar.ofPlain? (sp.write "versions")).isSome = true := by
      rw [← Spelling.meaning?, meaning_field sp (.inr (.inr rfl)), Option.isSome_some]
    have hblock : (versionsField sp (v :: r)).entriesRead =
        ((Scalar.ofPlain? (sp.write "versions")).isSome &&
          ((versionLines sp (v :: r)).entriesRead &&
            decide (versionLines sp (v :: r)).meanings.Nodup) && true) := rfl
    rw [hblock, hname, Bool.true_and, Bool.and_true, entriesRead_lines]
    simp only [meanings_lines]

/-- The mapping of a plugin means something when its words do and its lines are told apart. -/
theorem reads_plugin (p : Plugin) :
    ((sp.meaning? p.key).isSome && (p.outline sp).reads) = p.apart sp := by
  rw [Outline.reads, decide_eq_true (nodup_fields p), Bool.and_true, Plugin.outline,
    entriesRead_optional (.inl rfl), entriesRead_optional (.inr (.inl rfl)), entriesRead_versions,
    Plugin.apart, Plugin.words, List.all_cons, List.all_append, List.all_append, List.all_flatMap]
  simp only [List.all_cons, List.all_nil, Bool.and_true, Bool.and_assoc]

theorem meanings_outline (d : PluginDirectory) :
    (outline sp d).meanings = d.map fun p => sp.meaning? p.key := by
  induction d with
  | nil => rfl
  | cons p r ih =>
    rw [List.map_cons, ← ih]
    rfl

theorem entriesRead_outline (d : PluginDirectory) :
    (outline sp d).entriesRead = d.all (Plugin.apart sp) := by
  induction d with
  | nil => rfl
  | cons p r ih =>
    rw [List.all_cons, ← reads_plugin, ← ih]
    rfl

theorem reads_outline (d : PluginDirectory) : (outline sp d).reads = d.apart sp := by
  rw [Outline.reads, entriesRead_outline, apart]
  simp only [meanings_outline]

end PluginDirectory

end PluginResolution
