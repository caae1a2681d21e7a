import PluginResolution.Proofs.OutlineMeaning
import PluginResolution.Proofs.PluginFields

namespace PluginResolution

namespace Yaml

inductive Tree.Untagged : Tree → Prop
  | scalar (plain : Bool) (text : String) : Untagged (.scalar none plain text)
  | sequence {items : List Tree} (h : ∀ t ∈ items, Untagged t) : Untagged (.sequence none items)
  | mapping {entries : List (Tree × Tree)} (keys : ∀ e ∈ entries, Untagged e.1)
      (values : ∀ e ∈ entries, Untagged e.2) : Untagged (.mapping none entries)

/-- The tree means nothing, which need not be the blank. -/
def Tree.MeansNothing (t : Tree) : Prop :=
  Value.ofTree? t = some (.scalar .null)

def Tree.fields : Tree → List (Tree × Tree)
  | .mapping _ entries => entries
  | _ => []

theorem Scalar.ofPlain_eq_null_iff {s : String} :
    Scalar.ofPlain? s = some .null ↔ s = "" ∨ Scalar.isNullWord s = true := by
  constructor
  · intro h
    by_contra hne
    have hword : ¬((decide (s = "") || Scalar.isNullWord s) = true) := by simpa using hne
    rw [ofPlain?, if_neg hword] at h
    -- truth values, integers, numbers and texts are something
    split at h
    · cases h
    split at h
    · obtain ⟨n, -, hn⟩ := Option.map_eq_some_iff.mp h
      cases hn
    split at h
    · cases h
    split at h
    · cases h
    · cases h
  · intro h
    have hword : (decide (s = "") || Scalar.isNullWord s) = true := by simpa using h
    rw [ofPlain?, if_pos hword]

end Yaml

namespace PluginDirectory

open Yaml (Tree)

inductive DropsColon : String → String → Prop
  | dropped (s : String) : DropsColon (":" ++ s) s
  | kept {s : String} (h : ∀ r, s ≠ ":" ++ r) : DropsColon s s

inductive ReadsText : List Tree → Option String → Prop
  | missing : ReadsText [] none
  | nothing {v : Tree} (h : v.MeansNothing) : ReadsText [v] none
  | text {v : Tree} {s r : String} (h : ¬v.MeansNothing) (hs : scalarText? v = some s)
      (hr : DropsColon s r) : ReadsText [v] (some r)

/-- The versions of the lines, in order. A line without a version is passed over. -/
inductive ReadsLines : List (Tree × Tree) → List (String × String) → Prop
  | nil : ReadsLines [] []
  | skip {e : Tree × Tree} {es : List (Tree × Tree)} {vs : List (String × String)} {s : String}
      (hkey : scalarText? e.1 = some s) (h : e.2.MeansNothing) (rest : ReadsLines es vs) :
      ReadsLines (e :: es) vs
  | cons {e : Tree × Tree} {es : List (Tree × Tree)} {vs : List (String × String)}
      {s t line version : String} (hkey : scalarText? e.1 = some s) (hline : DropsColon s line)
      (h : ¬e.2.MeansNothing) (ht : scalarText? e.2 = some t) (hversion : DropsColon t version)
      (rest : ReadsLines es vs) : ReadsLines (e :: es) ((line, version) :: vs)

inductive ReadsVersions : List Tree → List (String × String) → Prop
  | missing : ReadsVersions [] []
  | lines {tag : Option String} {es : List (Tree × Tree)} {vs : List (String × String)}
      (h : ReadsLines es vs) : ReadsVersions [.mapping tag es] vs

inductive Lists : Tree × Tree → Plugin → Prop
  | nothing {k v : Tree} {s key : String} (hk : scalarText? k = some s) (hkey : DropsColon s key)
      (h : v.MeansNothing) : Lists (k, v) { key }
  | mapping {k : Tree} {tag : Option String} {fields : List (Tree × Tree)} {s : String}
      {p : Plugin} (hk : scalarText? k = some s) (hkey : DropsColon s p.key)
      (keys : ∀ f ∈ fields, IsScalar f.1)
      (groupId : ReadsText (valuesAt "group_id" fields) p.groupId)
      (artifactId : ReadsText (valuesAt "artifact_id" fields) p.artifactId)
      (versions : ReadsVersions (valuesAt "versions" fields) p.versions) :
      Lists (k, .mapping tag fields) p

inductive IsVersions : Tree → Prop
  | mapping {tag : Option String} {es : List (Tree × Tree)}
      (h : ∀ e ∈ es, IsScalar e.1 ∧ IsScalar e.2) : IsVersions (.mapping tag es)

/-- What a plugin may be in a directory. Fields with other names may hold anything. -/
inductive IsPlugin : Tree → Prop
  | nothing {v : Tree} (h : v.MeansNothing) : IsPlugin v
  | mapping {tag : Option String} {fields : List (Tree × Tree)}
      (keys : ∀ f ∈ fields, IsScalar f.1)
      (once : ∀ name ∈ ["group_id", "artifact_id", "versions"], (valuesAt name fields).length ≤ 1)
      (texts : ∀ name ∈ ["group_id", "artifact_id"], ∀ v ∈ valuesAt name fields, IsScalar v)
      (versions : ∀ v ∈ valuesAt "versions" fields, IsVersions v) : IsPlugin (.mapping tag fields)

def IsDirectory (entries : List (Tree × Tree)) : Prop :=
  ∀ e ∈ entries, IsScalar e.1 ∧ IsPlugin e.2

section Texts

variable {s r : String} {t : Tree} {vs : List Tree} {r? : Option String}

theorem withTag_ne_scalar {tag : Option String} {v : Yaml.Value} {c : Yaml.Scalar}
    (h : v ≠ .scalar c) : Yaml.Value.withTag tag v ≠ .scalar c := by
  cases tag with
  | none => exact h
  | some tag =>
    rw [Yaml.Value.withTag]
    split
    · exact nofun
    · exact h

theorem dropsColon_iff : DropsColon s r ↔ r = stripColon s := by
  have hcolon (u : String) : (":" ++ u).toList = ':' :: u.toList := String.toList_append
  have hdropped (u : String) : stripColon (":" ++ u) = u := by
    rw [stripColon, hcolon]
    exact String.ofList_toList
  have hkept (h : ∀ u, s ≠ ":" ++ u) : stripColon s = s := by
    rw [stripColon]
    split
    · rename_i l heq
      refine absurd (String.toList_inj.mp ?_) (h (String.ofList l))
      rw [hcolon, String.toList_ofList, heq]
    · rfl
  constructor
  · intro h
    cases h with
    | dropped => exact (hdropped r).symm
    | kept h => exact (hkept h).symm
  · rintro rfl
    by_cases h : ∃ u, s = ":" ++ u
    · obtain ⟨u, rfl⟩ := h
      rw [hdropped]
      exact .dropped u
    · have hnone : ∀ u, s ≠ ":" ++ u := fun u hu => h ⟨u, hu⟩
      rw [hkept hnone]
      exact .kept hnone

theorem isNull_iff (untagged : t.Untagged) : isNull t = true ↔ t.MeansNothing := by
  rw [Tree.MeansNothing]
  cases untagged with
  | scalar plain text =>
    cases plain with
    | false => simp [isNull, Yaml.Value.ofTree?, Yaml.Value.ofScalar?]
    | true =>
      simp [isNull, Yaml.Value.ofTree?, Yaml.Value.ofScalar?, Yaml.Scalar.ofPlain_eq_null_iff]
  | @sequence items h =>
    cases hitems : Yaml.Value.ofItems? items with
    | none => simp [isNull, Yaml.Value.ofTree?, hitems]
    | some vs => simp [isNull, Yaml.Value.ofTree?, hitems, Yaml.Value.withTag]
  | @mapping entries keys values =>
    cases hentries : Yaml.Value.ofEntries? entries with
    | none => simp [isNull, Yaml.Value.ofTree?, hentries]
    | some es => simp [isNull, Yaml.Value.ofTree?, hentries, Yaml.Value.withTag]

/-- What means nothing is a scalar. -/
theorem isScalar_of_meansNothing (h : t.MeansNothing) : IsScalar t := by
  cases t with
  | scalar tag plain text => exact ⟨text, rfl⟩
  | sequence tag items =>
    rw [Tree.MeansNothing, Yaml.Value.ofTree?] at h
    obtain ⟨vs, -, h⟩ := Option.map_eq_some_iff.mp h
    exact absurd h (withTag_ne_scalar (by simp))
  | mapping tag entries =>
    rw [Tree.MeansNothing, Yaml.Value.ofTree?] at h
    split at h
    · split at h
      · exact absurd (Option.some.inj h) (withTag_ne_scalar (by simp))
      · cases h
    · cases h

theorem optionalText_eq_some_iff (untagged : t.Untagged) :
    optionalText? t = some r? ↔
      (t.MeansNothing ∧ r? = none) ∨
        (¬t.MeansNothing ∧ ∃ s, scalarText? t = some s ∧ r? = some s) := by
  rw [← isNull_iff untagged, optionalText?]
  by_cases h : isNull t = true
  · simp [h, eq_comm]
  · rw [if_neg h, Option.map_eq_some_iff]
    simp [h, eq_comm]

theorem readsText_iff (untagged : ∀ v ∈ vs, v.Untagged) :
    ReadsText vs r? ↔ ∃ s?, ReadsField optionalText? none vs s? ∧ r? = s?.map stripColon := by
  constructor
  · intro h
    cases h with
    | missing => exact ⟨none, .absent, rfl⟩
    | @nothing v h =>
      have hread := (optionalText_eq_some_iff (untagged v List.mem_cons_self)).mpr (.inl ⟨h, rfl⟩)
      exact ⟨none, .present hread, rfl⟩
    | @text v s r h hs hr =>
      have hread := (optionalText_eq_some_iff (untagged v List.mem_cons_self)).mpr
        (.inr ⟨h, s, hs, rfl⟩)
      exact ⟨some s, .present hread, congrArg some (dropsColon_iff.mp hr)⟩
  · rintro ⟨s?, hread, rfl⟩
    cases hread with
    | absent => exact .missing
    | @present v s? hread =>
      rcases (optionalText_eq_some_iff (untagged v List.mem_cons_self)).mp hread with
        ⟨h, rfl⟩ | ⟨h, s, hs, rfl⟩
      · exact .nothing h
      · exact .text h hs (dropsColon_iff.mpr rfl)

end Texts

section Versions

variable {tag : Option String} {es : List (Tree × Tree)} {vs : List (String × String)}

def lineText? (f : String × Tree) : Option (String × Option String) := do
  return (f.1, ← optionalText? f.2)

def IsLine (e : Tree × Tree) (l : String × Option String) : Prop :=
  scalarText? e.1 = some l.1 ∧ optionalText? e.2 = some l.2

theorem isLine_iff {e : Tree × Tree} {l : String × Option String} :
    (∃ f, entryText? e = some f ∧ lineText? f = some l) ↔ IsLine e l := by
  simp only [entryText_eq_some_iff]
  constructor
  · rintro ⟨f, ⟨hkey, hvalue⟩, h⟩
    obtain ⟨r?, hr, h⟩ := Option.bind_eq_some_iff.mp h
    cases h
    exact ⟨hkey, hvalue ▸ hr⟩
  · rintro ⟨hkey, hvalue⟩
    refine ⟨(l.1, e.2), ⟨hkey, rfl⟩, ?_⟩
    rw [lineText?, hvalue]
    rfl

theorem versions_mapping_iff :
    versions? (.mapping tag es) = some vs ↔ ∃ lines, List.Forall₂ IsLine es lines ∧
      (lines.filterMap fun l => l.2.map fun v => (stripColon l.1, stripColon v)) = vs := by
  have hopened : versions? (.mapping tag es) =
      ((es.mapM entryText?).bind fun texts => texts.mapM lineText?).bind fun lines =>
        some (lines.filterMap fun l => l.2.map fun v => (stripColon l.1, stripColon v)) := by
    rw [Option.bind_assoc]
    rfl
  rw [hopened, Option.bind_eq_some_iff]
  simp only [mapM_bind_mapM_iff, isLine_iff, Option.some_inj]

theorem readsLines_iff (untagged : ∀ e ∈ es, e.2.Untagged) :
    versions? (.mapping tag es) = some vs ↔ ReadsLines es vs := by
  rw [versions_mapping_iff]
  -- line by line: both readings pass over the same lines
  constructor
  · rintro ⟨lines, hlines, rfl⟩
    induction hlines with
    | nil => exact .nil
    | @cons e l es lines hline _ ih =>
      have hrest := ih fun e' he' => untagged e' (List.mem_cons_of_mem e he')
      obtain ⟨line, version?⟩ := l
      obtain ⟨hkey, hvalue⟩ := hline
      rcases (optionalText_eq_some_iff (untagged e List.mem_cons_self)).mp hvalue with
        ⟨h, rfl⟩ | ⟨h, t, ht, rfl⟩
      · exact .skip hkey h hrest
      · exact .cons hkey (dropsColon_iff.mpr rfl) h ht (dropsColon_iff.mpr rfl) hrest
  · intro h
    induction h with
    | nil => exact ⟨[], .nil, rfl⟩
    | @skip e es vs s hkey h _ ih =>
      obtain ⟨lines, hlines, rfl⟩ := ih fun e' he' => untagged e' (List.mem_cons_of_mem e he')
      have hvalue := (optionalText_eq_some_iff (untagged e List.mem_cons_self)).mpr (.inl ⟨h, rfl⟩)
      exact ⟨(s, none) :: lines, .cons ⟨hkey, hvalue⟩ hlines, rfl⟩
    | @cons e es vs s t line version hkey hline h ht hversion _ ih =>
      obtain ⟨lines, hlines, rfl⟩ := ih fun e' he' => untagged e' (List.mem_cons_of_mem e he')
      have hvalue := (optionalText_eq_some_iff (untagged e List.mem_cons_self)).mpr
        (.inr ⟨h, t, ht, rfl⟩)
      refine ⟨(s, some t) :: lines, .cons ⟨hkey, hvalue⟩ hlines, ?_⟩
      rw [dropsColon_iff.mp hline, dropsColon_iff.mp hversion]
      rfl

/-- What is there is read entry by entry only if it is a mapping. -/
theorem mapping_of_textEntries {t : Tree} {texts : List (String × Tree)} (untagged : t.Untagged)
    (written : ¬t.MeansNothing) (h : textEntries? t = some texts) :
    ∃ es, t = .mapping none es ∧ ∀ e ∈ es, e.2.Untagged := by
  obtain ⟨es, hes, -⟩ := Option.bind_eq_some_iff.mp h
  rcases entries_eq_some hes with ⟨tag, rfl⟩ | ⟨tag, rfl⟩
  · cases untagged with
    | mapping keys values => exact ⟨es, rfl, values⟩
  · cases untagged with
    | scalar plain text => exact absurd rfl written

theorem readsVersions_iff {values : List Tree} (untagged : ∀ v ∈ values, v.Untagged)
    (written : ∀ v ∈ values, ¬v.MeansNothing) :
    ReadsVersions values vs ↔ ReadsField versions? [] values vs := by
  constructor
  · intro h
    cases h with
    | missing => exact .absent
    | @lines tag es vs h =>
      cases untagged _ List.mem_cons_self with
      | mapping keys values => exact .present ((readsLines_iff values).mpr h)
  · intro h
    cases h with
    | absent => exact .missing
    | @present v vs h =>
      obtain ⟨texts, htexts, -⟩ := Option.bind_eq_some_iff.mp h
      obtain ⟨es, rfl, hes⟩ := mapping_of_textEntries (untagged v List.mem_cons_self)
        (written v List.mem_cons_self) htexts
      exact .lines ((readsLines_iff hes).mp h)

end Versions

section Plugins

variable {k v : Tree} {s : String} {p : Plugin}

theorem untagged_of_valuesAt (untagged : v.Untagged) {name : String} {w : Tree}
    (hw : w ∈ valuesAt name v.fields) : w.Untagged := by
  obtain ⟨f, hf, rfl⟩ := mem_of_valuesAt hw
  cases untagged with
  | scalar => exact absurd hf List.not_mem_nil
  | sequence => exact absurd hf List.not_mem_nil
  | mapping keys values => exact values f hf

theorem plugin_of_meansNothing (untagged : v.Untagged) (h : v.MeansNothing) :
    plugin? s v = some { key := stripColon s } := by
  rw [plugin?, (isNull_iff untagged).mpr h, if_pos rfl]

/-- An entry is read as the plugin that is listed there. -/
theorem lists_iff (untagged : v.Untagged)
    (written : ∀ w ∈ valuesAt "versions" v.fields, ¬w.MeansNothing) :
    (∃ s, scalarText? k = some s ∧ plugin? s v = some p) ↔ Lists (k, v) p := by
  have hvalues {name : String} : ∀ w ∈ valuesAt name v.fields, w.Untagged :=
    fun w hw => untagged_of_valuesAt untagged hw
  -- nothing is looked for before a mapping is, and no mapping means nothing
  by_cases hnothing : v.MeansNothing
  · constructor
    · rintro ⟨s, hk, h⟩
      rw [plugin_of_meansNothing untagged hnothing] at h
      cases h
      exact .nothing hk (dropsColon_iff.mpr rfl) hnothing
    · intro h
      cases h with
      | @nothing _ _ s key hk hkey =>
        rw [dropsColon_iff.mp hkey]
        exact ⟨s, hk, plugin_of_meansNothing untagged hnothing⟩
      | mapping =>
        obtain ⟨s, hs⟩ := isScalar_of_meansNothing hnothing
        cases hs
  · constructor
    · rintro ⟨s, hk, h⟩
      have hread : ∃ texts, textEntries? v = some texts := by
        rw [plugin?, if_neg (mt (isNull_iff untagged).mp hnothing)] at h
        obtain ⟨texts, htexts, -⟩ := Option.bind_eq_some_iff.mp h
        exact ⟨texts, htexts⟩
      obtain ⟨texts, htexts⟩ := hread
      obtain ⟨fields, rfl, -⟩ := mapping_of_textEntries untagged hnothing htexts
      have hplugin := plugin_mapping_iff.mp h
      exact .mapping hk (dropsColon_iff.mpr hplugin.key) hplugin.keys
        ((readsText_iff hvalues).mpr hplugin.groupId)
        ((readsText_iff hvalues).mpr hplugin.artifactId)
        ((readsVersions_iff hvalues written).mpr hplugin.versions)
    · intro h
      cases h with
      | nothing _ _ h => exact absurd h hnothing
      | @mapping _ tag fields s _ hk hkey keys groupId artifactId versions =>
        refine ⟨s, hk, plugin_mapping_iff.mpr ⟨keys, dropsColon_iff.mp hkey, ?_, ?_, ?_⟩⟩
        · exact (readsText_iff hvalues).mp groupId
        · exact (readsText_iff hvalues).mp artifactId
        · exact (readsVersions_iff hvalues written).mp versions

end Plugins

section Shape

theorem exists_dropsColon (s : String) : ∃ r, DropsColon s r :=
  ⟨stripColon s, dropsColon_iff.mpr rfl⟩

theorem exists_readsText_iff {vs : List Tree} :
    (∃ r?, ReadsText vs r?) ↔ vs.length ≤ 1 ∧ ∀ v ∈ vs, IsScalar v := by
  constructor
  · rintro ⟨r?, h⟩
    cases h with
    | missing => simp
    | nothing h => simp [isScalar_of_meansNothing h]
    | text h hs hr => simp [IsScalar, hs]
  · rintro ⟨hone, hscalar⟩
    -- two values under one name are what is refused here
    match vs, hone with
    | [], _ => exact ⟨none, .missing⟩
    | [v], _ =>
      obtain ⟨s, hs⟩ := hscalar v List.mem_cons_self
      obtain ⟨r, hr⟩ := exists_dropsColon s
      by_cases h : v.MeansNothing
      · exact ⟨none, .nothing h⟩
      · exact ⟨some r, .text h hs hr⟩

theorem exists_readsLines_iff {es : List (Tree × Tree)} :
    (∃ vs, ReadsLines es vs) ↔ ∀ e ∈ es, IsScalar e.1 ∧ IsScalar e.2 := by
  constructor
  · rintro ⟨vs, h⟩
    induction h with
    | nil => exact fun e he => absurd he List.not_mem_nil
    | skip hkey h _ ih =>
      exact List.forall_mem_cons.mpr ⟨⟨⟨_, hkey⟩, isScalar_of_meansNothing h⟩, ih⟩
    | cons hkey hline h ht hversion _ ih =>
      exact List.forall_mem_cons.mpr ⟨⟨⟨_, hkey⟩, ⟨_, ht⟩⟩, ih⟩
  · intro h
    induction es with
    | nil => exact ⟨[], .nil⟩
    | cons e es ih =>
      obtain ⟨⟨⟨s, hs⟩, ⟨t, ht⟩⟩, hrest⟩ := List.forall_mem_cons.mp h
      obtain ⟨vs, hvs⟩ := ih hrest
      obtain ⟨line, hline⟩ := exists_dropsColon s
      obtain ⟨version, hversion⟩ := exists_dropsColon t
      by_cases h : e.2.MeansNothing
      · exact ⟨vs, .skip hs h hvs⟩
      · exact ⟨(line, version) :: vs, .cons hs hline h ht hversion hvs⟩

theorem exists_readsVersions_iff {values : List Tree} :
    (∃ vs, ReadsVersions values vs) ↔ values.length ≤ 1 ∧ ∀ v ∈ values, IsVersions v := by
  constructor
  · rintro ⟨vs, h⟩
    cases h with
    | missing => simp
    | @lines tag es vs h =>
      have hlines : IsVersions (.mapping tag es) := .mapping (exists_readsLines_iff.mp ⟨vs, h⟩)
      simpa using hlines
  · rintro ⟨hone, hversions⟩
    match values, hone with
    | [], _ => exact ⟨[], .missing⟩
    | [v], _ =>
      cases hversions v List.mem_cons_self with
      | mapping h =>
        obtain ⟨vs, hvs⟩ := exists_readsLines_iff.mpr h
        exact ⟨vs, .lines hvs⟩

/-- The entries under which a plugin is listed. -/
theorem exists_lists_iff {e : Tree × Tree} :
    (∃ p, Lists e p) ↔ IsScalar e.1 ∧ IsPlugin e.2 := by
  obtain ⟨k, v⟩ := e
  constructor
  · rintro ⟨p, h⟩
    cases h with
    | nothing hk hkey h => exact ⟨⟨_, hk⟩, .nothing h⟩
    | mapping hk hkey keys groupId artifactId versions =>
      obtain ⟨honeGroup, hgroup⟩ := exists_readsText_iff.mp ⟨_, groupId⟩
      obtain ⟨honeArtifact, hartifact⟩ := exists_readsText_iff.mp ⟨_, artifactId⟩
      obtain ⟨honeVersions, hversions⟩ := exists_readsVersions_iff.mp ⟨_, versions⟩
      refine ⟨⟨_, hk⟩, .mapping keys ?_ ?_ hversions⟩
      · simp [honeGroup, honeArtifact, honeVersions]
      · simpa using ⟨hgroup, hartifact⟩
  · rintro ⟨⟨s, hk⟩, h⟩
    obtain ⟨key, hkey⟩ := exists_dropsColon s
    cases h with
    | nothing h => exact ⟨_, .nothing hk hkey h⟩
    | mapping keys once texts versions =>
      obtain ⟨groupId, hgroup⟩ := exists_readsText_iff.mpr
        ⟨once "group_id" (by simp), texts "group_id" (by simp)⟩
      obtain ⟨artifactId, hartifact⟩ := exists_readsText_iff.mpr
        ⟨once "artifact_id" (by simp), texts "artifact_id" (by simp)⟩
      obtain ⟨vs, hvs⟩ := exists_readsVersions_iff.mpr ⟨once "versions" (by simp), versions⟩
      exact ⟨⟨key, groupId, artifactId, vs⟩, .mapping hk hkey keys hgroup hartifact hvs⟩

end Shape

section Documents

variable {text : String} {t : Tree}

theorem untagged_trees (o : Yaml.Outline) : ∀ e ∈ o.trees, e.1.Untagged ∧ e.2.Untagged := by
  induction o with
  | nothing => exact fun e he => absurd he List.not_mem_nil
  | word key text rest ih =>
    exact List.forall_mem_cons.mpr ⟨⟨.scalar true key, .scalar true text⟩, ih⟩
  | block key inner rest ihInner ihRest =>
    refine List.forall_mem_cons.mpr ⟨⟨.scalar true key, ?_⟩, ihRest⟩
    by_cases hne : inner = .nothing
    · subst hne
      exact .scalar true ""
    · rw [Yaml.Outline.treeOf_of_ne hne]
      exact .mapping (fun e he => (ihInner e he).1) fun e he => (ihInner e he).2

/-- Of a document that is read as a tree without tags, in which no versions are left blank: it is
refused as no mapping if it is none. A mapping is accepted exactly if it is a directory, and the
plugins are then those that its entries list, one for each in their order. -/
theorem parse_reads_entries (read : Yaml.read? text = some t) (untagged : t.Untagged)
    (written : ∀ e ∈ t.fields, ∀ v ∈ valuesAt "versions" e.2.fields, ¬v.MeansNothing) :
    (isMapping t = false →
      parse text = .error (.invalidDocument "top level is not a mapping")) ∧
    (isMapping t = true →
      ((∃ d, parse text = .ok d) ↔ IsDirectory t.fields) ∧
      (∀ d, parse text = .ok d ↔ List.Forall₂ Lists t.fields d) ∧
      (¬IsDirectory t.fields → ∃ detail, parse text = .error (.invalidDocument detail))) := by
  -- the second reading alone decides, since the first one gave the tree
  have hparse : parse text = ofTree t := by rw [parse, read]
  rw [hparse]
  cases untagged with
  | scalar plain text => exact ⟨fun _ => rfl, fun h => nomatch h⟩
  | sequence h => exact ⟨fun _ => rfl, fun h => nomatch h⟩
  | @mapping entries keys values =>
    have hok (d : PluginDirectory) :
        ofTree (.mapping none entries) = .ok d ↔ List.Forall₂ Lists entries d := by
      rw [ofTree_eq_ok_iff, ofTree_entries_iff]
      exact forall₂_congr_of_mem fun e he p => lists_iff (values e he) (written e he)
    have hexists : (∃ d, ofTree (.mapping none entries) = .ok d) ↔ IsDirectory entries := by
      simp only [hok]
      exact exists_forall₂_iff.trans (forall₂_congr fun e _ => exists_lists_iff)
    refine ⟨nofun, fun _ => ⟨hexists, hok, fun hnot => ofTree_refused fun d hd => ?_⟩⟩
    exact hnot (hexists.mp ⟨d, hd⟩)

/-- Two plugins: one with symbols and plain words, a field and a version that are left blank, and a
field of another name; the other with nothing at all. -/
theorem parse_reads_entries_of_two :
    let o : Yaml.Outline := .block ":a"
      (.word ":group_id" "null" (.word "artifact_id" ":x" (.word "type" "java"
        (.block "versions" (.word ":0.2" "1.0" (.block "0.20" .nothing .nothing)) .nothing))))
      (.block "b" .nothing .nothing)
    Yaml.read? (o.document 1) = some (.mapping none o.trees) ∧
      List.Forall₂ Lists o.trees
        [{ key := "a", artifactId := some "x", versions := [("0.2", "1.0")] }, { key := "b" }] := by
  intro o
  have read : Yaml.read? (o.document 1) = some (.mapping none o.trees) := by
    rw [Yaml.Outline.read_document (by decide +kernel) (by decide) (by decide +kernel),
      if_pos (by decide +kernel)]
  have untagged : (Tree.mapping none o.trees).Untagged := .mapping
    (fun e he => (untagged_trees o e he).1) fun e he => (untagged_trees o e he).2
  have written : ∀ e ∈ o.trees, ∀ v ∈ valuesAt "versions" e.2.fields, ¬v.MeansNothing := by
    have hwritten : ∀ e ∈ o.trees, ∀ v ∈ valuesAt "versions" e.2.fields, isNull v = false := by
      simp only [← List.all_eq_true, ← Bool.not_eq_true']
      decide +kernel
    intro e he v hv
    have hv' := untagged_of_valuesAt (untagged_trees o e he).2 hv
    rw [← isNull_iff hv', hwritten e he v hv]
    exact Bool.false_ne_true
  refine ⟨read, ?_⟩
  exact (((parse_reads_entries read untagged written).2 rfl).2.1 _).mp (by decide +kernel)

end Documents

end PluginDirectory

end PluginResolution
