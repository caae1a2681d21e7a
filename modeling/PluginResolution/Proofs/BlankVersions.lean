import PluginResolution.Proofs.DirectoryShape

namespace PluginResolution

namespace Yaml

mutual

def decEqTree : (s t : Tree) → Decidable (s = t)
  | .scalar a p x, .scalar b q y => decidable_of_iff (a = b ∧ p = q ∧ x = y) (by simp)
  | .sequence a xs, .sequence b ys =>
    have := decEqItems xs ys
    decidable_of_iff (a = b ∧ xs = ys) (by simp)
  | .mapping a es, .mapping b fs =>
    have := decEqEntries es fs
    decidable_of_iff (a = b ∧ es = fs) (by simp)
  | .scalar .., .sequence .. => isFalse nofun
  | .scalar .., .mapping .. => isFalse nofun
  | .sequence .., .scalar .. => isFalse nofun
  | .sequence .., .mapping .. => isFalse nofun
  | .mapping .., .scalar .. => isFalse nofun
  | .mapping .., .sequence .. => isFalse nofun

def decEqItems : (xs ys : List Tree) → Decidable (xs = ys)
  | [], [] => isTrue rfl
  | x :: xs, y :: ys =>
    have := decEqTree x y
    have := decEqItems xs ys
    decidable_of_iff (x = y ∧ xs = ys) (by simp)
  | [], _ :: _ => isFalse nofun
  | _ :: _, [] => isFalse nofun

def decEqEntries : (es fs : List (Tree × Tree)) → Decidable (es = fs)
  | [], [] => isTrue rfl
  | (k, v) :: es, (l, w) :: fs =>
    have := decEqTree k l
    have := decEqTree v w
    have := decEqEntries es fs
    decidable_of_iff ((k = l ∧ v = w) ∧ es = fs) (by simp)
  | [], _ :: _ => isFalse nofun
  | _ :: _, [] => isFalse nofun

end

instance : DecidableEq Tree := decEqTree

/-- The tree of a text that is one well-formed document, whether or not it has a meaning. -/
def documentTree? (text : String) : Option Tree :=
  (document? text).join.bind Node.tree?

theorem read_eq_some_iff {text : String} {t r : Tree} (h : documentTree? text = some t) :
    read? text = some r ↔ r = t ∧ (Value.ofTree? t).isSome = true := by
  obtain ⟨n, hn, ht⟩ := Option.bind_eq_some_iff.mp h
  have hdocument : document? text = some (some n) := Option.join_eq_some_iff.mp hn
  rw [read?, hdocument]
  simp only [ht]
  cases Value.ofTree? t with
  | none => simp
  | some v => simp [eq_comm]

/-- Under the tags of the schema only a word for nothing means nothing. -/
theorem Scalar.isNullWord_of_ofTagged {tag s : String} (h : ofTagged? tag s = some .null) :
    isNullWord s = true := by
  rw [ofTagged?] at h
  -- truth values, integers and numbers come before it, and texts behind
  split at h
  · obtain ⟨b, -, hb⟩ := Option.map_eq_some_iff.mp h
    cases hb
  split at h
  · obtain ⟨n, -, hn⟩ := Option.bind_eq_some_iff.mp h
    obtain ⟨m, -, hm⟩ := Option.map_eq_some_iff.mp hn
    cases hm
  split at h
  · obtain ⟨x, -, hx⟩ := Option.map_eq_some_iff.mp h
    cases hx
  split at h
  · split at h
    · assumption
    · cases h
  · cases h

namespace Value

/-- Whether keys differ depends on nothing but the keys. -/
theorem keysDiffer_congr {es es' : List (Value × Value)} (h : es'.map (·.1) = es.map (·.1)) :
    keysDiffer es' = keysDiffer es := by
  induction es generalizing es' with
  | nil => rw [List.map_eq_nil_iff.mp h]
  | cons e es ih =>
    obtain ⟨e', r, rfl, hkey, hkeys⟩ := List.map_eq_cons_iff.mp h
    have hany : r.any (fun f => same e.1 f.1) = es.any fun f => same e.1 f.1 := by
      have hmapped := congrArg (List.any · (same e.1)) hkeys
      simpa only [List.any_map, Function.comp_def] using hmapped
    rw [keysDiffer, keysDiffer, ih hkeys, hkey, hany]

theorem ofTree_mapping_isSome_iff {tag : Option String} {entries : List (Tree × Tree)} :
    (ofTree? (.mapping tag entries)).isSome = true ↔
      ∃ es, ofEntries? entries = some es ∧ keysDiffer es = true := by
  rw [ofTree?]
  cases ofEntries? entries with
  | none => simp
  | some es =>
    cases h : keysDiffer es with
    | false => simp [h]
    | true => simp [h]

def KeepsMeaning (e e' : Tree × Tree) : Prop :=
  e'.1 = e.1 ∧ ((ofTree? e.2).isSome = true → (ofTree? e'.2).isSome = true)

theorem ofEntries_of_keepsMeaning {entries entries' : List (Tree × Tree)}
    (h : List.Forall₂ KeepsMeaning entries entries') {es : List (Value × Value)}
    (hes : ofEntries? entries = some es) :
    ∃ es', ofEntries? entries' = some es' ∧ es'.map (·.1) = es.map (·.1) := by
  -- the keys mean the same one by one, whatever the values mean
  induction h generalizing es with
  | nil => exact ⟨es, hes, rfl⟩
  | @cons e e' entries entries' he _ ih =>
    obtain ⟨hkey, hvalue⟩ := he
    rw [Outline.ofEntries_cons] at hes
    obtain ⟨k, hk, hes⟩ := Option.bind_eq_some_iff.mp hes
    obtain ⟨v, hv, hes⟩ := Option.bind_eq_some_iff.mp hes
    obtain ⟨r, hr, rfl⟩ := Option.map_eq_some_iff.mp hes
    obtain ⟨v', hv'⟩ := Option.isSome_iff_exists.mp (hvalue (Option.isSome_of_eq_some hv))
    obtain ⟨r', hr', hkeys⟩ := ih hr
    refine ⟨(k, v') :: r', ?_, ?_⟩
    · rw [Outline.ofEntries_cons, hkey, hk, hv', hr']
      rfl
    · rw [List.map_cons, List.map_cons, hkeys]

theorem mapping_keeps_meaning {tag : Option String} {entries entries' : List (Tree × Tree)}
    (h : List.Forall₂ KeepsMeaning entries entries')
    (hmeans : (ofTree? (.mapping tag entries)).isSome = true) :
    (ofTree? (.mapping tag entries')).isSome = true := by
  obtain ⟨es, hes, hdiffer⟩ := ofTree_mapping_isSome_iff.mp hmeans
  obtain ⟨es', hes', hkeys⟩ := ofEntries_of_keepsMeaning h hes
  exact ofTree_mapping_isSome_iff.mpr ⟨es', hes', by rw [keysDiffer_congr hkeys, hdiffer]⟩

end Value

end Yaml

namespace PluginDirectory

open Yaml (Tree)

/-- A field stays, or is an empty mapping of versions that `v` is written for. -/
inductive Empties (v : Tree) : Tree × Tree → Tree × Tree → Prop
  | same (f : Tree × Tree) : Empties v f f
  | versions {key : Tree} {tag : Option String} (h : isNamed "versions" key = true) :
      Empties v (key, .mapping tag []) (key, v)

/-- An entry stays, or is a plugin some fields of which are emptied. -/
inductive EmptiesPlugin (v : Tree) : Tree × Tree → Tree × Tree → Prop
  | same (e : Tree × Tree) : EmptiesPlugin v e e
  | plugin {key : Tree} {tag : Option String} {fields fields' : List (Tree × Tree)}
      (h : List.Forall₂ (Empties v) fields fields') :
      EmptiesPlugin v (key, .mapping tag fields) (key, .mapping tag fields')

/-- In some plugins `v` is written for an empty mapping of versions. -/
inductive EmptiesVersions (v : Tree) : Tree → Tree → Prop
  | directory {tag : Option String} {entries entries' : List (Tree × Tree)}
      (h : List.Forall₂ (EmptiesPlugin v) entries entries') :
      EmptiesVersions v (.mapping tag entries) (.mapping tag entries')

section Nothing

/-- What means nothing and has no text is not in quotes. -/
theorem plain_of_meansNothing {tag : Option String} {plain : Bool}
    (h : (Tree.scalar tag plain "").MeansNothing) : plain = true := by
  cases plain with
  | true => rfl
  | false =>
    rw [Tree.MeansNothing, Yaml.Value.ofTree?, Yaml.Value.ofScalar?.eq_def] at h
    cases tag with
    | none => cases h
    | some tag =>
      simp only at h
      split at h
      · cases h
      · obtain ⟨s, hs, heq⟩ := Option.map_eq_some_iff.mp h
        cases heq
        exact absurd (Yaml.Scalar.isNullWord_of_ofTagged hs) (by decide)

/-- Versions are read where nothing is written, but not of a word for nothing. -/
theorem versions_of_meansNothing {v : Tree} (h : v.MeansNothing) :
    versions? v = if scalarText? v = some "" then some [] else none := by
  obtain ⟨s, hs⟩ := isScalar_of_meansNothing h
  cases v with
  | sequence => cases hs
  | mapping => cases hs
  | scalar tag plain text =>
    by_cases htext : text = ""
    · subst htext
      rw [plain_of_meansNothing h, scalarText?, if_pos rfl]
      rfl
    · have hentries : entries? (.scalar tag plain text) = none := by
        rw [entries?.eq_def]
        split
        · rename_i heq
          cases heq
        · rename_i heq
          cases heq
          exact absurd rfl htext
        · rfl
      rw [versions?, textEntries?, hentries, scalarText?, if_neg (mt Option.some.inj htext)]
      rfl

end Nothing

section Fields

variable {v : Tree} {f f' : Tree × Tree} {fields fields' : List (Tree × Tree)}

theorem Empties.keepsMeaning (hv : v.MeansNothing) (h : Empties v f f') :
    Yaml.Value.KeepsMeaning f f' := by
  cases h with
  | same => exact ⟨rfl, id⟩
  | versions => exact ⟨rfl, fun _ => Option.isSome_of_eq_some hv⟩

/-- Fields with the same keys are found under the same names. -/
theorem valuesAt_rel {R : Tree → Tree → Prop} {name : String}
    (h : List.Forall₂ (fun f f' => f'.1 = f.1 ∧ (isNamed name f.1 = true → R f.2 f'.2))
      fields fields') : List.Forall₂ R (valuesAt name fields) (valuesAt name fields') := by
  induction h with
  | nil => exact .nil
  | @cons f f' fields fields' hf _ ih =>
    obtain ⟨hkey, hvalue⟩ := hf
    rw [valuesAt_cons, valuesAt_cons, hkey]
    by_cases hnamed : isNamed name f.1 = true
    · rw [if_pos hnamed, if_pos hnamed]
      exact .cons (hvalue hnamed) ih
    · rw [if_neg hnamed, if_neg hnamed]
      exact ih

theorem isNamed_unique {key : Tree} {name : String} (hname : name ∈ ["group_id", "artifact_id"])
    (h : isNamed "versions" key = true) : isNamed name key = false := by
  rw [isNamed] at h ⊢
  cases hs : scalarText? key with
  | none => rfl
  | some s =>
    have hversions : s = "versions" ∨ s = ":versions" := by simpa [hs] using h
    have htexts : name = "group_id" ∨ name = "artifact_id" := by simpa using hname
    rcases hversions with rfl | rfl <;> rcases htexts with rfl | rfl <;> decide

/-- The other fields stay. -/
theorem valuesAt_of_empties {name : String} (hname : name ∈ ["group_id", "artifact_id"])
    (h : List.Forall₂ (Empties v) fields fields') :
    valuesAt name fields' = valuesAt name fields := by
  rw [eq_comm, ← List.forall₂_eq_eq_eq]
  refine valuesAt_rel (h.imp fun f f' hf => ?_)
  cases hf with
  | same => exact ⟨rfl, fun _ => rfl⟩
  | versions hkey => exact ⟨rfl, fun hnamed => by simp [isNamed_unique hname hkey] at hnamed⟩

theorem readsField_rel {α : Type} {read : Tree → Option α} {absent a : α} {vs vs' : List Tree}
    (h : List.Forall₂ (fun v v' => ∀ a, read v = some a → read v' = some a) vs vs')
    (hread : ReadsField read absent vs a) : ReadsField read absent vs' a := by
  cases hread with
  | absent =>
    cases h
    exact .absent
  | present hread =>
    cases h with
    | cons hv hr =>
      cases hr
      exact .present (hv _ hread)

/-- Where nothing is written the plugin is the same. -/
theorem readsPlugin_of_empties {key : String} {p : Plugin} (hv : versions? v = some [])
    (h : List.Forall₂ (Empties v) fields fields') (hread : ReadsPlugin key fields p) :
    ReadsPlugin key fields' p := by
  have hversions : List.Forall₂ (fun w w' => ∀ vs, versions? w = some vs → versions? w' = some vs)
      (valuesAt "versions" fields) (valuesAt "versions" fields') := by
    refine valuesAt_rel (h.imp fun f f' hf => ?_)
    cases hf with
    | same => exact ⟨rfl, fun _ _ => id⟩
    | versions => exact ⟨rfl, fun _ vs hvs => hv.trans hvs⟩
  refine ⟨?_, hread.key, ?_, ?_, readsField_rel hversions hread.versions⟩
  · intro f' hf'
    obtain ⟨f, hf, hempties⟩ := exists_of_mem_right h hf'
    have hscalar := hread.keys f hf
    cases hempties with
    | same => exact hscalar
    | versions => exact hscalar
  · rw [valuesAt_of_empties (by simp) h]
    exact hread.groupId
  · rw [valuesAt_of_empties (by simp) h]
    exact hread.artifactId

/-- Where versions are not read nothing has changed in a plugin that is read. -/
theorem fields_eq_of_empties {key : String} {p : Plugin} (hv : versions? v = none)
    (h : List.Forall₂ (Empties v) fields fields') (hread : ReadsPlugin key fields' p) :
    fields' = fields := by
  have hversions := (exists_readsField_iff.mp ⟨p.versions, hread.versions⟩).2
  refine eq_of_forall₂ h fun f f' hf' hsame => ?_
  cases hsame with
  | same => rfl
  | @versions key tag hkey =>
    have hmem : v ∈ valuesAt "versions" fields' :=
      List.mem_map.mpr ⟨(key, v), List.mem_filter.mpr ⟨hf', hkey⟩, rfl⟩
    obtain ⟨vs, hvs⟩ := hversions v hmem
    rw [hv] at hvs
    cases hvs

end Fields

section Plugins

variable {v : Tree} {e e' : Tree × Tree} {s : String} {p : Plugin}

theorem EmptiesPlugin.keepsMeaning (hv : v.MeansNothing) (h : EmptiesPlugin v e e') :
    Yaml.Value.KeepsMeaning e e' := by
  cases h with
  | same => exact ⟨rfl, id⟩
  | plugin h =>
    exact ⟨rfl, Yaml.Value.mapping_keeps_meaning (h.imp fun _ _ hf => hf.keepsMeaning hv)⟩

theorem EmptiesPlugin.key_eq (h : EmptiesPlugin v e e') : e'.1 = e.1 := by
  cases h with
  | same => rfl
  | plugin => rfl

theorem EmptiesPlugin.plugin_eq (hv : versions? v = some []) (h : EmptiesPlugin v e e')
    (hread : plugin? s e.2 = some p) : plugin? s e'.2 = some p := by
  cases h with
  | same => exact hread
  | plugin h => exact plugin_mapping_iff.mpr (readsPlugin_of_empties hv h (plugin_mapping_iff.mp hread))

theorem EmptiesPlugin.eq_of_read (hv : versions? v = none) (h : EmptiesPlugin v e e')
    (hread : plugin? s e'.2 = some p) : e' = e := by
  cases h with
  | same => rfl
  | plugin h => rw [fields_eq_of_empties hv h (plugin_mapping_iff.mp hread)]

end Plugins

section Directories

variable {text text' : String} {t t' v : Tree} {d : PluginDirectory}

theorem EmptiesVersions.isSome_ofTree (hv : v.MeansNothing) (h : EmptiesVersions v t t')
    (hmeans : (Yaml.Value.ofTree? t).isSome = true) : (Yaml.Value.ofTree? t').isSome = true := by
  cases h with
  | directory h => 
    exact Yaml.Value.mapping_keeps_meaning (h.imp fun _ _ he => he.keepsMeaning hv) hmeans

theorem EmptiesVersions.ofTree_eq (hv : versions? v = some []) (h : EmptiesVersions v t t')
    (hread : ofTree t = .ok d) : ofTree t' = .ok d := by
  cases h with
  | directory h =>
    rw [ofTree_eq_ok_iff, ofTree_entries_iff] at hread ⊢
    refine forall₂_transport h hread ?_
    rintro e e' p hempties ⟨s, hkey, hp⟩
    exact ⟨s, hempties.key_eq ▸ hkey, hempties.plugin_eq hv hp⟩

theorem EmptiesVersions.eq_of_read (hv : versions? v = none) (h : EmptiesVersions v t t')
    (hread : ofTree t' = .ok d) : t' = t := by
  cases h with
  | directory h =>
    rw [ofTree_eq_ok_iff, ofTree_entries_iff] at hread
    have hentries := eq_of_forall₂ h fun e e' he' hsame => by
      obtain ⟨p, -, s, -, hp⟩ := exists_of_mem_right hread.flip he'
      exact hsame.eq_of_read hv hp
    rw [hentries]

/-- A directory in which nothing is written for an empty mapping of versions has the same plugins.
With a word for nothing in the place of one it is refused. -/
theorem versions_left_blank (accepted : parse text = .ok d)
    (ht : Yaml.documentTree? text = some t) (ht' : Yaml.documentTree? text' = some t')
    (hv : v.MeansNothing) (h : EmptiesVersions v t t') :
    (scalarText? v = some "" → parse text' = .ok d) ∧
    (scalarText? v ≠ some "" → t' ≠ t →
      ∃ detail, parse text' = .error (.invalidDocument detail)) := by
  -- both texts are read as their trees: the new one has a meaning because the old one has
  obtain ⟨r, hread, hok⟩ : ∃ r, Yaml.read? text = some r ∧ ofTree r = .ok d := by
    rw [parse] at accepted
    split at accepted
    · cases accepted
    · exact ⟨_, ‹_›, accepted⟩
  obtain ⟨rfl, hmeans⟩ := (Yaml.read_eq_some_iff ht).mp hread
  have hread' := (Yaml.read_eq_some_iff ht').mpr ⟨rfl, h.isSome_ofTree hv hmeans⟩
  have hparse : parse text' = ofTree t' := by rw [parse, hread']
  have hversions := versions_of_meansNothing hv
  rw [hparse]
  constructor
  · intro hblank
    rw [if_pos hblank] at hversions
    exact h.ofTree_eq hversions hok
  · intro hword hne
    rw [if_neg hword] at hversions
    -- a directory that is read has no word for nothing in it, so that nothing was replaced
    have hrefused : ∀ d', ofTree t' ≠ .ok d' := fun d' hd' => hne (h.eq_of_read hversions hd')
    cases h with
    | directory h => exact ofTree_refused hrefused

/-- A plugin whose only field is an empty mapping of versions. -/
theorem versions_left_blank_of_one :
    parse "p:\n  versions:\n" = .ok [{ key := "p" }] ∧
      ∃ detail, parse "p:\n  versions: ~\n" = .error (.invalidDocument detail) := by
  let word (s : String) : Tree := .scalar none true s
  let directory (v : Tree) : Tree := .mapping none [(word "p", .mapping none [(word "versions", v)])]
  have accepted : parse "p:\n  versions: {}\n" = .ok [{ key := "p" }] := by decide +kernel
  have ht : Yaml.documentTree? "p:\n  versions: {}\n" = some (directory (.mapping none [])) := by
    decide +kernel
  have hblank : Yaml.documentTree? "p:\n  versions:\n" = some (directory (word "")) := by
    decide +kernel
  have htilde : Yaml.documentTree? "p:\n  versions: ~\n" = some (directory (word "~")) := by
    decide +kernel
  have empties (v : Tree) : EmptiesVersions v (directory (.mapping none [])) (directory v) :=
    .directory (.cons (.plugin (.cons (.versions (by decide)) .nil)) .nil)
  have hnothing : (word "").MeansNothing := rfl
  have hword : (word "~").MeansNothing := rfl
  constructor
  · exact (versions_left_blank accepted ht hblank hnothing (empties _)).1 rfl
  · exact (versions_left_blank accepted ht htilde hword (empties _)).2 (by decide) nofun

/-- The directory with an empty mapping is read, and with a word for nothing it is not. -/
theorem word_for_no_versions_refused :
    parse "p:\n  versions: {}\n" = .ok [{ key := "p" }] ∧
      parse "p:\n  versions: ~\n" ≠ .ok [{ key := "p" }] := by
  decide +kernel

end Directories

end PluginDirectory

end PluginResolution
