import PluginResolution.Proofs.DirectoryDocument
import PluginResolution.Proofs.ReadLists

namespace PluginResolution.PluginDirectory

open Yaml (Outline Scalar Tree IsName)

variable {d : PluginDirectory} {sp : Spelling}

def fieldsOf : Outline → List (String × Tree)
  | .nothing => []
  | .word key text rest => (key, .scalar none true text) :: fieldsOf rest
  | .block key inner rest => (key, inner.treeOf inner.trees) :: fieldsOf rest

theorem textEntries_outline (o : Outline) :
    textEntries? (o.treeOf o.trees) = some (fieldsOf o) := by
  have hentries : entries? (o.treeOf o.trees) = some o.trees := by
    cases o with
    | nothing => rfl
    | word key text rest => rfl
    | block key inner rest => rfl
  rw [textEntries?, hentries, Option.bind_eq_bind, Option.bind_some]
  clear hentries
  induction o with
  | nothing => rfl
  | word key text rest ih => exact mapM_cons_some rfl ih
  | block key inner rest ihInner ihRest => exact mapM_cons_some rfl ihRest

/-- A symbol is no text that begins otherwise. -/
theorem symbol_ne {s t : String} (h : t.toList.head? ≠ some ':') :
    Spelling.symbols.write s ≠ t := by
  rintro rfl
  exact h (by rw [Spelling.toList_symbol, List.head?_cons])

theorem isNullWord_symbol (s : String) : Scalar.isNullWord (Spelling.symbols.write s) = false := by
  have hne {t : String} (h : t.toList.head? ≠ some ':') :
      decide (Spelling.symbols.write s = t) = false := decide_eq_false (symbol_ne h)
  rw [Scalar.isNullWord, hne (by decide), hne (by decide), hne (by decide), hne (by decide)]
  rfl

theorem stripColon_write {s : String} (h : IsName s.toList) : stripColon (sp.write s) = s := by
  obtain ⟨c, r, hs, hc⟩ := h.begins
  cases sp with
  | plain =>
    -- a letter or a digit is no colon
    rw [Spelling.write, stripColon, hs]
    split
    · rename_i heq
      obtain ⟨rfl, -⟩ := List.cons.inj heq
      exact absurd hc (by decide)
    · rfl
  | symbols =>
    rw [stripColon, Spelling.toList_symbol]
    exact String.ofList_toList

/-- A word that is none for nothing is there. -/
theorem optionalText_write {s : String} (h : IsPlainWord s) :
    optionalText? (.scalar none true (sp.write s)) = some (some (sp.write s)) := by
  obtain ⟨hname, hnull⟩ := h
  have hnot : isNull (.scalar none true (sp.write s)) = false := by
    cases sp with
    | plain =>
      have hempty : s ≠ "" := by
        rintro rfl
        obtain ⟨c, r, hs, -⟩ := hname.begins
        cases hs
      rw [isNull, Spelling.write, hnull, Bool.or_false, decide_eq_false hempty]
    | symbols =>
      have hempty : Spelling.symbols.write s ≠ "" := symbol_ne (by decide)
      rw [isNull, isNullWord_symbol, Bool.or_false, decide_eq_false hempty]
  rw [optionalText?, hnot]
  rfl

def wordTree (sp : Spelling) (s : String) : Tree :=
  .scalar none true (sp.write s)

def versionsTree? (sp : Spelling) (versions : List (String × String)) : Option Tree :=
  match versions with
  | [] => none
  | _ => some ((versionLines sp versions).treeOf (versionLines sp versions).trees)

def fieldList (sp : Spelling) (name : String) (t? : Option Tree) : List (String × Tree) :=
  t?.toList.map fun t => (sp.write name, t)

theorem fieldsOf_plugin (p : Plugin) : fieldsOf (p.outline sp) =
    fieldList sp "group_id" (p.groupId.map (wordTree sp)) ++
      (fieldList sp "artifact_id" (p.artifactId.map (wordTree sp)) ++
        fieldList sp "versions" (versionsTree? sp p.versions)) := by
  have hoptional (name : String) (value : Option String) (rest : Outline) :
      fieldsOf (optionalField sp name value rest) =
        fieldList sp name (value.map (wordTree sp)) ++ fieldsOf rest := by
    cases value with
    | none => rfl
    | some s => rfl
  rw [Plugin.outline, hoptional, hoptional]
  cases p.versions with
  | nil => rfl
  | cons v r => rfl

def hasName (name : String) (f : String × Tree) : Bool :=
  f.1 = name || f.1 = ":" ++ name

theorem filter_self (name : String) (t? : Option Tree) :
    (fieldList sp name t?).filter (hasName name) = fieldList sp name t? := by
  apply List.filter_eq_self.mpr
  intro f hf
  obtain ⟨t, -, rfl⟩ := List.mem_map.mp hf
  cases sp with
  | plain => simp [hasName, Spelling.write]
  | symbols => simp [hasName, Spelling.write]

theorem filter_other {name other : String} (hplain : other ≠ name) (hcolon : other ≠ ":" ++ name)
    (hsymbol : ":" ++ other ≠ name) (t? : Option Tree) :
    (fieldList sp other t?).filter (hasName name) = [] := by
  apply List.filter_eq_nil_iff.mpr
  intro f hf
  obtain ⟨t, -, rfl⟩ := List.mem_map.mp hf
  cases sp with
  | plain => simp [hasName, Spelling.write, hplain, hcolon]
  | symbols => simp [hasName, Spelling.write, hplain, hsymbol]

theorem field_of_filter (sp : Spelling) {name : String} {fields : List (String × Tree)}
    {t? : Option Tree} (h : fields.filter (hasName name) = fieldList sp name t?) : field? name fields = some t? := by
  have hfilter : (fields.filter fun f => f.1 = name || f.1 = ":" ++ name) =
      fieldList sp name t? := h
  rw [field?, hfilter]
  cases t? with
  | none => rfl
  | some t => rfl

/-- Each of the three fields is found under its name. -/
theorem fields_found (sp : Spelling) (p : Plugin) :
    field? "group_id" (fieldsOf (p.outline sp)) = some (p.groupId.map (wordTree sp)) ∧
      field? "artifact_id" (fieldsOf (p.outline sp)) = some (p.artifactId.map (wordTree sp)) ∧
      field? "versions" (fieldsOf (p.outline sp)) = some (versionsTree? sp p.versions) := by
  rw [fieldsOf_plugin]
  -- the other two fields are filtered out in either spelling
  refine ⟨field_of_filter sp ?_, field_of_filter sp ?_, field_of_filter sp ?_⟩
  · rw [List.filter_append, List.filter_append, filter_self,
      filter_other (by decide) (by decide) (by decide),
      filter_other (by decide) (by decide) (by decide), List.append_nil, List.append_nil]
  · rw [List.filter_append, List.filter_append, filter_self,
      filter_other (by decide) (by decide) (by decide),
      filter_other (by decide) (by decide) (by decide), List.append_nil, List.nil_append]
  · rw [List.filter_append, List.filter_append, filter_self,
      filter_other (by decide) (by decide) (by decide),
      filter_other (by decide) (by decide) (by decide), List.nil_append, List.nil_append]

theorem textField_written {name : String} {fields : List (String × Tree)} {value : Option String}
    (h : field? name fields = some (value.map (wordTree sp)))
    (hvalue : ∀ s ∈ value, IsPlainWord s) :
    textField? name fields = some (value.map sp.write) := by
  rw [textField?, h, Option.bind_eq_bind, Option.bind_some]
  cases value with
  | none => rfl
  | some s => exact optionalText_write (hvalue s rfl)

theorem map_stripColon {value : Option String} (h : ∀ s ∈ value, IsPlainWord s) :
    (value.map sp.write).map stripColon = value := by
  cases value with
  | none => rfl
  | some s =>
    rw [Option.map_some, Option.map_some, stripColon_write (h s rfl).1]

theorem versions_written {versions : List (String × String)}
    (h : ∀ v ∈ versions, IsPlainWord v.1 ∧ IsPlainWord v.2) :
    versions? ((versionLines sp versions).treeOf (versionLines sp versions).trees) =
      some versions := by
  let readLine : String × Tree → Option (String × Option String) :=
    fun e => do return (e.1, ← optionalText? e.2)
  have hread : (fieldsOf (versionLines sp versions)).mapM readLine =
      some (versions.map fun v => (sp.write v.1, some (sp.write v.2))) := by
    induction versions with
    | nil => rfl
    | cons v r ih =>
      have hrest := ih fun w hw => h w (List.mem_cons_of_mem v hw)
      have htext : optionalText? (wordTree sp v.2) = some (some (sp.write v.2)) :=
        optionalText_write (h v List.mem_cons_self).2
      have hline : readLine (sp.write v.1, wordTree sp v.2) =
          some (sp.write v.1, some (sp.write v.2)) := by
        simp only [readLine, htext]
        rfl
      exact mapM_cons_some hline hrest
  have hstrip : ((versions.map fun v => (sp.write v.1, some (sp.write v.2))).filterMap
      fun e => e.2.map fun v => (stripColon e.1, stripColon v)) = versions := by
    clear hread
    induction versions with
    | nil => rfl
    | cons v r ih =>
      obtain ⟨⟨hline, -⟩, hversion, -⟩ := h v List.mem_cons_self
      have hrest := ih fun w hw => h w (List.mem_cons_of_mem v hw)
      rw [List.map_cons, List.filterMap_cons, hrest]
      simp only [Option.map_some, stripColon_write hline, stripColon_write hversion]
  rw [versions?, textEntries_outline, Option.bind_eq_bind, Option.bind_some, hread]
  exact congrArg some hstrip

theorem plugin_written {p : Plugin} (h : ∀ s ∈ p.words, IsPlainWord s) :
    plugin? (sp.write p.key) ((p.outline sp).treeOf (p.outline sp).trees) = some p := by
  obtain ⟨hkey, hgroup, hartifact, hversions⟩ := Plugin.forall_words.mp h
  obtain ⟨hgroupField, hartifactField, hversionsField⟩ := fields_found sp p
  have hstrip : stripColon (sp.write p.key) = p.key := stripColon_write hkey.1
  by_cases hne : p.outline sp = .nothing
  -- a plugin with nothing but its key
  · have hnull : isNull ((p.outline sp).treeOf (p.outline sp).trees) = true := by
      rw [hne]
      rfl
    obtain ⟨key, groupId, artifactId, versions⟩ := p
    cases groupId with
    | some s => cases hne
    | none =>
      cases artifactId with
      | some s => cases hne
      | none =>
        cases versions with
        | cons v r => cases hne
        | nil =>
          rw [plugin?, hnull, if_pos rfl, hstrip]
  · have hnull : isNull ((p.outline sp).treeOf (p.outline sp).trees) = false := by
      rw [Outline.treeOf_of_ne hne]
      rfl
    -- the fields are the three, and the versions are read from their own mapping
    rw [plugin?, hnull, textEntries_outline]
    simp only [Bool.false_eq_true, if_false, Option.bind_eq_bind, Option.bind_some,
      textField_written hgroupField hgroup, textField_written hartifactField hartifact,
      hversionsField, hstrip, map_stripColon hgroup, map_stripColon hartifact]
    obtain ⟨key, groupId, artifactId, versions⟩ := p
    cases versions with
    | nil => rfl
    | cons v r =>
      simp only [versionsTree?, versions_written hversions, Option.bind_some]
      rfl

/-- The mapping is read as the directory. -/
theorem ofTree_written (hd : d ≠ []) (h : ∀ p ∈ d, ∀ s ∈ p.words, IsPlainWord s) :
    ofTree (.mapping none (outline sp d).trees) = .ok d := by
  have hne : outline sp d ≠ .nothing := by
    cases d with
    | nil => exact absurd rfl hd
    | cons p r =>
      intro he
      cases he
  have hplugins : (fieldsOf (outline sp d)).mapM (fun e => plugin? e.1 e.2) = some d := by
    clear hd hne
    induction d with
    | nil => rfl
    | cons p r ih =>
      have hrest := ih fun q hq => h q (List.mem_cons_of_mem p hq)
      exact mapM_cons_some (plugin_written (h p List.mem_cons_self)) hrest
  have hentries := textEntries_outline (outline sp d)
  rw [Outline.treeOf_of_ne hne] at hentries
  have htree : ofTree? (.mapping none (outline sp d).trees) = some d := by
    rw [ofTree?, hentries, Option.bind_eq_bind, Option.bind_some, hplugins]
  rw [ofTree, htree]
  rfl

/-- A directory reads back in either spelling if its keys are short enough and its words apart. -/
theorem parse_written (h : Spellable d) (sp : Spelling) (indent : Nat) :
    parse (d.written sp indent) =
      if d.short sp = true ∧ d.apart sp = true then .ok d else .error .malformed := by
  have hspelled : (outline sp d).Spelled := spelled_outline fun p hp s hs => (h.names p hp s hs).1
  have hne : outline sp d ≠ .nothing := by
    intro he
    have hnonempty := h.nonempty
    cases d with
    | nil => exact hnonempty rfl
    | cons p r => cases he
  have hdepth : (outline sp d).depth ≤ Yaml.Node.maxDepth :=
    Nat.le_trans (depth_outline d) (by decide)
  -- the typed reading decides, the one of the words as written then succeeds
  have hread := Outline.read_document hspelled hne hdepth indent
  rw [fits_outline, reads_outline] at hread
  rw [parse, written, hread]
  by_cases hgood : d.short sp = true ∧ d.apart sp = true
  · rw [if_pos hgood, if_pos hgood]
    exact ofTree_written h.nonempty h.names
  · rw [if_neg hgood, if_neg hgood]

/-! ## Symbols -/

/-- A symbol means its own text. -/
theorem meaning_symbol (s : String) :
    Spelling.symbols.meaning? s = some (.text (Spelling.symbols.write s)) := by
  have hlist := Spelling.toList_symbol s
  have hempty : Spelling.symbols.write s ≠ "" := symbol_ne (by decide)
  have hwords {t u v : String} (ht : t.toList.head? ≠ some ':') (hu : u.toList.head? ≠ some ':')
      (hv : v.toList.head? ≠ some ':') :
      (decide (Spelling.symbols.write s = t) || decide (Spelling.symbols.write s = u) ||
        decide (Spelling.symbols.write s = v)) = false := by
    rw [decide_eq_false (symbol_ne ht), decide_eq_false (symbol_ne hu),
      decide_eq_false (symbol_ne hv)]
    rfl
  have hboolean : Scalar.boolean? (Spelling.symbols.write s) = none := by
    rw [Scalar.boolean?, hwords (by decide) (by decide) (by decide),
      hwords (by decide) (by decide) (by decide)]
    rfl
  have hzero : Scalar.hasSuperfluousZero (Spelling.symbols.write s).toList = false := by
    rw [hlist]
    rfl
  have hinteger : Scalar.keptInteger? (Spelling.symbols.write s) = none := by
    have hnone : Scalar.integer? (':' :: s.toList) = none := rfl
    rw [Scalar.keptInteger?, hlist, hnone]
  have hnumber : Scalar.number? (Spelling.symbols.write s) = none := by
    have hbody : Scalar.unsignedPart (Spelling.symbols.write s).toList =
        (Spelling.symbols.write s).toList := by
      rw [hlist]
      rfl
    have hnone : Scalar.decimal? (Spelling.symbols.write s).toList = none := by
      rw [hlist]
      rfl
    simp only [Scalar.number?, hbody, hnone, String.ofList_toList]
    rw [hwords (by decide) (by decide) (by decide), hwords (by decide) (by decide) (by decide)]
    rfl
  rw [Spelling.meaning?, Scalar.ofPlain?, isNullWord_symbol, hboolean, hinteger, hzero, hnumber,
    Bool.or_false, decide_eq_false hempty]
  rfl

/-- So symbols are told apart as they are written. -/
theorem apart_symbols (h : Spellable d) : d.apart .symbols = true := by
  have hnodup {l : List String} (hl : l.Nodup) :
      (l.map fun s => Spelling.symbols.meaning? s).Nodup := by
    refine List.Pairwise.map _ (fun s t hne he => hne ?_) hl
    rw [meaning_symbol, meaning_symbol] at he
    have hlist := congrArg String.toList (Scalar.text.inj (Option.some.inj he))
    rw [Spelling.toList_symbol, Spelling.toList_symbol] at hlist
    exact String.toList_inj.mp (List.cons.inj hlist).2
  have hplugin : ∀ p ∈ d, p.apart .symbols = true := by
    intro p hp
    have hlines := hnodup (h.lines p hp)
    rw [List.map_map] at hlines
    rw [Plugin.apart, Bool.and_eq_true]
    refine ⟨List.all_eq_true.mpr fun s _ => ?_, decide_eq_true hlines⟩
    rw [meaning_symbol, Option.isSome_some]
  have hkeys := hnodup h.keys
  rw [List.map_map] at hkeys
  rw [apart, Bool.and_eq_true]
  exact ⟨List.all_eq_true.mpr hplugin, decide_eq_true hkeys⟩

/-- Both spellings of a directory read back as the directory, but for keys that are too long in a
block, and for plain words that mean nothing or, as keys, the same. -/
theorem spellings_agree (h : Spellable d) (indent : Nat) :
    (parse (d.written .plain indent) =
      if d.short .plain = true ∧ d.apart .plain = true then .ok d else .error .malformed) ∧
    (parse (d.written .symbols indent) =
      if d.short .symbols = true then .ok d else .error .malformed) := by
  refine ⟨parse_written h .plain indent, ?_⟩
  rw [parse_written h .symbols indent, apart_symbols h]
  simp only [and_true]

/-- A directory whose lines are numbers, which are different ones. -/
theorem spellings_agree_of_numbers : ∃ d : PluginDirectory, Spellable d ∧
    parse (d.written .plain 1) = .ok d ∧ parse (d.written .symbols 1) = .ok d := by
  let d : PluginDirectory := [{
    key := "analytics"
    artifactId := "analytics-plugin"
    versions := [("0.20", "4.0.5"), ("0.22", "7.0.8")] }]
  have h : Spellable d := ⟨by decide, by decide, by decide, by decide⟩
  have hshort : d.short .plain = true ∧ d.short .symbols = true := by decide +kernel
  have hapart : d.apart .plain = true := by decide +kernel
  obtain ⟨hplain, hsymbols⟩ := spellings_agree h 1
  rw [if_pos ⟨hshort.1, hapart⟩] at hplain
  rw [if_pos hshort.2] at hsymbols
  exact ⟨d, h, hplain, hsymbols⟩

/-- Plain lines that are the same number are one key given twice. -/
theorem plain_spelling_refused : ∃ d : PluginDirectory, Spellable d ∧
    parse (d.written .plain 1) = .error .malformed ∧ parse (d.written .symbols 1) = .ok d := by
  let d : PluginDirectory := [{ key := "a", versions := [("0.2", "1"), ("0.20", "2")] }]
  have h : Spellable d := ⟨by decide, by decide, by decide, by decide⟩
  have hplain : d.apart .plain = false := by decide +kernel
  have hsymbols : d.short .symbols = true := by decide +kernel
  refine ⟨d, h, ?_, ?_⟩
  · rw [parse_written h .plain 1, hplain]
    rfl
  · rw [parse_written h .symbols 1, hsymbols, apart_symbols h]
    rfl

end PluginResolution.PluginDirectory
