import PluginResolution.Proofs.SettingsText

namespace PluginResolution

namespace Change

variable {α : Type}

def withoutReset : Change α → Change α
  | .reset => .keep
  | .keep => .keep
  | .set value => .set value

theorem ofOption_value (c : Change α) : ofOption c.value? = c.withoutReset := by
  cases c with
  | keep => rfl
  | reset => rfl
  | set value => rfl

theorem withoutReset_of_ne {c : Change α} (h : c ≠ .reset) : c.withoutReset = c := by
  cases c with
  | keep => rfl
  | reset => exact absurd rfl h
  | set value => rfl

/-- Where there is a value, its reset makes a difference. -/
theorem ne_reset_of_apply {c : Change α} {old : α}
    (h : c.withoutReset.apply (some old) = c.apply (some old)) : c ≠ .reset := by
  rintro rfl
  cases h

end Change

namespace Settings.Update

def withoutResets (u : Update) : Update where
  catalogUrl := u.catalogUrl.withoutReset
  cacheTtl := u.cacheTtl.withoutReset
  requestTimeout := u.requestTimeout.withoutReset
  maxRetries := u.maxRetries.withoutReset
  backend := u.backend.withoutReset
  defaultHostVersion := u.defaultHostVersion.withoutReset

structure ResetsNothing (u : Update) : Prop where
  catalogUrl : u.catalogUrl ≠ .reset
  cacheTtl : u.cacheTtl ≠ .reset
  requestTimeout : u.requestTimeout ≠ .reset
  maxRetries : u.maxRetries ≠ .reset
  backend : u.backend ≠ .reset
  defaultHostVersion : u.defaultHostVersion ≠ .reset

variable {u : Update}

theorem ResetsNothing.withoutResets_eq (h : u.ResetsNothing) : u.withoutResets = u := by
  rw [withoutResets, Change.withoutReset_of_ne h.catalogUrl, Change.withoutReset_of_ne h.cacheTtl,
    Change.withoutReset_of_ne h.requestTimeout, Change.withoutReset_of_ne h.maxRetries,
    Change.withoutReset_of_ne h.backend, Change.withoutReset_of_ne h.defaultHostVersion]

/-- Settings that lack no value show every reset. -/
theorem resetsNothing_of_merge {url host : String} {ttl timeout : UInt64} {retries : UInt32}
    {backend : Backend}
    (h : merge ⟨some url, some ttl, some timeout, some retries, some backend, some host⟩
        u.withoutResets =
      merge ⟨some url, some ttl, some timeout, some retries, some backend, some host⟩ u) :
    u.ResetsNothing where
  catalogUrl := Change.ne_reset_of_apply (congrArg Settings.catalogUrl h)
  cacheTtl := Change.ne_reset_of_apply (congrArg Settings.cacheTtl h)
  requestTimeout := Change.ne_reset_of_apply (congrArg Settings.requestTimeout h)
  maxRetries := Change.ne_reset_of_apply (congrArg Settings.maxRetries h)
  backend := Change.ne_reset_of_apply (congrArg Settings.backend h)
  defaultHostVersion := Change.ne_reset_of_apply (congrArg Settings.defaultHostVersion h)

theorem ofJson_toJson (u : Update) : ofJson? u.toJson.toSyntax = some u.withoutResets := by
  rw [ofJson?, toJson, ofRecord_toJson]
  simp only [Option.bind_eq_bind, Option.bind_some, Change.ofOption_value]
  rfl

/-- The text of an update reads back as the update without its resets. That merges as the update
does into all settings, and is empty when the update is, exactly if nothing is reset. -/
theorem text_keeps_update_iff (u : Update) :
    u.toJson.ReadsBack ofJson? u.withoutResets ∧
      (((∀ s : Settings, s.merge u.withoutResets = s.merge u) ∧
          u.withoutResets.isEmpty = u.isEmpty) ↔ u.ResetsNothing) := by
  refine ⟨.of_ofJson u.ofJson_toJson, ?_, fun h => ?_⟩
  · rintro ⟨hmerge, -⟩
    exact resetsNothing_of_merge (hmerge ⟨some "", some 0, some 0, some 0, some .json, some ""⟩)
  · rw [h.withoutResets_eq]
    exact ⟨fun _ => rfl, rfl⟩

/-- An update that resets the catalog URL reads back as one that changes nothing. -/
theorem reset_reads_back_as_nothing :
    let u : Update := { catalogUrl := .reset }
    ∃ u', (Json.read u.toJson.compact).bind ofJson? = some u' ∧
      defaults.merge u' ≠ defaults.merge u ∧ u'.isEmpty ≠ u.isEmpty := by
  intro u
  have hread : u.toJson.ReadsBack ofJson? u.withoutResets := .of_ofJson u.ofJson_toJson
  exact ⟨u.withoutResets, hread.compact, by decide, by decide⟩

end Settings.Update

end PluginResolution
