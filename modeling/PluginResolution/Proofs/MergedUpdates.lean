import Mathlib.Data.List.Induction
import PluginResolution.Settings

namespace PluginResolution

namespace Change

variable {α : Type}

/-- What changes leave of a value: the last that does not keep it decides, and where all keep it, it
stays. -/
inductive Leaves (old : Option α) : List (Change α) → Option α → Prop
  | untouched {all : List (Change α)} (kept : ∀ c ∈ all, c = .keep) : Leaves old all old
  | reset (before : List (Change α)) {after : List (Change α)} (kept : ∀ c ∈ after, c = .keep) :
      Leaves old (before ++ .reset :: after) none
  | set (before : List (Change α)) (value : α) {after : List (Change α)}
      (kept : ∀ c ∈ after, c = .keep) : Leaves old (before ++ .set value :: after) (some value)

variable {old new : Option α} {changes : List (Change α)}

def applyAll (changes : List (Change α)) (old : Option α) : Option α :=
  changes.foldl (fun value c => c.apply value) old

theorem applyAll_of_kept (h : ∀ c ∈ changes, c = keep) : applyAll changes old = old := by
  induction changes with
  | nil => rfl
  | cons c rest ih =>
    obtain ⟨rfl, hrest⟩ := List.forall_mem_cons.1 h
    exact ih hrest

/-- Behind the last change that does not keep the value nothing happens to it. -/
theorem applyAll_of_last {c : Change α} (before : List (Change α)) {after : List (Change α)}
    (h : ∀ d ∈ after, d = keep) :
    applyAll (before ++ c :: after) old = c.apply (applyAll before old) := by
  rw [applyAll, List.foldl_append, List.foldl_cons]
  exact applyAll_of_kept h

theorem Leaves.keep (h : Leaves old changes new) : Leaves old (changes ++ [.keep]) new := by
  have more {cs : List (Change α)} (hcs : ∀ c ∈ cs, c = .keep) :
      ∀ c ∈ cs ++ [.keep], c = .keep :=
    List.forall_mem_append.2 ⟨hcs, by simp⟩
  cases h with
  | untouched kept => exact .untouched (more kept)
  | reset before kept =>
    rw [List.append_assoc]
    exact .reset before (more kept)
  | set before value kept =>
    rw [List.append_assoc]
    exact .set before value (more kept)

theorem leaves_applyAll (changes : List (Change α)) (old : Option α) :
    Leaves old changes (applyAll changes old) := by
  -- on the changes, the last of which decides unless it keeps what the ones before it have left
  induction changes using List.reverseRecOn with
  | nil => exact .untouched (by simp)
  | append_singleton before c ih =>
    rw [applyAll_of_last before (by simp)]
    cases c with
    | keep => exact ih.keep
    | reset => exact .reset before (by simp)
    | set value => exact .set before value (by simp)

theorem leaves_iff : Leaves old changes new ↔ new = applyAll changes old := by
  constructor
  · intro h
    cases h with
    | untouched kept => exact (applyAll_of_kept kept).symm
    | reset before kept =>
      rw [applyAll_of_last before kept]
      rfl
    | set before value kept =>
      rw [applyAll_of_last before kept]
      rfl
  · rintro rfl
    exact leaves_applyAll changes old

theorem apply_apply (c : Change α) (old : Option α) : c.apply (c.apply old) = c.apply old := by
  cases c with
  | keep => rfl
  | reset => rfl
  | set value => rfl

theorem isKeep_iff {c : Change α} : c.isKeep = true ↔ c = keep := by
  cases c with
  | keep => exact iff_of_true rfl rfl
  | reset => exact iff_of_false nofun nofun
  | set value => exact iff_of_false nofun nofun

/-- A reset shows where there is a value, and a value that is set where there is none. -/
theorem eq_keep_of_apply (value : α) {c : Change α} (h : ∀ old, c.apply old = old) : c = keep := by
  cases c with
  | keep => rfl
  | reset => cases h (some value)
  | set new => cases h none

end Change

attribute [ext] Settings

namespace Settings

/-- One of the six values, as settings and updates have it. An update reaches it by its own change
and by no other. -/
structure Value (α : Type) where
  get : Settings → Option α
  change : Update → Change α
  only : Option α → Settings
  get_only : ∀ value, get (only value) = value := by intros; rfl
  get_merge : ∀ s u, get (s.merge u) = (change u).apply (get s) := by intros; rfl

namespace Value

def catalogUrl : Value String where
  get := Settings.catalogUrl
  change := Update.catalogUrl
  only value := { catalogUrl := value }

def cacheTtl : Value UInt64 where
  get := Settings.cacheTtl
  change := Update.cacheTtl
  only value := { cacheTtl := value }

def requestTimeout : Value UInt64 where
  get := Settings.requestTimeout
  change := Update.requestTimeout
  only value := { requestTimeout := value }

def maxRetries : Value UInt32 where
  get := Settings.maxRetries
  change := Update.maxRetries
  only value := { maxRetries := value }

def backend : Value Backend where
  get := Settings.backend
  change := Update.backend
  only value := { backend := value }

def defaultHostVersion : Value String where
  get := Settings.defaultHostVersion
  change := Update.defaultHostVersion
  only value := { defaultHostVersion := value }

end Value

def updated (s : Settings) (updates : List Update) : Settings :=
  updates.foldl merge s

structure Becomes (s : Settings) (updates : List Update) (t : Settings) : Prop where
  catalogUrl : Change.Leaves s.catalogUrl (updates.map (·.catalogUrl)) t.catalogUrl
  cacheTtl : Change.Leaves s.cacheTtl (updates.map (·.cacheTtl)) t.cacheTtl
  requestTimeout :
    Change.Leaves s.requestTimeout (updates.map (·.requestTimeout)) t.requestTimeout
  maxRetries : Change.Leaves s.maxRetries (updates.map (·.maxRetries)) t.maxRetries
  backend : Change.Leaves s.backend (updates.map (·.backend)) t.backend
  defaultHostVersion :
    Change.Leaves s.defaultHostVersion (updates.map (·.defaultHostVersion)) t.defaultHostVersion

variable {α : Type} {s t : Settings} {updates : List Update} {u : Update}

theorem Value.get_updated (v : Value α) (s : Settings) (updates : List Update) :
    v.get (s.updated updates) = Change.applyAll (updates.map v.change) (v.get s) := by
  induction updates generalizing s with
  | nil => rfl
  | cons u rest ih =>
    calc v.get (s.updated (u :: rest))
      _ = v.get ((s.merge u).updated rest) := rfl
      _ = Change.applyAll (rest.map v.change) ((v.change u).apply (v.get s)) := by
        rw [ih, v.get_merge]
      _ = Change.applyAll ((u :: rest).map v.change) (v.get s) := rfl

theorem Value.leaves_iff (v : Value α) {value : Option α} :
    Change.Leaves (v.get s) (updates.map v.change) value ↔ value = v.get (s.updated updates) := by
  rw [v.get_updated, Change.leaves_iff]

theorem becomes_iff : s.Becomes updates t ↔ t = s.updated updates := by
  constructor
  · intro h
    ext1
    · exact Value.catalogUrl.leaves_iff.1 h.catalogUrl
    · exact Value.cacheTtl.leaves_iff.1 h.cacheTtl
    · exact Value.requestTimeout.leaves_iff.1 h.requestTimeout
    · exact Value.maxRetries.leaves_iff.1 h.maxRetries
    · exact Value.backend.leaves_iff.1 h.backend
    · exact Value.defaultHostVersion.leaves_iff.1 h.defaultHostVersion
  · rintro rfl
    exact {
      catalogUrl := Value.catalogUrl.leaves_iff.2 rfl
      cacheTtl := Value.cacheTtl.leaves_iff.2 rfl
      requestTimeout := Value.requestTimeout.leaves_iff.2 rfl
      maxRetries := Value.maxRetries.leaves_iff.2 rfl
      backend := Value.backend.leaves_iff.2 rfl
      defaultHostVersion := Value.defaultHostVersion.leaves_iff.2 rfl }

theorem merge_merge (s : Settings) (u : Update) : (s.merge u).merge u = s.merge u := by
  simp only [merge, Change.apply_apply]

/-- An update that changes no settings says nothing about any value. -/
theorem Value.change_eq_keep (v : Value α) (value : α) (h : ∀ s : Settings, s.merge u = s) :
    v.change u = .keep := by
  apply Change.eq_keep_of_apply value
  intro old
  calc (v.change u).apply old
    _ = (v.change u).apply (v.get (v.only old)) := by rw [v.get_only]
    _ = v.get ((v.only old).merge u) := (v.get_merge _ _).symm
    _ = old := by rw [h, v.get_only]

theorem Update.isEmpty_iff : u.isEmpty = true ↔ ∀ s : Settings, s.merge u = s := by
  simp only [isEmpty, Bool.and_eq_true, Change.isKeep_iff]
  constructor
  · rintro ⟨⟨⟨⟨⟨hurl, httl⟩, htimeout⟩, hretries⟩, hbackend⟩, hhost⟩ s
    rw [merge, hurl, httl, htimeout, hretries, hbackend, hhost]
    rfl
  · intro h
    exact ⟨⟨⟨⟨⟨Value.catalogUrl.change_eq_keep "" h, Value.cacheTtl.change_eq_keep 0 h⟩,
      Value.requestTimeout.change_eq_keep 0 h⟩, Value.maxRetries.change_eq_keep 0 h⟩,
      Value.backend.change_eq_keep .json h⟩, Value.defaultHostVersion.change_eq_keep "" h⟩

/-- Merging updates one after the other gives exactly the settings in which each value is what the
last update that does not leave it alone makes of it, or as it was if all leave it alone. Merging an
update a second time adds nothing, and an update is empty exactly if it changes no settings at
all. -/
theorem merging_keeps_last :
    (∀ (s : Settings) (updates : List Update) (t : Settings),
      t = s.updated updates ↔ s.Becomes updates t) ∧
    (∀ (s : Settings) (u : Update), (s.merge u).merge u = s.merge u) ∧
    (∀ u : Update, u.isEmpty = true ↔ ∀ s : Settings, s.merge u = s) := by
  refine ⟨?_, merge_merge, ?_⟩
  · intro s updates t
    exact becomes_iff.symm
  · intro u
    exact Update.isEmpty_iff

/-- A reset lasts through updates that leave the value alone. -/
example :
    defaults.updated [{ catalogUrl := .set "file:///a.yml", cacheTtl := .set 60 },
        { catalogUrl := .reset, maxRetries := .set 5 }, { maxRetries := .set 0 }] =
      { defaults with catalogUrl := none, cacheTtl := some 60, maxRetries := some 0 } := by decide

end Settings

end PluginResolution
