import PluginResolution.Proofs.FilePlacement
import PluginResolution.Proofs.LedgerText

namespace PluginResolution.Ledger.File

open FileTree (Fits Keeps Place)

def Writable (path : String) (t : FileTree) : Prop :=
  (write path .empty t).1 = .ok ()

structure Ready (path : String) (t : FileTree) (a b : Place) : Prop where
  around : ∀ dir, Path.parent? path = some dir → dir.isEmpty = true ∨ t.isDirectory dir = true
  draft : Fits t (draft path) a
  target : Fits t path b
  dots : [File.draft path, path].any Path.endsInDots = false

variable {path : String} {t : FileTree} {a b : Place}

theorem attempt_change (path : String) (f : FileTree → Except FileTree.Fault FileTree)
    (t : FileTree) :
    attempt path (FileTree.change f) t = match f t with
      | .error e => (.error (failure path e), t)
      | .ok t' => (.ok (), t') := by
  rw [attempt, FileTree.change]
  cases f t with
  | error e => rfl
  | ok t' => rfl

theorem surround_eq (path : String) (t : FileTree) :
    surround path t = match Path.parent? path with
      | some dir => attempt dir (FileTree.makeDirs dir) t
      | none => (.ok (), t) := by
  unfold surround
  cases Path.parent? path with
  | none => rfl
  | some dir => rfl

theorem replace_eq (path : String) (m : Contents) (t : FileTree) :
    replace path m t = match t.write (draft path) (.text m.text) with
      | .error e => (.error (failure (draft path) e), t)
      | .ok t₁ => match t₁.rename (draft path) path with
        | .error e => (.error (failure path e), t₁)
        | .ok t₂ => (.ok (), t₂) := by
  rw [replace, FileTree.run_bind, attempt_change]
  cases t.write (draft path) (.text m.text) with
  | error e => rfl
  | ok t₁ => exact attempt_change path (·.rename (draft path) path) t₁

theorem surround_of_ready (h : Ready path t a b) : surround path t = (.ok (), t) := by
  rw [surround_eq]
  cases hp : Path.parent? path with
  | none => rfl
  | some dir => simp only [attempt, FileTree.makeDirs_of_directory (h.around dir hp)]

/-- Where everything is ready the file is replaced, and everything is ready again. -/
theorem replace_of_ready (h : Ready path t a b) (m : Contents) :
    ∃ t', replace path m t = (.ok (), t') ∧ Ready path t' a b ∧
      t'.read path = .ok (.text m.text) := by
  let n : FileTree.Node := .file (.text m.text)
  let t₁ := t.put a.parts n
  let t₂ := t₁.erase a.parts
  let t₃ := t₂.put b.parts n
  have ha : a.parts ≠ [] := FileTree.ne_nil_of_not_directory h.draft.free
  have hb : b.parts ≠ [] := FileTree.ne_nil_of_not_directory h.target.free
  have hnew : t₁.node? a.parts = some n := FileTree.node_put_self ha n
  have hgone : t₂.node? a.parts = none := FileTree.node_erase_self ha
  -- the place of the file holds no directory at any time, be it that of the draft or not
  have hfree₁ : t₁.node? b.parts ≠ some .directory := by
    by_cases hab : b.parts = a.parts
    · simp [hab, hnew, n]
    · rw [FileTree.node_put_of_ne hab]
      exact h.target.free
  have hfree₂ : t₂.node? b.parts ≠ some .directory := by
    by_cases hab : b.parts = a.parts
    · simp [hab, hgone]
    · rw [FileTree.node_erase_of_ne hab]
      exact hfree₁
  -- no step takes a directory away, so the paths lead where they led
  have hk₁ : Keeps t t₁ := h.draft.keeps_put n
  have hk₂ : Keeps t₁ t₂ := FileTree.keeps_erase (by simp [hnew, n])
  have hk : Keeps t t₃ := (hk₁.trans hk₂).trans (FileTree.keeps_put hfree₂ n)
  have hrenamed : t₁.rename (draft path) path = .ok t₃ :=
    FileTree.rename_of_fits (FileTree.locate_keeps hk₁ h.draft.located)
      (h.target.of_keeps hk₁ hfree₁) h.dots hnew
  have hnode : t₃.node? b.parts = some n := FileTree.node_put_self hb n
  have hdraft : t₃.node? a.parts ≠ some .directory := by
    by_cases hab : a.parts = b.parts
    · simp [hab, hnode, n]
    · rw [FileTree.node_put_of_ne hab, hgone]
      simp
  have htarget : Fits t₃ path b := h.target.of_keeps hk (by simp [hnode, n])
  refine ⟨t₃, ?_, ⟨?_, h.draft.of_keeps hk hdraft, htarget, h.dots⟩, htarget.read hnode⟩
  · rw [replace_eq, h.draft.write]
    simp only [t₁, n] at hrenamed
    simp only [hrenamed]
  · intro dir hp
    exact (h.around dir hp).imp_right (FileTree.isDirectory_keeps hk)

/-- After the directory is made everything is ready, if a ledger can be written then. -/
theorem ready_of_write {m : Contents} (h : (write path m t).1 = .ok ()) :
    ∃ t₁ a b, surround path t = (.ok (), t₁) ∧ Ready path t₁ a b := by
  rw [write, FileTree.run_bind] at h
  cases hs : surround path t with
  | mk r t₁ =>
    rw [hs] at h
    cases r with
    | error e => cases h
    | ok =>
      simp only [replace_eq] at h
      cases hw : t₁.write (draft path) (.text m.text) with
      | error e =>
        rw [hw] at h
        cases h
      | ok t₂ =>
        rw [hw] at h
        simp only at h
        cases hr : t₂.rename (draft path) path with
        | error e =>
          rw [hr] at h
          cases h
        | ok t₃ =>
          -- that the draft could be written and renamed tells where both paths lead
          obtain ⟨a, ha, rfl⟩ := FileTree.fits_of_write hw
          obtain ⟨-, -, b, -, -, hb, hdots, -⟩ := FileTree.of_rename hr
          have hfree : t₁.node? b.parts ≠ some .directory := fun hd =>
            hb.free ((ha.keeps_put _).directories _ hd)
          have htarget := hb.of_keeps (FileTree.keeps_of_put_file _ _) hfree
          refine ⟨t₁, a, b, rfl, ⟨?_, ha, htarget, hdots⟩⟩
          intro dir hp
          rw [surround_eq, hp] at hs
          simp only [attempt] at hs
          cases hd : FileTree.makeDirs dir t with
          | mk r t' =>
            rw [hd] at hs
            cases r with
            | error e => cases hs
            | ok =>
              cases hs
              exact FileTree.isDirectory_of_makeDirs hd

/-- Where one ledger can be written so can another, and it is read as what was written. -/
theorem write_of_write {m₀ m : Contents} (h : (write path m₀ t).1 = .ok ()) (hm : m.Keyed) :
    ∃ t', write path m t = (.ok (), t') ∧ Writable path t' ∧ read t' path = .ok m := by
  obtain ⟨t₁, a, b, hs, hready⟩ := ready_of_write h
  obtain ⟨t', hreplace, hready', hread⟩ := replace_of_ready hready m
  refine ⟨t', ?_, ?_, ?_⟩
  · rw [write, FileTree.run_bind, hs]
    exact hreplace
  · obtain ⟨t'', hagain, -⟩ := replace_of_ready hready' .empty
    rw [Writable, write, FileTree.run_bind, surround_of_ready hready']
    exact congrArg Prod.fst hagain
  · rw [read, FileTree.readText, hread]
    simp only [bind, Except.bind, pure, Except.pure, Contents.ofText_text hm]

theorem write_of_writable (h : Writable path t) {m : Contents} (hm : m.Keyed) :
    ∃ t', write path m t = (.ok (), t') ∧ Writable path t' ∧ read t' path = .ok m :=
  write_of_write h hm

/-- A ledger that is read is empty or is what the text of the file says. -/
theorem of_read {t : FileTree} {path : String} {m : Contents} (h : read t path = .ok m) :
    m = .empty ∨ ∃ text, t.read path = .ok (.text text) ∧ Contents.ofText? text = some m := by
  rw [read] at h
  split at h
  · cases h
    exact .inl rfl
  · cases h
  · rename_i text hread
    split at h
    · rename_i m' hm
      cases h
      refine .inr ⟨text, ?_, hm⟩
      rw [FileTree.readText] at hread
      cases hc : t.read path with
      | error e => simp [hc, bind, Except.bind] at hread
      | ok c =>
        cases c with
        | text s =>
          simp [hc, bind, Except.bind, pure, Except.pure] at hread
          rw [hread]
        | _ => simp [hc, bind, Except.bind, throw, throwThe, MonadExceptOf.throw] at hread
    · cases h

theorem keyed_of_read {t : FileTree} {path : String} {m : Contents} (h : read t path = .ok m) :
    m.Keyed := by
  rcases of_read h with rfl | ⟨text, -, htext⟩
  · exact Contents.keyed_empty
  · exact Contents.keyed_of_ofText htext

section Reads

variable {m : Contents}

theorem records_of_read (hread : read t path = .ok m) : records t path = .ok m.values := by
  rw [records, hread]
  rfl

theorem get_of_read (hread : read t path = .ok m) (key : String) :
    get t path key = match m.find? key with
      | some r => .ok r
      | none => .error (.missing key) := by
  rw [get, hread]
  simp only [bind, Except.bind]
  cases m.find? key with
  | none => rfl
  | some r => rfl

end Reads

section Changes

variable {m : Contents}

theorem current_bind {α : Type} (hread : read t path = .ok m) (f : Contents → Action α) :
    (current path >>= f) t = f m t := by
  rw [FileTree.run_bind, current, hread]

/-- An upsert writes the ledger with the record. -/
theorem upsert_of_read (hread : read t path = .ok m) {r : Record}
    (hblank : Text.isBlankText r.key = false) :
    upsert path r t = write path (m.insert r.key r) t := by
  rw [upsert, hblank]
  exact current_bind hread fun m => write path (m.insert r.key r)

theorem current_bind_error {α : Type} {e : Error} (hread : read t path = .error e)
    (f : Contents → Action α) : (current path >>= f) t = (.error e, t) := by
  rw [FileTree.run_bind, current, hread]

/-- A ledger that cannot be read is not changed. -/
theorem upsert_of_unreadable {e : Error} (hread : read t path = .error e) {r : Record}
    (hblank : Text.isBlankText r.key = false) : upsert path r t = (.error e, t) := by
  rw [upsert, hblank]
  exact current_bind_error hread fun m => write path (m.insert r.key r)

theorem remove_of_unreadable {e : Error} (hread : read t path = .error e) (key : String) :
    remove path key t = (.error e, t) := by
  rw [remove, current_bind_error hread]

theorem remove_of_missing (hread : read t path = .ok m) {key : String}
    (hkey : m.find? key = none) : remove path key t = (.error (.missing key), t) := by
  rw [remove, current_bind hread, hkey]
  rfl

/-- A removal writes the ledger without the record. -/
theorem remove_of_found (hread : read t path = .ok m) {key : String} {r : Record}
    (hkey : m.find? key = some r) : remove path key t = write path (m.erase key) t := by
  rw [remove, current_bind hread, hkey]

end Changes

end PluginResolution.Ledger.File
