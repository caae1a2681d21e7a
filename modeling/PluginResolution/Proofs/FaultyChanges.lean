import PluginResolution.Proofs.ConcurrentLedger
import PluginResolution.Proofs.DraftPlace
import PluginResolution.Proofs.LedgerUpdates

/-!
Changes of a ledger's file in which any file operation may fail, also after it was done in part.
Until the draft has taken the place of the file, the file is what it was; and nothing but that comes
after the last operation that can fail.
-/
namespace PluginResolution

namespace FileTree

/-- What the file holds that a path names, be the way to it there or not. -/
def fileAt? (t : FileTree) (path : String) : Option Content :=
  match t.node? (t.partsOf path) with
  | some (.file c) => some c
  | _ => none

inductive Makes : FileTree → FileTree → Prop
  | none {t} : Makes t t
  | more {t u v dir} (before : Makes t u) (made : u.makeDir dir = .ok v) : Makes t v

variable {t t' t'' : FileTree} {path : String} {c : Content}

theorem fileAt_eq_some_iff :
    t.fileAt? path = some c ↔ t.node? (t.partsOf path) = some (.file c) := by
  rw [fileAt?]
  split
  · rename_i d hn
    simp [hn]
  · rename_i hn
    exact ⟨nofun, fun h => absurd h (hn c)⟩

theorem Makes.sameFiles (h : Makes t t') : SameFiles t t' := by
  induction h with
  | none => exact .refl _
  | more before made ih => exact ih.trans (sameFiles_makeDir made)

structure Intact (path : String) (t t' : FileTree) : Prop where
  keeps : Keeps t t'
  file : t'.fileAt? path = t.fileAt? path

theorem Intact.refl (path : String) (t : FileTree) : Intact path t t :=
  ⟨.refl t, rfl⟩

theorem SameFiles.intact (h : SameFiles t t') (path : String) : Intact path t t' where
  keeps := h.keeps
  file := by
    refine Option.ext fun c => ?_
    rw [fileAt_eq_some_iff, fileAt_eq_some_iff, partsOf_of_current h.keeps.current]
    exact h.files _ c

theorem Intact.trans (h : Intact path t t') (h' : Intact path t' t'') : Intact path t t'' :=
  ⟨h.keeps.trans h'.keeps, h'.file.trans h.file⟩

theorem intact_of_write {other : String} (h : t.write other c = .ok t')
    (hne : t.partsOf path ≠ t.partsOf other) : Intact path t t' := by
  obtain ⟨place, hfits, rfl⟩ := fits_of_write h
  rw [← locate_parts hfits.located] at hne
  refine ⟨hfits.keeps_put _, Option.ext fun d => ?_⟩
  have hparts : (t.put place.parts (.file c)).partsOf path = t.partsOf path :=
    partsOf_of_current rfl path
  rw [fileAt_eq_some_iff, fileAt_eq_some_iff, hparts, node_put_of_ne hne]

/-- What is read at the path is read there still. -/
theorem Intact.read (h : Intact path t t') (hread : t.read path = .ok c) : t'.read path = .ok c := by
  obtain ⟨place, hfits, hn⟩ := fits_of_read hread
  have hparts := locate_parts hfits.located
  have hthere : t.fileAt? path = some c := fileAt_eq_some_iff.mpr (hparts ▸ hn)
  rw [← h.file, fileAt_eq_some_iff, partsOf_of_current h.keeps.current, ← hparts] at hthere
  exact (hfits.of_keeps h.keeps (by simp [hthere])).read hthere

/-- What is read there now was read there before. -/
theorem Intact.read_before (h : Intact path t t') (rooted : t.Rooted)
    (straight : ".." ∉ Path.segments path) (hread : t'.read path = .ok c) : t.read path = .ok c := by
  obtain ⟨place, hfits, hn⟩ := fits_of_read hread
  have hparts := locate_parts hfits.located
  have hthere : t'.fileAt? path = some c := fileAt_eq_some_iff.mpr (hparts ▸ hn)
  rw [h.file, fileAt_eq_some_iff, ← partsOf_of_current h.keeps.current, ← hparts] at hthere
  exact rooted.read_of_place straight h.keeps.current hfits hthere

/-- A file that was moved is found at the other path, and no longer at its own. -/
theorem of_moved {source target : String} {a : Place} (hs : Fits t source a)
    (hn : t.node? a.parts = some (.file c)) (hne : t.partsOf target ≠ t.partsOf source)
    (h : t.rename source target = .ok t') :
    t'.read target = .ok c ∧ t'.stat source = .error .missing := by
  obtain ⟨a', n, b, ha, hn', hb, -, rfl⟩ := of_rename h
  obtain rfl : a' = a := Except.ok.inj (ha.symm.trans hs.located)
  rw [hn] at hn'
  cases hn'
  rw [← locate_parts hb.located, ← locate_parts hs.located] at hne
  have hnil : a'.parts ≠ [] := ne_nil_of_not_directory hs.free
  have hfree : (t.erase a'.parts).node? b.parts ≠ some .directory := by
    rw [node_erase_of_ne hne]
    exact hb.free
  have hk : Keeps t ((t.erase a'.parts).put b.parts (.file c)) :=
    (keeps_erase hs.free).trans (keeps_put hfree _)
  have hself := node_put_self (t := t.erase a'.parts) (ne_nil_of_not_directory hb.free) (.file c)
  constructor
  · exact (hb.of_keeps hk (by rw [hself]; simp)).read hself
  · rw [stat, locate_keeps hk hs.located]
    simp only [bind, Except.bind, node_put_of_ne (Ne.symm hne), node_erase_self hnil]
    rfl

end FileTree

namespace Ledger

open FileTree (Intact Makes SameFiles)

namespace Phase

def failed (path detail : String) : Phase :=
  leaving (.done (.error (.storage (path ++ ": " ++ detail))))

/-- A file operation fails where it could succeed. It may have been done in part: some directories
are made, or the draft holds whatever was written of it. -/
inductive Falters (path : String) : Phase → FileTree → Phase → FileTree → Prop
  | read {t} (detail : String) : Falters path locked t (failed path detail) t
  | surround {m t t' dir} (around : Path.parent? path = some dir) (made : Makes t t')
      (detail : String) : Falters path (surrounding m) t (failed dir detail) t'
  | unopened {m t} (detail : String) :
      Falters path (drafting m) t (failed (File.draft path) detail) t
  | draft {m t t' c} (written : t.write (File.draft path) c = .ok t') (detail : String) :
      Falters path (drafting m) t (failed (File.draft path) detail) t'
  | rename {t} (detail : String) : Falters path replacing t (failed path detail) t

inductive Trial (path : String) (op : Operation) (t₀ : FileTree) : Phase → FileTree → Prop
  | begun : Trial path op t₀ begun t₀
  | step {p p' t t'} (before : Trial path op t₀ p t) (next : p.step path op t = some (p', t')) :
      Trial path op t₀ p' t'
  | falter {p p' t t'} (before : Trial path op t₀ p t) (next : Falters path p t p' t') :
      Trial path op t₀ p' t'

structure Granted (path : String) (op : Operation) (t : FileTree) (m : Contents) : Prop where
  stored : File.read t path = .ok m
  granted : m.answer op = .done (.ok ())

structure Completed (path : String) (op : Operation) (t t' : FileTree) (m : Contents) : Prop where
  granted : Granted path op t m
  stored : t'.read path = .ok (.text (m.after op).text)
  no_draft : t'.stat (File.draft path) = .error .missing

inductive Outcome (path : String) (op : Operation) (t₀ : FileTree) : Answer → FileTree → Prop
  | other {a t} (h : ∀ result, a ≠ .done result) : Outcome path op t₀ a t
  | failed {e t} (intact : Intact path t₀ t) : Outcome path op t₀ (.done (.error e)) t
  | done {t m} (completed : Completed path op t₀ t m) : Outcome path op t₀ (.done (.ok ())) t

inductive Course (path : String) (op : Operation) (t₀ : FileTree) : Phase → FileTree → Prop
  | begun : Course path op t₀ begun t₀
  | locked (change : op.isChange = true) : Course path op t₀ locked t₀
  | surrounding {m} (granted : Granted path op t₀ m) : Course path op t₀ (surrounding (m.after op)) t₀
  | drafting {m u} (granted : Granted path op t₀ m) (same : SameFiles t₀ u) :
      Course path op t₀ (drafting (m.after op)) u
  | replacing {m u v} (granted : Granted path op t₀ m) (same : SameFiles t₀ u)
      (drafted : u.write (File.draft path) (.text (m.after op).text) = .ok v) :
      Course path op t₀ replacing v
  | answered {p a t} (given : p.answer? = some a) (outcome : Outcome path op t₀ a t) :
      Course path op t₀ p t

variable {path : String} {op : Operation} {t₀ t t' : FileTree} {p p' : Phase} {m : Contents}

theorem Trial.alone (h : Trial path op t₀ p t) (n : Nat) :
    Trial path op t₀ (alone path op n t p).1 (alone path op n t p).2 := by
  induction n generalizing p t with
  | zero => exact h
  | succ n ih =>
    rw [Phase.alone]
    split
    · rename_i next
      exact ih (h.step next)
    · exact h

theorem course_failed (other detail : String) (h : Intact path t₀ t) :
    Course path op t₀ (failed other detail) t :=
  .answered rfl (.failed h)

/-- While a draft is written, and if it breaks off, the file is as it was. -/
theorem intact_of_draft {u v : FileTree} {c : FileTree.Content} (same : SameFiles t₀ u)
    (h : u.write (File.draft path) c = .ok v) : Intact path t₀ v := by
  obtain ⟨place, hfits, -⟩ := FileTree.fits_of_write h
  exact (same.intact path).trans (FileTree.intact_of_write h (File.draft_elsewhere hfits))

/-- A draft that has taken the place of the file is gone from its own. -/
theorem completed_of_rename {u v : FileTree} (granted : Granted path op t₀ m)
    (drafted : u.write (File.draft path) (.text (m.after op).text) = .ok v)
    (h : v.rename (File.draft path) path = .ok t) : Completed path op t₀ t m := by
  obtain ⟨place, hfits, rfl⟩ := FileTree.fits_of_write drafted
  have hself := FileTree.node_put_self (t := u) (FileTree.ne_nil_of_not_directory hfits.free)
    (.file (.text (m.after op).text))
  have hafter := hfits.of_keeps (hfits.keeps_put _) (by rw [hself]; simp)
  obtain ⟨hstored, hgone⟩ := FileTree.of_moved hafter hself (File.draft_elsewhere hafter) h
  exact ⟨granted, hstored, hgone⟩

theorem course_of_begun (next : begun.step path op t₀ = some (p', t')) :
    Course path op t₀ p' t' := by
  cases op with
  | list =>
    cases next
    exact .answered rfl (.other nofun)
  | get key =>
    cases next
    exact .answered rfl (.other nofun)
  | upsert r =>
    rw [Phase.step] at next
    cases hblank : Text.isBlankText r.key with
    | true =>
      rw [hblank] at next
      cases next
      exact .answered rfl (.failed (.refl path _))
    | false =>
      rw [hblank] at next
      cases next
      exact .locked (by rw [Operation.isChange, hblank]; rfl)
  | remove key =>
    cases next
    exact .locked rfl

/-- An answer that is given before any file was changed. -/
theorem outcome_of_refused {a : Answer} (refused : a ≠ .done (.ok ())) : Outcome path op t₀ a t₀ := by
  cases a with
  | done result =>
    cases result with
    | ok => exact absurd rfl refused
    | error e => exact .failed (.refl path t₀)
  | records list => exact .other nofun
  | record found => exact .other nofun

theorem course_of_locked (change : op.isChange = true)
    (next : locked.step path op t₀ = some (p', t')) : Course path op t₀ p' t' := by
  cases hread : File.read t₀ path with
  | error e =>
    -- what cannot be read is not written over
    rw [Phase.step, hread] at next
    cases next
    exact .answered rfl (.failed (.refl path _))
  | ok m =>
    cases goes_of_locked hread change next with
    | refuse refused => exact .answered rfl (outcome_of_refused refused)
    | read granted => exact .surrounding ⟨hread, granted⟩

theorem course_of_surrounding (granted : Granted path op t₀ m)
    (h : behind (drafting (m.after op)) (File.surround path t₀) = (p', t')) :
    Course path op t₀ p' t' := by
  have hsame := File.sameFiles_surround path t₀
  generalize File.surround path t₀ = made at h hsame
  obtain ⟨result, u⟩ := made
  cases result with
  | error e =>
    cases h
    exact .answered rfl (.failed (hsame.intact path))
  | ok =>
    cases h
    exact .drafting granted hsame

/-- A file operation at another path changes the tree or leaves it as it is. -/
theorem course_of_attempt {next : Phase} {other : String}
    {f : FileTree → Except FileTree.Fault FileTree} (intact : Intact path t₀ t)
    (ok : ∀ t', f t = .ok t' → Course path op t₀ next t')
    (h : behind next (File.attempt other (FileTree.change f) t) = (p', t')) :
    Course path op t₀ p' t' := by
  rw [File.attempt_change] at h
  cases hf : f t with
  | error e =>
    rw [hf] at h
    cases h
    exact .answered rfl (.failed intact)
  | ok u =>
    rw [hf] at h
    cases h
    exact ok _ hf

theorem Course.step (h : Course path op t₀ p t) (next : p.step path op t = some (p', t')) :
    Course path op t₀ p' t' := by
  cases h with
  | begun => exact course_of_begun next
  | locked change => exact course_of_locked change next
  | surrounding granted => exact course_of_surrounding granted (Option.some.inj next)
  | drafting granted same =>
    exact course_of_attempt (same.intact path) (fun v drafted => .replacing granted same drafted)
      (Option.some.inj next)
  | replacing granted same drafted =>
    refine course_of_attempt (intact_of_draft same drafted) (fun u renamed => ?_)
      (Option.some.inj next)
    exact .answered rfl (.done (completed_of_rename granted drafted renamed))
  | answered given outcome =>
    -- the files are left alone once there is an answer
    cases p with
    | leaving a =>
      cases given
      cases next
      exact .answered rfl outcome
    | returning a =>
      cases given
      cases next
      exact .answered rfl outcome
    | ended a => cases next
    | _ => cases given

theorem Course.falter (h : Course path op t₀ p t) (next : Falters path p t p' t') :
    Course path op t₀ p' t' := by
  cases next with
  | read detail =>
    cases h with
    | locked change => exact course_failed path detail (.refl path t₀)
    | answered given => cases given
  | surround around made detail =>
    cases h with
    | surrounding granted => exact course_failed _ detail (made.sameFiles.intact path)
    | answered given => cases given
  | unopened detail =>
    cases h with
    | drafting granted same => exact course_failed _ detail (same.intact path)
    | answered given => cases given
  | draft written detail =>
    cases h with
    | drafting granted same => exact course_failed _ detail (intact_of_draft same written)
    | answered given => cases given
  | rename detail =>
    cases h with
    | replacing granted same drafted => exact course_failed path detail (intact_of_draft same drafted)
    | answered given => cases given

theorem Trial.course (h : Trial path op t₀ p t) : Course path op t₀ p t := by
  induction h with
  | begun => exact .begun
  | step before next ih => exact ih.step next
  | falter before next ih => exact ih.falter next

/-- An upsert without such failures is one of the trials. -/
theorem trial_of_upsert (path : String) (r : Record) (t : FileTree) :
    Trial path (.upsert r) t (ended (.done (File.upsert path r t).1)) (File.upsert path r t).2 := by
  cases hblank : Text.isBlankText r.key with
  | true =>
    have hstep : begun.step path (.upsert r) t =
        some (returning (.done (.error .blankKey)), t) := by rw [Phase.step, hblank]; rfl
    rw [File.upsert_of_blank hblank]
    exact (Trial.begun.step hstep).step rfl
  | false =>
    have hstep : begun.step path (.upsert r) t = some (locked, t) := by
      rw [Phase.step, hblank]
      rfl
    have htrial := (Trial.begun.step hstep).alone 6
    rwa [alone_upsert path r hblank t] at htrial

theorem trial_of_remove (path key : String) (t : FileTree) :
    Trial path (.remove key) t (ended (.done (File.remove path key t).1))
      (File.remove path key t).2 := by
  have hstep : begun.step path (.remove key) t = some (locked, t) := rfl
  have htrial := (Trial.begun.step hstep).alone 6
  rwa [alone_remove path key t] at htrial

/-- The file is what it was, and is read as it was. Only a path that leads upwards out of a directory
may lead to the file after that directory was made and not before. -/
structure Untouched (path : String) (t t' : FileTree) : Prop where
  file : t'.fileAt? path = t.fileAt? path
  read : ∀ c, t.read path = .ok c → t'.read path = .ok c
  read_before : t.Rooted → ".." ∉ Path.segments path →
    ∀ c, t'.read path = .ok c → t.read path = .ok c

theorem untouched_of_intact (h : Intact path t t') : Untouched path t t' where
  file := h.file
  read := fun _ => h.read
  read_before := fun rooted straight _ => h.read_before rooted straight

/-- A change of a ledger's file goes wrong and leaves the file alone, or goes well and leaves the
complete new ledger and no draft. The second comes only of a file that could be read as a ledger. -/
theorem changes_all_or_nothing (path : String) (t : FileTree) :
    (∀ r, Trial path (.upsert r) t (ended (.done (File.upsert path r t).1))
      (File.upsert path r t).2) ∧
    (∀ key, Trial path (.remove key) t (ended (.done (File.remove path key t).1))
      (File.remove path key t).2) ∧
    ∀ op result t', Trial path op t (ended (.done result)) t' →
      (∀ e, result = .error e → Untouched path t t') ∧
      (result = .ok () → ∃ m, Completed path op t t' m) := by
  refine ⟨fun r => trial_of_upsert path r t, fun key => trial_of_remove path key t,
    fun op result t' trial => ?_⟩
  have hcourse := trial.course
  cases hcourse with
  | answered given outcome =>
    cases given
    cases outcome with
    | other h => exact absurd rfl (h result)
    | failed intact => exact ⟨fun _ _ => untouched_of_intact intact, nofun⟩
    | done completed => exact ⟨nofun, fun _ => ⟨_, completed⟩⟩

/-- A disk that is full after the first character of the draft. -/
theorem changes_all_or_nothing_on_full_disk :
    let t : FileTree := ⟨[(["ledger.json"], .file (.text "\x7b\x7d"))], []⟩
    ∃ e t', Trial "/ledger.json" (.upsert { key := "a" }) t (ended (.done (.error e))) t' ∧
      t'.read "/ledger.json.tmp" = .ok (.text "\x7b") ∧
      t'.read "/ledger.json" = .ok (.text "\x7b\x7d") := by
  intro t
  have hrecords : File.records t "/ledger.json" = .ok [] := by decide +kernel
  obtain ⟨m, hread, -⟩ := File.read_of_records hrecords
  have hsurround : File.surround "/ledger.json" t = (.ok (), t) :=
    Prod.ext (by decide +kernel) (by decide +kernel)
  obtain ⟨t', hwrite⟩ : ∃ t', t.write (File.draft "/ledger.json") (.text "\x7b") = .ok t' :=
    ⟨t.put ["ledger.json.tmp"] (.file (.text "\x7b")), by decide +kernel⟩
  have hlocked : Trial "/ledger.json" (.upsert { key := "a" }) t locked t := .step .begun rfl
  have hdrafting := (hlocked.step (by rw [Phase.step, hread])).step
    (by rw [Phase.step, hsurround, behind])
  have hended := ((hdrafting.falter (.draft hwrite "no space left on device")).step rfl).step rfl
  have huntouched := ((changes_all_or_nothing "/ledger.json" t).2.2 _ _ t' hended).1 _ rfl
  exact ⟨_, t', hended, FileTree.read_of_write hwrite, huntouched.read _ (by decide +kernel)⟩

end Phase

end Ledger

end PluginResolution
