import Mathlib.Data.List.TakeWhile
import PluginResolution.Proofs.LedgerBackends
import PluginResolution.Proofs.SparedFiles

namespace PluginResolution

namespace Path

variable {name path : String}

/-- A path ends in a name, be it an empty one. -/
theorem exists_front (path : String) :
    ∃ base name, path = front base ++ name ∧ '/' ∉ name.toList := by
  let before := path.toList.reverse.dropWhile (· ≠ '/')
  let last := path.toList.reverse.takeWhile (· ≠ '/')
  have hfront : front (String.ofList before.reverse) = String.ofList before.reverse :=
    front_of_dropWhile _
  refine ⟨String.ofList before.reverse, String.ofList last.reverse, ?_, ?_⟩
  · rw [hfront, ← String.toList_inj, String.toList_append, String.toList_ofList,
      String.toList_ofList, ← List.reverse_append, List.takeWhile_append_dropWhile,
      List.reverse_reverse]
  · rw [String.toList_ofList, List.mem_reverse]
    intro hslash
    simpa using List.mem_takeWhile_imp hslash

theorem mem_of_mem_stem {cs : List Char} {c : Char} (h : c ∈ stem cs) : c ∈ cs := by
  rw [stem] at h
  split at h
  · rename_i d r hdrop
    have hmem : c ∈ cs.reverse.dropWhile (· ≠ '.') := by
      rw [hdrop]
      exact List.mem_cons_of_mem _ (List.mem_reverse.mp h)
    exact List.mem_reverse.mp (List.dropWhile_subset _ hmem)
  · exact h

/-- The name of a draft is a name, and another one. -/
theorem draft_name (h : IsPlain name) :
    IsPlain (String.ofList (stem name.toList) ++ "." ++ "json.tmp") ∧
      String.ofList (stem name.toList) ++ "." ++ "json.tmp" ≠ name := by
  have hlist : (String.ofList (stem name.toList) ++ "." ++ "json.tmp").toList =
      stem name.toList ++ ".json.tmp".toList := by
    rw [String.append_assoc, String.toList_append, String.toList_ofList]
    rfl
  have hlong : 9 ≤ (String.ofList (stem name.toList) ++ "." ++ "json.tmp").toList.length := by
    rw [hlist, List.length_append]
    exact Nat.le_add_left _ _
  have hother (short : String) (hshort : short.toList.length < 9) :
      String.ofList (stem name.toList) ++ "." ++ "json.tmp" ≠ short := by
    rintro rfl
    omega
  refine ⟨⟨?_, hother "" (by decide), hother "." (by decide), hother ".." (by decide)⟩, ?_⟩
  · rw [hlist, List.mem_append]
    rintro (hstem | hending)
    · exact h.undivided (mem_of_mem_stem hstem)
    · exact absurd hending (by decide)
  · intro hsame
    -- else the stem would be that of a longer name
    have hname : name.toList = stem name.toList ++ ".json.tmp".toList := by rw [← hlist, hsame]
    have hstem : stem (stem name.toList ++ ".json.tmp".toList) =
        stem name.toList ++ ".json".toList := by
      rw [stem, List.reverse_append]
      simp
    rw [← hname] at hstem
    have hlength := congrArg List.length hstem
    rw [List.length_append] at hlength
    exact absurd hlength (by simp)

end Path

namespace FileTree

variable {t : FileTree} {path : String} {place : Place}

/-- Behind a last step to the same directory or upwards only a directory can be. -/
theorem asDirectory_of_dots {dir names : List String} {s : String} (hs : s = "." ∨ s = "..")
    (h : t.walk dir (names ++ [s]) = .ok place) : place.asDirectory = true := by
  induction names generalizing dir with
  | nil =>
    rcases hs with rfl | rfl
    · cases h
      rfl
    · cases h
      rfl
  | cons name rest ih =>
    rw [List.cons_append, walk] at h
    split at h
    · exact ih h
    split at h
    · exact ih h
    split at h
    · cases h
    split at h
    · rename_i hlast
      simp at hlast
    split at h
    · cases h
    · cases h
    · exact ih h

theorem segments_last (base : String) {name : String} (hname : '/' ∉ name.toList)
    (hempty : name ≠ "") : ∃ names,
      (Path.segments (Path.front base ++ name)).filter (· ≠ "") = names ++ [name] := by
  have hlast : [name].filter (· ≠ "") = [name] := List.filter_cons_of_pos (by simpa using hempty)
  by_cases hbase : base = ""
  · subst hbase
    have hpath : Path.front "" ++ name = name := String.empty_append
    exact ⟨[], by rw [hpath, Path.segments_of_undivided hname, hlast]; rfl⟩
  · obtain ⟨segs, hsegs, -⟩ := Path.segments_front_append hname hbase
    exact ⟨segs.filter (· ≠ ""), by rw [hsegs, List.filter_append, hlast]⟩

/-- A path to a file ends in the name of the file. -/
theorem Fits.ends_in_name (h : Fits t path place) :
    ∃ base name, path = Path.front base ++ name ∧ Path.IsPlain name := by
  obtain ⟨base, name, hpath, hname⟩ := Path.exists_front path
  obtain ⟨p, hwalk, -, has⟩ := walk_of_locate h.located
  rw [h.named] at has
  obtain ⟨hp, hslash⟩ := Bool.or_eq_false_iff.mp has.symm
  have hempty : name ≠ "" := by
    rintro rfl
    have hfront : path = Path.front base := by rw [hpath, String.append_empty]
    -- such a path is empty or has a slash at its end
    cases hr : path.toList.reverse with
    | nil =>
      have hnone : path = "" := String.toList_eq_nil_iff.mp (List.reverse_eq_nil_iff.mp hr)
      have hl := h.located
      rw [hnone] at hl
      cases hl
    | cons c r =>
      have hc : c = '/' := Path.head_reverse_front base c (by rw [← hfront, hr]; rfl)
      rw [← List.head?_reverse, hr, hc] at hslash
      simp at hslash
  have hother (s : String) (hs : s = "." ∨ s = "..") : name ≠ s := by
    rintro rfl
    obtain ⟨names, hnames⟩ := segments_last base hname hempty
    rw [hpath, hnames] at hwalk
    rw [asDirectory_of_dots hs hwalk] at hp
    cases hp
  exact ⟨base, name, hpath, hname, hempty, hother "." (.inl rfl), hother ".." (.inr rfl)⟩

theorem Fits.read_of_none (h : Fits t path place) (hn : t.node? place.parts = none) :
    t.read path = .error .missing := by
  rw [FileTree.read, stat, h.located]
  simp only [bind, Except.bind, hn]
  rfl

theorem walk_of_missing (h : t.locate path = .error .missing) (hempty : path ≠ "") :
    t.walk (t.start path) ((Path.segments path).filter (· ≠ "")) = .error .missing := by
  unfold locate at h
  split at h
  · cases h
  split at h
  · rename_i hnone
    exact absurd (String.isEmpty_iff.mp hnone) hempty
  split at h
  · cases h
  cases hw : t.walk (t.start path) ((Path.segments path).filter (· ≠ "")) with
  | ok p =>
    rw [start] at hw
    simp only [hw] at h
    cases h
  | error e =>
    rw [start] at hw
    simp only [hw] at h
    exact h

def Rooted (t : FileTree) : Prop :=
  ∀ parts name n, t.node? (parts ++ [name]) = some n → t.node? parts = some .directory

theorem Rooted.above (h : t.Rooted) {parts more : List String} {n : Node}
    (hn : t.node? (parts ++ more) = some n) : ∃ n', t.node? parts = some n' := by
  induction more generalizing parts with
  | nil =>
    rw [List.append_nil] at hn
    exact ⟨n, hn⟩
  | cons name more ih =>
    rw [← List.singleton_append, ← List.append_assoc] at hn
    obtain ⟨n', hn'⟩ := ih hn
    exact ⟨.directory, h _ _ _ hn'⟩

theorem foldl_follow_straight {names : List String} (straight : ".." ∉ names)
    (parts : List String) : ∃ more, names.foldl follow parts = parts ++ more := by
  induction names generalizing parts with
  | nil => exact ⟨[], (List.append_nil parts).symm⟩
  | cons name rest ih =>
    have hname : name ≠ ".." := fun h => straight (h ▸ List.mem_cons_self)
    obtain ⟨more, hmore⟩ := ih (fun h => straight (List.mem_cons_of_mem _ h)) (follow parts name)
    rw [List.foldl_cons, hmore, follow, if_neg hname]
    split
    · exact ⟨more, rfl⟩
    · exact ⟨name :: more, List.append_assoc ..⟩

/-- Where a directory is missing on the way, nothing is at the end of it, unless the way leads back
upwards. -/
theorem Rooted.nothing_behind (h : t.Rooted) {dir names : List String}
    (hw : t.walk dir names = .error .missing) (straight : ".." ∉ names)
    (hnames : ∀ name ∈ names, name ≠ "") : t.node? (names.foldl follow dir) = none := by
  induction names generalizing dir with
  | nil => cases hw
  | cons name rest ih =>
    have hempty : name ≠ "" := hnames name List.mem_cons_self
    have hup : name ≠ ".." := fun h => straight (h ▸ List.mem_cons_self)
    have hstraight : ".." ∉ rest := fun h => straight (List.mem_cons_of_mem _ h)
    have hrest : ∀ name ∈ rest, name ≠ "" := fun n hn => hnames n (List.mem_cons_of_mem _ hn)
    rw [walk] at hw
    rw [List.foldl_cons]
    by_cases hdot : name = "."
    · have hstep : follow dir name = dir := by simp [follow, hdot]
      rw [if_pos hdot] at hw
      rw [hstep]
      exact ih hw hstraight hrest
    · have hstep : follow dir name = dir ++ [name] := by simp [follow, hempty, hdot, hup]
      rw [if_neg hdot, if_neg hup] at hw
      rw [hstep]
      split at hw
      · cases hw
      split at hw
      · cases hw
      split at hw
      · rename_i hn
        obtain ⟨more, hmore⟩ := foldl_follow_straight hstraight (dir ++ [name])
        rw [hmore]
        by_contra hsome
        obtain ⟨n, hfound⟩ := Option.ne_none_iff_exists'.mp hsome
        obtain ⟨n', habove⟩ := h.above hfound
        rw [hn] at habove
        cases habove
      · cases hw
      · exact ih hw hstraight hrest

end FileTree

namespace Ledger.File

open FileTree (Fits Keeps Place)

variable {path : String} {t : FileTree} {m m' : Contents}

/-- A draft is written to another place than that of the file. -/
theorem draft_apart {place : Place} (h : Fits t path place) :
    t.partsOf path ≠ t.partsOf (draft path) := by
  obtain ⟨base, name, rfl, hname⟩ := h.ends_in_name
  obtain ⟨hdraft, hother⟩ := Path.draft_name hname
  rw [draft, Path.withEnding_front_append base "json.tmp" hname,
    FileTree.partsOf_front_append t base hname, FileTree.partsOf_front_append t base hdraft]
  -- both lie in the same directory, so they would have the same name
  intro hsame
  have hlast := List.append_cancel_left hsame
  exact hother (List.singleton_inj.mp hlast).symm

theorem read_congr {t' : FileTree} (h : t'.read path = t.read path) :
    read t' path = read t path := by
  rw [read, read, FileTree.readText, FileTree.readText, h]

/-- The file holds the ledger, also once the directory around it is there, and can be replaced. -/
structure Serves (path : String) (m : Contents) (t : FileTree) : Prop where
  keyed : m.Keyed
  stored : read t path = .ok m
  ready : ∃ u a b, surround path t = (.ok (), u) ∧ Ready path u a b ∧ read u path = .ok m

/-- A change in its steps. Until the last of them the file holds the old ledger. -/
structure Replaces (path : String) (m m' : Contents) (t u v t' : FileTree) : Prop where
  around : surround path t = (.ok (), u)
  unchanged : read u path = .ok m
  drafted : u.write (draft path) (.text m'.text) = .ok v
  untouched : read v path = .ok m
  renamed : v.rename (draft path) path = .ok t'
  serves : Serves path m' t'

/-- While a draft is there the file holds what it held. -/
theorem Ready.read_of_draft {a b : Place} (h : Ready path t a b) (c : FileTree.Content) :
    read (t.put a.parts (.file c)) path = read t path := by
  have hapart : t.partsOf path ≠ a.parts := by
    rw [FileTree.locate_parts h.draft.located]
    exact draft_apart h.target
  have hlocated := FileTree.locate_keeps (h.draft.keeps_put (.file c)) h.target.located
  exact read_congr (FileTree.read_put_of_ne (hlocated.trans h.target.located.symm) hapart)

theorem Serves.replaces (h : Serves path m t) (hm' : m'.Keyed) :
    ∃ u v t', Replaces path m m' t u v t' := by
  obtain ⟨u, a, b, hs, hready, hu⟩ := h.ready
  obtain ⟨t', hreplace, hready', htext⟩ := replace_of_ready hready m'
  have hdrafted := hready.draft.write (.text m'.text)
  rw [replace_eq, hdrafted] at hreplace
  dsimp only at hreplace
  cases hr : (u.put a.parts (.file (.text m'.text))).rename (draft path) path with
  | error e =>
    rw [hr] at hreplace
    cases hreplace
  | ok t'' =>
    rw [hr] at hreplace
    cases hreplace
    have hstored : read t' path = .ok m' := by
      rw [read, FileTree.readText, htext]
      simp only [bind, Except.bind, pure, Except.pure, Contents.ofText_text hm']
    exact ⟨u, _, t', hs, hu, hdrafted, (hready.read_of_draft _).trans hu, hr, hm', hstored,
      t', a, b, surround_of_ready hready', hready', hstored⟩

/-- The steps are those of a change that is made at once. -/
theorem Replaces.write {u v t' : FileTree} (h : Replaces path m m' t u v t') :
    write path m' t = (.ok (), t') := by
  rw [File.write, FileTree.run_bind, h.around]
  simp only [replace_eq, h.drafted, h.renamed]

/-- The file can be read from the start wherever it is, and can be replaced. -/
theorem serves_of_shown (readable : read t path = .ok m) (writable : Writable path t)
    (shown : ∀ c, t.node? (t.partsOf path) = some (.file c) → t.read path = .ok c) :
    Serves path m t := by
  obtain ⟨u, a, b, hs, hready⟩ := ready_of_write writable
  refine ⟨keyed_of_read readable, readable, u, a, b, hs, hready, ?_⟩
  have hsame := sameFiles_surround path t
  rw [hs] at hsame
  have hplace : b.parts = t.partsOf path := by
    rw [FileTree.locate_parts hready.target.located,
      FileTree.partsOf_of_current hsame.keeps.current]
  cases hn : u.node? b.parts with
  | none =>
    have hmissing := hready.target.read_of_none hn
    rcases of_read readable with rfl | ⟨text, htext, -⟩
    · rw [read, FileTree.readText, hmissing]
      rfl
    · -- the file was there, and making directories takes none away
      obtain ⟨place, hfits, hfile⟩ := FileTree.fits_of_read htext
      rw [FileTree.locate_parts hfits.located, ← hplace, ← hsame.files, hn] at hfile
      cases hfile
  | some n =>
    cases n with
    | directory => exact absurd hn hready.target.free
    | file c =>
      have hfile := (hsame.files b.parts c).mp hn
      rw [hplace] at hfile
      have hread : u.read path = t.read path := (hready.target.read hn).trans (shown c hfile).symm
      exact (read_congr hread).trans readable

/-- In a tree without stray files the file is at its place only if it can be read there, unless its
path leads upwards out of a directory. -/
theorem shown_of_rooted (rooted : t.Rooted) (straight : ".." ∉ Path.segments path)
    (readable : read t path = .ok m) (writable : Writable path t) (c : FileTree.Content)
    (hfile : t.node? (t.partsOf path) = some (.file c)) : t.read path = .ok c := by
  have hempty : path ≠ "" := by
    rintro rfl
    obtain ⟨u, a, b, -, hready⟩ := ready_of_write writable
    cases hready.target.located
  cases hl : t.locate path with
  -- the path leads there, and the file can be read as it is no directory
  | ok place =>
    rw [← FileTree.locate_parts hl] at hfile
    cases hd : place.asDirectory with
    | false =>
      rw [FileTree.read, FileTree.stat_eq hl hfile fun _ => hd]
      rfl
    | true =>
      have hread : t.readText path = .error .notDirectory := by
        rw [FileTree.readText, FileTree.read, FileTree.stat, hl]
        simp only [bind, Except.bind, hfile, hd]
        rfl
      rw [read, hread] at readable
      cases readable
  -- the ledger can be read only if something is missing on the way, behind which is nothing
  | error e =>
    have hread : t.readText path = .error e := by
      rw [FileTree.readText, FileTree.read, FileTree.stat, hl]
      rfl
    have hmissing : e = .missing := by
      rw [read, hread] at readable
      cases e with
      | missing => rfl
      | _ => cases readable
    have hwalk := FileTree.walk_of_missing (hmissing ▸ hl) hempty
    have hnothing := rooted.nothing_behind hwalk (fun h => straight (List.mem_filter.mp h).1)
      (fun name h => by simpa using (List.mem_filter.mp h).2)
    rw [FileTree.foldl_follow_filter] at hnothing
    change t.node? (t.partsOf path) = none at hnothing
    rw [hnothing] at hfile
    cases hfile

/-- A path that does so: the file comes into sight when the directory is made. -/
example :
    let m : Contents := KeyMap.empty.insert "a" { key := "a" }
    let t : FileTree := ⟨[(["ledger.json"], .file (.text m.text))], []⟩
    records t "/plugins/../ledger.json" = .ok [] ∧
      records (surround "/plugins/../ledger.json" t).2 "/plugins/../ledger.json" =
        .ok [{ key := "a" }] := by
  decide +kernel

end Ledger.File

end PluginResolution
