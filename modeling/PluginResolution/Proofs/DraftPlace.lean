import PluginResolution.Proofs.ReplacedFile

namespace PluginResolution

namespace Path

variable {path name : String}

/-- A path without the slashes and the steps to the same directory at its end. -/
def trimmed (path : String) : String :=
  String.ofList (trimTail path.toList.reverse).reverse

/-- Only the last name of a path that has one is given another ending. -/
theorem withEnding_of_name (h : name? path = some name) (ending : String) :
    ∃ base, IsPlain name ∧ trimmed path = front base ++ name ∧
      withEnding path ending = front base ++ (String.ofList (stem name.toList) ++ "." ++ ending) := by
  let tail := trimTail path.toList.reverse
  let last := tail.takeWhile (· ≠ '/')
  let before := tail.dropWhile (· ≠ '/')
  have hsplit : tail = last ++ before := List.takeWhile_append_dropWhile.symm
  have hfront : front (String.ofList before.reverse) = String.ofList before.reverse :=
    front_of_dropWhile _
  have hname : ¬(last.reverse.isEmpty || last.reverse == ['.'] || last.reverse == ['.', '.']) = true ∧
      name = String.ofList last.reverse := by
    rw [name?] at h
    split at h
    · cases h
    · rename_i hother
      exact ⟨hother, (Option.some.inj h).symm⟩
  obtain ⟨hother, rfl⟩ := hname
  have hdrop : tail.drop (String.ofList last.reverse).length = before := by
    rw [← String.length_toList, String.toList_ofList, List.length_reverse, hsplit, List.drop_left]
  refine ⟨String.ofList before.reverse, ⟨?_, ?_⟩, ?_, ?_⟩
  · rw [String.toList_ofList, List.mem_reverse]
    intro hslash
    simpa using List.mem_takeWhile_imp hslash
  · simp only [Bool.or_eq_true, beq_iff_eq, not_or, List.isEmpty_iff] at hother
    have hne (s : String) (hs : last.reverse ≠ s.toList) : String.ofList last.reverse ≠ s := by
      rintro rfl
      exact hs (String.toList_ofList).symm
    exact ⟨hne "" hother.1.1, hne "." hother.1.2, hne ".." hother.2⟩
  · have htrimmed : trimmed path = String.ofList tail.reverse := rfl
    rw [htrimmed, hfront, ← String.ofList_append, hsplit, List.reverse_append]
  · have hending : withEnding path ending =
        String.ofList ((tail.drop (String.ofList last.reverse).length).reverse ++
          stem (String.ofList last.reverse).toList) ++ "." ++ ending := by
      rw [withEnding, h]
    rw [hending, hdrop, hfront, String.ofList_append, String.append_assoc, String.append_assoc,
      String.append_assoc]

end Path

namespace FileTree

variable {t t' : FileTree} {path : String} {place : Place}

/-- A slash at the end of a path, or a step to the same directory, leads nowhere else. -/
theorem partsOf_slash (t : FileTree) (cs ds : List Char) (hcs : cs ≠ [])
    (hds : ds = [] ∨ ds = ['.']) :
    t.partsOf (String.ofList (cs ++ '/' :: ds)) = t.partsOf (String.ofList cs) := by
  have habsolute : Path.isAbsolute (String.ofList (cs ++ '/' :: ds)) =
      Path.isAbsolute (String.ofList cs) := by
    rw [Path.isAbsolute, Path.isAbsolute, String.toList_ofList, String.toList_ofList,
      List.head?_append_of_ne_nil _ hcs]
  have hsegments := Path.segments_of_slash (String.toList_ofList (l := cs ++ '/' :: ds))
  rw [partsOf_eq, partsOf_eq, habsolute, hsegments, List.foldl_append]
  rcases hds with rfl | rfl
  · rfl
  · rfl

theorem partsOf_trimTail (t : FileTree) (cs : List Char) :
    t.partsOf (String.ofList (Path.trimTail cs).reverse) = t.partsOf (String.ofList cs.reverse) := by
  -- on what is trimmed off, the path being read from its end
  fun_induction Path.trimTail cs with
  | case1 c r ih =>
    have hslash := t.partsOf_slash (c :: r).reverse [] (by simp) (.inl rfl)
    rw [ih, ← hslash, List.reverse_cons (a := '/')]
  | case2 c r ih =>
    have hslash := t.partsOf_slash (c :: r).reverse ['.'] (by simp) (.inr rfl)
    rw [ih, ← hslash, List.reverse_cons (a := '.'), List.reverse_cons (a := '/'), List.append_assoc]
    rfl
  | case3 => rfl
  | case4 => rfl

theorem partsOf_trimmed (t : FileTree) (path : String) :
    t.partsOf (Path.trimmed path) = t.partsOf path := by
  rw [Path.trimmed, partsOf_trimTail, List.reverse_reverse, String.ofList_toList]

section Rooted

variable {dir names parts : List String} {c : Content} {n : Node} {p : Place}

theorem Rooted.directory_above (h : t.Rooted) {more : List String} (hmore : more ≠ [])
    (hn : t.node? (parts ++ more) = some n) : t.node? parts = some .directory := by
  cases more with
  | nil => exact absurd rfl hmore
  | cons name rest =>
    rw [← List.singleton_append, ← List.append_assoc] at hn
    obtain ⟨n', hn'⟩ := h.above hn
    exact h parts name n' hn'

/-- Who follows names and stays where he was has named only that directory. -/
theorem asDirectory_of_still (h : t.walk dir names = .ok p) (straight : ".." ∉ names)
    (hnames : ∀ name ∈ names, name ≠ "") (still : p.parts = dir) : p.asDirectory = true := by
  induction names with
  | nil =>
    cases h
    rfl
  | cons name rest ih =>
    have hup : name ≠ ".." := fun he => straight (he ▸ List.mem_cons_self)
    have hstraight : ".." ∉ rest := fun he => straight (List.mem_cons_of_mem _ he)
    by_cases hdot : name = "."
    · rw [walk, if_pos hdot] at h
      exact ih h hstraight fun n hn => hnames n (List.mem_cons_of_mem _ hn)
    · -- another name leads further down
      have hparts := walk_parts h hnames
      have hstep : follow dir name = dir ++ [name] :=
        by simp [follow, hnames name List.mem_cons_self, hdot, hup]
      obtain ⟨more, hmore⟩ := foldl_follow_straight hstraight (dir ++ [name])
      rw [List.foldl_cons, hstep, hmore, still] at hparts
      have hlength := congrArg List.length hparts
      simp only [List.length_append, List.length_singleton] at hlength
      omega

/-- If something is where a way leads in another tree, then the way leads there in this one too. -/
theorem Rooted.walk_of_walk (rooted : t.Rooted) (h : t'.walk dir names = .ok p)
    (straight : ".." ∉ names) (hnames : ∀ name ∈ names, name ≠ "") (named : p.asDirectory = false)
    (hn : t.node? p.parts = some n) : t.walk dir names = .ok p := by
  induction names generalizing dir with
  | nil => exact h
  | cons name rest ih =>
    have hup : name ≠ ".." := fun he => straight (he ▸ List.mem_cons_self)
    have hstraight : ".." ∉ rest := fun he => straight (List.mem_cons_of_mem _ he)
    have hrest : ∀ name ∈ rest, name ≠ "" := fun n hn => hnames n (List.mem_cons_of_mem _ hn)
    rw [walk] at h ⊢
    by_cases hdot : name = "."
    · rw [if_pos hdot] at h ⊢
      exact ih h hstraight hrest
    rw [if_neg hdot, if_neg hup] at h ⊢
    split at h
    · cases h
    rename_i hlong
    rw [if_neg hlong]
    split at h
    · rename_i hlast
      rw [if_pos hlast]
      exact h
    rename_i hlast
    rw [if_neg hlast]
    split at h
    · cases h
    · cases h
    · -- what is at the end lies below this name, which therefore is a directory here too
      obtain ⟨more, hmore⟩ := foldl_follow_straight hstraight (dir ++ [name])
      have hparts : p.parts = dir ++ [name] ++ more := (walk_parts h hrest).trans hmore
      have hbelow : more ≠ [] := by
        rintro rfl
        rw [List.append_nil] at hparts
        rw [asDirectory_of_still h hstraight hrest hparts] at named
        cases named
      rw [hparts] at hn
      rw [rooted.directory_above hbelow hn]
      exact ih h hstraight hrest

theorem locate_of_walk (hcurrent : t'.current = t.current) (h : t'.locate path = .ok place)
    (hwalk : ∀ p, t'.walk (t.start path) ((Path.segments path).filter (· ≠ "")) = .ok p →
      p.parts = place.parts → (place.asDirectory = false → p.asDirectory = false) →
      t.walk (t.start path) ((Path.segments path).filter (· ≠ "")) = .ok p) :
    t.locate path = .ok place := by
  obtain ⟨p, hw, hparts, has⟩ := walk_of_locate h
  have hstart : t'.start path = t.start path := by rw [start, start, hcurrent]
  rw [hstart] at hw
  have hhere := hwalk p hw hparts.symm fun hnamed => by
    rw [hnamed] at has
    exact (Bool.or_eq_false_iff.mp has.symm).1
  rw [start] at hw hhere
  unfold locate at h ⊢
  split at h
  · cases h
  rename_i hnul
  rw [if_neg hnul]
  split at h
  · cases h
  rename_i hempty
  rw [if_neg hempty]
  split at h
  · cases h
  rename_i hlong
  rw [if_neg hlong]
  simp only [hcurrent, hw] at h
  simp only [hhere]
  exact h

/-- A file that lies where a path leads in another tree can be read there, unless the path leads
upwards, maybe out of a directory that is not there. -/
theorem Rooted.read_of_place (rooted : t.Rooted) (straight : ".." ∉ Path.segments path)
    (hcurrent : t'.current = t.current) (h : Fits t' path place)
    (hn : t.node? place.parts = some (.file c)) : t.read path = .ok c := by
  have hlocated : t.locate path = .ok place := by
    refine locate_of_walk hcurrent h.located fun p hw hparts hnamed => ?_
    refine rooted.walk_of_walk hw (fun hup => straight (List.mem_filter.mp hup).1) ?_
      (hnamed h.named) (hparts ▸ hn)
    intro name hname
    simpa using (List.mem_filter.mp hname).2
  exact (⟨hlocated, h.named, by simp [hn]⟩ : Fits t path place).read hn

end Rooted

end FileTree

namespace Ledger.File

open FileTree (Fits Place)

variable {path : String} {t : FileTree} {place : Place}

/-- Where a draft can be written is another place than that of the file, whatever is there. -/
theorem draft_elsewhere (h : Fits t (draft path) place) :
    t.partsOf path ≠ t.partsOf (draft path) := by
  cases hname : Path.name? path with
  | none =>
    -- then the draft would be the file itself, which has a name if it can be written
    have hsame : draft path = path := by rw [draft, Path.withEnding, hname]
    rw [hsame] at h
    exact draft_apart h
  | some name =>
    obtain ⟨base, hplain, htrimmed, hdraft⟩ := Path.withEnding_of_name hname "json.tmp"
    obtain ⟨hnew, hother⟩ := Path.draft_name hplain
    rw [draft, hdraft, FileTree.partsOf_front_append t base hnew, ← t.partsOf_trimmed path, htrimmed,
      FileTree.partsOf_front_append t base hplain]
    intro hsame
    exact hother (List.singleton_inj.mp (List.append_cancel_left hsame)).symm

end Ledger.File

end PluginResolution
