import PluginResolution.DataRoot
import PluginResolution.FileTree.Stored
import PluginResolution.Ledger.File

namespace PluginResolution

namespace Path

structure IsPlain (name : String) : Prop where
  undivided : '/' ∉ name.toList
  named : name ≠ "" ∧ name ≠ "." ∧ name ≠ ".."

def front (base : String) : String :=
  if base.isEmpty || base.toList.getLast? = some '/' then base else base ++ "/"

variable {base name : String}

/-- What stands before a name ends in a slash, if it is anything. -/
theorem front_of_dropWhile (cs : List Char) :
    front (String.ofList (cs.dropWhile (· ≠ '/')).reverse) =
      String.ofList (cs.dropWhile (· ≠ '/')).reverse := by
  have hhead := List.head?_dropWhile_not (· ≠ '/') cs
  cases hb : cs.dropWhile (· ≠ '/') with
  | nil => rfl
  | cons c r =>
    rw [hb] at hhead
    have hc : c = '/' := by simpa using hhead
    rw [front, String.toList_ofList, List.getLast?_reverse, hc]
    simp

theorem IsPlain.relative (h : IsPlain name) : isAbsolute name = false := by
  rw [isAbsolute]
  cases hn : name.toList with
  | nil => rfl
  | cons c r =>
    have hc : c ≠ '/' := by
      rintro rfl
      exact h.undivided (hn ▸ List.mem_cons_self)
    simp [hc]

theorem join_eq (base : String) (h : IsPlain name) : join base name = front base ++ name := by
  rw [join, h.relative, front]
  simp only [Bool.false_eq_true, if_false]
  split
  · rfl
  · rfl

theorem segments_of_undivided (h : '/' ∉ name.toList) : segments name = [name] := by
  rw [segments, List.splitOn_eq_singleton h, List.map_singleton, String.ofList_toList]

theorem segments_of_slash {path : String} {cs ds : List Char} (h : path.toList = cs ++ '/' :: ds) :
    segments path = segments (String.ofList cs) ++ segments (String.ofList ds) := by
  rw [segments, h, List.splitOn_append_cons_self, List.map_append, segments, segments,
    String.toList_ofList, String.toList_ofList]

/-- The name is the last segment of the joined path. Before it stand the segments of the path, and
an empty one that a slash at its end makes is not repeated. -/
theorem segments_front_append (h : '/' ∉ name.toList) (hbase : base ≠ "") :
    ∃ segs, segments (front base ++ name) = segs ++ [name] ∧
      (segments base = segs ∨ segments base = segs ++ [""]) := by
  have hempty : base.isEmpty = false := by simpa using hbase
  by_cases hslash : base.toList.getLast? = some '/'
  · obtain ⟨cs, hcs⟩ := List.getLast?_eq_some_iff.mp hslash
    have hpath : (front base ++ name).toList = cs ++ '/' :: name.toList := by
      rw [front, hslash]
      simp [hcs]
    refine ⟨segments (String.ofList cs), ?_, .inr ?_⟩
    · rw [segments_of_slash hpath, String.ofList_toList, segments_of_undivided h]
    · rw [segments_of_slash hcs]
      rfl
  · have hpath : (front base ++ name).toList = base.toList ++ '/' :: name.toList := by
      rw [front, hempty]
      simp [hslash]
    refine ⟨segments base, ?_, .inl rfl⟩
    rw [segments_of_slash hpath, String.ofList_toList, String.ofList_toList, segments_of_undivided h]

theorem isAbsolute_front_append (hbase : base ≠ "") (name : String) :
    isAbsolute (front base ++ name) = isAbsolute base := by
  have hhead : (front base ++ name).toList.head? = base.toList.head? := by
    cases hb : base.toList with
    | nil => exact absurd (String.toList_eq_nil_iff.mp hb) hbase
    | cons c r =>
      rw [front]
      split
      · simp [hb]
      · simp [hb]
  rw [isAbsolute, isAbsolute, hhead]

theorem trimTail_of_letter {c : Char} (h : c ≠ '/' ∧ c ≠ '.') (cs : List Char) :
    trimTail (c :: cs) = c :: cs := by
  obtain ⟨hslash, hdot⟩ := h
  unfold trimTail
  split
  · rename_i he
    exact absurd (List.cons.inj he).1 hslash
  · rename_i he
    exact absurd (List.cons.inj he).1 hdot
  · rename_i he
    exact absurd (List.cons.inj he).1 hdot
  · rfl

/-- Nothing is trimmed off a name, nor off what stands in front of it. -/
theorem trimTail_of_plain (h : IsPlain name) (cs : List Char) :
    trimTail (name.toList.reverse ++ cs) = name.toList.reverse ++ cs := by
  obtain ⟨hempty, hdot, -⟩ := h.named
  cases hr : name.toList.reverse with
  | nil => exact absurd (String.toList_eq_nil_iff.mp (List.reverse_eq_nil_iff.mp hr)) hempty
  | cons c r =>
    have hslash : ∀ d ∈ c :: r, d ≠ '/' := by
      rintro d hd rfl
      exact h.undivided (List.mem_reverse.mp (hr ▸ hd))
    have hc : c ≠ '/' := hslash c List.mem_cons_self
    by_cases hpoint : c = '.'
    · -- a point alone is no name, and behind another character it is not trimmed off
      cases r with
      | nil =>
        rw [hpoint] at hr
        have hname : name.toList = ".".toList := by rw [← List.reverse_reverse name.toList, hr]; rfl
        exact absurd (String.toList_inj.mp hname) hdot
      | cons d r =>
        have hd : d ≠ '/' := hslash d (List.mem_cons_of_mem _ List.mem_cons_self)
        rw [hpoint, List.cons_append, List.cons_append]
        unfold trimTail
        split
        · rename_i he
          cases he
        · rename_i he
          exact absurd (List.cons.inj (List.cons.inj he).2).1 hd
        · rename_i he
          exact absurd (List.cons.inj (List.cons.inj he).2).1 hd
        · rfl
    · exact trimTail_of_letter ⟨hc, hpoint⟩ _

theorem head_reverse_front (base : String) :
    ∀ c ∈ (front base).toList.reverse.head?, c = '/' := by
  intro c hc
  rw [List.head?_reverse, Option.mem_def, front] at hc
  split at hc
  · rename_i hend
    rcases Bool.or_eq_true_iff.mp hend with hempty | hslash
    · rw [String.isEmpty_iff] at hempty
      rw [hempty] at hc
      cases hc
    · rw [of_decide_eq_true hslash] at hc
      exact (Option.some.inj hc).symm
  · rw [String.toList_append] at hc
    simpa using hc.symm

/-- Only the name gets another ending. -/
theorem withEnding_front_append (base ending : String) (h : IsPlain name) :
    withEnding (front base ++ name) ending =
      front base ++ (String.ofList (stem name.toList) ++ "." ++ ending) := by
  -- a path is read from its end
  have htrim : trimTail (front base ++ name).toList.reverse =
      name.toList.reverse ++ (front base).toList.reverse := by
    rw [String.toList_append, List.reverse_append]
    exact trimTail_of_plain h _
  have htake : (name.toList.reverse ++ (front base).toList.reverse).takeWhile (· ≠ '/') =
      name.toList.reverse := by
    have hname : ∀ d ∈ name.toList.reverse, decide (d ≠ '/') = true := by
      intro d hd
      have hne : d ≠ '/' := by
        rintro rfl
        exact h.undivided (List.mem_reverse.mp hd)
      simpa using hne
    have hfront : (front base).toList.reverse.takeWhile (· ≠ '/') = [] := by
      cases hr : (front base).toList.reverse with
      | nil => rfl
      | cons d r =>
        have hd : d = '/' := head_reverse_front base d (by rw [hr]; rfl)
        simp [hd]
    rw [List.takeWhile_append_of_pos hname, hfront, List.append_nil]
  obtain ⟨hempty, hdot, hup⟩ := h.named
  have hnamed : name? (front base ++ name) = some name := by
    have hother (other : String) (hne : name ≠ other) : (name.toList == other.toList) = false :=
      beq_false_of_ne fun he => hne (String.toList_inj.mp he)
    have hsome : name.toList.isEmpty = false := by simpa using hempty
    have hone : (name.toList == ['.']) = false := hother "." hdot
    have htwo : (name.toList == ['.', '.']) = false := hother ".." hup
    rw [name?, htrim, htake, List.reverse_reverse, hsome, hone, htwo]
    exact congrArg some String.ofList_toList
  rw [withEnding, hnamed]
  simp only [htrim]
  have hdrop : (name.toList.reverse ++ (front base).toList.reverse).drop name.length =
      (front base).toList.reverse := by
    rw [← String.length_toList, ← List.length_reverse, List.drop_left]
  rw [hdrop, List.reverse_reverse, String.ofList_append, String.ofList_toList, String.append_assoc,
    String.append_assoc, String.append_assoc]

end Path

namespace FileTree

def follow (parts : List String) (s : String) : List String :=
  if s = "" || s = "." then parts
  else if s = ".." then parts.dropLast
  else parts ++ [s]

variable {t : FileTree} {path : String} {place : Place}

theorem partsOf_eq (t : FileTree) (path : String) :
    t.partsOf path =
      (Path.segments path).foldl follow (if Path.isAbsolute path then [] else t.current) :=
  rfl

theorem follow_plain {name : String} (h : Path.IsPlain name) (parts : List String) :
    follow parts name = parts ++ [name] := by
  obtain ⟨hempty, hdot, hup⟩ := h.named
  simp [follow, hempty, hdot, hup]

theorem foldl_follow_filter (names dir : List String) :
    (names.filter (· ≠ "")).foldl follow dir = names.foldl follow dir := by
  induction names generalizing dir with
  | nil => rfl
  | cons name rest ih =>
    by_cases hname : name = ""
    · subst hname
      exact ih dir
    · rw [List.filter_cons_of_pos (by simpa using hname), List.foldl_cons, List.foldl_cons]
      exact ih _

theorem walk_parts {dir names : List String} (h : t.walk dir names = .ok place)
    (hnames : ∀ name ∈ names, name ≠ "") : place.parts = names.foldl follow dir := by
  -- on the names, with the directory that the ones before lead to
  induction names generalizing dir with
  | nil =>
    cases h
    rfl
  | cons name rest ih =>
    have hempty : name ≠ "" := hnames name List.mem_cons_self
    have hrest : ∀ name ∈ rest, name ≠ "" := fun n hn => hnames n (List.mem_cons_of_mem _ hn)
    rw [walk] at h
    rw [List.foldl_cons]
    split at h
    · rename_i hdot
      have hstep : follow dir name = dir := by simp [follow, hdot]
      rw [hstep]
      exact ih h hrest
    rename_i hdot
    split at h
    · rename_i hup
      have hstep : follow dir name = dir.dropLast := by simp [follow, hup]
      rw [hstep]
      exact ih h hrest
    rename_i hup
    have hstep : follow dir name = dir ++ [name] := by simp [follow, hempty, hdot, hup]
    rw [hstep]
    split at h
    · cases h
    split at h
    · rename_i hlast
      cases h
      rw [List.isEmpty_iff.mp hlast]
      rfl
    · split at h
      · cases h
      · cases h
      · exact ih h hrest

def start (t : FileTree) (path : String) : List String :=
  if Path.isAbsolute path then [] else t.current

theorem walk_of_locate (h : t.locate path = .ok place) :
    ∃ p : Place, t.walk (t.start path) ((Path.segments path).filter (· ≠ "")) = .ok p ∧
      place.parts = p.parts ∧
      place.asDirectory = (p.asDirectory || path.toList.getLast? = some '/') := by
  unfold locate at h
  split at h
  · cases h
  split at h
  · cases h
  split at h
  · cases h
  cases hw : t.walk (t.start path) ((Path.segments path).filter (· ≠ "")) with
  | error e =>
    rw [start] at hw
    simp only [hw] at h
    cases h
  | ok p =>
    rw [start] at hw
    simp only [hw] at h
    cases h
    exact ⟨p, rfl, rfl, rfl⟩

/-- A path that leads somewhere leads to the parts that it spells. -/
theorem locate_parts (h : t.locate path = .ok place) : place.parts = t.partsOf path := by
  obtain ⟨p, hw, hp, -⟩ := walk_of_locate h
  have hnames : ∀ name ∈ (Path.segments path).filter (· ≠ ""), name ≠ "" := by
    intro name hname
    simpa using (List.mem_filter.mp hname).2
  rw [hp, walk_parts hw hnames, foldl_follow_filter]
  rfl

theorem partsOf_of_current {t' : FileTree} (h : t'.current = t.current) (path : String) :
    t'.partsOf path = t.partsOf path := by
  rw [partsOf_eq, partsOf_eq, h]

theorem partsOf_front_append (t : FileTree) (base : String) {name : String}
    (h : Path.IsPlain name) : t.partsOf (Path.front base ++ name) = t.partsOf base ++ [name] := by
  -- after the empty path a name stands alone, without a slash
  by_cases hbase : base = ""
  · subst hbase
    have hpath : Path.front "" ++ name = name := String.empty_append
    rw [hpath, partsOf_eq, Path.segments_of_undivided h.undivided, h.relative]
    exact follow_plain h t.current
  · obtain ⟨segs, hpath, hsegs⟩ := Path.segments_front_append h.undivided hbase
    have hstart (dir : List String) :
        segs.foldl follow dir = (Path.segments base).foldl follow dir := by
      rcases hsegs with hsegs | hsegs
      · rw [hsegs]
      · rw [hsegs, List.foldl_append]
        rfl
    rw [partsOf_eq, partsOf_eq, hpath, Path.isAbsolute_front_append hbase, List.foldl_append,
      hstart]
    exact follow_plain h _

/-- A name joined to a path is one more part. -/
theorem partsOf_join (t : FileTree) (base : String) {name : String} (h : Path.IsPlain name) :
    t.partsOf (Path.join base name) = t.partsOf base ++ [name] := by
  rw [Path.join_eq base h, partsOf_front_append t base h]

/-- The path with another ending leads to another name in the same directory. -/
theorem partsOf_withEnding (t : FileTree) (base ending : String) {name : String}
    (h : Path.IsPlain name) (hnew : Path.IsPlain (String.ofList (Path.stem name.toList) ++ "." ++ ending)) :
    t.partsOf (Path.withEnding (Path.join base name) ending) =
      t.partsOf base ++ [String.ofList (Path.stem name.toList) ++ "." ++ ending] := by
  rw [Path.join_eq base h, Path.withEnding_front_append base ending h,
    partsOf_front_append t base hnew]

end FileTree

namespace DataRoot

theorem partsOf_database (t : FileTree) (root : String) :
    t.partsOf (ofRoot root).database = t.partsOf root ++ ["data", "kpm.db"] := by
  have hdata : Path.IsPlain "data" := ⟨by decide, by decide⟩
  have hfile : Path.IsPlain "kpm.db" := ⟨by decide, by decide⟩
  rw [ofRoot, FileTree.partsOf_join t _ hfile, FileTree.partsOf_join t root hdata,
    List.append_assoc]
  rfl

theorem partsOf_ledger (t : FileTree) (root : String) :
    t.partsOf (ofRoot root).ledger = t.partsOf root ++ ["plugins", "plugin_identifiers.json"] := by
  have hdir : Path.IsPlain "plugins" := ⟨by decide, by decide⟩
  have hfile : Path.IsPlain "plugin_identifiers.json" := ⟨by decide, by decide⟩
  rw [ofRoot, FileTree.partsOf_join t _ hfile, FileTree.partsOf_join t root hdir,
    List.append_assoc]
  rfl

theorem partsOf_draft (t : FileTree) (root : String) :
    t.partsOf (Ledger.File.draft (ofRoot root).ledger) =
      t.partsOf root ++ ["plugins", "plugin_identifiers.json.tmp"] := by
  have hdir : Path.IsPlain "plugins" := ⟨by decide, by decide⟩
  have hfile : Path.IsPlain "plugin_identifiers.json" := ⟨by decide, by decide⟩
  have hstem : String.ofList (Path.stem "plugin_identifiers.json".toList) ++ "." ++ "json.tmp" =
      "plugin_identifiers.json.tmp" := by decide
  have hdraft : Path.IsPlain "plugin_identifiers.json.tmp" := ⟨by decide, by decide⟩
  rw [Ledger.File.draft, ofRoot, FileTree.partsOf_withEnding t _ _ hfile (hstem ▸ hdraft), hstem,
    FileTree.partsOf_join t root hdir, List.append_assoc]
  rfl

/-- The files of the ledger are not that of the database. -/
theorem partsOf_ledger_ne (t : FileTree) (root : String) :
    t.partsOf (ofRoot root).ledger ≠ t.partsOf (ofRoot root).database ∧
      t.partsOf (Ledger.File.draft (ofRoot root).ledger) ≠ t.partsOf (ofRoot root).database := by
  rw [partsOf_database, partsOf_ledger, partsOf_draft]
  simp

end DataRoot

end PluginResolution
