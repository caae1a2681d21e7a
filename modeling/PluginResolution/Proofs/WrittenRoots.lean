import Mathlib.Data.List.Infix
import Mathlib.Data.List.TakeWhile
import PluginResolution.Proofs.ArgumentOrigins

namespace PluginResolution.Command

def rootBehind? (s : String) : Option String :=
  ("--data-dir=".toList.isPrefixOf? s.toList).map String.ofList

/-- The data roots that are written, in their order; two hyphens end the names. -/
def writtenRoots : List String → List String
  | [] => []
  | [s] => (rootBehind? s).toList
  | s :: next :: rest =>
    if s = "--" then []
    else if s = "--data-dir" then next :: writtenRoots rest
    else (rootBehind? s).toList ++ writtenRoots (next :: rest)

def writtenRoot (root : String) : Given :=
  ⟨.dataRoot, .written, some (.text root)⟩

section Arguments

variable {s root : String} {cs : List Char}

theorem rootBehind_eq_some_iff :
    rootBehind? s = some root ↔
      s.toList = '-' :: '-' :: ("data-dir".toList ++ '=' :: root.toList) := by
  have hname : "--data-dir=".toList = '-' :: '-' :: ("data-dir".toList ++ ['=']) := by decide
  rw [rootBehind?, hname, Option.map_eq_some_iff]
  simp only [List.isPrefixOf?_eq_some_iff_append_eq]
  constructor
  · rintro ⟨cs, hcs, rfl⟩
    have hlist := String.toList_ofList (l := cs)
    rw [← hcs, hlist]
    simp only [List.cons_append, List.append_assoc, List.nil_append]
  · intro h
    refine ⟨root.toList, ?_, String.ofList_toList⟩
    rw [h]
    simp only [List.cons_append, List.append_assoc, List.nil_append]

theorem writtenRoots_end (rest : List String) : writtenRoots ("--" :: rest) = [] := by
  cases rest with
  | nil => decide
  | cons next rest => rw [writtenRoots, if_pos rfl]

theorem writtenRoots_next (root : String) (rest : List String) :
    writtenRoots ("--data-dir" :: root :: rest) = root :: writtenRoots rest := by
  rw [writtenRoots, if_neg (by decide), if_pos rfl]

theorem writtenRoots_of_behind (hend : s ≠ "--") (hnext : s ≠ "--data-dir") (rest : List String) :
    writtenRoots (s :: rest) = (rootBehind? s).toList ++ writtenRoots rest := by
  cases rest with
  | nil => rw [writtenRoots, writtenRoots, List.append_nil]
  | cons next rest => rw [writtenRoots, if_neg hend, if_neg hnext]

/-- Without two hyphens in front it is neither the end of the names nor a data root. -/
theorem writtenRoots_of_other (hs : ∀ cs, s.toList ≠ '-' :: '-' :: cs) (rest : List String) :
    writtenRoots (s :: rest) = writtenRoots rest := by
  have hend : s ≠ "--" := by
    rintro rfl
    exact hs [] rfl
  have hnext : s ≠ "--data-dir" := by
    rintro rfl
    exact hs _ rfl
  have hbehind : rootBehind? s = none := by
    rw [Option.eq_none_iff_forall_ne_some]
    intro root hroot
    exact hs _ (rootBehind_eq_some_iff.mp hroot)
  rw [writtenRoots_of_behind hend hnext, hbehind, Option.toList_none, List.nil_append]

theorem splitName_of_sign {word : List Char} (h : '=' ∉ word) (value : List Char) :
    Reading.splitName (word ++ '=' :: value) =
      (String.ofList word, some (String.ofList value)) := by
  have hname : (word ++ '=' :: value).takeWhile (· ≠ '=') = word := by
    have hword : ∀ c ∈ word, decide (c ≠ '=') = true := by
      intro c hc
      refine decide_eq_true ?_
      rintro rfl
      exact h hc
    rw [List.takeWhile_append_of_pos hword, List.takeWhile_cons_of_neg (by decide),
      List.append_nil]
  rw [Reading.splitName, hname, List.drop_left]

theorem splitName_of_absent (h : '=' ∉ cs) : Reading.splitName cs = (String.ofList cs, none) := by
  have hname : cs.takeWhile (· ≠ '=') = cs := by
    rw [List.takeWhile_eq_self_iff]
    intro c hc
    refine decide_eq_true ?_
    rintro rfl
    exact h hc
  rw [Reading.splitName, hname, List.drop_length]

theorem rootBehind_of_value {word value : String} (hs : s.toList = '-' :: '-' :: cs)
    (h : Reading.splitName cs = (word, some value)) :
    s ≠ "--data-dir" ∧ rootBehind? s = if word = "data-dir" then some value else none := by
  by_cases hsign : '=' ∈ cs
  · obtain ⟨name, behind, rfl, hname⟩ := List.eq_append_cons_of_mem hsign
    rw [splitName_of_sign hname] at h
    obtain ⟨rfl, hvalue⟩ := Prod.mk.inj h
    cases hvalue
    have hlist := String.toList_ofList (l := behind)
    constructor
    · rintro rfl
      have hcs : name ++ '=' :: behind = "data-dir".toList :=
        (List.cons.inj (List.cons.inj hs).2).2.symm
      rw [hcs] at hsign
      exact absurd hsign (by decide)
    · split
      · rename_i hword
        rw [rootBehind_eq_some_iff, hs, ← hword, String.toList_ofList, hlist]
      · rename_i hword
        rw [Option.eq_none_iff_forall_ne_some]
        intro root hroot
        rw [rootBehind_eq_some_iff, hs] at hroot
        have hcs : name ++ '=' :: behind = "data-dir".toList ++ '=' :: root.toList :=
          (List.cons.inj (List.cons.inj hroot).2).2
        have hsplit := splitName_of_sign hname behind
        rw [hcs, splitName_of_sign (by decide)] at hsplit
        exact hword (Prod.mk.inj hsplit).1.symm
  · rw [splitName_of_absent hsign] at h
    cases h

theorem rootBehind_of_name {word : String} (hs : s.toList = '-' :: '-' :: cs)
    (h : Reading.splitName cs = (word, none)) :
    rootBehind? s = none ∧ (s = "--data-dir" ↔ word = "data-dir") := by
  by_cases hsign : '=' ∈ cs
  · obtain ⟨name, behind, rfl, hname⟩ := List.eq_append_cons_of_mem hsign
    rw [splitName_of_sign hname] at h
    cases h
  · rw [splitName_of_absent hsign] at h
    cases h
    constructor
    · rw [Option.eq_none_iff_forall_ne_some]
      intro root hroot
      rw [rootBehind_eq_some_iff, hs] at hroot
      have hcs : cs = "data-dir".toList ++ '=' :: root.toList :=
        (List.cons.inj (List.cons.inj hroot).2).2
      rw [hcs] at hsign
      exact hsign (List.mem_append_right _ List.mem_cons_self)
    · have hname : "--data-dir".toList = '-' :: '-' :: "data-dir".toList := by decide
      have hlist := String.toList_ofList (l := cs)
      rw [← String.toList_inj, hs, ← String.toList_inj, hlist, hname, List.cons_inj_right,
        List.cons_inj_right]

/-- A value behind an equals sign is a data root just if the name is that of one. -/
theorem writtenRoots_of_value {word value : String} (hs : s.toList = '-' :: '-' :: cs)
    (hend : s ≠ "--") (h : Reading.splitName cs = (word, some value)) (rest : List String) :
    writtenRoots (s :: rest) =
      (if word = "data-dir" then some value else none).toList ++ writtenRoots rest := by
  obtain ⟨hnext, hbehind⟩ := rootBehind_of_value hs h
  rw [writtenRoots_of_behind hend hnext, hbehind]

/-- A name without a value writes no data root if it is the name of something else. -/
theorem writtenRoots_of_name {word : String} (hs : s.toList = '-' :: '-' :: cs) (hend : s ≠ "--")
    (h : Reading.splitName cs = (word, none)) (hword : word ≠ "data-dir") (rest : List String) :
    writtenRoots (s :: rest) = writtenRoots rest := by
  obtain ⟨hbehind, hnext⟩ := rootBehind_of_name hs h
  rw [writtenRoots_of_behind hend (fun hs => hword (hnext.mp hs)), hbehind, Option.toList_none,
    List.nil_append]

end Arguments

/-! ## Forms -/

def rootForm : Form :=
  { argument := .dataRoot, word := "data-dir", kind := some .path, standIn := some "KPM_DATA_DIR" }

def Form.IsProper (f : Form) : Prop :=
  f.argument = .dataRoot → f = rootForm

def Form.root? (f : Form) (value : String) : Option String :=
  if f.argument = .dataRoot then some value else none

def rootVariable? (bindings : Variables) : Option Given :=
  (List.lookup "KPM_DATA_DIR" bindings).map fun root => ⟨.dataRoot, .environment, some (.text root)⟩

section Forms

variable {v : Verb} {f : Form}

theorem isProper_of_mem (hf : f ∈ v.forms) : f.IsProper := by
  have hforms : ∀ f ∈ v.forms, f.argument = .dataRoot → f = rootForm := by cases v <;> decide
  exact hforms f hf

theorem word_eq_iff (hf : f ∈ v.forms) : f.word = "data-dir" ↔ f.argument = .dataRoot := by
  have hforms : ∀ f ∈ v.forms, f.word = "data-dir" ↔ f.argument = .dataRoot := by
    cases v <;> decide
  exact hforms f hf

theorem root_of_standIn (hf : f ∈ v.forms) (hname : f.standIn = some "KPM_DATA_DIR") :
    f.argument = .dataRoot := by
  have hforms : ∀ f ∈ v.forms, f.standIn = some "KPM_DATA_DIR" → f.argument = .dataRoot := by
    cases v <;> decide
  exact hforms f hf hname

theorem rootForm_mem (v : Verb) : rootForm ∈ v.forms := by
  cases v <;> decide

/-- No command begins with hyphens. -/
theorem not_hyphens_of_find? {s : String} {below : Verb} (h : v.find? s = some below)
    (cs : List Char) : s.toList ≠ '-' :: '-' :: cs := by
  obtain rfl : below.word = s := by simpa using List.find?_some h
  have hhead : below.word.toList.head? ≠ some '-' := by cases below <;> decide
  intro hs
  exact hhead (by rw [hs, List.head?_cons])

theorem positional_ne_root {a : Argument} (ha : v.positional? = some a) : a ≠ .dataRoot := by
  rintro rfl
  revert ha
  cases v <;> decide

theorem Form.IsProper.argument_ne (h : f.IsProper) (hkind : f.kind = none) :
    f.argument ≠ .dataRoot := by
  intro hroot
  rw [h hroot] at hkind
  cases hkind

def Form.datum (f : Form) (value : Option String) : Except Refusal (Option Datum) :=
  match f.kind, value with
  | some k, some s => (k.read s).map some
  | _, _ => .ok none

theorem datum_rootForm (root : String) :
    rootForm.datum (some root) =
      if root.isEmpty then .error .missingValue else .ok (some (.text root)) := by
  cases h : root.isEmpty <;> simp [Form.datum, rootForm, Kind.read, h, Except.map]

end Forms

namespace Reading

def find? (r : Reading) (a : Argument) : Option Given :=
  r.given.find? (·.argument = a)

def add (r : Reading) (g : Given) : Reading :=
  { r with given := r.given ++ [g] }

/-! ## Taking in -/

section Taking

variable {r r' : Reading} {f : Form} {a : Argument} {g : Given}

theorem has_eq_isSome : r.has a = (r.find? a).isSome := by
  rw [has, find?, List.isSome_find?]

theorem find?_add :
    (r.add g).find? a = (r.find? a).or (if g.argument = a then some g else none) := by
  rw [find?, add, List.find?_append, List.find?_singleton]
  simp only [decide_eq_true_eq]
  rfl

theorem find?_add_of_ne (h : g.argument ≠ a) : (r.add g).find? a = r.find? a := by
  rw [find?_add, if_neg h, Option.or_none]

theorem take_eq (r : Reading) (f : Form) (origin : Origin) (value : Option String) :
    r.take f origin value = if r.has f.argument then .error .conflict
      else (f.datum value).map fun datum => r.add ⟨f.argument, origin, datum⟩ := by
  rw [take]
  split
  · rfl
  · rcases f with ⟨argument, word, letter, kind, standIn, isRequired⟩
    rcases kind with - | k <;> rcases value with - | s
    case some.some =>
      cases hread : k.read s with
      | error e => simp only [Form.datum, hread]; rfl
      | ok datum => simp only [Form.datum, hread]; rfl
    all_goals rfl

/-- A value that is taken in stands behind what is there. -/
theorem of_take {origin : Origin} {value : Option String} (h : r.take f origin value = .ok r') :
    r.find? f.argument = none ∧
      ∃ datum, f.datum value = .ok datum ∧ r' = r.add ⟨f.argument, origin, datum⟩ := by
  rw [take_eq, has_eq_isSome] at h
  split at h
  · cases h
  · rename_i hnone
    cases hdatum : f.datum value with
    | error e =>
      rw [hdatum] at h
      cases h
    | ok datum =>
      rw [hdatum] at h
      cases h
      exact ⟨Option.not_isSome_iff_eq_none.mp hnone, datum, rfl, rfl⟩

end Taking

end Reading

end PluginResolution.Command
