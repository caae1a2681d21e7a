import Mathlib.Data.List.ReduceOption
import PluginResolution.Command.Invocation
import PluginResolution.Proofs.WrittenRoots

namespace PluginResolution.Command

namespace Reading

/-! ## Reading on -/

/-- Those data roots have been taken in: at a word one at most, and no empty one. -/
def Took (r : Reading) (roots : List String) : Prop :=
  ∃ root : Option String, roots = root.toList ∧ root ≠ some "" ∧
    r.find? .dataRoot = root.map writtenRoot

/-- Those data roots have been read, one that is not yet taken in being the last. -/
def Read (r : Reading) (roots : List String) : Prop :=
  match r.pending with
  | .nothing => r.Took roots
  | .named f => f.IsProper ∧ r.Took roots
  | .valued f value =>
    f.IsProper ∧ ∃ before, r.Took before ∧ roots = before ++ (f.root? value).toList

def ahead (r : Reading) (arguments : List String) : List String :=
  if r.isTrailing then []
  else match r.pending with
    | .named f =>
      if f.argument = .dataRoot then writtenRoots ("--data-dir" :: arguments)
      else writtenRoots arguments
    | _ => writtenRoots arguments

structure Settles (r r' : Reading) (roots : List String) : Prop where
  awaited : r.awaits = false
  pending : r'.pending = .nothing
  isTrailing : r'.isTrailing = r.isTrailing
  took : r'.Took roots

section Walk

variable {v : Verb} {r r' : Reading} {f : Form} {roots rest : List String} {s value : String}

theorem of_letters {c : Char} {cs : List Char} (h : letters v (c :: cs) r = .ok r') :
    ∃ f r₁, f.argument ≠ .dataRoot ∧ r.flag f = .ok r₁ ∧ letters v cs r₁ = .ok r' := by
  rw [letters] at h
  split at h
  · cases h
  · rename_i f hfind
    obtain ⟨r₁, hflag, hrest⟩ := of_bind_ok h
    have hkind : f.letter = some c ∧ f.kind = none := by simpa using List.find?_some hfind
    have hproper := isProper_of_mem (List.mem_of_find?_eq_some hfind)
    exact ⟨f, r₁, hproper.argument_ne hkind.2, hflag, hrest⟩

theorem Took.add_of_ne {g : Given} (h : r.Took roots) (hg : g.argument ≠ .dataRoot) :
    (r.add g).Took roots := by
  obtain ⟨root, hroots, hnonempty, hfind⟩ := h
  exact ⟨root, hroots, hnonempty, by rw [find?_add_of_ne hg, hfind]⟩

/-- A value is taken in: where the form is for a data root, it is the first one and not empty. -/
theorem Took.take (h : r.Took roots) (hf : f.IsProper)
    (htake : r.take f .written (some value) = .ok r') :
    r'.Took (roots ++ (f.root? value).toList) := by
  obtain ⟨hnone, datum, hdatum, rfl⟩ := of_take htake
  by_cases hroot : f.argument = .dataRoot
  · obtain ⟨root, rfl, -, hfind⟩ := h
    obtain rfl := hf hroot
    rw [datum_rootForm] at hdatum
    split at hdatum
    · cases hdatum
    · rename_i hvalue
      cases hdatum
      rw [hroot] at hnone
      rw [hnone] at hfind
      obtain rfl := Option.map_eq_none_iff.mp hfind.symm
      refine ⟨some value, rfl, ?_, ?_⟩
      · rintro ⟨⟩
        exact hvalue rfl
      · rw [find?_add, hnone]
        rfl
  · rw [Form.root?, if_neg hroot, Option.toList_none, List.append_nil]
    exact h.add_of_ne hroot

theorem Settles.read (h : r.Settles r' roots) : r'.Read roots := by
  rw [Read, h.pending]
  exact h.took

theorem Read.settle (h : r.Read roots) (hsettle : r.settle = .ok r') : r.Settles r' roots := by
  rw [Read] at h
  rw [Reading.settle] at hsettle
  cases hpending : r.pending with
  | nothing =>
    rw [hpending] at h hsettle
    cases hsettle
    exact ⟨by rw [awaits, hpending], rfl, rfl, h⟩
  | named f =>
    rw [hpending] at hsettle
    cases hsettle
  | valued f value =>
    rw [hpending] at h hsettle
    obtain ⟨hf, before, hbefore, rfl⟩ := h
    have htook := Took.take (r := { r with pending := .nothing }) hbefore hf hsettle
    obtain ⟨-, datum, -, rfl⟩ := of_take hsettle
    exact ⟨by rw [awaits, hpending], rfl, rfl, htook⟩

theorem Read.flag (h : r.Read roots) (hf : f.argument ≠ .dataRoot) (hflag : r.flag f = .ok r') :
    r.Settles r' roots := by
  obtain ⟨r₁, hsettle, hflag⟩ := of_bind_ok hflag
  have h₁ := h.settle hsettle
  split at hflag
  · cases hflag
  · cases hflag
  · obtain ⟨-, datum, -, rfl⟩ := of_take hflag
    exact ⟨h₁.awaited, h₁.pending, h₁.isTrailing, h₁.took.add_of_ne hf⟩

theorem Read.letters {c : Char} {cs : List Char} (h : r.Read roots)
    (hletters : letters v (c :: cs) r = .ok r') : r.Settles r' roots := by
  -- on the letters, each of which is a flag
  induction cs generalizing r c with
  | nil =>
    obtain ⟨f, r₁, hf, hflag, hrest⟩ := of_letters hletters
    cases hrest
    exact h.flag hf hflag
  | cons d cs ih =>
    obtain ⟨f, r₁, hf, hflag, hrest⟩ := of_letters hletters
    have h₁ := h.flag hf hflag
    have h₂ := ih h₁.read hrest
    exact ⟨h₁.awaited, h₂.pending, h₂.isTrailing.trans h₁.isTrailing, h₂.took⟩

/-- After a reading that awaits nothing, what is ahead is what is written. -/
theorem ahead_of_not_awaits (htrailing : r.isTrailing = false) (hawaits : r.awaits = false) :
    r.ahead rest = writtenRoots rest := by
  rw [ahead, htrailing, if_neg Bool.false_ne_true]
  cases hpending : r.pending with
  | named f =>
    rw [awaits, hpending] at hawaits
    cases hawaits
  | _ => rfl

theorem ahead_nil : r.ahead [] = [] := by
  rw [ahead]
  split
  · rfl
  · split
    · split <;> decide
    · rfl

/-- At the beginning no data root has been read. -/
theorem read_nil : Read {} [] :=
  ⟨none, rfl, by simp, rfl⟩

theorem Settles.ahead_before (h : r.Settles r' roots) (htrailing : r.isTrailing = false) :
    r.ahead rest = writtenRoots rest :=
  ahead_of_not_awaits htrailing h.awaited

theorem Settles.ahead_after (h : r.Settles r' roots) (htrailing : r.isTrailing = false) :
    r'.ahead rest = writtenRoots rest :=
  ahead_of_not_awaits (h.isTrailing.trans htrailing) (by rw [awaits, h.pending])

/-- The data roots read and those to come are the same before and after a name. -/
theorem Read.name {cs : List Char} {word : String} {given : Option String} (h : r.Read roots)
    (htrailing : r.isTrailing = false) (hs : s.toList = '-' :: '-' :: cs) (hend : s ≠ "--")
    (hsplit : splitName cs = (word, given)) (hname : r.name v word given = .ok r') :
    ∃ roots', r'.Read roots' ∧ roots' ++ r'.ahead rest = roots ++ r.ahead (s :: rest) := by
  rw [Reading.name] at hname
  split at hname
  · cases hname
  · rename_i f hfind
    have hf : f ∈ v.forms := List.mem_of_find?_eq_some hfind
    obtain rfl : f.word = word := by simpa using List.find?_some hfind
    have hproper := isProper_of_mem hf
    have hword := word_eq_iff hf
    split at hname
    · cases hname
    -- a flag, which is not for a data root
    · rename_i hkind
      have hother := hproper.argument_ne hkind
      have h₁ := h.flag hother hname
      refine ⟨roots, h₁.read, ?_⟩
      rw [h₁.ahead_after htrailing, h₁.ahead_before htrailing,
        writtenRoots_of_name hs hend hsplit (mt hword.mp hother)]
    -- the value stands behind an equals sign
    · rename_i k value hkind
      obtain ⟨r₁, hsettle, htake⟩ := of_bind_ok hname
      have h₁ := h.settle hsettle
      have htook := h₁.took.take hproper htake
      obtain ⟨-, datum, -, rfl⟩ := of_take htake
      have h₂ : r.Settles (r₁.add ⟨f.argument, .written, datum⟩) _ :=
        ⟨h₁.awaited, h₁.pending, h₁.isTrailing, htook⟩
      refine ⟨_, h₂.read, ?_⟩
      rw [h₂.ahead_after htrailing, h₂.ahead_before htrailing,
        writtenRoots_of_value hs hend hsplit, List.append_assoc, Form.root?]
      simp only [hword]
    -- the value comes next, so that of a data root is still ahead
    · rename_i k hkind
      obtain ⟨r₁, hsettle, hpending⟩ := of_bind_ok hname
      have h₁ := h.settle hsettle
      cases hpending
      refine ⟨roots, ⟨hproper, h₁.took⟩, ?_⟩
      rw [h₁.ahead_before htrailing, ahead, h₁.isTrailing, htrailing, if_neg Bool.false_ne_true]
      dsimp only
      split
      · rename_i hroot
        rw [(rootBehind_of_name hs hsplit).2.mpr (hword.mpr hroot)]
      · rename_i hother
        rw [writtenRoots_of_name hs hend hsplit (mt hword.mp hother)]

theorem Read.place (h : r.Read roots) (hplace : r.place v s = .ok r') :
    r.awaits = false ∧ r'.isTrailing = r.isTrailing ∧ r'.awaits = false ∧ r'.Read roots := by
  rw [Reading.place] at hplace
  split at hplace
  · rename_i a ha
    split at hplace
    · cases hplace
    · obtain ⟨r₁, hsettle, hpending⟩ := of_bind_ok hplace
      have h₁ := h.settle hsettle
      cases hpending
      have hother := positional_ne_root ha
      refine ⟨h₁.awaited, h₁.isTrailing, rfl, fun hroot => absurd hroot hother, roots, h₁.took, ?_⟩
      rw [Form.root?, if_neg hother, Option.toList_none, List.append_nil]
  · split at hplace <;> cases hplace

/-- The data roots read and those to come are the same before and after each argument. Two hyphens
cannot stand where a value is awaited. -/
theorem Read.next (h : r.Read roots) (hnext : r.next v s = .ok r')
    (hlater : r'.isTrailing = true → r'.awaits = false) :
    ∃ roots', r'.Read roots' ∧ roots' ++ r'.ahead rest = roots ++ r.ahead (s :: rest) := by
  rw [Reading.next] at hnext
  split at hnext
  · rename_i hends
    obtain ⟨-, hends', -, hread⟩ := h.place hnext
    refine ⟨roots, hread, ?_⟩
    rw [ahead, ahead, hends', hends]
    rfl
  rename_i hends
  have hends : r.isTrailing = false := by simpa using hends
  -- two hyphens, a name, letters, or an argument without a name
  split at hnext
  · rename_i hs
    cases hnext
    obtain rfl : s = "--" := String.toList_inj.mp hs
    have hawaits : r.awaits = false := hlater rfl
    refine ⟨roots, h, ?_⟩
    rw [ahead_of_not_awaits hends hawaits, writtenRoots_end, ahead, if_pos rfl]
  · rename_i cs hends' hs
    have hend : s ≠ "--" := by
      rintro rfl
      have hcs : "--".toList = '-' :: '-' :: [] := by decide
      rw [hcs] at hs
      exact hends' (List.cons.inj (List.cons.inj hs).2).2.symm
    exact h.name hends hs hend rfl hnext
  · rename_i c cs _ hletter hs
    have hplain : ∀ cs, s.toList ≠ '-' :: '-' :: cs := by
      intro cs' hcs
      rw [hs] at hcs
      exact hletter (List.cons.inj (List.cons.inj hcs).2).1
    have h₁ := h.letters hnext
    refine ⟨roots, h₁.read, ?_⟩
    rw [h₁.ahead_after hends, h₁.ahead_before hends, writtenRoots_of_other hplain]
  · rename_i hname _
    have hplain : ∀ cs, s.toList ≠ '-' :: '-' :: cs := hname
    split at hnext
    -- it is the value of the name before it
    · rename_i f hpending
      cases hnext
      rw [Read, hpending] at h
      refine ⟨roots ++ (f.root? s).toList, ⟨h.1, roots, h.2, rfl⟩, ?_⟩
      rw [ahead, ahead, hends, hpending, if_neg Bool.false_ne_true, if_neg Bool.false_ne_true]
      dsimp only
      rw [Form.root?]
      split
      · rw [writtenRoots_next, List.append_assoc]
        rfl
      · rw [writtenRoots_of_other hplain, Option.toList_none, List.append_nil]
    · obtain ⟨hbefore, hends', hafter, hread⟩ := h.place hnext
      refine ⟨roots, hread, ?_⟩
      rw [ahead_of_not_awaits (hends'.trans hends) hafter, ahead_of_not_awaits hends hbefore,
        writtenRoots_of_other hplain]

end Walk

/-! ## Variables -/

section Variables

variable {bindings : Variables} {v : Verb} {r r' : Reading} {roots : List String}

/-- The variable counts where no data root has been taken in. -/
theorem find?_fillIn {forms : List Form} (hforms : ∀ f ∈ forms, f.IsProper)
    (h : fillIn bindings forms r = .ok r') :
    r'.find? .dataRoot =
      (r.find? .dataRoot).or (if rootForm ∈ forms then rootVariable? bindings else none) := by
  -- on the forms, only one of which is for a data root
  induction forms generalizing r with
  | nil =>
    cases h
    rw [if_neg List.not_mem_nil, Option.or_none]
  | cons f rest ih =>
    have hrest : ∀ g ∈ rest, g.IsProper := fun g hg => hforms g (List.mem_cons_of_mem _ hg)
    rw [fillIn] at h
    by_cases hroot : f.argument = .dataRoot
    · obtain rfl := hforms f List.mem_cons_self hroot
      rw [if_pos List.mem_cons_self]
      have hlookup : (rootForm.standIn.bind fun x => List.lookup x bindings) =
          List.lookup "KPM_DATA_DIR" bindings := rfl
      rw [hlookup] at h
      split at h
      · rename_i value hvalue
        split at h
        · rename_i hhas
          rw [has_eq_isSome] at hhas
          obtain ⟨g, hg⟩ := Option.isSome_iff_exists.mp hhas
          rw [hroot] at hg
          rw [ih hrest h, hg, Option.some_or, Option.some_or]
        · obtain ⟨r₁, htake, h⟩ := of_bind_ok h
          obtain ⟨hnone, datum, hdatum, rfl⟩ := of_take htake
          have hdatum' : datum = some (.text value) := by
            rw [datum_rootForm] at hdatum
            split at hdatum <;> cases hdatum
            rfl
          rw [hroot] at hnone
          rw [ih hrest h, find?_add, hnone, Option.none_or, Option.none_or, if_pos hroot,
            Option.some_or, rootVariable?, hvalue, hdatum']
          rfl
      · rename_i hnone
        rw [ih hrest h, rootVariable?, hnone, Option.map_none, ite_self]
    · have hmem : rootForm ∈ f :: rest ↔ rootForm ∈ rest := by
        rw [List.mem_cons]
        refine or_iff_right ?_
        rintro rfl
        exact hroot rfl
      simp only [hmem]
      split at h
      · split at h
        · exact ih hrest h
        · obtain ⟨r₁, htake, h⟩ := of_bind_ok h
          obtain ⟨-, datum, -, rfl⟩ := of_take htake
          rw [ih hrest h, find?_add_of_ne hroot]
      · exact ih hrest h

theorem of_finish {follows : Bool} {l : Level} (h : r.finish bindings v follows = .ok l) :
    ∃ r₁ r₂, r.settle = .ok r₁ ∧ fillIn bindings v.forms r₁ = .ok r₂ ∧ l = ⟨v, r₂.given⟩ := by
  obtain ⟨r₁, hsettle, h⟩ := of_bind_ok h
  obtain ⟨r₂, hfill, h⟩ := of_bind_ok h
  refine ⟨r₁, r₂, hsettle, hfill, ?_⟩
  -- the checks that follow only refuse
  by_cases hmissing : (v.needsVerb && !follows) = true
  · rw [if_pos hmissing] at h
    cases h
  rw [if_neg hmissing] at h
  dsimp only at h
  split at h
  · cases h
  split at h
  · cases h
    rfl
  · cases h

/-- At the end of a word it has its written data root, or else that of the variable. -/
theorem Read.finish (h : r.Read roots) {follows : Bool} {l : Level}
    (hfinish : r.finish bindings v follows = .ok l) :
    ∃ root : Option String, roots = root.toList ∧ root ≠ some "" ∧
      l.find? .dataRoot = (root.map writtenRoot).or (rootVariable? bindings) := by
  obtain ⟨r₁, r₂, hsettle, hfill, rfl⟩ := of_finish hfinish
  obtain ⟨root, hroots, hnonempty, hfind⟩ := (h.settle hsettle).took
  refine ⟨root, hroots, hnonempty, ?_⟩
  change r₂.find? .dataRoot = _
  rw [find?_fillIn (fun _ hf => isProper_of_mem hf) hfill, if_pos (rootForm_mem v), hfind]

/-- Behind two hyphens a value that is still awaited is not found. -/
theorem not_awaits_of_readLevels {arguments : List String} {levels : List Level}
    (hread : readLevels bindings v arguments r = .ok levels) (htrailing : r.isTrailing = true) :
    r.awaits = false := by
  have hsettles : ∃ r₁, r.settle = .ok r₁ := by
    cases arguments with
    | nil =>
      obtain ⟨l, hfinish, -⟩ := of_bind_ok hread
      obtain ⟨r₁, -, hsettle, -⟩ := of_finish hfinish
      exact ⟨r₁, hsettle⟩
    | cons s rest =>
      rw [readLevels, htrailing, Bool.not_true, Bool.false_and, Bool.false_and,
        if_neg Bool.false_ne_true] at hread
      obtain ⟨r', hnext, -⟩ := of_bind_ok hread
      rw [Reading.next, if_pos htrailing, Reading.place] at hnext
      split at hnext
      · split at hnext
        · cases hnext
        · obtain ⟨r₁, hsettle, -⟩ := of_bind_ok hnext
          exact ⟨r₁, hsettle⟩
      · split at hnext <;> cases hnext
  obtain ⟨r₁, hsettle⟩ := hsettles
  rw [Reading.settle] at hsettle
  rw [awaits]
  split
  · rename_i f hpending
    rw [hpending] at hsettle
    cases hsettle
  · rfl

end Variables

end Reading

/-! ## Levels -/

section Levels

variable {bindings : Variables} {v : Verb} {arguments : List String} {levels : List Level}

/-- At each level there is the data root that is written there, or else that of the variable. Those
that are written are found in the arguments. -/
theorem roots_of_readLevels {r : Reading} {roots : List String} (h : r.Read roots)
    (hread : readLevels bindings v arguments r = .ok levels) :
    ∃ own : List (Option String), own ≠ [] ∧ own.reduceOption = roots ++ r.ahead arguments ∧
      some "" ∉ own ∧ levels.map (·.find? .dataRoot) =
        own.map fun root => (root.map writtenRoot).or (rootVariable? bindings) := by
  -- on the arguments; a word that chooses a command begins a level of its own
  induction arguments generalizing v r levels roots with
  | nil =>
    obtain ⟨l, hfinish, hlevels⟩ := of_bind_ok hread
    cases hlevels
    obtain ⟨root, rfl, hnonempty, hfind⟩ := h.finish hfinish
    refine ⟨[root], List.cons_ne_nil _ _, ?_, ?_, ?_⟩
    · rw [Reading.ahead_nil, List.append_nil]
      cases root <;> rfl
    · rw [List.mem_singleton]
      exact Ne.symm hnonempty
    · rw [List.map_singleton, List.map_singleton, hfind]
  | cons s rest ih =>
    rw [readLevels] at hread
    split at hread
    · rename_i hknows
      split at hread
      · rename_i below hbelow
        obtain ⟨lower, hlower, hread⟩ := of_bind_ok hread
        obtain ⟨l, hfinish, hlevels⟩ := of_bind_ok hread
        cases hlevels
        obtain ⟨root, rfl, hnonempty, hfind⟩ := h.finish hfinish
        obtain ⟨own, -, hown, hnonempties, hfinds⟩ := ih Reading.read_nil hlower
        refine ⟨root :: own, List.cons_ne_nil _ _, ?_, ?_, ?_⟩
        · have hahead : r.ahead (s :: rest) = writtenRoots rest := by
            simp only [Bool.and_eq_true, Bool.not_eq_true'] at hknows
            rw [Reading.ahead_of_not_awaits hknows.1.1 hknows.1.2,
              writtenRoots_of_other (not_hyphens_of_find? hbelow)]
          have hfresh : Reading.ahead {} rest = writtenRoots rest := rfl
          rw [hahead, ← hfresh, ← List.nil_append (Reading.ahead {} rest), ← hown]
          cases root <;> rfl
        · rw [List.mem_cons, not_or]
          exact ⟨Ne.symm hnonempty, hnonempties⟩
        · rw [List.map_cons, List.map_cons, hfind, hfinds]
      · cases hread
    · obtain ⟨r₁, hnext, hread⟩ := of_bind_ok hread
      obtain ⟨roots₁, h₁, hroots⟩ := h.next hnext (Reading.not_awaits_of_readLevels hread)
      rw [← hroots]
      exact ih h₁ hread

theorem Level.settled_eq (levels : List Level) (a : Argument) :
    settled levels a =
      if a.isShared then (levels.map (·.find? a)).foldl prefer none
      else (levels.map (·.find? a)).getLast?.bind id := by
  rw [settled, List.foldl_map, List.getLast?_map, Option.bind_map]
  rfl

theorem getLast?_reduceOption_cons (here above : Option String) (own : List (Option String)) :
    own.reduceOption.getLast?.or (here.or above) =
      (here :: own).reduceOption.getLast?.or above := by
  cases here with
  | none => rw [Option.none_or, List.reduceOption_cons_of_none]
  | some root =>
    rw [List.reduceOption_cons_of_some, List.getLast?_cons, Option.some_or]
    cases own.reduceOption.getLast? <;> rfl

/-- A data root that is written here counts, or else the one above, or else that of the variable. -/
theorem prefer_root (above here : Option String) :
    Level.prefer ((above.map writtenRoot).or (rootVariable? bindings))
        ((here.map writtenRoot).or (rootVariable? bindings)) =
      ((here.or above).map writtenRoot).or (rootVariable? bindings) := by
  have hvariable : ∀ g, rootVariable? bindings = some g → g.origin = .environment := by
    intro g hg
    obtain ⟨root, -, rfl⟩ := Option.map_eq_some_iff.mp hg
    rfl
  cases hrest : rootVariable? bindings with
  | none => cases above <;> cases here <;> simp [Level.prefer, writtenRoot]
  | some g =>
    have hg := hvariable g hrest
    cases above <;> cases here <;> simp [Level.prefer, writtenRoot, hg]

/-- Over the levels the last data root that is written counts, or else the variable. -/
theorem foldl_prefer_root (own : List (Option String)) (above : Option String) :
    (own.map fun root => (root.map writtenRoot).or (rootVariable? bindings)).foldl Level.prefer
        ((above.map writtenRoot).or (rootVariable? bindings)) =
      ((own.reduceOption.getLast?.or above).map writtenRoot).or (rootVariable? bindings) := by
  induction own generalizing above with
  | nil => rfl
  | cons here own ih =>
    rw [List.map_cons, List.foldl_cons, prefer_root, ih, getLast?_reduceOption_cons]

/-- The data root of a command line: the last one that is written, or else that of the variable. No
empty one is written. -/
theorem root_of_readLevels (hread : readLevels bindings .program arguments {} = .ok levels) :
    Level.text? levels .dataRoot =
        (writtenRoots arguments).getLast?.or (List.lookup "KPM_DATA_DIR" bindings) ∧
      "" ∉ writtenRoots arguments := by
  obtain ⟨own, hne, hroots, hnonempty, hfinds⟩ := roots_of_readLevels Reading.read_nil hread
  have hwritten : own.reduceOption = writtenRoots arguments := hroots
  constructor
  · obtain ⟨root, below, rfl⟩ := List.exists_cons_of_ne_nil hne
    have hsettled : Level.settled levels .dataRoot =
        ((writtenRoots arguments).getLast?.map writtenRoot).or (rootVariable? bindings) := by
      calc Level.settled levels .dataRoot
          = (levels.map (·.find? .dataRoot)).foldl Level.prefer none := by
            rw [Level.settled_eq]
            rfl
        _ = ((below.reduceOption.getLast?.or root).map writtenRoot).or
              (rootVariable? bindings) := by
            rw [hfinds, List.map_cons, List.foldl_cons, Level.prefer, foldl_prefer_root]
        _ = ((writtenRoots arguments).getLast?.map writtenRoot).or (rootVariable? bindings) := by
            have hlast := getLast?_reduceOption_cons root none below
            rw [Option.or_none, Option.or_none, hwritten] at hlast
            rw [hlast]
    rw [Level.text?, Level.datum?, hsettled]
    cases (writtenRoots arguments).getLast? with
    | some root => rfl
    | none =>
      rw [rootVariable?]
      cases List.lookup "KPM_DATA_DIR" bindings <;> rfl
  · rw [← hwritten, List.reduceOption_mem_iff]
    exact hnonempty

end Levels

end PluginResolution.Command
