import PluginResolution.Proofs.ReadRoots

namespace PluginResolution.Command

/-! ## Reading twice -/

/-- Both command lines are refused with one exit code, or what is read is related. -/
inductive Alike {α : Type} (R : α → α → Prop) : Except Refusal α → Except Refusal α → Prop
  | refused {r r' : Refusal} (code : r.exitCode = r'.exitCode) : Alike R (.error r) (.error r')
  | read {a a' : α} (related : R a a') : Alike R (.ok a) (.ok a')

namespace Alike

variable {α β : Type} {R : α → α → Prop} {S : β → β → Prop}

theorem refl (hR : ∀ a, R a a) (x : Except Refusal α) : Alike R x x := by
  cases x with
  | error r => exact .refused rfl
  | ok a => exact .read (hR a)

theorem bind {x x' : Except Refusal α} {f f' : α → Except Refusal β} (h : Alike R x x')
    (hf : ∀ a a', R a a' → Alike S (f a) (f' a')) : Alike S (x >>= f) (x' >>= f') := by
  cases h with
  | refused code => exact .refused code
  | read related => exact hf _ _ related

theorem of_error {x : Except Refusal α} {r' : Refusal} (h : Alike R x (.error r')) :
    ∃ r, x = .error r ∧ r.exitCode = r'.exitCode := by
  cases h with
  | refused code => exact ⟨_, rfl, code⟩

theorem of_ok {x : Except Refusal α} {a' : α} (h : Alike R x (.ok a')) :
    ∃ a, x = .ok a ∧ R a a' := by
  cases h with
  | read related => exact ⟨_, rfl, related⟩

end Alike

theorem root_not_required {v : Verb} :
    .dataRoot ∉ (v.forms.filter (·.isRequired)).map (·.argument) ++ v.positional?.toList := by
  cases v <;> decide

/-! ## Arguments and levels -/

/-- The variables differ in the one for the data root at most, and that one is not empty. -/
structure Variables.SameBesides (bindings bindings' : Variables) : Prop where
  lookup {name : String} (h : name ≠ "KPM_DATA_DIR") :
    List.lookup name bindings = List.lookup name bindings'
  nonempty : List.lookup "KPM_DATA_DIR" bindings ≠ some ""
  nonempty' : List.lookup "KPM_DATA_DIR" bindings' ≠ some ""

def Reading.SameBesides (r r' : Reading) : Prop :=
  ∀ a ≠ .dataRoot, r.find? a = r'.find? a

structure Level.SameBesides (levels levels' : List Level) : Prop where
  verbs : levels.map (·.verb) = levels'.map (·.verb)
  finds {a : Argument} (h : a ≠ .dataRoot) : levels.map (·.find? a) = levels'.map (·.find? a)

variable {bindings bindings' : Variables} {v : Verb}

namespace Reading

variable {r r' : Reading}

theorem SameBesides.has (h : r.SameBesides r') {a : Argument} (ha : a ≠ .dataRoot) :
    r.has a = r'.has a := by
  rw [has_eq_isSome, has_eq_isSome, h a ha]

theorem SameBesides.add (h : r.SameBesides r') (g : Given) : (r.add g).SameBesides (r'.add g) := by
  intro a ha
  rw [find?_add, find?_add, h a ha]

/-- The variable adds a data root, or nothing. -/
theorem fillIn_root (nonempty : List.lookup "KPM_DATA_DIR" bindings ≠ some "") (rest : List Form)
    (r : Reading) :
    ∃ r₁ : Reading, r₁.SameBesides r ∧
      fillIn bindings (rootForm :: rest) r = fillIn bindings rest r₁ := by
  have hlookup : (rootForm.standIn.bind fun x => List.lookup x bindings) =
      List.lookup "KPM_DATA_DIR" bindings := rfl
  rw [fillIn, hlookup]
  cases hvalue : List.lookup "KPM_DATA_DIR" bindings with
  | none => exact ⟨r, fun _ _ => rfl, rfl⟩
  | some value =>
    dsimp only
    split
    · exact ⟨r, fun _ _ => rfl, rfl⟩
    · rename_i hnone
      have hvalue : value.isEmpty = false := by
        rw [Bool.eq_false_iff]
        intro hempty
        rw [String.isEmpty_iff.mp hempty] at hvalue
        exact nonempty hvalue
      rw [take_eq, if_neg hnone, datum_rootForm, hvalue]
      refine ⟨r.add ⟨.dataRoot, .environment, some (.text value)⟩, ?_, rfl⟩
      intro a ha
      exact find?_add_of_ne ha.symm

theorem fillIn_alike (same : bindings.SameBesides bindings') {forms : List Form}
    (hforms : ∀ f ∈ forms, f ∈ v.forms) (h : r.SameBesides r') :
    Alike SameBesides (fillIn bindings forms r) (fillIn bindings' forms r') := by
  induction forms generalizing r r' with
  | nil => exact .read h
  | cons f rest ih =>
    have hrest : ∀ g ∈ rest, g ∈ v.forms := fun g hg => hforms g (List.mem_cons_of_mem _ hg)
    have hf := hforms f List.mem_cons_self
    by_cases hroot : f.argument = .dataRoot
    · obtain rfl := isProper_of_mem hf hroot
      obtain ⟨r₁, hr, hfill⟩ := fillIn_root same.nonempty rest r
      obtain ⟨r₁', hr', hfill'⟩ := fillIn_root same.nonempty' rest r'
      rw [hfill, hfill']
      refine ih hrest ?_
      intro a ha
      rw [hr a ha, hr' a ha, h a ha]
    · have hlookup : (f.standIn.bind fun x => List.lookup x bindings) =
          f.standIn.bind fun x => List.lookup x bindings' := by
        cases hname : f.standIn with
        | none => rfl
        | some name =>
          refine same.lookup ?_
          rintro rfl
          exact hroot (root_of_standIn hf hname)
      rw [fillIn, fillIn, hlookup]
      split
      · rename_i value _
        rw [h.has hroot]
        split
        · exact ih hrest h
        · rename_i hnone
          have hnone' : ¬r.has f.argument = true := by rwa [h.has hroot]
          rw [take_eq, take_eq, if_neg hnone, if_neg hnone']
          cases f.datum (some value) with
          | error e => exact .refused rfl
          | ok datum => exact ih hrest (h.add _)
      · exact ih hrest h

theorem finish_alike (same : bindings.SameBesides bindings') (r : Reading) (follows : Bool) :
    Alike (fun l l' => l.verb = l'.verb ∧ ∀ a ≠ .dataRoot, l.find? a = l'.find? a)
      (r.finish bindings v follows) (r.finish bindings' v follows) := by
  refine (Alike.refl (fun _ => rfl) r.settle).bind ?_
  rintro r₁ _ rfl
  refine (fillIn_alike same (fun _ hf => hf) fun _ _ => rfl).bind ?_
  intro r₂ r₂' h
  -- the help may stand in for one of the refusals alone, but the exit code is the same
  by_cases hmissing : (v.needsVerb && !follows) = true
  · rw [if_pos hmissing, if_pos hmissing]
    refine .refused ?_
    split <;> split <;> rfl
  rw [if_neg hmissing, if_neg hmissing]
  have hrequired : ((v.forms.filter (·.isRequired)).map (·.argument) ++
        v.positional?.toList).all r₂.has =
      ((v.forms.filter (·.isRequired)).map (·.argument) ++ v.positional?.toList).all r₂'.has := by
    rw [Bool.eq_iff_iff, List.all_eq_true, List.all_eq_true]
    refine forall₂_congr fun a ha => ?_
    rw [h.has]
    rintro rfl
    exact root_not_required ha
  have hdefault := h.has (a := .defaultHostVersion) (by decide)
  have hcleared := h.has (a := .noDefaultHostVersion) (by decide)
  simp only [Verb.excluding, List.any_cons, List.any_nil, Bool.or_false, hdefault, hcleared,
    hrequired]
  by_cases hexcluded : (r₂'.has .defaultHostVersion && r₂'.has .noDefaultHostVersion) = true
  · rw [if_pos hexcluded, if_pos hexcluded]
    exact .refused rfl
  rw [if_neg hexcluded, if_neg hexcluded]
  split
  · exact .read ⟨rfl, h⟩
  · exact .refused rfl

end Reading

/-- Word for word the levels differ in the data root at most. -/
theorem readLevels_alike (same : bindings.SameBesides bindings') (arguments : List String)
    (r : Reading) :
    Alike Level.SameBesides (readLevels bindings v arguments r)
      (readLevels bindings' v arguments r) := by
  -- on the arguments; the variables count at the end of a word only
  induction arguments generalizing v r with
  | nil =>
    refine (Reading.finish_alike same r false).bind ?_
    rintro l l' ⟨hverb, hfind⟩
    refine .read ⟨?_, ?_⟩
    · rw [List.map_singleton, List.map_singleton, hverb]
    · intro a ha
      rw [List.map_singleton, List.map_singleton, hfind a ha]
  | cons s rest ih =>
    rw [readLevels, readLevels]
    split
    · split
      · refine (ih {}).bind ?_
        intro lower lower' hlower
        refine (Reading.finish_alike same r true).bind ?_
        rintro l l' ⟨hverb, hfind⟩
        refine .read ⟨?_, ?_⟩
        · rw [List.map_cons, List.map_cons, hverb, hlower.verbs]
        · intro a ha
          rw [List.map_cons, List.map_cons, hfind a ha, hlower.finds ha]
      · exact .refused rfl
    · refine (Alike.refl (fun _ => rfl) (r.next v s)).bind ?_
      rintro r₁ _ rfl
      exact ih r₁

/-! ## What is asked for -/

namespace Level

variable {levels levels' : List Level} {a : Argument}

theorem SameBesides.settled (h : SameBesides levels levels') (ha : a ≠ .dataRoot) :
    settled levels a = settled levels' a := by
  rw [settled_eq, settled_eq, h.finds ha]

theorem SameBesides.datum (h : SameBesides levels levels') (ha : a ≠ .dataRoot) :
    datum? levels a = datum? levels' a := by
  rw [datum?, datum?, h.settled ha]

theorem SameBesides.isGiven (h : SameBesides levels levels') (ha : a ≠ .dataRoot) :
    isGiven levels a = isGiven levels' a := by
  rw [Level.isGiven, Level.isGiven, h.settled ha]

theorem SameBesides.text? (h : SameBesides levels levels') (ha : a ≠ .dataRoot) :
    text? levels a = text? levels' a := by
  rw [Level.text?, Level.text?, h.datum ha]

theorem SameBesides.text (h : SameBesides levels levels') (ha : a ≠ .dataRoot) :
    text levels a = text levels' a := by
  rw [Level.text, Level.text, h.text? ha]

theorem SameBesides.natural? (h : SameBesides levels levels') (ha : a ≠ .dataRoot) :
    natural? levels a = natural? levels' a := by
  rw [Level.natural?, Level.natural?, h.datum ha]

theorem SameBesides.backend? (h : SameBesides levels levels') (ha : a ≠ .dataRoot) :
    backend? levels a = backend? levels' a := by
  rw [Level.backend?, Level.backend?, h.datum ha]

theorem SameBesides.update (h : SameBesides levels levels') : update levels = update levels' := by
  simp (disch := decide) only [Level.update, h.text?, h.natural?, h.backend?, h.isGiven]

theorem SameBesides.taskOf (h : SameBesides levels levels') (v : Verb) :
    taskOf levels v = taskOf levels' v := by
  cases v <;>
    simp (disch := decide) only [Level.taskOf, h.text, h.text?, h.isGiven, h.update]

theorem SameBesides.task? (h : SameBesides levels levels') : task? levels = task? levels' := by
  have hlast : levels.getLast?.map (·.verb) = levels'.getLast?.map (·.verb) := by
    rw [← List.getLast?_map, h.verbs, List.getLast?_map]
  calc Level.task? levels
      = (levels.getLast?.map (·.verb)).bind (Level.taskOf levels) := by
        rw [Option.bind_map]
        rfl
    _ = (levels'.getLast?.map (·.verb)).bind (Level.taskOf levels') := by
        rw [hlast, funext h.taskOf]
    _ = Level.task? levels' := by
        rw [Option.bind_map]
        rfl

end Level

structure Invocation.SameBesides (i i' : Invocation) : Prop where
  catalogUrl : i.catalogUrl = i'.catalogUrl
  verbose : i.verbose = i'.verbose
  task : i.task = i'.task

/-- With the variable and without it a command line asks for the same, the data root apart. -/
theorem read_alike (same : bindings.SameBesides bindings') (arguments : List String) :
    Alike Invocation.SameBesides (Invocation.read bindings arguments)
      (Invocation.read bindings' arguments) := by
  refine (readLevels_alike same arguments {}).bind ?_
  intro levels levels' h
  exact .read ⟨h.text? (by decide), h.isGiven (by decide), h.task?⟩

end PluginResolution.Command
