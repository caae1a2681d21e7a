import PluginResolution.Command.Arguments

namespace PluginResolution.Command

theorem of_bind_ok {ε α β : Type} {x : Except ε α} {f : α → Except ε β} {b : β}
    (h : (x >>= f) = .ok b) : ∃ a, x = .ok a ∧ f a = .ok b := by
  cases x with
  | error e => cases h
  | ok a => exact ⟨a, rfl, h⟩

/-- The value is written, or the word has a form of its argument for which a variable may stand
in. -/
def Given.Sourced (v : Verb) (g : Given) : Prop :=
  g.origin = .written ∨ ∃ f ∈ v.forms, f.argument = g.argument ∧ f.standIn.isSome = true

namespace Reading

def Sourced (v : Verb) (r : Reading) : Prop :=
  ∀ g ∈ r.given, g.Sourced v

variable {v : Verb} {r r' : Reading} {f : Form} {bindings : Variables}

theorem Sourced.of_given (h : r.Sourced v) (hgiven : r'.given = r.given) : r'.Sourced v := by
  rw [Sourced, hgiven]
  exact h

theorem Sourced.take (h : r.Sourced v) {origin : Origin} {value : Option String}
    (hnew : origin = .written ∨ f ∈ v.forms ∧ f.standIn.isSome = true)
    (htake : r.take f origin value = .ok r') : r'.Sourced v := by
  -- whatever the datum is, one more value is given
  have hr' : ∃ datum, r'.given = r.given ++ [⟨f.argument, origin, datum⟩] := by
    rw [Reading.take] at htake
    split at htake
    · cases htake
    · dsimp only at htake
      split at htake
      · obtain ⟨datum, -, htake⟩ := of_bind_ok htake
        cases htake
        exact ⟨datum, rfl⟩
      · obtain ⟨datum, -, htake⟩ := of_bind_ok htake
        cases htake
        exact ⟨datum, rfl⟩
  obtain ⟨datum, hgiven⟩ := hr'
  intro g hg
  rw [hgiven] at hg
  rcases List.mem_append.mp hg with hg | hg
  · exact h g hg
  · obtain rfl := List.mem_singleton.mp hg
    exact hnew.imp_right fun ⟨hmem, hstand⟩ => ⟨f, hmem, rfl, hstand⟩

theorem Sourced.settle (h : r.Sourced v) (hsettle : r.settle = .ok r') : r'.Sourced v := by
  rw [Reading.settle] at hsettle
  split at hsettle
  · cases hsettle
    exact h
  · cases hsettle
  · exact Sourced.take (r := { r with pending := .nothing }) h (.inl rfl) hsettle

theorem Sourced.flag (h : r.Sourced v) (hflag : r.flag f = .ok r') : r'.Sourced v := by
  obtain ⟨r₁, hsettle, hflag⟩ := of_bind_ok hflag
  have h₁ := h.settle hsettle
  split at hflag
  · cases hflag
  · cases hflag
  · exact h₁.take (.inl rfl) hflag

theorem Sourced.name (h : r.Sourced v) {word : String} {value : Option String}
    (hname : r.name v word value = .ok r') : r'.Sourced v := by
  rw [Reading.name] at hname
  split at hname
  · cases hname
  · split at hname
    · cases hname
    · exact h.flag hname
    · obtain ⟨r₁, hsettle, htake⟩ := of_bind_ok hname
      exact (h.settle hsettle).take (.inl rfl) htake
    · obtain ⟨r₁, hsettle, hpending⟩ := of_bind_ok hname
      cases hpending
      exact (h.settle hsettle).of_given rfl

theorem Sourced.letters {cs : List Char} (h : r.Sourced v)
    (hletters : letters v cs r = .ok r') : r'.Sourced v := by
  induction cs generalizing r with
  | nil =>
    cases hletters
    exact h
  | cons c cs ih =>
    rw [Reading.letters] at hletters
    split at hletters
    · cases hletters
    · obtain ⟨r₁, hflag, hrest⟩ := of_bind_ok hletters
      exact ih (h.flag hflag) hrest

theorem Sourced.place (h : r.Sourced v) {s : String} (hplace : r.place v s = .ok r') :
    r'.Sourced v := by
  rw [Reading.place] at hplace
  split at hplace
  · split at hplace
    · cases hplace
    · obtain ⟨r₁, hsettle, hpending⟩ := of_bind_ok hplace
      cases hpending
      exact (h.settle hsettle).of_given rfl
  · split at hplace <;> cases hplace

/-- One more argument is read. -/
theorem Sourced.next (h : r.Sourced v) {s : String} (hnext : r.next v s = .ok r') :
    r'.Sourced v := by
  rw [Reading.next] at hnext
  split at hnext
  · exact h.place hnext
  · split at hnext
    · cases hnext
      exact h
    · exact h.name hnext
    · exact h.letters hnext
    · split at hnext
      · cases hnext
        exact h
      · exact h.place hnext

theorem Sourced.fillIn {forms : List Form} (h : r.Sourced v) (hforms : ∀ f ∈ forms, f ∈ v.forms)
    (hfill : fillIn bindings forms r = .ok r') : r'.Sourced v := by
  induction forms generalizing r with
  | nil =>
    cases hfill
    exact h
  | cons f rest ih =>
    have hrest : ∀ f ∈ rest, f ∈ v.forms := fun g hg => hforms g (List.mem_cons_of_mem _ hg)
    rw [Reading.fillIn] at hfill
    split at hfill
    · rename_i value hvalue
      split at hfill
      -- a value that is written counts before the variable
      · exact ih h hrest hfill
      · obtain ⟨r₁, htake, hfill⟩ := of_bind_ok hfill
        have hstand : f.standIn.isSome = true := by
          obtain ⟨x, hx, -⟩ := Option.bind_eq_some_iff.mp hvalue
          rw [hx]
          rfl
        exact ih (h.take (.inr ⟨hforms f List.mem_cons_self, hstand⟩) htake) hrest hfill
    · exact ih h hrest hfill

/-- At the end of a word its variables are taken in. -/
theorem Sourced.finish (h : r.Sourced v) {follows : Bool} {l : Level}
    (hfinish : r.finish bindings v follows = .ok l) : l.verb = v ∧ ∀ g ∈ l.given, g.Sourced v := by
  obtain ⟨r₁, hsettle, hfinish⟩ := of_bind_ok hfinish
  obtain ⟨r₂, hfill, hfinish⟩ := of_bind_ok hfinish
  have h₂ := (h.settle hsettle).fillIn (fun _ hf => hf) hfill
  -- the checks that follow only refuse
  by_cases hmissing : (v.needsVerb && !follows) = true
  · rw [if_pos hmissing] at hfinish
    cases hfinish
  rw [if_neg hmissing] at hfinish
  dsimp only at hfinish
  split at hfinish
  · cases hfinish
  split at hfinish
  · cases hfinish
    exact ⟨rfl, h₂⟩
  · cases hfinish

end Reading

/-- At every level a value is written, or the word of the level lets a variable stand in for it. -/
theorem sourced_of_readLevels {bindings : Variables} {v : Verb} {arguments : List String}
    {r : Reading} (h : r.Sourced v) {levels : List Level}
    (hread : readLevels bindings v arguments r = .ok levels) :
    ∀ l ∈ levels, ∀ g ∈ l.given, g.Sourced l.verb := by
  -- on the arguments; a word that chooses a command begins a level of its own
  induction arguments generalizing v r levels with
  | nil =>
    obtain ⟨l, hfinish, hlevels⟩ := of_bind_ok hread
    cases hlevels
    obtain ⟨rfl, hl⟩ := h.finish hfinish
    intro l' hl'
    obtain rfl := List.mem_singleton.mp hl'
    exact hl
  | cons s rest ih =>
    rw [readLevels] at hread
    split at hread
    · split at hread
      · rename_i below hbelow
        obtain ⟨lower, hlower, hread⟩ := of_bind_ok hread
        obtain ⟨l, hfinish, hlevels⟩ := of_bind_ok hread
        cases hlevels
        obtain ⟨rfl, hl⟩ := h.finish hfinish
        intro l' hl'
        rcases List.mem_cons.mp hl' with rfl | hl'
        · exact hl
        · exact ih (fun g hg => absurd hg List.not_mem_nil) hlower l' hl'
      · cases hread
    · obtain ⟨r₁, hnext, hread⟩ := of_bind_ok hread
      exact ih (h.next hnext) hread

/-- Behind the command that changes the settings a catalog URL is always written: the variable for
it counts at the words before. -/
theorem written_of_changeSettings {bindings : Variables} {arguments : List String}
    {levels : List Level} (hread : readLevels bindings .program arguments {} = .ok levels)
    {l : Level} (hl : l ∈ levels) (hverb : l.verb = .changeSettings) {g : Given}
    (hg : l.find? .catalogUrl = some g) : g.origin = .written := by
  have hsourced := sourced_of_readLevels (fun g hg => absurd hg List.not_mem_nil) hread l hl g
    (List.mem_of_find?_eq_some hg)
  have hargument : g.argument = .catalogUrl := by simpa using List.find?_some hg
  rw [hverb] at hsourced
  have hforms : ∀ f ∈ Verb.changeSettings.forms, f.argument = .catalogUrl →
      f.standIn.isSome = false := by decide
  rcases hsourced with hwritten | ⟨f, hf, hfg, hstand⟩
  · exact hwritten
  · rw [hforms f hf (hfg.trans hargument)] at hstand
    cases hstand

end PluginResolution.Command
