import PluginResolution.Command.Session

namespace PluginResolution

/-- Which results a computation may have: one that only returns has no other, and a result of two in
a row is one of the second after one of the first. -/
structure Results (m : Type → Type) [Monad m] where
  may : {α : Type} → m α → α → Prop
  of_pure : ∀ {α : Type} {a b : α}, may (pure a) b → b = a
  of_bind : ∀ {α β : Type} {x : m α} {f : α → m β} {b : β},
    may (x >>= f) b → ∃ a, may x a ∧ may (f a) b

namespace Results

variable {m : Type → Type} [Monad m] {R : Results m} {σ α β : Type}

/-- The results of computations with a state that may be anything. -/
def withState (R : Results m) (κ : Type) : Results (StateT κ m) where
  may x a := ∃ k k', R.may (x.run k) (a, k')
  of_pure := by
    rintro α a b ⟨k, k', h⟩
    exact congrArg Prod.fst (R.of_pure h)
  of_bind := by
    rintro α β x f b ⟨k, k', h⟩
    obtain ⟨⟨a, k₁⟩, hx, hf⟩ := R.of_bind h
    exact ⟨a, ⟨k, k₁, hx⟩, ⟨k₁, k', hf⟩⟩

def ofId : Results Id where
  may x a := a = x.run
  of_pure h := h
  of_bind h := ⟨_, rfl, h⟩

theorem of_run_pure {a b : α} {x x' : σ} (h : R.may ((pure a : StateT σ m α).run x) (b, x')) :
    b = a ∧ x' = x := by
  have hpair := R.of_pure h
  exact ⟨congrArg Prod.fst hpair, congrArg Prod.snd hpair⟩

theorem of_run_bind {act : StateT σ m α} {f : α → StateT σ m β} {b : β} {x x'' : σ}
    (h : R.may ((act >>= f).run x) (b, x'')) :
    ∃ a x', R.may (act.run x) (a, x') ∧ R.may ((f a).run x') (b, x'') := by
  obtain ⟨⟨a, x'⟩, hact, hf⟩ := R.of_bind h
  exact ⟨a, x', hact, hf⟩

def Quiet (R : Results m) (act : StateT σ m α) : Prop :=
  ∀ x a x', R.may (act.run x) (a, x') → x' = x

theorem quiet_pure (R : Results m) (a : α) : R.Quiet (pure a : StateT σ m α) :=
  fun _ _ _ h => (of_run_pure h).2

theorem Quiet.bind {act : StateT σ m α} {f : α → StateT σ m β} (h : R.Quiet act)
    (hf : ∀ a, R.Quiet (f a)) : R.Quiet (act >>= f) := by
  intro x b x'' hb
  obtain ⟨a, x', hact, hrest⟩ := of_run_bind hb
  rw [hf a x' b x'' hrest, h x a x' hact]

end Results

variable {m : Type → Type} [Monad m] {R : Results m}

namespace Fetch

structure World.Quiet {σ : Type} (R : Results m) (w : World (StateT σ m)) : Prop where
  send : ∀ u, R.Quiet (w.send u)
  wait : ∀ n, R.Quiet (w.wait n)
  fileText : ∀ path, R.Quiet (w.fileText path)

variable {σ : Type} {w : World (StateT σ m)}

def World.empty : World (StateT σ m) where
  send _ := return .error "unreachable"
  wait _ := return ()
  fileText _ := return .error .missing

theorem quiet_empty (R : Results m) : (World.empty : World (StateT σ m)).Quiet R where
  send _ := R.quiet_pure _
  wait _ := R.quiet_pure _
  fileText _ := R.quiet_pure _

theorem quiet_request (h : w.Quiet R) (u : Url) (moves : Nat) : R.Quiet (request w u moves) := by
  -- on the moves to another URL that are left
  induction moves generalizing u with
  | zero => exact R.quiet_pure _
  | succ moves ih =>
    rw [request]
    refine (h.send u).bind fun answer => ?_
    cases answer with
    | error detail => exact R.quiet_pure _
    | ok r =>
      dsimp only
      cases r.next? u with
      | none => exact R.quiet_pure _
      | some next =>
        dsimp only
        split
        · exact ih next
        · exact R.quiet_pure _

theorem quiet_attempts (h : w.Quiet R) {ask : StateT σ m Outcome} (hask : R.Quiet ask)
    (url : String) (pause : Nat → Nat) (limit : Nat) (answer : Except PluginDirectory.Error String)
    (numbers : List Nat) : R.Quiet (attempts ask w.wait url pause limit answer numbers) := by
  -- on the requests that are left
  induction numbers generalizing answer with
  | nil => exact R.quiet_pure _
  | cons number rest ih =>
    have hwait : R.Quiet (waitBefore w.wait pause number) := by
      cases number with
      | zero => exact R.quiet_pure _
      | succ number => exact h.wait _
    rw [attempts]
    refine hwait.bind fun _ => hask.bind fun outcome => ?_
    split
    · exact ih _
    · exact R.quiet_pure _

theorem quiet_readLocal (h : w.Quiet R) (u : Url) : R.Quiet (readLocal w u) := by
  rw [readLocal]
  cases u.filePath? with
  | none => exact R.quiet_pure _
  | some path =>
    refine (h.fileText path).bind fun answer => ?_
    cases answer with
    | ok text => exact R.quiet_pure _
    | error fault => exact R.quiet_pure _

/-- Fetching the text of a directory changes nothing. -/
theorem quiet_fetch (h : w.Quiet R) (a : Access) : R.Quiet (a.fetch w) := by
  rw [Access.fetch]
  cases a.parsed with
  | error e => exact R.quiet_pure _
  | ok u =>
    dsimp only
    rw [Fetch.fetch]
    split
    · exact quiet_readLocal h u
    · split
      · exact quiet_attempts h (quiet_request h u 11) _ _ _ _ _
      · exact R.quiet_pure _

end Fetch

namespace Catalog.Client

theorem quiet_ask {σ : Type} {fetched : StateT σ m (Except PluginDirectory.Error String)}
    (h : R.Quiet fetched) (s : Client) (given : String) (forced : Bool) :
    R.Quiet (s.ask given forced fetched) := by
  rw [ask]
  -- a call ends at once, or fetches once and then ends
  split
  · exact R.quiet_pure _
  · split
    · exact R.quiet_pure _
    · exact R.quiet_pure _
    · refine h.bind fun answer => ?_
      split
      · exact R.quiet_pure _
      · exact R.quiet_pure _

end Catalog.Client

namespace Resolution

structure Sources.Quiet {σ : Type} (R : Results m) (s : Sources (StateT σ m)) : Prop where
  records : R.Quiet s.records
  catalog : ∀ given forced, R.Quiet (s.catalog given forced)
  artifactId : ∀ key, R.Quiet (s.artifactId key)

variable {σ : Type} {s : Sources (StateT σ m)}

theorem Tier.quiet_contribute (h : s.Quiet R) (t : Tier) (r : Request) (found : Coordinate) :
    R.Quiet (t.contribute s r found) := by
  cases t with
  | callerInput => exact R.quiet_pure _
  | identifierStore =>
    refine h.records.bind fun answer => ?_
    cases answer with
    | error e => exact R.quiet_pure _
    | ok records =>
      dsimp only
      cases findRecord? r.key records with
      | none => exact R.quiet_pure _
      | some record => exact R.quiet_pure _
  | catalog =>
    refine (h.catalog _ _).bind fun answer => ?_
    cases answer with
    | error e => exact R.quiet_pure _
    | ok listed =>
      dsimp only
      cases listed.find? r.key with
      | none => exact R.quiet_pure _
      | some entry => exact R.quiet_pure _
  | namingHeuristic => exact (h.artifactId r.key).bind fun guess => R.quiet_pure _

theorem quiet_ask (h : s.Quiet R) (r : Request) (ts : List Tier) (p : Progress) :
    R.Quiet (ask s r ts p) := by
  induction ts generalizing p with
  | nil => exact R.quiet_pure _
  | cons t ts ih =>
    rw [ask]
    split
    · refine (t.quiet_contribute h r p.found).bind fun answer => ?_
      cases answer with
      | error e =>
        dsimp only
        split
        · exact R.quiet_pure _
        · exact ih _
      | ok filled =>
        dsimp only
        split
        · exact R.quiet_pure _
        · exact ih _
    · exact ih p

/-- Resolving a key changes nothing. -/
theorem quiet_resolve (h : s.Quiet R) (r : Request) : R.Quiet (resolve s r) := by
  rw [resolve, resolveFrom]
  cases r.validate with
  | error fault => exact R.quiet_pure _
  | ok => exact quiet_ask h r Tier.all {}

end Resolution

namespace Command.Session

/-- The catalogs of the published directory are only asked, whatever the client has kept. -/
theorem quiet_published {w : Fetch.World (StateT FileTree m)} (h : w.Quiet R) (a : Fetch.Access)
    (given : String) (forced : Bool) :
    (R.withState Catalog.Client).Quiet (published w a given forced) := by
  rintro t result t' ⟨client, client', hmay⟩
  obtain ⟨⟨⟨result', client₁⟩, t₁⟩, hasked, hreturned⟩ := R.of_bind hmay
  have hquiet := Catalog.Client.quiet_ask (Fetch.quiet_fetch h a) client given forced
  cases R.of_pure hreturned
  exact hquiet _ _ _ hasked

end Command.Session

end PluginResolution
