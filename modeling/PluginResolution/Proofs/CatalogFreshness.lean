import PluginResolution.Proofs.ClientHistory

namespace PluginResolution.Catalog.Client

/-- A catalog that a call for `host` may end with. A fetch brought it in the moment `source`. That
was after the call had entered, or so shortly before an unforced call that the copy was fresh. -/
structure Provenance (ttl : Nat) (host : HostVersion) (forced : Bool) (catalog : Catalog)
    (earlier : List Moment) (entry : Moment) (during : List Moment) (source : Moment) : Prop where
  brought : source.Brought host catalog
  line : catalog.line = host.line
  recent : source ∈ during ∨
    source ∈ earlier ∧ during = [] ∧ forced = false ∧
      source.time ≤ entry.time ∧ entry.time < source.time + ttl

/-- What is kept was brought by a fetch, in the last moment that stored something for its line. -/
theorem Recalls.source {start s : Client} {past : List Moment} (h : Recalls start past s)
    {line : String} {k : Kept} (hk : s.cache.find? line = some k) :
    ∃ m, (stores line past).getLast? = some m ∧ m.time = k.storedAt ∧
      k.count = (stores line past).length ∧ k.catalog.line = line ∧
      ∀ host : HostVersion, host.line = line → m.Brought host k.catalog := by
  rw [h.kept line] at hk
  -- whoever fetched it, a catalog is made for the line
  obtain ⟨m, hlast, hm, htime, hcount⟩ := keptAfter_some hk
  obtain ⟨hmem, catalog, hc, hline⟩ := mem_stores (List.mem_of_getLast? hlast)
  rw [hm] at hc
  cases hc
  obtain ⟨host', hb⟩ := h.brought m hmem _ hm
  exact ⟨m, hlast, htime, hcount, hline, fun host hl => hb.of_line (hline.trans hl.symm)⟩

/-- A fresh copy was stored less than its time to live ago. -/
theorem Recalls.fresh {start s : Client} {past : List Moment} (h : Recalls start past s)
    {host : HostVersion} {catalog : Catalog}
    (hf : s.cache.fresh? s.now host.line = some catalog) :
    ∃ m ∈ past, m.Brought host catalog ∧ catalog.line = host.line ∧ m.time ≤ s.now ∧
      s.now < m.time + start.cache.ttl := by
  obtain ⟨k, hk, rfl⟩ := Option.map_eq_some_iff.mp hf
  obtain ⟨hk, hage⟩ := Option.filter_eq_some_iff.mp hk
  obtain ⟨m, hlast, htime, -, hline, hb⟩ := h.source hk
  have hmem : m ∈ past := (mem_stores (List.mem_of_getLast? hlast)).1
  have hnow : m.time ≤ s.now := h.clock m hmem
  have hage : s.now - k.storedAt < s.cache.ttl := by simpa using hage
  rw [h.ttl, ← htime] at hage
  exact ⟨m, hmem, hb host rfl, hline, hnow, by omega⟩

/-- A newer copy than the call has seen was stored since it entered. -/
theorem Recalls.newer {start s : Client} {past : List Moment} (h : Recalls start past s)
    {c : Call} {seen : Nat} (hp : c.phase.seen? = some seen) {catalog : Catalog}
    (hn : s.cache.newer? c.line seen = some catalog) {given : String} {forced : Bool}
    {earlier : List Moment} {entry : Moment} {during : List Moment}
    (hent : Entered past c.id given forced earlier entry during)
    (hseen : ∀ n, c.phase.seen? = some n → n = (stores c.line earlier).length) :
    ∃ m ∈ during, m.Brought c.host catalog ∧ catalog.line = c.host.line := by
  obtain ⟨k, hk, rfl⟩ := Option.map_eq_some_iff.mp hn
  obtain ⟨hk, hcount⟩ := Option.filter_eq_some_iff.mp hk
  obtain ⟨m, hlast, -, hlen, hline, hb⟩ := h.source hk
  have hsplit : stores c.line past = stores c.line earlier ++ stores c.line during := by
    have hentry := stores_of_none (stored_enter hent.entry) c.line
    rw [hent.past, stores_append, ← List.singleton_append, stores_append, hentry, List.nil_append]
  -- more was stored than before the entry, so the last store is one of those since then
  have hmore : stores c.line during ≠ [] := by
    intro hnil
    have hlt : seen < k.count := by simpa using hcount
    rw [hlen, hsplit, hnil, List.append_nil, hseen seen hp] at hlt
    exact Nat.lt_irrefl _ hlt
  rw [hsplit, List.getLast?_append_of_ne_nil _ hmore] at hlast
  exact ⟨m, (mem_stores (List.mem_of_getLast? hlast)).1, hb c.host rfl, hline⟩

/-- Whatever the calls, the order of their steps and the answers to the fetches: a call that ends
with a catalog ends with what a fetch brought, and with nothing that is too old for it. A call that
has fetched ends with what its own fetch has brought. -/
theorem served_catalog_provenance {misconfigured : Option PluginDirectory.Error} {ttl now : Nat}
    {past later : List Moment} {m : Moment} {s : Client} {catalog : Catalog}
    (run : Run (unused misconfigured ttl now) (past ++ m :: later) s)
    (served : m.outcome = .ended (.ok catalog)) :
    ∃ id given forced host earlier entry during source,
      m.event.call? = some id ∧
      Entered (past ++ [m]) id given forced earlier entry during ∧
      HostVersion.parse given = .ok host ∧
      Provenance ttl host forced catalog earlier entry during source ∧
      ∀ answer, m.event = .answer id answer → source = m := by
  have hrun : past ++ m :: later = (past ++ [m]) ++ later := by simp
  obtain ⟨s', hm⟩ := (hrun ▸ run).of_append
  obtain ⟨s, hpast, htime, hr⟩ := hm.last
  have hrec := hpast.recalls
  obtain ⟨event, time, outcome⟩ := m
  simp only at served htime hr
  subst served htime
  -- a call ends with a catalog in one of three ways
  cases hr with
  | @hit id given host _ fresh read kept =>
    obtain ⟨source, hmem, hb, hline, hle, hlt⟩ := hrec.fresh kept
    exact ⟨id, given, false, host, past, _, [], source, rfl, Entered.now past rfl, read,
      ⟨hb, hline, .inr ⟨hmem, rfl, rfl, hle, hlt⟩⟩, fun _ he => by cases he⟩
  | @share c seen _ there turn newer =>
    have hc := (find_mem there).1
    obtain ⟨given, earlier, entry, during, hent, hp, hseen⟩ := hrec.began c hc
    obtain ⟨source, hmem, hb, hline⟩ := hrec.newer (by rw [turn]; rfl) newer hent hseen
    let m : Moment := ⟨.resume c.id, s.now, .ended (.ok catalog)⟩
    have hext := hent.extend (m := m) fun _ _ he => by cases he
    have hrecent : source ∈ during ++ [m] := List.mem_append_left _ hmem
    exact ⟨c.id, given, c.forced, c.host, earlier, entry, _, source, rfl, hext, hp,
      ⟨hb, hline, .inl hrecent⟩, fun _ he => by cases he⟩
  | @keep c body d there turn read =>
    have hc := (find_mem there).1
    obtain ⟨given, earlier, entry, during, hent, hp, hseen⟩ := hrec.began c hc
    -- its own fetch has just brought the catalog
    let m : Moment := ⟨.answer c.id (.ok body), s.now, .ended (.ok (d.catalogFor c.host))⟩
    have hext := hent.extend (m := m) fun _ _ he => by cases he
    have hb : m.Brought c.host (d.catalogFor c.host) := ⟨c.id, body, d, rfl, rfl, read, rfl⟩
    have hrecent : m ∈ during ++ [m] := List.mem_append_right _ (List.mem_singleton_self m)
    exact ⟨c.id, given, c.forced, c.host, earlier, entry, _, m, rfl, hext, hp,
      ⟨hb, rfl, .inl hrecent⟩, fun _ _ => rfl⟩

/-- A forced call fetches. Five milliseconds later one for another host of the line gets the copy. -/
theorem served_catalog_provenance_of_fresh_copy :
    ∃ past s, Run (unused none 10 0)
        (past ++ [⟨.enter 1 "0.24.9" false, 5, .ended (.ok ⟨"0.24", [⟨"a", none, {}⟩]⟩)⟩]) s ∧
      ∃ id given forced host earlier entry during source,
        Entered (past ++ [⟨.enter 1 "0.24.9" false, 5, .ended (.ok ⟨"0.24", [⟨"a", none, {}⟩]⟩)⟩]) id
          given forced earlier entry during ∧
        HostVersion.parse given = .ok host ∧
        Provenance 10 host forced ⟨"0.24", [⟨"a", none, {}⟩]⟩ earlier entry during source := by
  let host : HostVersion := ⟨"0.24.1", 0, 24⟩
  let catalog : Catalog := ⟨"0.24", [⟨"a", none, {}⟩]⟩
  let s₁ : Client := { unused none 10 0 with calls := [⟨0, host, true, .admitted 0⟩] }
  let s₂ : Client := { unused none 10 0 with calls := [⟨0, host, true, .fetching⟩] }
  let s₃ : Client := { cache := { ttl := 10, kept := [("0.24", ⟨catalog, 0, 1⟩)] } }
  have read : PluginDirectory.parse "a:" = .ok [{ key := "a" }] := by decide +kernel
  have entered : (unused none 10 0).step (.enter 0 "0.24.1" true) = some (.waits, s₁) := rfl
  have departed : s₁.step (.resume 0) = some (.fetches, s₂) := rfl
  have answered : s₂.step (.answer 0 (.ok "a:")) = some (.ended (.ok catalog), s₃) := by
    have hf : s₂.finish ⟨0, host, true, .fetching⟩ (.ok "a:") = (.ended (.ok catalog), s₃) := by
      have made : PluginDirectory.catalogFor [{ key := "a" }] host = catalog := by decide +kernel
      simp only [finish, Except.bind, read]
      rw [made]
      rfl
    exact congrArg some hf
  have passed : s₃.step (.pass 5) = some (.waits, { s₃ with now := 5 }) := rfl
  have hit : Client.step { s₃ with now := 5 } (.enter 1 "0.24.9" false) =
      some (.ended (.ok catalog), { s₃ with now := 5 }) := rfl
  have run := ((((Run.start.next entered).next departed).next answered).next passed).next hit
  obtain ⟨id, given, forced, host, earlier, entry, during, source, -, hent, hp, hfrom, -⟩ :=
    served_catalog_provenance run rfl
  exact ⟨_, _, run, id, given, forced, host, earlier, entry, during, source, hent, hp, hfrom⟩

end PluginResolution.Catalog.Client
