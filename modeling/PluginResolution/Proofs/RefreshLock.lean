import PluginResolution.Proofs.SingleFlight

namespace PluginResolution.Catalog

structure Lock where
  holder : Option Nat := none
  waiting : List Nat := []
  deriving DecidableEq, Repr

namespace Lock

def acquire (l : Lock) (id : Nat) : Lock :=
  match l.holder with
  | none => { l with holder := some id }
  | some _ => { l with waiting := l.waiting ++ [id] }

def drop (l : Lock) (id : Nat) : Lock :=
  if l.holder = some id then ⟨l.waiting.head?, l.waiting.tail⟩
  else { l with waiting := l.waiting.filter (· ≠ id) }

def ofQueue (ids : List Nat) : Lock :=
  ⟨ids.head?, ids.tail⟩

theorem acquire_ofQueue (ids : List Nat) (id : Nat) :
    (ofQueue ids).acquire id = ofQueue (ids ++ [id]) := by
  cases ids with
  | nil => rfl
  | cons a rest => rfl

theorem drop_ofQueue {ids : List Nat} (h : ids.Nodup) (id : Nat) :
    (ofQueue ids).drop id = ofQueue (ids.filter (· ≠ id)) := by
  cases ids with
  | nil => rfl
  | cons a rest =>
    obtain ⟨hnot, -⟩ := List.nodup_cons.mp h
    by_cases ha : a = id
    -- the one behind it is next, as it stands in the queue once
    · subst ha
      have hrest : rest.filter (· ≠ a) = rest := by
        apply List.filter_eq_self.mpr
        intro x hx
        have hne : x ≠ a := fun he => hnot (he ▸ hx)
        simpa using hne
      have hdrop : (ofQueue (a :: rest)).drop a = ofQueue rest := if_pos rfl
      rw [hdrop, List.filter_cons_of_neg (by simp), hrest]
    · have hholder : (ofQueue (a :: rest)).holder ≠ some id := by
        intro he
        exact ha (Option.some.inj he)
      rw [drop, if_neg hholder, List.filter_cons_of_pos (by simpa using ha)]
      rfl

end Lock

namespace Client

def Moment.turnLock (line : String) (l : Lock) (m : Moment) : Lock :=
  match m.event, m.outcome with
  | .enter id given _, .waits => match HostVersion.parse given with
    | .ok host => if host.line = line then l.acquire id else l
    | .error _ => l
  | .resume id, .ended _ => l.drop id
  | .answer id _, .ended _ => l.drop id
  | .cancel id, _ => l.drop id
  | _, _ => l

def lockAfter (line : String) (past : List Moment) : Lock :=
  past.foldl (Moment.turnLock line) {}

theorem lockAfter_append (line : String) (past : List Moment) (m : Moment) :
    lockAfter line (past ++ [m]) = m.turnLock line (lockAfter line past) := by
  rw [lockAfter, lockAfter, List.foldl_append, List.foldl_cons, List.foldl_nil]

theorem nodup_lineIds {calls : List Call} (h : Orderly calls) (line : String) :
    (lineIds line calls).Nodup :=
  h.distinct.sublist (List.filter_sublist.map _)

/-- A step turns the lock as it moves the calls. -/
theorem turnLock_step {s s' : Client} {e : Event} {o : Outcome} (ho : Orderly s.calls)
    (hr : Rule s e o s') (line : String) :
    Moment.turnLock line (.ofQueue (lineIds line s.calls)) ⟨e, s.now, o⟩ =
      .ofQueue (lineIds line s'.calls) := by
  have hleft (c : Call) : Lock.drop (.ofQueue (lineIds line s.calls)) c.id =
      .ofQueue (lineIds line (s.leave c).calls) := by
    rw [Lock.drop_ofQueue (nodup_lineIds ho line), lineIds_leave]
  cases hr with
  | refuse => rfl
  | hit => rfl
  | @join id given host forced fresh read miss =>
    rw [lineIds_join, Moment.turnLock]
    simp only [read]
    by_cases hl : host.line = line
    · rw [if_pos hl, if_pos hl, Lock.acquire_ofQueue]
    · rw [if_neg hl, if_neg hl, List.append_nil]
  | @share c seen catalog there turn newer => exact hleft c
  | @stop c seen f there turn none_newer nowhere => exact hleft c
  | depart there turn none_newer somewhere => rw [lineIds_setPhase]; rfl
  | @fail c answer f there turn useless => exact hleft c
  | @keep c body d there turn read => exact hleft c
  | @cancel c there => exact hleft c
  | pass => rfl

/-- So after any run the lock is held by the first call of its line, and the others wait for it in
the order in which they began. -/
theorem Run.lock {misconfigured : Option PluginDirectory.Error} {ttl now : Nat} {s : Client}
    {past : List Moment} (h : Run (unused misconfigured ttl now) past s) (line : String) :
    lockAfter line past = .ofQueue (lineIds line s.calls) := by
  induction h with
  | start => rfl
  | @next past s s' e o before step ih =>
    rw [lockAfter_append, ih]
    exact turnLock_step before.recalls.calls (rule_of_step step) line

end Client

end PluginResolution.Catalog
