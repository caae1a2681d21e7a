import PluginResolution.Fetch.Source

namespace PluginResolution.Fetch

open PluginDirectory (Error)

section Delays

variable {ticks base number number' : Nat}

end Delays

def isTransient : Error → Bool
  | .network _ => true
  | .requestFailed status _ => isHostFault status
  | _ => false

def Outcome.breaksOff : Outcome → Bool
  | .answered status none => isSuccess status
  | _ => false

section Outcomes

variable {outcome : Outcome} {url : String} {e : Error}

theorem Outcome.mayPass_of_breaksOff (h : outcome.breaksOff = true) :
    outcome.mayPass = false := by
  cases outcome with
  | lost detail => cases h
  | answered status body =>
    cases body with
    | some text => cases h
    | none =>
      rw [breaksOff, isSuccess, Bool.and_eq_true, decide_eq_true_eq, decide_eq_true_eq] at h
      have hbelow : ¬ 500 ≤ status := by omega
      rw [mayPass, isHostFault, decide_eq_false hbelow, Bool.false_and]

theorem Outcome.result_of_breaksOff (url : String) (h : outcome.breaksOff = true) :
    ∃ detail, outcome.result url = .error (.network detail) := by
  cases outcome with
  | lost detail => cases h
  | answered status body =>
    cases body with
    | some text => cases h
    | none =>
      rw [breaksOff] at h
      rw [result, if_pos h]
      exact ⟨_, rfl⟩

/-- A failure is that of the network, after a request that may be repeated or a body that breaks
off, or it is told by the status. -/
theorem Outcome.of_error (h : outcome.result url = .error e) :
    (∃ detail, e = .network detail ∧ (outcome.mayPass = true ∨ outcome.breaksOff = true)) ∨
      ∃ status, e = .requestFailed status url ∧ outcome.mayPass = isHostFault status := by
  cases outcome with
  | lost detail =>
    cases h
    exact .inl ⟨detail, rfl, .inl rfl⟩
  | answered status body =>
    rw [result.eq_def] at h
    dsimp only at h
    by_cases hsuccess : isSuccess status = true
    · rw [if_pos hsuccess] at h
      cases body with
      | some text => cases h
      | none =>
        cases h
        exact .inl ⟨_, rfl, .inr hsuccess⟩
    · rw [if_neg hsuccess] at h
      cases h
      exact .inr ⟨status, rfl, rfl⟩

theorem Outcome.of_transient (h : outcome.result url = .error e) (he : isTransient e = true) :
    outcome.mayPass = true ∨ outcome.breaksOff = true := by
  rcases of_error h with ⟨detail, -, hends⟩ | ⟨status, rfl, hpass⟩
  · exact hends
  · exact .inl (hpass.trans he)

end Outcomes

inductive Event where
  | request (u : Url)
  | wait (delay : Nat)
  deriving DecidableEq, Repr

def Event.isRequest : Event → Bool
  | .request _ => true
  | .wait _ => false

def requests (events : List Event) : Nat :=
  events.countP Event.isRequest

def Outcome.answer : Outcome → Except String Response
  | .answered status body => .ok { status, body }
  | .lost detail => .error detail

/-- A world that notes what is done to it, in which each request comes to what a script says. -/
def scripted (ticks : Nat) (script : Nat → Outcome) : World (StateM (List Event)) where
  send u events := ((script (requests events)).answer, events ++ [.request u])
  wait delay events := ((), events ++ [.wait delay])
  fileText _ events := (.error .missing, events)
  ticks := ticks

def attemptEvents (u : Url) (pause : Nat → Nat) : Nat → List Event
  | 0 => [.request u]
  | number + 1 => [.wait (pause (number + 1)), .request u]

def eventsOf (u : Url) (pause : Nat → Nat) (made : Nat) : List Event :=
  (List.range made).flatMap (attemptEvents u pause)

section Script

variable {ticks : Nat} {script : Nat → Outcome} {u : Url} {pause : Nat → Nat} {limit : Nat}

theorem eventsOf_succ (u : Url) (pause : Nat → Nat) (made : Nat) :
    eventsOf u pause (made + 1) = eventsOf u pause made ++ attemptEvents u pause made := by
  rw [eventsOf, List.range_succ, List.flatMap_append, List.flatMap_singleton, ← eventsOf]

theorem requests_eventsOf (u : Url) (pause : Nat → Nat) (made : Nat) :
    requests (eventsOf u pause made) = made := by
  induction made with
  | zero => rfl
  | succ made ih =>
    have hone : (attemptEvents u pause made).countP Event.isRequest = 1 := by
      cases made with
      | zero => rfl
      | succ made => rfl
    rw [eventsOf_succ, requests, List.countP_append, ← requests, ih, hone]

theorem request_of_answer (u : Url) (moves : Nat) (events : List Event) :
    request (scripted ticks script) u (moves + 1) events =
      (match (script (requests events)).answer with
        | .error detail => pure (.lost detail)
        | .ok r =>
          match r.next? u with
          | none => pure (.answered r.status r.body)
          | some next =>
            if isRequested next then request (scripted ticks script) next moves
            else pure (.lost "the request is sent on to another scheme") :
        StateM (List Event) Outcome) (events ++ [.request u]) :=
  rfl

theorem request_scripted (u : Url) (moves : Nat) (events : List Event) :
    (request (scripted ticks script) u (moves + 1)).run events =
      (script (requests events), events ++ [.request u]) := by
  rw [StateT.run, request_of_answer]
  -- the host sends no request on, so one answer is all there is
  cases script (requests events) with
  | lost detail => rfl
  | answered status body =>
    have hstays : Response.next? { status, body } u = none := by
      rw [Response.next?]
      split
      · rfl
      · rfl
    rw [Outcome.answer]
    dsimp only
    rw [hstays]
    rfl

/-- The request with that number is the last one: those before it may pass, and so may its own
outcome only at the limit. -/
structure IsLast (script : Nat → Outcome) (limit last : Nat) : Prop where
  le_limit : last ≤ limit
  passed : ∀ number < last, (script number).mayPass = true
  final : last < limit → (script last).mayPass = false

/-- A request with the wait before it, after the requests before. -/
theorem attempt_scripted (u : Url) (pause : Nat → Nat) (number : Nat) :
    (do waitBefore (scripted ticks script).wait pause number
        request (scripted ticks script) u 11 : StateM _ _).run (eventsOf u pause number) =
      (script number, eventsOf u pause (number + 1)) := by
  rw [StateT.run_bind, eventsOf_succ]
  -- only the first request goes without a wait
  cases number with
  | zero => exact request_scripted u 10 []
  | succ number =>
    let waited := eventsOf u pause (number + 1) ++ [.wait (pause (number + 1))]
    have hmade : requests waited = number + 1 := by
      rw [requests, List.countP_append, ← requests, requests_eventsOf]
      rfl
    have hasked : (request (scripted ticks script) u 11).run waited =
        (script (requests waited), waited ++ [.request u]) := request_scripted u 10 waited
    rw [hmade, List.append_assoc] at hasked
    exact hasked

def scriptedAttempts (ticks : Nat) (script : Nat → Outcome) (u : Url) (pause : Nat → Nat)
    (limit : Nat) (answer : Except Error String) (numbers : List Nat) :
    StateM (List Event) (Except Error String) :=
  attempts (request (scripted ticks script) u 11) (scripted ticks script).wait u.text pause limit
    answer numbers

theorem attempts_step (answer : Except Error String) (number : Nat) (rest : List Nat) :
    (scriptedAttempts ticks script u pause limit answer (number :: rest)).run
        (eventsOf u pause number) =
      if (script number).mayPass && number < limit then
        (scriptedAttempts ticks script u pause limit ((script number).result u.text) rest).run
          (eventsOf u pause (number + 1))
      else ((script number).result u.text, eventsOf u pause (number + 1)) := by
  rw [scriptedAttempts, attempts, ← bind_assoc, StateT.run_bind, attempt_scripted]
  -- what is left is the choice between another request and the answer
  change (if (script number).mayPass && number < limit then _ else _ :
    StateM (List Event) _).run _ = _
  split
  · rfl
  · rfl

theorem attempts_scripted (answer : Except Error String) (number left : Nat)
    (hlimit : number + left = limit) (hpassed : ∀ j < number, (script j).mayPass = true) :
    ∃ last, IsLast script limit last ∧
      (scriptedAttempts ticks script u pause limit answer (List.range' number (left + 1))).run
        (eventsOf u pause number) =
      ((script last).result u.text, eventsOf u pause (last + 1)) := by
  -- on the requests that are left
  induction left generalizing number answer with
  | zero =>
    -- the limit is reached, so this request is the last one whatever it comes to
    have hno : ¬ number < limit := by omega
    refine ⟨number, ⟨by omega, hpassed, fun h => absurd h hno⟩, ?_⟩
    rw [List.range'_succ, attempts_step]
    simp [hno]
  | succ left ih =>
    rw [List.range'_succ, attempts_step]
    cases hmay : (script number).mayPass with
    | false => exact ⟨number, ⟨by omega, hpassed, fun _ => hmay⟩, rfl⟩
    | true =>
      have hmore : number < limit := by omega
      have hpassed' : ∀ j < number + 1, (script j).mayPass = true := by
        intro j hj
        by_cases hbefore : j < number
        · exact hpassed j hbefore
        · rwa [show j = number by omega]
      simpa [hmore] using ih ((script number).result u.text) (number + 1) (by omega) hpassed'

/-- What a fetch does and reports is told by the request that is its last. -/
theorem fetch_scripted (ticks : Nat) (script : Nat → Outcome) (a : Access)
    (hu : isRequested u = true) :
    ∃ last, IsLast script a.maxRetries last ∧
      (fetch (scripted ticks script) a u).run [] =
        ((script last).result u.text, eventsOf u (delay ticks a.baseDelay) (last + 1)) := by
  have hfile : u.scheme ≠ "file" := by
    intro hscheme
    rw [isRequested, hscheme] at hu
    exact absurd hu (by decide)
  rw [fetch, if_neg hfile, if_pos hu, retry, List.range_eq_range']
  exact attempts_scripted _ 0 a.maxRetries (by omega) (by simp)

end Script

variable {script : Nat → Outcome} {u : Url} {limit last number : Nat}

theorem IsLast.eq_of_final (h : IsLast script limit last) (hnumber : number ≤ limit)
    (hpassed : ∀ j < number, (script j).mayPass = true)
    (hfinal : (script number).mayPass = false) : last = number := by
  rcases Nat.lt_trichotomy last number with hunder | heq | hover
  · have hpass := hpassed last hunder
    rw [h.final (by omega)] at hpass
    cases hpass
  · exact heq
  · have hpass := h.passed number hover
    rw [hfinal] at hpass
    cases hpass

theorem IsLast.lt_of_passed (h : IsLast script limit last) (hnumber : number < limit)
    (hpassed : ∀ j ≤ number, (script j).mayPass = true) : number < last := by
  apply Nat.lt_of_not_le
  intro hunder
  have hpass := hpassed last hunder
  rw [h.final (by omega)] at hpass
  cases hpass

/-- A failure that may pass is met with another request as long as one is left, unless it is a body
that breaks off: that one ends the fetch at once. -/
theorem transient_failures_repeated (ticks : Nat) (script : Nat → Outcome) (a : Access) {u : Url}
    (hu : isRequested u = true) :
    ∃ answer events, (fetch (scripted ticks script) a u).run [] = (answer, events) ∧
      (∀ e, answer = .error e → isTransient e = true →
        requests events = a.maxRetries + 1 ∨
          requests events ≤ a.maxRetries ∧ (script (requests events - 1)).breaksOff = true) ∧
      (∀ number < a.maxRetries, (∀ j ≤ number, (script j).mayPass = true) →
        number + 1 < requests events) ∧
      ∀ number ≤ a.maxRetries, (∀ j < number, (script j).mayPass = true) →
        (script number).breaksOff = true →
          requests events = number + 1 ∧ ∃ detail, answer = .error (.network detail) := by
  obtain ⟨last, hlast, hrun⟩ := fetch_scripted ticks script a hu
  refine ⟨_, _, hrun, ?_, ?_, ?_⟩
  · intro e he htransient
    rw [requests_eventsOf]
    rcases Nat.lt_or_eq_of_le hlast.le_limit with hunder | heq
    · -- below the limit only a body that breaks off ends the fetch with such a failure
      right
      refine ⟨hunder, ?_⟩
      rcases Outcome.of_transient he htransient with hpass | hbreaks
      · rw [hlast.final hunder] at hpass
        cases hpass
      · exact hbreaks
    · left
      rw [heq]
  · intro number hnumber hpassed
    rw [requests_eventsOf]
    have hover := hlast.lt_of_passed hnumber hpassed
    omega
  · intro number hnumber hpassed hbreaks
    have heq := hlast.eq_of_final hnumber hpassed (Outcome.mayPass_of_breaksOff hbreaks)
    subst heq
    exact ⟨requests_eventsOf _ _ _, Outcome.result_of_breaksOff u.text hbreaks⟩

theorem transient_failures_repeated_to_limit :
    let run := (fetch (scripted 1000 fun _ => .lost "unreachable") {} { scheme := "https" }).run []
    run.1 = .error (.network "unreachable") ∧ requests run.2 = 4 := by
  intro run
  have hlost : run.1 = .error (.network "unreachable") := rfl
  obtain ⟨answer, events, hrun, htransient, -⟩ :=
    transient_failures_repeated 1000 (fun _ => .lost "unreachable") {} (u := { scheme := "https" })
      (by decide)
  have hanswer : run = (answer, events) := hrun
  rw [hanswer] at hlost ⊢
  rcases htransient _ hlost rfl with hall | ⟨-, hbreaks⟩
  · exact ⟨hlost, hall⟩
  · cases hbreaks

/-- With three repetitions left, a body that breaks off is not asked for again. -/
theorem broken_body_not_repeated :
    (fetch (scripted 1000 fun _ => .answered 200 none) { maxRetries := 3 } { scheme := "http" }).run
        [] =
      (.error (.network "the body breaks off"), [.request { scheme := "http" }]) := by
  rfl

end PluginResolution.Fetch
