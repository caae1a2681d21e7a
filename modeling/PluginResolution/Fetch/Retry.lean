import PluginResolution.Fetch.Access
import PluginResolution.PluginDirectory.Error

/-!
Requests that are repeated. A request that is lost or that the host fails to serve is made again
after a delay, as often as the access allows; the delay doubles from one repetition to the next.
-/
namespace PluginResolution.Fetch

open PluginDirectory (Error)

inductive Outcome where
  /-- The host answers; `body` is nothing when the answer breaks off. -/
  | answered (status : Nat) (body : Option String)
  | lost (detail : String)
  deriving DecidableEq, Repr

def isSuccess (status : Nat) : Bool :=
  200 ≤ status && status < 300

def isHostFault (status : Nat) : Bool :=
  500 ≤ status && status < 600

def Outcome.mayPass : Outcome → Bool
  | .answered status _ => isHostFault status
  | .lost _ => true

def Outcome.result (url : String) : Outcome → Except Error String
  | .answered status body =>
    if isSuccess status then
      match body with
      | some text => .ok text
      | none => .error (.network "the body breaks off")
    else .error (.requestFailed status url)
  | .lost detail => .error (.network detail)

/-- The longest delay, in units of time of which a second has `ticks`. -/
def longestDelay (ticks : Nat) : Nat :=
  UInt64.size * ticks - 1

/-- By how much the delay has grown before the repetition with the given number, counted from one. -/
def growth (number : Nat) : Nat :=
  min (Nat.pow 2 (number - 1)) (UInt32.size - 1)

def multiple? (ticks base factor : Nat) : Option Nat :=
  if base * factor ≤ longestDelay ticks then some (base * factor) else none

def delay (ticks base number : Nat) : Nat :=
  (multiple? ticks base (growth number)).getD (longestDelay ticks)

def waitBefore {m : Type → Type} [Monad m] (wait : Nat → m Unit) (pause : Nat → Nat) :
    Nat → m Unit
  | 0 => return ()
  | number + 1 => wait (pause (number + 1))

/-- Makes the requests with the given numbers, counted from zero, until one is not to be repeated;
`answer` is what they come to when none is left. -/
def attempts {m : Type → Type} [Monad m] (request : m Outcome) (wait : Nat → m Unit) (url : String)
    (pause : Nat → Nat) (limit : Nat) (answer : Except Error String) :
    List Nat → m (Except Error String)
  | [] => return answer
  | number :: rest => do
    waitBefore wait pause number
    let outcome ← request
    if outcome.mayPass && number < limit then
      attempts request wait url pause limit (outcome.result url) rest
    else return outcome.result url

def retry {m : Type → Type} [Monad m] (request : m Outcome) (wait : Nat → m Unit) (url : String)
    (pause : Nat → Nat) (limit : Nat) : m (Except Error String) :=
  attempts request wait url pause limit (.error (.invalidDocument "no response received"))
    (List.range (limit + 1))

end PluginResolution.Fetch
