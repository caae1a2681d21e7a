import PluginResolution.Fetch.Retry
import PluginResolution.FileTree.Basic
import PluginResolution.Url.Reader

namespace PluginResolution.Fetch

open PluginDirectory (Error)

structure Response where
  status : Nat
  location : Option String := none
  /-- The body, unless it breaks off. -/
  body : Option String := some ""
  deriving DecidableEq, Repr

structure World (m : Type → Type) where
  /-- Asks the host of a URL once; the message says why nothing comes back. -/
  send : Url → m (Except String Response)
  wait : Nat → m Unit
  /-- The units of time in a second; delays are counted in them. -/
  ticks : Nat := 1000
  fileText : String → m (Except FileTree.Fault String)

def isRequested (u : Url) : Bool :=
  u.scheme = "http" || u.scheme = "https"

def Response.next? (r : Response) (u : Url) : Option Url :=
  if [301, 302, 303, 307, 308].contains r.status then
    r.location.bind fun text => (u.resolve text).toOption
  else none

/-- Makes one request, which is sent on fewer than `moves` times. -/
def request {m : Type → Type} [Monad m] (w : World m) (u : Url) : Nat → m Outcome
  | 0 => return .lost "the request is sent on too often"
  | moves + 1 => do
    match ← w.send u with
    | .error detail => return .lost detail
    | .ok r =>
      match r.next? u with
      | none => return .answered r.status r.body
      | some next =>
        if isRequested next then request w next moves
        else return .lost "the request is sent on to another scheme"

def readLocal {m : Type → Type} [Monad m] (w : World m) (u : Url) : m (Except Error String) :=
  match u.filePath? with
  | none => return .error (.unsupportedScheme u.text)
  | some path => do
    match ← w.fileText path with
    | .ok text => return .ok text
    | .error fault => return .error (.unreadable path fault.message)

def fetch {m : Type → Type} [Monad m] (w : World m) (a : Access) (u : Url) :
    m (Except Error String) :=
  if u.scheme = "file" then readLocal w u
  else if isRequested u then
    retry (request w u 11) w.wait u.text (delay w.ticks a.baseDelay) a.maxRetries
  else return .error (.unsupportedScheme u.scheme)

def Access.parsed (a : Access) : Except Error Url :=
  match Url.parse a.url with
  | .ok u => .ok u
  | .error fault => .error (.invalidUrl fault.message)

def Access.fetch {m : Type → Type} [Monad m] (w : World m) (a : Access) :
    m (Except Error String) :=
  match a.parsed with
  | .ok u => Fetch.fetch w a u
  | .error e => return .error e

end PluginResolution.Fetch
