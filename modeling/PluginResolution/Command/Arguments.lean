import PluginResolution.Command.Grammar

/-!
Reading a command line. The arguments are read from left to right, each word that chooses a command
opening a new level. An argument is taken in when the next one begins; a variable stands in for one
that is not written.
-/
namespace PluginResolution.Command

/-- Where a value comes from; what is written outdoes a variable. -/
inductive Origin where
  | environment
  | written
  deriving DecidableEq, Repr

structure Given where
  argument : Argument
  origin : Origin
  /-- The value; a flag has none. -/
  datum : Option Datum
  deriving DecidableEq, Repr

structure Level where
  verb : Verb
  given : List Given
  deriving DecidableEq, Repr

abbrev Variables := List (String × String)

inductive Pending where
  | nothing
  | named (f : Form)
  | valued (f : Form) (value : String)
  deriving DecidableEq, Repr

structure Reading where
  given : List Given := []
  pending : Pending := .nothing
  isPlaced : Bool := false
  /-- Two hyphens have been read: no names follow. -/
  isTrailing : Bool := false
  deriving DecidableEq, Repr

namespace Reading

def has (r : Reading) (a : Argument) : Bool :=
  r.given.any (·.argument = a)

def awaits (r : Reading) : Bool :=
  match r.pending with
  | .named _ => true
  | _ => false

def take (r : Reading) (f : Form) (origin : Origin) (value : Option String) :
    Except Refusal Reading := do
  if r.has f.argument then throw .conflict
  let datum ← match f.kind, value with
    | some k, some s => (k.read s).map some
    | _, _ => pure none
  return { r with given := r.given ++ [⟨f.argument, origin, datum⟩] }

def settle (r : Reading) : Except Refusal Reading :=
  let rest := { r with pending := .nothing }
  match r.pending with
  | .nothing => .ok rest
  | .named _ => .error .missingValue
  | .valued f value => rest.take f .written (some value)

def flag (r : Reading) (f : Form) : Except Refusal Reading := do
  let r ← r.settle
  match f.argument with
  | .help => throw .helpWanted
  | .programVersion => throw .versionWanted
  | _ => r.take f .written none

def name (r : Reading) (v : Verb) (word : String) (value : Option String) :
    Except Refusal Reading := do
  match v.forms.find? (·.word = word) with
  | none => throw .unknownArgument
  | some f =>
    match f.kind, value with
    | none, some _ => throw .unwantedValue
    | none, none => r.flag f
    | some _, some s => (← r.settle).take f .written (some s)
    | some _, none => return { (← r.settle) with pending := .named f }

def letters (v : Verb) : List Char → Reading → Except Refusal Reading
  | [], r => .ok r
  | c :: rest, r => do
    match v.forms.find? fun f => f.letter = some c && f.kind.isNone with
    | none => throw .unknownArgument
    | some f => letters v rest (← r.flag f)

def place (r : Reading) (v : Verb) (s : String) : Except Refusal Reading := do
  match v.positional? with
  | some a =>
    if r.isPlaced then throw .unknownArgument
    let r ← r.settle
    return { r with pending := .valued { argument := a, kind := some .text } s, isPlaced := true }
  | none =>
    if v.verbs.isEmpty || (r.isTrailing && v.knows s) then throw .unknownArgument
    else throw .unknownCommand

def splitName (cs : List Char) : String × Option String :=
  let name := cs.takeWhile (· ≠ '=')
  match cs.drop name.length with
  | _ :: value => (String.ofList name, some (String.ofList value))
  | [] => (String.ofList name, none)

def next (r : Reading) (v : Verb) (s : String) : Except Refusal Reading :=
  if r.isTrailing then r.place v s
  else match s.toList with
    | ['-', '-'] => .ok { r with isTrailing := true }
    | '-' :: '-' :: cs => let (word, value) := splitName cs; r.name v word value
    | '-' :: c :: cs => letters v (c :: cs) r
    | _ => match r.pending with
      | .named f => .ok { r with pending := .valued f s }
      | _ => r.place v s

def fillIn (bindings : Variables) : List Form → Reading → Except Refusal Reading
  | [], r => .ok r
  | f :: rest, r => do
    match f.standIn.bind fun x => List.lookup x bindings with
    | some value =>
      if r.has f.argument then fillIn bindings rest r
      else fillIn bindings rest (← r.take f .environment (some value))
    | none => fillIn bindings rest r

/-- Ends the arguments of one word. The flag says whether a command follows. -/
def finish (r : Reading) (bindings : Variables) (v : Verb) (follows : Bool) :
    Except Refusal Level := do
  let r ← fillIn bindings v.forms (← r.settle)
  if v.needsVerb && !follows then
    throw (if r.given.isEmpty then .helpForMissingCommand else .missingCommand)
  if Verb.excluding.any fun (a, b) => r.has a && r.has b then throw .conflict
  let required := (v.forms.filter (·.isRequired)).map (·.argument) ++ v.positional?.toList
  if required.all r.has then return ⟨v, r.given⟩ else throw .missingArgument

end Reading

def helpFor (v : Verb) : List String → Refusal
  | [] => .helpWanted
  | w :: rest =>
    match v.find? w with
    | some next => helpFor next rest
    | none =>
      if w = "help" && !v.verbs.isEmpty && rest.isEmpty then .helpWanted else .unknownCommand

def readLevels (bindings : Variables) (v : Verb) :
    List String → Reading → Except Refusal (List Level)
  | [], r => do return [← r.finish bindings v false]
  | s :: rest, r => do
    if !r.isTrailing && !r.awaits && v.knows s then
      match v.find? s with
      | some below =>
        -- the command below is read to its end before this word's own arguments are judged
        let levels ← readLevels bindings below rest {}
        return (← r.finish bindings v true) :: levels
      | none => throw (helpFor v rest)
    else readLevels bindings v rest (← r.next v s)

namespace Level

def find? (l : Level) (a : Argument) : Option Given :=
  l.given.find? (·.argument = a)

def prefer (above : Option Given) (here : Option Given) : Option Given :=
  match above, here with
  -- what is written above outdoes a variable below, and nothing else does
  | some g, some h => if g.origin = .written && h.origin = .environment then some g else some h
  | some g, none => some g
  | none, h => h

/-- What counts for an argument: of a shared one the value at any level, of another one only that of
the last level. -/
def settled (levels : List Level) (a : Argument) : Option Given :=
  if a.isShared then levels.foldl (fun above l => prefer above (l.find? a)) none
  else levels.getLast?.bind (·.find? a)

end Level

end PluginResolution.Command
