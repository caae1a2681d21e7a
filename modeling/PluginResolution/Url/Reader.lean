import PluginResolution.Text.Blank
import PluginResolution.Url.Address
import PluginResolution.Url.Basic
import PluginResolution.Url.Domain

namespace PluginResolution.Url

inductive Fault where
  | noBase
  | emptyHost
  | name
  | hostCharacter
  | port
  | four
  | eight
  deriving DecidableEq, Repr

def Fault.message : Fault → String
  | .noBase => "relative URL without a base"
  | .emptyHost => "empty host"
  | .name => "invalid international domain name"
  | .hostCharacter => "invalid domain character"
  | .port => "invalid port number"
  | .four => "invalid IPv4 address"
  | .eight => "invalid IPv6 address"

/-- The text without controls and spaces at its ends, and without tabs and line ends. -/
def clean (s : String) : List Char :=
  let isEdge (c : Char) := c.toNat ≤ 0x20
  (Text.dropTailWhile isEdge (s.toList.dropWhile isEdge)).filter
    fun c => c != '\t' && c != '\n' && c != '\r'

def isSchemeChar (c : Char) : Bool :=
  c.isAlphanum || c == '+' || c == '-' || c == '.'

def splitScheme (cs : List Char) : Option (String × List Char) :=
  if cs.head?.any Char.isAlpha then
    match cs.dropWhile isSchemeChar with
    | ':' :: rest => some (String.ofList ((cs.takeWhile isSchemeChar).map Domain.lowerAscii), rest)
    | _ => none
  else none

/-- What stands before query and fragment, the query and the fragment. -/
def splitTail (cs : List Char) : List Char × Option (List Char) × Option (List Char) :=
  let front := cs.takeWhile (· ≠ '#')
  let fragment := match cs.dropWhile (· ≠ '#') with
    | _ :: rest => some rest
    | [] => none
  let query := match front.dropWhile (· ≠ '?') with
    | _ :: rest => some rest
    | [] => none
  (front.takeWhile (· ≠ '?'), query, fragment)

def withTail (u : Url) (query fragment : Option (List Char)) : Url :=
  let set := if (kindOf u.scheme).isSpecial then inSpecialQuery else inQuery
  { u with
    query := query.map fun cs => String.ofList (encode set cs)
    fragment := fragment.map fun cs => String.ofList (encode inFragment cs) }

/-! ## Hosts -/

/-- The host before a colon that is not between brackets, and what follows. -/
def splitHost : Bool → List Char → List Char × List Char
  | _, [] => ([], [])
  | inBrackets, c :: rest =>
    if c = ':' && !inBrackets then ([], c :: rest)
    else
      let (host, rest) := splitHost (c = '[' || (inBrackets && c ≠ ']')) rest
      (c :: host, rest)

def bracketed (cs : List Char) : Except Fault String :=
  match cs.reverse with
  | ']' :: inner =>
    match Address.eight? (inner.reverse.drop 1) with
    | some groups => .ok (String.ofList (['['] ++ Address.eightText groups ++ [']']))
    | none => .error .eight
  | _ => .error .eight

def readHost (cs : List Char) : Except Fault String :=
  if cs.head? = some '[' then bracketed cs
  else match Domain.ascii? (decode cs) with
    | none => .error .name
    | some name =>
      if name.isEmpty then .error .emptyHost
      else if Address.endsInNumber name then
        match Address.four? name with
        | some n => .ok (String.ofList (Address.fourText n))
        | none => .error .four
      else .ok (String.ofList name)

def readOtherHost (cs : List Char) : Except Fault String :=
  if cs.head? = some '[' then bracketed cs
  else if cs.any fun c => c == '\x00' || c == ' ' ||
      ['#', '/', ':', '<', '>', '?', '@', '[', '\\', ']', '^', '|'].contains c then
    .error .hostCharacter
  else .ok (String.ofList (encode isControl cs))

/-- The number after the colon; an empty one is none. -/
def portNumber (cs : List Char) : Except Fault (Option Nat) :=
  if cs.isEmpty then .ok none
  else match Text.digitsNatural? cs with
    | some n => if n < 65536 then .ok (some n) else .error .port
    | none => .error .port

/-! ## Paths -/

/-- The parts `.`, also with the point percent-encoded. -/
def isHere (part : List Char) : Bool :=
  [".", "%2e"].contains (String.ofList (part.map Domain.lowerAscii))

def isUp (part : List Char) : Bool :=
  ["..", ".%2e", "%2e.", "%2e%2e"].contains (String.ofList (part.map Domain.lowerAscii))

/-- The path without its last part. A part like a drive stays. -/
def goUp (path : List String) : List String :=
  match path.getLast? with
  | some last => if isLooseDrive last.toList then path else path.dropLast
  | none => path

def follow (isFile : Bool) (path : List String) : List (List Char) → List String
  | [] => path
  | part :: rest =>
    let atEnd := if rest.isEmpty then [""] else []
    if isUp part then follow isFile (goUp path ++ atEnd) rest
    else if isHere part then follow isFile (path ++ atEnd) rest
    else
      let written := encode inPath part
      let written :=
        if isFile && path.isEmpty && isLooseDrive written then [written.headD 'C', ':'] else written
      follow isFile (path ++ [String.ofList written]) rest

def cut (k : Kind) (cs : List Char) : List (List Char) :=
  List.splitOn '/' (if k.isSpecial then cs.map fun c => if c = '\\' then '/' else c else cs)

/-- The path that a text with a slash in front is. Without one there is no path, which special
schemes write as a slash. -/
def rooted (k : Kind) (cs : List Char) : List String :=
  match cut k cs with
  | [] :: part :: rest => follow (k == .file) [] (part :: rest)
  | _ => if k.isSpecial then [""] else []

/-! ## Whole URLs -/

def isSlash (k : Kind) (c : Char) : Bool :=
  c == '/' || (k.isSpecial && c == '\\')

/-- User and password before the last at sign, and what follows. -/
def splitUser (authority : List Char) : Option (List Char) × List Char :=
  let back := authority.reverse.takeWhile (· ≠ '@')
  if authority.contains '@' then
    (some (authority.take (authority.length - back.length - 1)), back.reverse)
  else (none, authority)

def afterSlashes (scheme : String) (k : Kind) (cs : List Char) : Except Fault Url := do
  let authority := cs.takeWhile fun c => !isSlash k c
  let path := cs.drop authority.length
  let (credentials, place) := splitUser authority
  -- an at sign with nothing on either side
  if credentials == some [] && place.isEmpty && (k.isSpecial || !path.isEmpty) then
    throw .emptyHost
  let userText := ((credentials.getD []).takeWhile (· ≠ ':'))
  let user := String.ofList (encode inUserinfo userText)
  let password :=
    String.ofList (encode inUserinfo ((credentials.getD []).drop (userText.length + 1)))
  let (hostText, afterHost) := splitHost false place
  let (usualPort, name) ← match k with
    | .network usual =>
      if hostText.isEmpty then throw .emptyHost
      else do pure (some usual, ← readHost hostText)
    | _ => do pure (none, ← readOtherHost hostText)
  if name.isEmpty && (afterHost.head? = some ':' || !user.isEmpty || !password.isEmpty) then
    throw .emptyHost
  -- a backslash ends the port even where it is no slash
  let portText := (afterHost.drop 1).takeWhile (· ≠ '\\')
  let beyond := (afterHost.drop 1).drop portText.length
  let port ← portNumber portText
  let path := if beyond.isEmpty then path else '/' :: beyond ++ path
  return {
    scheme, user, password
    host := some name
    port := if port = usualPort then none else port
    path := .rooted (rooted k path) }

def dropEmpty : List String → List String
  | "" :: part :: rest => dropEmpty (part :: rest)
  | path => path

/-- The file at a path on a host. This machine has no name, and a drive is always its own. -/
def fileAt (host : String) (path : List String) : Url :=
  let isOwn := host == "localhost" || path.head?.any fun part => isDrive part.toList
  { scheme := "file", host := some (if isOwn then "" else host), path := .rooted (dropEmpty path) }

def fileUrl (cs : List Char) : Except Fault Url := do
  let slash := isSlash .file
  let (slashes, rest) := (cs.take 2 |>.takeWhile slash, cs.drop 2)
  match slashes with
  | [] => return fileAt "" (rooted .file ('/' :: cs))
  | [_] => return fileAt "" (rooted .file cs)
  | _ =>
    let name := rest.takeWhile fun c => !slash c
    if isLooseDrive name then return fileAt "" (rooted .file ('/' :: rest))
    let host ← if name.isEmpty then pure "" else readHost name
    return fileAt host (rooted .file (rest.drop name.length))

def afterScheme (scheme : String) (cs : List Char) : Except Fault Url :=
  match kindOf scheme with
  | .network usual =>
    afterSlashes scheme (.network usual) (cs.dropWhile (isSlash (.network usual)))
  | .file => fileUrl cs
  | .other =>
    match cs with
    | '/' :: '/' :: rest => afterSlashes scheme .other rest
    | '/' :: _ => .ok { scheme, path := .rooted (rooted .other cs) }
    | _ => .ok { scheme, path := .rootless (String.ofList (encode isControl cs)) }

def parse (s : String) : Except Fault Url := do
  match splitScheme (clean s) with
  | none => throw .noBase
  | some (scheme, rest) =>
    let (front, query, fragment) := splitTail rest
    let u ← afterScheme scheme front
    return u.withTail query fragment

def resolvePath (base : Url) (cs : List Char) : Except Fault Url :=
  let k := kindOf base.scheme
  let here := { base with query := none, fragment := none }
  match cs with
  | [] => .ok here
  | a :: rest =>
    if isSlash k a then
      match rest with
      | b :: after =>
        if isSlash k b then afterSlashes base.scheme k
          (if a = '/' && b = '/' then after else rest.dropWhile (isSlash k))
        else .ok { here with path := .rooted (rooted k cs) }
      | [] => .ok { here with path := .rooted (rooted k cs) }
    else
      let path := match base.path with
        | .rooted parts => parts.dropLast
        | .rootless _ => []
      .ok { here with path := .rooted (follow false path (cut k cs)) }

def resolve (base : Url) (s : String) : Except Fault Url := do
  let cs := clean s
  let (scheme, rest) := match splitScheme cs with
    | some (scheme, rest) =>
      let slashes := (rest.takeWhile (isSlash (kindOf base.scheme))).length
      if scheme = base.scheme && slashes < 2 then (none, rest) else (some scheme, rest)
    | none => (none, cs)
  let (front, query, fragment) := splitTail rest
  match scheme with
  | some scheme => return (← afterScheme scheme front).withTail query fragment
  | none =>
    let u := (← resolvePath base front).withTail query fragment
    -- a bare fragment keeps the query
    return if front.isEmpty && query.isNone then { u with query := base.query } else u

end PluginResolution.Url
