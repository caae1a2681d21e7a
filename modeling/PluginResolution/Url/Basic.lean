import PluginResolution.Text.Utf8
import PluginResolution.Url.Percent

namespace PluginResolution

inductive Url.Path where
  | rootless (text : String)
  | rooted (parts : List String)
  deriving DecidableEq, Repr

structure Url where
  scheme : String
  user : String := ""
  password : String := ""
  /-- The host; an empty one is written with nothing between the slashes. -/
  host : Option String := none
  /-- The port, unless it is the usual one of the scheme. -/
  port : Option Nat := none
  path : Url.Path := .rooted []
  query : Option String := none
  fragment : Option String := none
  deriving DecidableEq, Repr

namespace Url

inductive Kind where
  | network (usualPort : Nat)
  | file
  | other
  deriving DecidableEq, Repr

def kindOf (scheme : String) : Kind :=
  match scheme with
  | "http" => .network 80
  | "https" => .network 443
  | "ws" => .network 80
  | "wss" => .network 443
  | "ftp" => .network 21
  | "file" => .file
  | _ => .other

/-- Schemes in which a backslash is a slash and the path is never empty. -/
def Kind.isSpecial : Kind → Bool
  | .other => false
  | _ => true

def Path.text : Path → String
  | .rootless text => text
  | .rooted parts => String.join (parts.map ("/" ++ ·))

def credentials (u : Url) : String :=
  if u.user.isEmpty && u.password.isEmpty then ""
  else u.user ++ (if u.password.isEmpty then "" else ":" ++ u.password) ++ "@"

/-- What stands between scheme and path. Without a host a path that starts with two slashes must not
be taken for one. -/
def authority (u : Url) : String :=
  match u.host with
  | some host =>
    "//" ++ u.credentials ++ host ++ (match u.port with
      | some port => ":" ++ toString port
      | none => "")
  | none =>
    match u.path with
    | .rooted ("" :: _ :: _) => "/."
    | _ => ""

def target (u : Url) : String :=
  u.path.text ++ (match u.query with
    | some query => "?" ++ query
    | none => "")

def text (u : Url) : String :=
  u.scheme ++ ":" ++ u.authority ++ u.target ++ (match u.fragment with
    | some fragment => "#" ++ fragment
    | none => "")

def isDrive (part : List Char) : Bool :=
  match part with
  | [c, ':'] => c.isAlpha
  | _ => false

def isLooseDrive (part : List Char) : Bool :=
  match part with
  | [c, d] => c.isAlpha && (d == ':' || d == '|')
  | _ => false

def filePath? (u : Url) : Option String :=
  match u.host, u.path with
  | some host, .rooted parts =>
    if !host.isEmpty then none
    else
      let path := String.join (parts.map fun p => "/" ++ Text.decodeUtf8 (decode p.toList))
      let tail := (path.toList.reverse.take 2).reverse
      some (if 2 < path.length && isLooseDrive tail then path ++ "/" else path)
  | _, _ => none

end Url

end PluginResolution
