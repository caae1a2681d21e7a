import PluginResolution.Command.Arguments
import PluginResolution.Text.Blank

/-!
Files of variables: lines with a name, an equals sign and a value, which may be quoted, may hold the
values of other variables and may have a comment behind it. Variables that are set already stay; a
line that cannot be read ends the file.
-/
namespace PluginResolution.Command.VariableFile

/-! ## Lines -/

inductive Place where
  | plain
  /-- Behind a blank, where a comment may begin. -/
  | blank
  | escaped
  | single
  | singleEscaped
  | double
  | doubleEscaped
  deriving DecidableEq, Repr

def Place.open? (c : Char) : Place :=
  if c = '\\' then .escaped else if c = '"' then .double else if c = '\'' then .single else .plain

/-- The place behind a character; `none` where a comment begins. -/
def Place.next : Place → Char → Option Place
  | .blank, c => if c = '#' then none else some (.open? c)
  | .plain, c =>
    some (if Text.isBlank c && c ≠ '\n' && c ≠ '\r' then .blank else .open? c)
  | .escaped, _ => some .plain
  | .double, c => some (if c = '\\' then .doubleEscaped else if c = '"' then .plain else .double)
  | .doubleEscaped, _ => some .double
  | .single, c => some (if c = '\\' then .singleEscaped else if c = '\'' then .plain else .single)
  | .singleEscaped, _ => some .single

def scan : Place → List Char → List Char → Place ⊕ List Char
  | p, [], _ => .inl p
  | p, c :: r, front =>
    match p.next c with
    | some p => scan p r (front ++ [c])
    | none => .inr front

/-- The lines of a text, each with its end. -/
def rawLines : List Char → List (List Char)
  | [] => []
  | '\n' :: r => ['\n'] :: rawLines r
  | c :: r =>
    match r, rawLines r with
    | [], _ => [[c]]
    | _, l :: ls => (c :: l) :: ls
    | _, [] => [[c]]

def chomp (cs : List Char) : List Char :=
  match cs.reverse with
  | '\n' :: '\r' :: r => r.reverse
  | '\n' :: r => r.reverse
  | _ => cs

/-- Lines joined where a quotation goes on; `none` in place of one that does not end. -/
def logicalLines : List Char → Place → List (List Char) → List (Option (List Char))
  | _, p, [] => if p = .plain then [] else [none]
  | front, p, l :: rest =>
    if ((front ++ l).dropWhile Text.isBlank).head? = some '#' then
      some [] :: logicalLines [] .plain rest
    else match scan p l [] with
      | .inr kept => some (front ++ kept) :: logicalLines [] .plain rest
      | .inl .plain => some (chomp (front ++ l)) :: logicalLines [] .plain rest
      | .inl p => logicalLines (front ++ l) p rest

/-! ## Values -/

/-- What the next character of a value means. The flags say whether double quotes are open. -/
inductive Mode where
  | text (quoted : Bool)
  | escape (quoted : Bool)
  | literal
  | name (quoted : Bool) (name : List Char)
  | braced (quoted : Bool) (name : List Char)
  | ended
  deriving DecidableEq, Repr

def valueOf (set file : Variables) (name : List Char) : List Char :=
  let name := String.ofList name
  (((List.lookup name set).or (List.lookup name file)).getD "").toList

def readValue (set file : Variables) : Mode → List Char → List Char → Option (List Char)
  | .text false, out, [] => some out
  | .escape false, out, [] => some out
  | .name false name, out, [] => some (out ++ valueOf set file name)
  | .ended, out, [] => some out
  | _, _, [] => none
  | .ended, out, c :: r =>
    if c = ' ' || c = '\t' then readValue set file .ended out r
    else if c = '#' then some out
    else none
  | .escape quoted, out, c :: r =>
    if c = 'n' then readValue set file (.text quoted) (out ++ ['\n']) r
    else if ['\\', '\'', '"', '$', ' '].contains c then
      readValue set file (.text quoted) (out ++ [c]) r
    else none
  | .literal, out, c :: r =>
    if c = '\'' then readValue set file (.text false) out r
    else readValue set file .literal (out ++ [c]) r
  | .name quoted name, out, c :: r =>
    if c.isAlphanum then readValue set file (.name quoted (name ++ [c])) out r
    else if c = '\x7b' && name.isEmpty then readValue set file (.braced quoted []) out r
    else
      let out := out ++ valueOf set file name
      if c = '$' then readValue set file (.name quoted []) out r
      else readValue set file (.text quoted) (out ++ [c]) r
  | .braced quoted name, out, c :: r =>
    if c = '\x7d' then readValue set file (.text quoted) (out ++ valueOf set file name) r
    else readValue set file (.braced quoted (name ++ [c])) out r
  | .text true, out, c :: r =>
    if c = '$' then readValue set file (.name true []) out r
    else if c = '"' then readValue set file (.text false) out r
    else if c = '\\' then readValue set file (.escape true) out r
    else readValue set file (.text true) (out ++ [c]) r
  | .text false, out, c :: r =>
    if c = '$' then readValue set file (.name false []) out r
    else if c = '\'' then readValue set file .literal out r
    else if c = '"' then readValue set file (.text true) out r
    else if c = '\\' then readValue set file (.escape false) out r
    else if c = ' ' || c = '\t' then readValue set file .ended out r
    else readValue set file (.text false) (out ++ [c]) r

/-! ## Names -/

def isNameStart (c : Char) : Bool :=
  c.isAlpha || c = '_'

def isNameChar (c : Char) : Bool :=
  c.isAlphanum || c = '_' || c = '.'

def readName (cs : List Char) : Option (String × List Char) :=
  if cs.head?.any isNameStart then
    some (String.ofList (cs.takeWhile isNameChar),
      (cs.dropWhile isNameChar).dropWhile Text.isBlank)
  else none

/-- The name and what follows the equals sign; the word `export` may stand in front. -/
def readFront (cs : List Char) : Option (String × List Char) := do
  match ← readName cs with
  | (name, '=' :: r) => return (name, r)
  | ("export", r) =>
    match ← readName r with
    | (name, '=' :: r) => return (name, r)
    | _ => none
  | _ => none

/-- What a line sets: nothing, if it is blank or a comment. -/
def readLine (set file : Variables) (line : List Char) : Option (Option (String × String)) := do
  let line := (Text.dropTailWhile Text.isBlank line).dropWhile Text.isBlank
  if line.isEmpty || line.head? = some '#' then return none
  let (name, rest) ← readFront line
  let rest := rest.dropWhile Text.isBlank
  if rest.isEmpty || rest.head? = some '#' then return some (name, "")
  return some (name, String.ofList (← readValue set file (.text false) [] rest))

def loadLines (set file : Variables) : List (Option (List Char)) → Variables
  | [] => set
  | none :: _ => set
  | some line :: rest =>
    match readLine set file line with
    | none => set
    | some none => loadLines set file rest
    | some (some (name, value)) =>
      let kept := if (List.lookup name set).isSome then set else (name, value) :: set
      loadLines kept ((name, value) :: file) rest

def load (set : Variables) (text : String) : Variables :=
  let cs := match text.toList with
    | '\uFEFF' :: r => r
    | cs => cs
  loadLines set [] (logicalLines [] .plain (rawLines cs))

def runs (p : Char → Bool) (text : String) : List String :=
  (List.splitOn ' ' (text.toList.map fun c => if p c then c else ' ')).map String.ofList

def names (text : String) : List String :=
  runs isNameChar text ++ runs Char.isAlphanum text

end PluginResolution.Command.VariableFile
