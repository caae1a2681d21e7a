namespace PluginResolution.Path

/-- The parts between the slashes, empty ones included. -/
def segments (path : String) : List String :=
  (List.splitOn '/' path.toList).map String.ofList

def ofParts (parts : List String) : String :=
  "/" ++ "/".intercalate parts

def upwards (parts : List String) : List (List String) :=
  (List.range (parts.length + 1)).reverse.map parts.take

def isAbsolute (path : String) : Bool :=
  path.toList.head? = some '/'

/-- The second path below the first, unless it is absolute. -/
def join (base path : String) : String :=
  if isAbsolute path then path
  else if base.isEmpty || base.toList.getLast? = some '/' then base ++ path
  else base ++ "/" ++ path

def endsInDots (path : String) : Bool :=
  ((segments path).filter (· ≠ "")).getLast?.any fun s => s = "." || s = ".."

/-- Drops slashes and parts `.` from the end of a reversed path, but neither the first slash nor a
first part. -/
def trimTail : List Char → List Char
  | '/' :: c :: r => trimTail (c :: r)
  | '.' :: '/' :: c :: r => trimTail (c :: r)
  | ['.', '/'] => ['/']
  | cs => cs

def parent? (path : String) : Option String :=
  let tail := trimTail path.toList.reverse
  let dir := tail.dropWhile (· ≠ '/')
  if tail.isEmpty || tail == ['/'] then none
  else some (String.ofList (trimTail dir).reverse)

/-- The last part of the path, unless it leads upwards or there is none. -/
def name? (path : String) : Option String :=
  let name := ((trimTail path.toList.reverse).takeWhile (· ≠ '/')).reverse
  if name.isEmpty || name == ['.'] || name == ['.', '.'] then none
  else some (String.ofList name)

/-- A name without its last point and what follows it; a point in front is kept. -/
def stem (name : List Char) : List Char :=
  match name.reverse.dropWhile (· ≠ '.') with
  | '.' :: c :: r => (c :: r).reverse
  | _ => name

def withEnding (path ending : String) : String :=
  match name? path with
  | none => path
  | some name =>
    let front := (trimTail path.toList.reverse).drop name.length
    String.ofList (front.reverse ++ stem name.toList) ++ "." ++ ending

end PluginResolution.Path
