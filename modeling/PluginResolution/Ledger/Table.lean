import PluginResolution.Ledger.Record
import PluginResolution.Text.Blank

namespace PluginResolution.Ledger

structure Table where
  rows : List Record := []
  /-- The fields whose values differ from row to row, the one declared last first. -/
  distinct : List String := []
  deriving DecidableEq, Repr

def databaseFailure (code : Nat) (detail : String) : String :=
  "error returned from database: (code: " ++ toString code ++ ") " ++ detail

def Error.repeated (field : String) : Error :=
  .constraint (databaseFailure 2067
    ("UNIQUE constraint failed: plugin_identifiers." ++ field))

def Record.value? (r : Record) (field : String) : Option String :=
  if field = "plugin_key" then some r.key else (r.fields.lookup field).join

namespace Table

def insertByKey (r : Record) : List Record → List Record
  | [] => [r]
  | s :: rest => if r.key < s.key then r :: s :: rest else s :: insertByKey r rest

def list (t : Table) : List Record :=
  t.rows.foldr insertByKey []

def find? (t : Table) (key : String) : Option Record :=
  t.rows.find? (·.key = key)

def get (t : Table) (key : String) : Except Error Record :=
  match t.find? key with
  | some r => .ok r
  | none => .error (.missing key)

def clash (field : String) (r s : Record) : Bool :=
  (r.value? field).isSome && r.value? field == s.value? field

/-- The first field in which the record would repeat the value of a row with another key. -/
def repeated? (t : Table) (r : Record) : Option String :=
  t.distinct.find? fun field => t.rows.any fun s => s.key ≠ r.key && clash field r s

def put (t : Table) (r : Record) : Table :=
  if t.rows.any (·.key = r.key) then
    { t with rows := t.rows.map fun s => if s.key = r.key then r else s }
  else { t with rows := t.rows ++ [r] }

def upsert (t : Table) (r : Record) : Except Error Table :=
  if Text.isBlankText r.key then .error .blankKey
  else match t.repeated? r with
    | some field => .error (.repeated field)
    | none => .ok (t.put r)

def remove (t : Table) (key : String) : Except Error Table :=
  if t.rows.any (·.key = key) then
    .ok { t with rows := t.rows.filter (·.key ≠ key) }
  else .error (.missing key)

def isDistinct (field : String) : List Record → Bool
  | [] => true
  | r :: rest => !rest.any (clash field r) && isDistinct field rest

def makeDistinct (t : Table) (field : String) : Option Table :=
  let known := field = "plugin_key" || (Record.fields { key := "" }).any (·.1 = field)
  if known && isDistinct field t.rows then some { t with distinct := field :: t.distinct }
  else none

end Table

end PluginResolution.Ledger
