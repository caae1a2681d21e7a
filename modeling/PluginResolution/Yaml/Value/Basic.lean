import PluginResolution.Yaml.Tree
import PluginResolution.Yaml.Value.Scalar

/-!
What YAML documents mean. A mapping gives each key once, where keys are compared by what they mean;
the order of a mapping's entries does not matter for that.
-/
namespace PluginResolution.Yaml

inductive Value where
  | scalar (s : Scalar)
  | sequence (items : List Value)
  | mapping (entries : List (Value × Value))
  | tagged (tag : String) (value : Value)

namespace Value

def localName (tag : String) : String :=
  match tag.toList with
  | '!' :: c :: r => String.ofList (c :: r)
  | _ => tag

mutual

def same : Value → Value → Bool
  | .scalar a, .scalar b => a == b
  | .sequence as, .sequence bs => sameItems as bs
  | .mapping as, .mapping bs => as.length == bs.length && sameEntries as bs
  | .tagged s a, .tagged t b => localName s == localName t && same a b
  | _, _ => false

def sameItems : List Value → List Value → Bool
  | [], [] => true
  | a :: as, b :: bs => same a b && sameItems as bs
  | _, _ => false

def sameEntries : List (Value × Value) → List (Value × Value) → Bool
  | [], _ => true
  | (k, v) :: r, bs => bs.any (fun b => same k b.1 && same v b.2) && sameEntries r bs

end

def keysDiffer : List (Value × Value) → Bool
  | [] => true
  | (k, _) :: r => !r.any (fun e => same k e.1) && keysDiffer r

def withTag (tag : Option String) (v : Value) : Value :=
  match tag with
  | some t => if isLocal (some t) then .tagged (localName t) v else v
  | none => v

def ofScalar? (tag : Option String) (plain : Bool) (text : String) : Option Value :=
  match tag with
  | some t =>
    if isLocal (some t) then
      (if plain then Scalar.ofPlain? text else some (.text text)).map fun s =>
        .tagged (localName t) (.scalar s)
    else (Scalar.ofTagged? t text).map .scalar
  | none => (if plain then Scalar.ofPlain? text else some (.text text)).map .scalar

mutual

/-- What a tree means; `none` for a tag that does not fit, an integer that is too large, or a key
that is given twice. -/
def ofTree? : Tree → Option Value
  | .scalar tag plain text => ofScalar? tag plain text
  | .sequence tag items => (ofItems? items).map fun vs => withTag tag (.sequence vs)
  | .mapping tag entries =>
    match ofEntries? entries with
    | some es => if keysDiffer es then some (withTag tag (.mapping es)) else none
    | none => none

def ofItems? : List Tree → Option (List Value)
  | [] => some []
  | t :: r => do return (← ofTree? t) :: (← ofItems? r)

def ofEntries? : List (Tree × Tree) → Option (List (Value × Value))
  | [] => some []
  | (k, v) :: r => do return (← ofTree? k, ← ofTree? v) :: (← ofEntries? r)

end

def untagged : Value → Value
  | .tagged _ v => untagged v
  | v => v

end Value

/-- The tree of a document that has a meaning; `none` for any other text. An empty document reads
as nothing. -/
def read? (text : String) : Option Tree :=
  match document? text with
  | none => none
  | some none => some (.scalar none true "")
  | some (some n) =>
    match n.tree? with
    | some t => (Value.ofTree? t).map fun _ => t
    | none => none

end PluginResolution.Yaml
