namespace PluginResolution.Text

/-- Cuts a text of more than `width` characters, with three points as its last ones. -/
def truncate (s : String) (width : Nat) : String :=
  if s.length ≤ width then s
  else String.ofList (s.toList.take (width - 3) ++ ['.', '.', '.'])

def padRight (width : Nat) (s : String) : String :=
  s ++ String.ofList (List.replicate (width - s.length) ' ')

def orDefault (default : String) : Option String → String
  | some s => if s.isEmpty then default else s
  | none => default

end PluginResolution.Text
