namespace PluginResolution.Text

/-- The characters of the Unicode property White_Space. -/
def isBlank (c : Char) : Bool :=
  (9 ≤ c.toNat && c.toNat ≤ 13) || c.toNat == 0x20 || c.toNat == 0x85 || c.toNat == 0xA0 ||
    c.toNat == 0x1680 || (0x2000 ≤ c.toNat && c.toNat ≤ 0x200A) || c.toNat == 0x2028 ||
    c.toNat == 0x2029 || c.toNat == 0x202F || c.toNat == 0x205F || c.toNat == 0x3000

def dropTailWhile (p : Char → Bool) (cs : List Char) : List Char :=
  (cs.reverse.dropWhile p).reverse

def trim (s : String) : String :=
  String.ofList (dropTailWhile isBlank (s.toList.dropWhile isBlank))

/-- A text of blanks only, the empty text included. -/
def isBlankText (s : String) : Bool :=
  s.toList.all isBlank

end PluginResolution.Text
