import TraceTracks.Json.Literal

/-! The text of a document, without blanks. -/
namespace TraceTracks.Json

mutual

def write : Json → List Char
  | .null => "null".toList
  | .bool true => "true".toList
  | .bool false => "false".toList
  | .int n => (if n < 0 then ['-'] else []) ++ (Nat.repr n.natAbs).toList
  | .real numeral => numeral.toList
  | .str l => Literal.write l
  | .arr items => '[' :: writeItems items
  | .obj members => '\x7b' :: writeMembers members

def writeItems : List Json → List Char
  | [] => [']']
  | [v] => write v ++ [']']
  | v :: w :: vs => write v ++ ',' :: writeItems (w :: vs)

def writeMembers : List (Literal × Json) → List Char
  | [] => ['\x7d']
  | [(name, v)] => Literal.write name ++ ':' :: write v ++ ['\x7d']
  | (name, v) :: m :: ms =>
    Literal.write name ++ ':' :: write v ++ ',' :: writeMembers (m :: ms)

end

def toText (j : Json) : String := String.ofList j.write

end TraceTracks.Json
