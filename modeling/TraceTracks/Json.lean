/-! JSON documents. Members keep their order and may repeat a name; what a repeated name means is
for the reader of a document to say. -/
namespace TraceTracks

/-- The text of a string literal. There is none when an escape names half a surrogate pair, which
no text can hold. -/
abbrev Literal := Option String

/-- A number that is not an integer is kept as it is written: with a fraction, an exponent, or a
minus before zero. -/
inductive Json
  | null
  | bool (value : Bool)
  | int (value : Int)
  | real (numeral : String)
  | str (text : Literal)
  | arr (items : List Json)
  | obj (members : List (Literal × Json))

namespace Json

def text (s : String) : Json := .str (some s)

def nat (n : Nat) : Json := .int n

def record (members : List (String × Json)) : Json :=
  .obj (members.map fun m => (some m.1, m.2))

def option {α : Type} (f : α → Json) : Option α → Json
  | none => .null
  | some a => f a

end Json
end TraceTracks
