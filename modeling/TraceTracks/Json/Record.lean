import TraceTracks.Json

/-! Typed readings of documents. A record is an object, or an array of its fields in order; a choice
is a name, or an object whose one member is the name with what belongs to it. -/
namespace TraceTracks.Json

/-- What an object holds under a name: nothing or one value. A name that comes twice is refused. -/
def field? (members : List (Literal × Json)) (name : String) : Option (Option Json) :=
  match members.filter (·.1 == some name) with
  | [] => some none
  | [m] => some (some m.2)
  | _ => none

/-- The values of the named fields, in their order. Other members of an object are passed over, but
their names have to be texts; an array may stop early. -/
def fields? (names : List String) : Json → Option (List (Option Json))
  | .obj members =>
    if members.all (·.1.isSome) then names.mapM (field? members) else none
  | .arr items =>
    if items.length ≤ names.length then
      some (items.map some ++ List.replicate (names.length - items.length) none)
    else none
  | _ => none

def choice? : Json → Option (String × Option Json)
  | .str (some name) => some (name, none)
  | .obj [(some name, payload)] => some (name, some payload)
  | _ => none

/-- The name of a choice that has nothing to go with it; null is as good as nothing. -/
def plainChoice? (j : Json) : Option String :=
  match choice? j with
  | some (name, none) => some name
  | some (name, some .null) => some name
  | _ => none

def natBelow? (bound : Nat) : Json → Option Nat
  | .int (.ofNat n) => if n < bound then some n else none
  | _ => none

def int64? : Json → Option Int64
  | .int n =>
    if Int64.minValue.toInt ≤ n ∧ n ≤ Int64.maxValue.toInt then some (Int64.ofInt n) else none
  | _ => none

@[simp] theorem int64?_int_toInt (n : Int64) : int64? (.int n.toInt) = some n := by
  rw [int64?, if_pos ⟨n.minValue_le_toInt, n.toInt_le⟩, Int64.ofInt_toInt]

def text? : Json → Option String
  | .str l => l
  | _ => none

end TraceTracks.Json
