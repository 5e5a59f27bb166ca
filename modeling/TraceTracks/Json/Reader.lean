import TraceTracks.Json.Token

/-! From tokens to a document. The reader keeps the containers that are still open and what may come
next; every token takes it one step further or is refused, so nesting has no limit. -/
namespace TraceTracks.Json

/-- A container that is still open, with its parts so far, latest first. -/
inductive Frame
  | items (done : List Json)
  | members (done : List (Literal × Json))
  | member (done : List (Literal × Json)) (name : Literal)

inductive Awaits
  | value
  | firstItem
  | name
  | firstName
  | colon (name : Literal)
  | commaOrClose
  | nothing (result : Json)

structure Reader where
  awaits : Awaits
  frames : List Frame

namespace Reader

def start : Reader := ⟨.value, []⟩

def deliver (v : Json) : List Frame → Option Reader
  | [] => some ⟨.nothing v, []⟩
  | .items done :: fs => some ⟨.commaOrClose, .items (v :: done) :: fs⟩
  | .member done name :: fs => some ⟨.commaOrClose, .members ((name, v) :: done) :: fs⟩
  | .members _ :: _ => none

def value (t : Token) (fs : List Frame) : Option Reader :=
  match t with
  | .atom v => deliver v fs
  | .str l => deliver (.str l) fs
  | .openArr => some ⟨.firstItem, .items [] :: fs⟩
  | .openObj => some ⟨.firstName, .members [] :: fs⟩
  | _ => none

def separate (t : Token) : List Frame → Option Reader
  | .items done :: fs =>
    match t with
    | .comma => some ⟨.value, .items done :: fs⟩
    | .closeArr => deliver (.arr done.reverse) fs
    | _ => none
  | .members done :: fs =>
    match t with
    | .comma => some ⟨.name, .members done :: fs⟩
    | .closeObj => deliver (.obj done.reverse) fs
    | _ => none
  | _ => none

def step (r : Reader) (t : Token) : Option Reader :=
  match r.awaits with
  | .value => value t r.frames
  | .firstItem =>
    match t with
    | .closeArr => separate t r.frames
    | _ => value t r.frames
  | .name =>
    match t with
    | .str name => some ⟨.colon name, r.frames⟩
    | _ => none
  | .firstName =>
    match t with
    | .str name => some ⟨.colon name, r.frames⟩
    | .closeObj => separate t r.frames
    | _ => none
  | .colon name =>
    match t, r.frames with
    | .colon, .members done :: fs => some ⟨.value, .member done name :: fs⟩
    | _, _ => none
  | .commaOrClose => separate t r.frames
  | .nothing _ => none

def result? (r : Reader) : Option Json :=
  match r.awaits with
  | .nothing v => some v
  | _ => none

end Reader

def read? (text : String) : Option Json := do
  let tokens ← Token.all? text.toList
  let reader ← tokens.foldlM Reader.step Reader.start
  reader.result?

end TraceTracks.Json
