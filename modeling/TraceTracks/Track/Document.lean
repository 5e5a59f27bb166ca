import TraceTracks.Track
import TraceTracks.Arg
import TraceTracks.Anomaly
import TraceTracks.Json.Record

/-! Handles, tracks, argument values and anomalies as JSON, written and read back. -/
namespace TraceTracks

namespace Handle
variable {noun : Noun}

def toJson (h : Handle noun) : Json := .nat h.index

def ofJson? (j : Json) : Option (Handle noun) := (j.natBelow? UInt32.size).map ofIndex

@[simp] theorem ofJson?_toJson (h : Handle noun) : ofJson? h.toJson = some h := by
  simp [ofJson?, toJson, Json.nat, Json.natBelow?, h.index_lt]

end Handle

namespace Scope

def toJson : Scope → Json
  | .global => .text "Global"
  | .process upid => .record [("Process", upid.toJson)]
  | .thread utid => .record [("Thread", utid.toJson)]

def ofJson? (j : Json) : Option Scope :=
  match j.choice? with
  | some ("Process", some payload) => (Handle.ofJson? payload).map .process
  | some ("Thread", some payload) => (Handle.ofJson? payload).map .thread
  | _ => if j.plainChoice? = some "Global" then some .global else none

@[simp] theorem ofJson?_toJson (s : Scope) : ofJson? s.toJson = some s := by
  cases s <;> simp [ofJson?, toJson, Json.record, Json.text, Json.choice?, Json.plainChoice?]

end Scope

namespace Flavor

def toJson : Flavor → Json
  | .slice => .text "Slice"
  | .counter => .text "Counter"

def ofJson? (j : Json) : Option Flavor :=
  match j.plainChoice? with
  | some "Slice" => some .slice
  | some "Counter" => some .counter
  | _ => none

@[simp] theorem ofJson?_toJson (f : Flavor) : ofJson? f.toJson = some f := by
  cases f <;> simp [ofJson?, toJson, Json.text, Json.choice?, Json.plainChoice?]

end Flavor

namespace ArgValue

def toJson : ArgValue → Json
  | .string id => .record [("String", id.toJson)]
  | .integer v => .record [("Integer", .int v.toInt)]

def ofJson? (j : Json) : Option ArgValue :=
  match j.choice? with
  | some ("String", some payload) => (Handle.ofJson? payload).map .string
  | some ("Integer", some payload) => payload.int64?.map .integer
  | _ => none

@[simp] theorem ofJson?_toJson (v : ArgValue) : ofJson? v.toJson = some v := by
  cases v with
  | string id => simp [ofJson?, toJson, Json.record, Json.choice?]
  | integer n => simp [ofJson?, toJson, Json.record, Json.choice?]

end ArgValue

namespace Anomaly

def toJson (a : Anomaly) : Json := .text a.tag

def ofJson? (j : Json) : Option Anomaly := j.plainChoice?.bind ofTag?

@[simp] theorem ofJson?_toJson (a : Anomaly) : ofJson? a.toJson = some a := by
  simp [ofJson?, toJson, Json.text, Json.choice?, Json.plainChoice?, ofTag?_tag]

end Anomaly

namespace Track

def toJson (t : Track) : Json :=
  .record [("id", t.id.toJson), ("name", t.name.toJson), ("kind", t.scope.toJson),
    ("flavor", t.flavor.toJson)]

def ofJson? (j : Json) : Option Track := do
  match ← j.fields? ["id", "name", "kind", "flavor"] with
  | [some id, some name, some scope, some flavor] =>
    return ⟨← Handle.ofJson? id, ← Handle.ofJson? name, ← Scope.ofJson? scope,
      ← Flavor.ofJson? flavor⟩
  | _ => none

@[simp] theorem ofJson?_toJson (t : Track) : ofJson? t.toJson = some t := by
  simp [ofJson?, toJson, Json.record, Json.fields?, Json.field?]

end Track

def Placement.toJson (p : Placement) : Json :=
  .record [("id", p.track.toJson), ("kind", p.scope.toJson), ("flavor", p.flavor.toJson)]

end TraceTracks
