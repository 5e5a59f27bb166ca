import TraceTracks.Registry
import TraceTracks.Track
import TraceTracks.Fault

/-! The track table. A track's handle is the number of its row; threads and processes may each own
one primary row, which is found again by its owner. -/
namespace TraceTracks

structure Tracks where
  rows : Array Track
  ofThread : Registry Utid TrackId
  ofProcess : Registry Upid TrackId

namespace Tracks

def empty : Tracks := ⟨#[], Registry.empty, Registry.empty⟩

instance : Inhabited Tracks := ⟨empty⟩

def size (t : Tracks) : Nat := t.rows.size

def isEmpty (t : Tracks) : Bool := t.rows.isEmpty

def get? (t : Tracks) (id : TrackId) : Option Track := t.rows[id.index]?

def threadTrack? (t : Tracks) (utid : Utid) : Option TrackId := t.ofThread.get? utid

def processTrack? (t : Tracks) (upid : Upid) : Option TrackId := t.ofProcess.get? upid

def create (t : Tracks) (scope : Scope) (flavor : Flavor) : TrackId × Tracks :=
  let id := Handle.ofIndex t.rows.size
  (id, { t with rows := t.rows.push ⟨id, .null, scope, flavor⟩ })

@[simp] theorem size_create (t : Tracks) (scope : Scope) (flavor : Flavor) :
    (t.create scope flavor).2.size = t.size + 1 := by
  simp [create, size]

def threadTrack (t : Tracks) (utid : Utid) : TrackId × Tracks :=
  match t.threadTrack? utid with
  | some id => (id, t)
  | none =>
    let (id, t) := t.create (.thread utid) .slice
    (id, { t with ofThread := t.ofThread.insert utid id })

def processTrack (t : Tracks) (upid : Upid) : TrackId × Tracks :=
  match t.processTrack? upid with
  | some id => (id, t)
  | none =>
    let (id, t) := t.create (.process upid) .slice
    (id, { t with ofProcess := t.ofProcess.insert upid id })

def setName (id : TrackId) (name : StringId) : EStateM Fault Tracks Unit := fun t =>
  if id.index < t.rows.size then
    .ok () { t with rows := t.rows.modify id.index fun row => { row with name := name } }
  else .error (.unknownTrack id) t

def name (id : TrackId) : EStateM Fault Tracks StringId := fun t =>
  match t.get? id with
  | some row => .ok row.name t
  | none => .error (.unknownTrack id) t

/-- Rows of one flavor whose scope is of the same variant. -/
def count (t : Tracks) (scope : Scope) (flavor : Flavor) : Nat :=
  t.rows.countP fun row => row.scope.sameVariant scope && row.flavor == flavor

end Tracks
end TraceTracks
