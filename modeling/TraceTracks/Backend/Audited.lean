import TraceTracks.Backend

/-! A backend under audit. Calls are written down in order before they are passed on, and any chosen
ones of the calls that may fail are refused, in which case nothing is passed on. -/
namespace TraceTracks

inductive Call
  | createTrack (scope : Scope) (flavor : Flavor)
  | threadTrack (utid : Utid)
  | processTrack (upid : Upid)
  | setName (track : TrackId) (name : StringId)
  | addArg (track : TrackId) (key : StringId) (value : ArgValue)
  | count (anomaly : Anomaly)
  | updateThread (tid : Tid) (pid : Pid)
  | startThread (start : Option Timestamp) (tid : Tid)
  | process (pid : Pid)
  | startProcess (start : Option Timestamp) (parent : Option Upid) (pid : Pid) (name : StringId)
  | refused (attempt : Nat)
  deriving DecidableEq

structure Audited (β : Type) where
  inner : β
  refuses : Nat → Bool
  attempts : Nat
  calls : Array Call

namespace Audited
variable {β α : Type}

def start (inner : β) (refuses : Nat → Bool) : Audited β := ⟨inner, refuses, 0, #[]⟩

def note (call : Call) (b : Audited β) : Audited β := { b with calls := b.calls.push call }

def pass (call : Call) (f : β → α × β) (b : Audited β) : α × Audited β :=
  let (a, inner) := f b.inner
  (a, { b.note call with inner := inner })

/-- A call on a track that may fail. It is numbered, and noted or passed on only if not refused. -/
def attempt (track : TrackId) (call : Option Call) (f : EStateM Fault β α) :
    EStateM Fault (Audited β) α := fun b =>
  let numbered := { b with attempts := b.attempts + 1 }
  if b.refuses b.attempts then
    .error (.unknownTrack track) (numbered.note (.refused b.attempts))
  else
    let noted := call.elim numbered numbered.note
    match f noted.inner with
    | .ok a inner => .ok a { noted with inner := inner }
    | .error e inner => .error e { noted with inner := inner }

instance [TrackSink β] : TrackSink (Audited β) where
  createTrack scope flavor := pass (.createTrack scope flavor) (TrackSink.createTrack scope flavor)
  threadTrack utid := pass (.threadTrack utid) (TrackSink.threadTrack utid)
  processTrack upid := pass (.processTrack upid) (TrackSink.processTrack upid)
  setName id name := attempt id (some (.setName id name)) (TrackSink.setName id name)
  name id := attempt id none (TrackSink.name id)
  addArg id key value := attempt id (some (.addArg id key value)) (TrackSink.addArg id key value)
  intern text b :=
    let (id, inner) := TrackSink.intern text b.inner
    (id, { b with inner := inner })
  count a b := { b.note (.count a) with inner := TrackSink.count a b.inner }

instance [LifetimeSource β] : LifetimeSource (Audited β) where
  updateThread tid pid := pass (.updateThread tid pid) (LifetimeSource.updateThread tid pid)
  startThread start tid := pass (.startThread start tid) (LifetimeSource.startThread start tid)
  process pid := pass (.process pid) (LifetimeSource.process pid)
  startProcess start parent pid name :=
    pass (.startProcess start parent pid name) (LifetimeSource.startProcess start parent pid name)

end Audited
end TraceTracks
