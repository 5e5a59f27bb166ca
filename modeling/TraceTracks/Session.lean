import TraceTracks.Catalog.Resolve
import TraceTracks.Store.Snapshot

/-! One import over the tables of one trace, with texts instead of handles and with the failures
that a user is told about. -/
namespace TraceTracks

abbrev Session := Catalog Trace

namespace Session

def start? (settings : Settings) : Except SessionFault Session :=
  match Catalog.start? settings Trace.empty with
  | .ok s => .ok s
  | .error e => .error (.ofFault e.toFault)

def start : Session := Catalog.start .default Trace.empty

def told {α : Type} (act : Act Trace α) : EStateM SessionFault Session α := fun s =>
  match act s with
  | .ok a s => .ok a s
  | .error e s => .error (.ofFault e) s

def track? (uuid : Uuid) : EStateM SessionFault Session (Option TrackId) :=
  told (Catalog.track? uuid .null)

/-- The track of a uuid for an event, whose name is interned in any case. -/
def trackForEvent? (uuid : Uuid) (event : String) :
    EStateM SessionFault Session (Option TrackId) := fun s =>
  let (name, s) := s.intern event
  told (Catalog.track? uuid name) s

def defaultTrack : EStateM SessionFault Session TrackId := told Catalog.defaultTrackId

def trackName? (s : Session) (track : TrackId) : Option String := s.backend.store.nameText? track

def countOf (s : Session) (a : Anomaly) : Nat := s.backend.store.tally.get a

def snapshot (s : Session) : Json := s.backend.store.snapshot

end Session
end TraceTracks
