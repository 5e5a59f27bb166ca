import TraceTracks.Store.Strings
import TraceTracks.Store.Tracks
import TraceTracks.Store.Args
import TraceTracks.Store.Tally

/-! The tables that one trace is written to. Naming and annotating a track need its row to exist. -/
namespace TraceTracks

structure Store where
  tracks : Tracks
  args : Args
  strings : Strings
  tally : Tally

namespace Store

def empty : Store := ⟨.empty, .empty, .empty, .zero⟩

instance : Inhabited Store := ⟨empty⟩

def track? (s : Store) (id : TrackId) : Option Track := s.tracks.get? id

def string? (s : Store) (id : StringId) : Option String := s.strings.get? id

def intern (s : Store) (text : String) : StringId × Store :=
  let (id, strings) := s.strings.intern text
  (id, { s with strings := strings })

def count (s : Store) (a : Anomaly) : Store := { s with tally := s.tally.count a }

def createTrack (s : Store) (scope : Scope) (flavor : Flavor) : TrackId × Store :=
  let (id, tracks) := s.tracks.create scope flavor
  (id, { s with tracks := tracks })

def threadTrack (s : Store) (utid : Utid) : TrackId × Store :=
  let (id, tracks) := s.tracks.threadTrack utid
  (id, { s with tracks := tracks })

def processTrack (s : Store) (upid : Upid) : TrackId × Store :=
  let (id, tracks) := s.tracks.processTrack upid
  (id, { s with tracks := tracks })

def setName (id : TrackId) (name : StringId) : EStateM Fault Store Unit := fun s =>
  match Tracks.setName id name s.tracks with
  | .ok () tracks => .ok () { s with tracks := tracks }
  | .error e tracks => .error e { s with tracks := tracks }

def name (id : TrackId) : EStateM Fault Store StringId := fun s =>
  match Tracks.name id s.tracks with
  | .ok name tracks => .ok name { s with tracks := tracks }
  | .error e tracks => .error e { s with tracks := tracks }

def addArg (id : TrackId) (key : StringId) (value : ArgValue) : EStateM Fault Store Unit := fun s =>
  match s.track? id with
  | some _ => .ok () { s with args := s.args.add id key value }
  | none => .error (.unknownTrack id) s

def arg? (s : Store) (id : TrackId) (key : StringId) : Option ArgValue := s.args.get? id key

/-- The value under a key given as text; nothing if no such text was ever interned. -/
def argByName? (s : Store) (id : TrackId) (key : String) : Option ArgValue :=
  (s.strings.lookup? key).bind (s.arg? id)

def nameText? (s : Store) (id : TrackId) : Option String :=
  ((s.track? id).bind fun row => StringId.nonNull? row.name).bind s.string?

end Store
end TraceTracks
