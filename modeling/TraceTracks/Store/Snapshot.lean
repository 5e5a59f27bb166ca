import TraceTracks.Store
import TraceTracks.Registry
import TraceTracks.Json

/-! The whole store as one JSON document, for people to look at. Handles are replaced by their
texts; of several arguments with one key text the last is shown. -/
namespace TraceTracks.Store

def argJson (s : Store) : ArgValue → Json
  | .integer v => .int v.toInt
  | .string id => .text (s.strings.textOrLabel id)

def argsByText (s : Store) (id : TrackId) : Registry String ArgValue :=
  (s.args.ofTrack id).foldl (fun r a => r.insert (s.strings.textOrLabel a.key) a.value) .empty

def trackJson (s : Store) (t : Track) : Json :=
  .record [("id", .nat t.id.index), ("name", Json.option .text (s.nameText? t.id)),
    ("kind", .text t.scope.name), ("counter", .bool t.flavor.isCounter),
    ("args", .record ((s.argsByText t.id).entries.map fun e => (e.1, s.argJson e.2)))]

def snapshot (s : Store) : Json :=
  .record [("tracks", .arr (s.tracks.rows.toList.map s.trackJson)),
    ("stats", .record (s.tally.nonZero.map fun e => (e.1.name, .nat e.2)))]

end TraceTracks.Store
