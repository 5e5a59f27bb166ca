import TraceTracks.Catalog.Resolve

/-! What can be asked of a catalog, as data: announcements, look-ups that may make tracks, and
counter traffic. A run is a list of commands; a command that fails does not end it. -/
namespace TraceTracks

inductive Command
  | announce (uuid : Uuid) (descriptor : Descriptor)
  | track (uuid : Uuid) (event : StringId)
  | defaultTrack
  | sample (uuid : Uuid) (sequence : Sequence) (value : Int64)
  | clear (sequence : Sequence)
  deriving DecidableEq

inductive Reply
  | done
  | track (id : Option TrackId)
  | value (value : Option Int64)
  | failed (fault : Fault)
  deriving DecidableEq

namespace Catalog
variable {β : Type} [TrackSink β] [LifetimeSource β]

def perform (c : Catalog β) : Command → Reply × Catalog β
  | .announce uuid descriptor => (.done, c.reserve uuid descriptor.reservation)
  | .track uuid event =>
    match track? uuid event c with
    | .ok id c => (.track id, c)
    | .error e c => (.failed e, c)
  | .defaultTrack =>
    match defaultTrackId c with
    | .ok id c => (.track (some id), c)
    | .error e c => (.failed e, c)
  | .sample uuid sequence value =>
    let (v, c) := c.sample uuid sequence value
    (.value v, c)
  | .clear sequence => (.done, c.clear sequence)

def run (c : Catalog β) : List Command → List Reply × Catalog β
  | [] => ([], c)
  | command :: rest =>
    let (reply, c) := c.perform command
    let (replies, c) := c.run rest
    (reply :: replies, c)

@[simp] theorem run_nil (c : Catalog β) : c.run [] = ([], c) := rfl

theorem run_append (c : Catalog β) (first rest : List Command) :
    c.run (first ++ rest) =
      ((c.run first).1 ++ ((c.run first).2.run rest).1, ((c.run first).2.run rest).2) := by
  induction first generalizing c with
  | nil => rfl
  | cons command first ih => simp [run, ih]

end Catalog
end TraceTracks
