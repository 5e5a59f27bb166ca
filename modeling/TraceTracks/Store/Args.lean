import TraceTracks.Registry
import TraceTracks.Arg

/-! Arguments of all tracks, in the order in which they were added, and their total number. -/
namespace TraceTracks

structure Args where
  byTrack : Registry TrackId (List Arg)
  total : Nat

namespace Args

def empty : Args := ⟨Registry.empty, 0⟩

instance : Inhabited Args := ⟨empty⟩

def ofTrack (a : Args) (track : TrackId) : List Arg := (a.byTrack.get? track).getD []

def add (a : Args) (track : TrackId) (key : StringId) (value : ArgValue) : Args :=
  ⟨a.byTrack.insert track (a.ofTrack track ++ [⟨key, value⟩]), a.total + 1⟩

theorem ofTrack_add (a : Args) (track : TrackId) (key : StringId) (value : ArgValue)
    (other : TrackId) : (a.add track key value).ofTrack other =
      if other = track then a.ofTrack track ++ [⟨key, value⟩] else a.ofTrack other := by
  by_cases h : other = track <;> simp [add, ofTrack, Registry.get?_insert, h]

/-- The first value added under a key. -/
def get? (a : Args) (track : TrackId) (key : StringId) : Option ArgValue :=
  ((a.ofTrack track).find? (·.key = key)).map Arg.value

def isEmpty (a : Args) : Bool := a.total == 0

end Args
end TraceTracks
