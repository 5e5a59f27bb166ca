import TraceTracks.Backend

/-! A source of lifetimes that answers from a list, whatever it is asked. It keeps no promise of a
real source, so it shows what the rest does with contradictory answers. -/
namespace TraceTracks

structure Scripted where
  answers : List UInt32
  deriving DecidableEq

namespace Scripted

/-- The next answer, or zero when none is left. -/
def next {noun : Noun} (s : Scripted) : Handle noun × Scripted :=
  (⟨s.answers.headD 0⟩, ⟨s.answers.tail⟩)

instance : LifetimeSource Scripted where
  updateThread _ _ s := s.next
  startThread _ _ s := s.next
  process _ s := s.next
  startProcess _ _ _ _ s := s.next

end Scripted
end TraceTracks
