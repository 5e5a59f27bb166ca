import TraceTracks.Backend

/-! A backend that breaks down. The calls that may fail are numbered, and any chosen ones of them
are refused for any chosen reason; a call that is refused has no effect. -/
namespace TraceTracks

structure Faulty (β : Type) where
  inner : β
  refusal : Nat → Option Fault
  calls : Nat

namespace Faulty
variable {β α : Type}

def start (inner : β) (refusal : Nat → Option Fault) : Faulty β := ⟨inner, refusal, 0⟩

def pass (f : β → α × β) (b : Faulty β) : α × Faulty β :=
  let (a, inner) := f b.inner
  (a, { b with inner := inner })

def attempt (f : EStateM Fault β α) : EStateM Fault (Faulty β) α := fun b =>
  match b.refusal b.calls with
  | some e => .error e { b with calls := b.calls + 1 }
  | none =>
    match f b.inner with
    | .ok a inner => .ok a { b with inner := inner, calls := b.calls + 1 }
    | .error e inner => .error e { b with inner := inner, calls := b.calls + 1 }

instance [TrackSink β] : TrackSink (Faulty β) where
  createTrack scope flavor := pass (TrackSink.createTrack scope flavor)
  threadTrack utid := pass (TrackSink.threadTrack utid)
  processTrack upid := pass (TrackSink.processTrack upid)
  setName id name := attempt (TrackSink.setName id name)
  name id := attempt (TrackSink.name id)
  addArg id key value := attempt (TrackSink.addArg id key value)
  intern text := pass (TrackSink.intern text)
  count a b := { b with inner := TrackSink.count a b.inner }

instance [LifetimeSource β] : LifetimeSource (Faulty β) where
  updateThread tid pid := pass (LifetimeSource.updateThread tid pid)
  startThread start tid := pass (LifetimeSource.startThread start tid)
  process pid := pass (LifetimeSource.process pid)
  startProcess start parent pid name :=
    pass (LifetimeSource.startProcess start parent pid name)

end Faulty
end TraceTracks
