import TraceTracks.Store
import TraceTracks.Lifetimes

/-! What resolution needs from the outside: a sink for tracks and a source of lifetimes. The store
and the lifetimes of one trace are the usual pair; everything above only knows these operations. -/
namespace TraceTracks

class TrackSink (β : Type) where
  createTrack : Scope → Flavor → β → TrackId × β
  threadTrack : Utid → β → TrackId × β
  processTrack : Upid → β → TrackId × β
  setName : TrackId → StringId → EStateM Fault β Unit
  name : TrackId → EStateM Fault β StringId
  addArg : TrackId → StringId → ArgValue → EStateM Fault β Unit
  intern : String → β → StringId × β
  count : Anomaly → β → β

/-- Turns the ids of the operating system into lifetimes. -/
class LifetimeSource (β : Type) where
  updateThread : Tid → Pid → β → Utid × β
  startThread : Option Timestamp → Tid → β → Utid × β
  process : Pid → β → Upid × β
  startProcess : Option Timestamp → Option Upid → Pid → StringId → β → Upid × β

instance : TrackSink Store where
  createTrack scope flavor s := s.createTrack scope flavor
  threadTrack utid s := s.threadTrack utid
  processTrack upid s := s.processTrack upid
  setName := Store.setName
  name := Store.name
  addArg := Store.addArg
  intern text s := s.intern text
  count a s := s.count a

instance : LifetimeSource Lifetimes where
  updateThread := Lifetimes.updateThread
  startThread := Lifetimes.startThread
  process := Lifetimes.process
  startProcess := Lifetimes.startProcess

structure Backend (σ ι : Type) where
  store : σ
  lifetimes : ι

namespace Backend
variable {σ ι α : Type}

def onStore (f : σ → α × σ) (b : Backend σ ι) : α × Backend σ ι :=
  let (a, store) := f b.store
  (a, { b with store := store })

def tryStore (f : EStateM Fault σ α) : EStateM Fault (Backend σ ι) α := fun b =>
  match f b.store with
  | .ok a store => .ok a { b with store := store }
  | .error e store => .error e { b with store := store }

def onLifetimes (f : ι → α × ι) (b : Backend σ ι) : α × Backend σ ι :=
  let (a, lifetimes) := f b.lifetimes
  (a, { b with lifetimes := lifetimes })

instance [TrackSink σ] : TrackSink (Backend σ ι) where
  createTrack scope flavor := onStore (TrackSink.createTrack scope flavor)
  threadTrack utid := onStore (TrackSink.threadTrack utid)
  processTrack upid := onStore (TrackSink.processTrack upid)
  setName id name := tryStore (TrackSink.setName id name)
  name id := tryStore (TrackSink.name id)
  addArg id key value := tryStore (TrackSink.addArg id key value)
  intern text := onStore (TrackSink.intern text)
  count a b := { b with store := TrackSink.count a b.store }

instance [LifetimeSource ι] : LifetimeSource (Backend σ ι) where
  updateThread tid pid := onLifetimes (LifetimeSource.updateThread tid pid)
  startThread start tid := onLifetimes (LifetimeSource.startThread start tid)
  process pid := onLifetimes (LifetimeSource.process pid)
  startProcess start parent pid name :=
    onLifetimes (LifetimeSource.startProcess start parent pid name)

end Backend

abbrev Trace := Backend Store Lifetimes

def Trace.empty : Trace := ⟨.empty, .empty⟩

end TraceTracks
