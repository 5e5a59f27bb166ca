import TraceTracks.Registry
import TraceTracks.Backend

/-! Who owns which lifetime. A uuid of a thread or a process stands for one lifetime. Should a
second uuid come to a lifetime that is already taken, the operating system has recycled the id, and
the second uuid gets a new lifetime of its own. -/
namespace TraceTracks

structure Owners where
  threads : Registry Utid Uuid
  processes : Registry Upid Uuid

/-- A lifetime that a uuid now owns, and whether it had to be started because of reuse. -/
structure Claim (noun : Noun) where
  entity : Handle noun
  reused : Bool
  deriving DecidableEq

abbrev Claiming (β α : Type) := EStateM Fault (Owners × β) α

namespace Owners
variable {β α : Type}

def empty : Owners := ⟨Registry.empty, Registry.empty⟩

instance : Inhabited Owners := ⟨empty⟩

def threadOwner? (o : Owners) (utid : Utid) : Option Uuid := o.threads.get? utid

def processOwner? (o : Owners) (upid : Upid) : Option Uuid := o.processes.get? upid

def ownThread (o : Owners) (utid : Utid) (uuid : Uuid) : Owners :=
  { o with threads := o.threads.insert utid uuid }

def ownProcess (o : Owners) (upid : Upid) (uuid : Uuid) : Owners :=
  { o with processes := o.processes.insert upid uuid }

def ask (f : β → α × β) : Claiming β α := fun (o, b) =>
  let (a, b) := f b
  .ok a (o, b)

def mismatch (associated fresh : Utid) (tid : Tid) : Fault :=
  .internal ("identity tracker returned " ++ associated.label ++ " instead of freshly started " ++
    fresh.label ++ " for tid " ++ Nat.repr tid.toNat)

variable [LifetimeSource β]

def claimThread (uuid : Uuid) (pid : Pid) (tid : Tid) : Claiming β (Claim .thread) := do
  let utid ← ask (LifetimeSource.updateThread tid pid)
  match (← get).1.threadOwner? utid with
  | none =>
    modify fun (o, b) => (o.ownThread utid uuid, b)
    return ⟨utid, false⟩
  | some owner =>
    if owner = uuid then
      return ⟨utid, false⟩
    else
      let fresh ← ask (LifetimeSource.startThread none tid)
      let associated ← ask (LifetimeSource.updateThread tid pid)
      if associated ≠ fresh then
        throw (mismatch associated fresh tid)
      modify fun (o, b) => (o.ownThread fresh uuid, b)
      return ⟨fresh, true⟩

def claimProcess (uuid : Uuid) (pid : Pid) : Claiming β (Claim .process) := do
  let upid ← ask (LifetimeSource.process pid)
  match (← get).1.processOwner? upid with
  | none =>
    modify fun (o, b) => (o.ownProcess upid uuid, b)
    return ⟨upid, false⟩
  | some owner =>
    if owner = uuid then
      return ⟨upid, false⟩
    else
      let fresh ← ask (LifetimeSource.startProcess none none pid .null)
      modify fun (o, b) => (o.ownProcess fresh uuid, b)
      return ⟨fresh, true⟩

end Owners
end TraceTracks
