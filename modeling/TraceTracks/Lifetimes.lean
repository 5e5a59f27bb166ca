import TraceTracks.Registry
import TraceTracks.Handle

/-! Logical threads and processes. The operating system recycles its ids, so each lifetime gets an
entry of its own: for a pid the latest process is the current one, and for a tid the latest thread
is the one that can still move to a process. -/
namespace TraceTracks

structure ThreadLife where
  tid : Tid
  upid : Option Upid
  start : Option Timestamp
  deriving DecidableEq

structure ProcessLife where
  pid : Pid
  parent : Option Upid
  name : StringId
  start : Option Timestamp
  deriving DecidableEq

structure Lifetimes where
  threads : Array ThreadLife
  processes : Array ProcessLife
  utids : Registry Tid (List Utid)
  current : Registry Pid Upid

namespace Lifetimes

def empty : Lifetimes := ⟨#[], #[], Registry.empty, Registry.empty⟩

instance : Inhabited Lifetimes := ⟨empty⟩

def thread? (l : Lifetimes) (utid : Utid) : Option ThreadLife := l.threads[utid.index]?

def process? (l : Lifetimes) (upid : Upid) : Option ProcessLife := l.processes[upid.index]?

def currentProcess? (l : Lifetimes) (pid : Pid) : Option Upid := l.current.get? pid

def threadsOf (l : Lifetimes) (tid : Tid) : List Utid := (l.utids.get? tid).getD []

def startThread (start : Option Timestamp) (tid : Tid) (l : Lifetimes) : Utid × Lifetimes :=
  let utid := Handle.ofIndex l.threads.size
  (utid, { l with
    threads := l.threads.push ⟨tid, none, start⟩
    utids := l.utids.insert tid (l.threadsOf tid ++ [utid]) })

theorem threadsOf_startThread (start : Option Timestamp) (tid : Tid) (l : Lifetimes) (other : Tid) :
    (l.startThread start tid).2.threadsOf other =
      if other = tid then l.threadsOf tid ++ [Handle.ofIndex l.threads.size]
      else l.threadsOf other := by
  by_cases h : other = tid <;> simp [startThread, threadsOf, Registry.get?_insert, h]

/-- A new process, current for its pid from now on. -/
def startProcess (start : Option Timestamp) (parent : Option Upid) (pid : Pid) (name : StringId)
    (l : Lifetimes) : Upid × Lifetimes :=
  let upid := Handle.ofIndex l.processes.size
  (upid, { l with
    processes := l.processes.push ⟨pid, parent, name, start⟩
    current := l.current.insert pid upid })

theorem currentProcess?_startProcess (start : Option Timestamp) (parent : Option Upid) (pid : Pid)
    (name : StringId) (l : Lifetimes) (other : Pid) :
    (l.startProcess start parent pid name).2.currentProcess? other =
      if other = pid then some (Handle.ofIndex l.processes.size) else l.currentProcess? other := by
  by_cases h : other = pid <;> simp [startProcess, currentProcess?, Registry.get?_insert, h]

def process (pid : Pid) (l : Lifetimes) : Upid × Lifetimes :=
  match l.currentProcess? pid with
  | some upid => (upid, l)
  | none => l.startProcess none none pid .null

/-- The latest thread of a tid, unless it already belongs to another process. -/
def matching? (l : Lifetimes) (tid : Tid) (upid : Upid) : Option Utid := do
  let utid ← (l.threadsOf tid).getLast?
  let thread ← l.thread? utid
  if thread.upid.all (· = upid) then some utid else none

def associate (l : Lifetimes) (utid : Utid) (upid : Upid) : Lifetimes :=
  { l with threads := l.threads.modify utid.index fun t => { t with upid := some upid } }

/-- The thread of a tid within the current process of a pid. The latest thread of the tid is taken
if it is free or already there; else a new one starts. -/
def updateThread (tid : Tid) (pid : Pid) (l : Lifetimes) : Utid × Lifetimes :=
  let (upid, l) := l.process pid
  let (utid, l) := match l.matching? tid upid with
    | some utid => (utid, l)
    | none => l.startThread none tid
  (utid, l.associate utid upid)

end Lifetimes
end TraceTracks
