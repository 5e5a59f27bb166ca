/-! What can be wrong with a trace. Nothing of this stops an import; it is counted. -/
namespace TraceTracks

inductive Anomaly
  | conflictingDescriptor
  | unknownParent
  | loop
  | tooManyAncestors
  | tidReuse
  | pidReuse
  deriving DecidableEq

namespace Anomaly

def all : List Anomaly :=
  [.conflictingDescriptor, .unknownParent, .loop, .tooManyAncestors, .tidReuse, .pidReuse]

def index : Anomaly → Fin 6
  | .conflictingDescriptor => 0
  | .unknownParent => 1
  | .loop => 2
  | .tooManyAncestors => 3
  | .tidReuse => 4
  | .pidReuse => 5

theorem index_inj {a b : Anomaly} : a.index = b.index ↔ a = b := by
  cases a <;> cases b <;> decide

def name : Anomaly → String
  | .conflictingDescriptor => "track_event_tokenizer_errors"
  | .unknownParent => "descriptor_track_unknown_parent"
  | .loop => "descriptor_track_loops"
  | .tooManyAncestors => "descriptor_track_too_many_ancestors"
  | .tidReuse => "descriptor_tid_reuse"
  | .pidReuse => "descriptor_pid_reuse"

def tag : Anomaly → String
  | .conflictingDescriptor => "TrackEventTokenizerErrors"
  | .unknownParent => "DescriptorTrackUnknownParent"
  | .loop => "DescriptorTrackLoops"
  | .tooManyAncestors => "DescriptorTrackTooManyAncestors"
  | .tidReuse => "DescriptorTidReuse"
  | .pidReuse => "DescriptorPidReuse"

def ofName? (name : String) : Option Anomaly := all.find? (·.name == name)

def ofTag? (tag : String) : Option Anomaly := all.find? (·.tag == tag)

theorem ofName?_name (a : Anomaly) : ofName? a.name = some a := by cases a <;> decide

theorem ofTag?_tag (a : Anomaly) : ofTag? a.tag = some a := by cases a <;> decide

/-- Recycled ids are normal in a long trace; the rest points at an inconsistent producer. -/
def isError : Anomaly → Bool
  | .tidReuse => false
  | .pidReuse => false
  | _ => true

end Anomaly
end TraceTracks
