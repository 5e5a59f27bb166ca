import TraceTracks.Handle

/-! Failures. A malformed trace is never one; these say that a handle was not known to the tables
behind a catalog, that settings were refused, or that two answers contradict each other. -/
namespace TraceTracks

inductive Fault
  | unknownTrack (id : TrackId)
  | unknownString (id : StringId)
  | unknownThread (utid : Utid)
  | unknownProcess (upid : Upid)
  | invalidConfig (reason : String)
  | internal (detail : String)
  deriving DecidableEq

namespace Fault

def message : Fault → String
  | .unknownTrack id => "unknown track: " ++ id.label
  | .unknownString id => "unknown string: " ++ id.label
  | .unknownThread utid => "unknown thread: " ++ utid.label
  | .unknownProcess upid => "unknown process: " ++ upid.label
  | .invalidConfig reason => "invalid configuration: " ++ reason
  | .internal detail => "internal error: " ++ detail

def isUnknownHandle : Fault → Bool
  | .unknownTrack _ => true
  | .unknownString _ => true
  | .unknownThread _ => true
  | .unknownProcess _ => true
  | _ => false

def isSerious : Fault → Bool
  | .internal _ => true
  | _ => false

end Fault

inductive SessionFault
  | notFound (what : String)
  | invalidConfig (reason : String)
  | internal (detail : String)
  deriving DecidableEq

namespace SessionFault

def ofFault : Fault → SessionFault
  | .unknownTrack id => .notFound ("track " ++ id.label)
  | .unknownString id => .notFound ("string " ++ id.label)
  | .unknownThread utid => .notFound ("thread " ++ utid.label)
  | .unknownProcess upid => .notFound ("process " ++ upid.label)
  | .invalidConfig reason => .invalidConfig reason
  | .internal detail => .internal detail

def message : SessionFault → String
  | .notFound what => "not found: " ++ what
  | .invalidConfig reason => "invalid configuration: " ++ reason
  | .internal detail => "internal error: " ++ detail

def isNotFound : SessionFault → Bool
  | .notFound _ => true
  | _ => false

def isSerious : SessionFault → Bool
  | .internal _ => true
  | _ => false

theorem isNotFound_ofFault (f : Fault) : (ofFault f).isNotFound = f.isUnknownHandle := by
  cases f <;> rfl

theorem isSerious_ofFault (f : Fault) : (ofFault f).isSerious = f.isSerious := by
  cases f <;> rfl

end SessionFault
end TraceTracks
