import TraceTracks.Handle

/-! Arguments: keyed values attached to a track. Equal values hold equal handles; the strings behind
them are not looked at. -/
namespace TraceTracks

inductive ArgValue
  | string (id : StringId)
  | integer (value : Int64)
  deriving DecidableEq

namespace ArgValue

def typeName : ArgValue → String
  | .string _ => "String"
  | .integer _ => "Integer"

def integer? : ArgValue → Option Int64
  | .string _ => none
  | .integer v => some v

def string? : ArgValue → Option StringId
  | .string id => some id
  | .integer _ => none

end ArgValue

structure Arg where
  key : StringId
  value : ArgValue
  deriving DecidableEq

end TraceTracks
