import TraceTracks.Fault

/-! Settings of an import. A chain of parents that is longer than `maxAncestors` is cut. -/
namespace TraceTracks

structure Settings where
  maxAncestors : Nat := 10
  defaultTrackName : String := "Default Track"
  deriving DecidableEq

inductive SettingsFault
  | malformed
  | zeroAncestors
  | emptyName
  deriving DecidableEq

namespace SettingsFault

def reason : SettingsFault → String
  | .malformed => "<json>"
  | .zeroAncestors => "max_ancestors must be at least 1"
  | .emptyName => "default_track_name must not be empty"

def toFault (f : SettingsFault) : Fault := .invalidConfig f.reason

end SettingsFault

namespace Settings

def default : Settings := {}

def check (c : Settings) : Except SettingsFault Unit :=
  if c.maxAncestors = 0 then .error .zeroAncestors
  else if c.defaultTrackName = "" then .error .emptyName
  else .ok ()

def Valid (c : Settings) : Prop := 1 ≤ c.maxAncestors ∧ c.defaultTrackName ≠ ""

theorem check_eq_ok_iff {c : Settings} : c.check = .ok () ↔ c.Valid := by
  unfold check Valid
  split
  next zero => simp [zero]
  next positive =>
    have bound := Nat.pos_of_ne_zero positive
    split
    next unnamed => simp [unnamed]
    next named => exact ⟨fun _ => ⟨bound, named⟩, fun _ => rfl⟩

end Settings
end TraceTracks
