import TraceTracks.Settings
import TraceTracks.Json.Reader
import TraceTracks.Json.Record

/-! Settings as JSON. A setting that is left out keeps its default; one that is there has to be
of the right kind. -/
namespace TraceTracks.Settings

def toJson (c : Settings) : Json :=
  .record [("max_ancestors", .nat c.maxAncestors),
    ("default_track_name", .text c.defaultTrackName)]

def setting? {α : Type} (read : Json → Option α) (otherwise : α) : Option Json → Option α
  | none => some otherwise
  | some j => read j

def ofJson? (j : Json) : Option Settings := do
  match ← j.fields? ["max_ancestors", "default_track_name"] with
  | [bound, name] =>
    return ⟨← setting? (Json.natBelow? UInt64.size) default.maxAncestors bound,
      ← setting? Json.text? default.defaultTrackName name⟩
  | _ => none

theorem ofJson?_toJson {c : Settings} (h : c.maxAncestors < UInt64.size) :
    ofJson? c.toJson = some c := by
  simp [ofJson?, toJson, Json.record, Json.fields?, Json.field?, setting?, Json.nat,
    Json.natBelow?, h,
    Json.text, Json.text?]

def read (text : String) : Except SettingsFault Settings :=
  match (Json.read? text).bind ofJson? with
  | none => .error .malformed
  | some c => c.check.map fun _ => c

theorem valid_of_read {text : String} {c : Settings} (h : read text = .ok c) : c.Valid := by
  unfold read at h
  split at h
  · simp at h
  · next c' _ =>
    cases hc : c'.check with
    | error e => simp [hc, Except.map] at h
    | ok u =>
      simp only [hc, Except.map, Except.ok.injEq] at h
      exact h ▸ check_eq_ok_iff.mp hc

end TraceTracks.Settings
