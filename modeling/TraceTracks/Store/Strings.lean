import TraceTracks.Registry
import TraceTracks.Handle

/-! Interned strings. The first entry is the empty string, so that the null handle always reads. -/
namespace TraceTracks

structure Strings where
  texts : Array String
  handles : Registry String StringId

namespace Strings

def empty : Strings := ⟨#[""], Registry.empty.insert "" StringId.null⟩

instance : Inhabited Strings := ⟨empty⟩

def size (s : Strings) : Nat := s.texts.size

def isEmpty (s : Strings) : Bool := s.texts.isEmpty

def get? (s : Strings) (id : StringId) : Option String := s.texts[id.index]?

def lookup? (s : Strings) (text : String) : Option StringId := s.handles.get? text

def intern (s : Strings) (text : String) : StringId × Strings :=
  match s.lookup? text with
  | some id => (id, s)
  | none =>
    let id := Handle.ofIndex s.texts.size
    (id, ⟨s.texts.push text, s.handles.insert text id⟩)

theorem intern_of_lookup? {s : Strings} {text : String} {id : StringId}
    (h : s.lookup? text = some id) : s.intern text = (id, s) := by
  simp [intern, h]

/-- The text itself, or the label of a handle that was never handed out. -/
def textOrLabel (s : Strings) (id : StringId) : String := (s.get? id).getD id.label

end Strings
end TraceTracks
