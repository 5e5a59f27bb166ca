/-! Numbers that stand for things. Handles are handed out densely from zero and wrap at 32 bits;
uuids, pids, tids and timestamps come from the trace and are only compared. -/
namespace TraceTracks

inductive Noun
  | track
  | string
  | thread
  | process
  deriving DecidableEq

def Noun.word : Noun → String
  | .track => "track"
  | .string => "str"
  | .thread => "utid"
  | .process => "upid"

structure Handle (noun : Noun) where
  val : UInt32
  deriving DecidableEq

abbrev TrackId := Handle .track
abbrev StringId := Handle .string
/-- A logical thread: one lifetime of an operating system's thread id. -/
abbrev Utid := Handle .thread
/-- A logical process: one lifetime of an operating system's process id. -/
abbrev Upid := Handle .process

abbrev Uuid := UInt64
abbrev Pid := UInt32
abbrev Tid := UInt32
abbrev Timestamp := Int64
abbrev Sequence := UInt32

namespace Handle
variable {noun : Noun}

def index (h : Handle noun) : Nat := h.val.toNat

def ofIndex (n : Nat) : Handle noun := ⟨UInt32.ofNat n⟩

theorem index_lt (h : Handle noun) : h.index < UInt32.size := h.val.toNat_lt_size

@[simp] theorem ofIndex_index (h : Handle noun) : ofIndex h.index = h := by
  simp [ofIndex, index]

theorem index_ofIndex {n : Nat} (h : n < UInt32.size) : (ofIndex n : Handle noun).index = n := by
  exact UInt32.toNat_ofNat_of_lt' h

theorem index_inj {a b : Handle noun} : a.index = b.index ↔ a = b :=
  ⟨fun h => by rw [← ofIndex_index a, h, ofIndex_index], fun h => h ▸ rfl⟩

def label (h : Handle noun) : String := noun.word ++ "#" ++ Nat.repr h.index

end Handle

namespace StringId

def null : StringId := ⟨0⟩

def isNull (s : StringId) : Bool := s.val == 0

@[simp] theorem isNull_iff {s : StringId} : isNull s ↔ s = null := by
  obtain ⟨v⟩ := s
  simp [isNull, null]

def nonNull? (s : StringId) : Option StringId := if isNull s then none else some s

end StringId
end TraceTracks
