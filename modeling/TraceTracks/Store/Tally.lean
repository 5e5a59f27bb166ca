import TraceTracks.Anomaly

/-! How often each anomaly was met. -/
namespace TraceTracks

structure Tally where
  counts : Vector Nat 6
  deriving DecidableEq

namespace Tally

def zero : Tally := ⟨Vector.replicate 6 0⟩

instance : Inhabited Tally := ⟨zero⟩

def get (t : Tally) (a : Anomaly) : Nat := t.counts[a.index]

def count (t : Tally) (a : Anomaly) : Tally := ⟨t.counts.set a.index (t.get a + 1)⟩

@[simp] theorem get_zero (a : Anomaly) : zero.get a = 0 := by
  simp [get, zero]

theorem get_count (t : Tally) (a b : Anomaly) :
    (t.count a).get b = if b = a then t.get b + 1 else t.get b := by
  by_cases h : b = a
  · simp [h, get, count]
  · have hi : (a.index : Nat) ≠ (b.index : Nat) := fun e =>
      h (Anomaly.index_inj.mp (Fin.ext e)).symm
    simp [h, get, count, Vector.getElem_set_ne, hi]

def errors (t : Tally) : Nat := ((Anomaly.all.filter (·.isError)).map t.get).foldl (· + ·) 0

def nonZero (t : Tally) : List (Anomaly × Nat) :=
  (Anomaly.all.map fun a => (a, t.get a)).filter (0 < ·.2)

end Tally
end TraceTracks
