/-! Values by key, kept in the order in which their keys were first entered.
Each operation is pinned down by what it does to look-ups, to the size and to the list of keys. -/
namespace TraceTracks

structure Registry (κ ν : Type) where
  entries : List (κ × ν)
  nodup_keys : (entries.map Prod.fst).Nodup

namespace Registry
variable {κ ν : Type}

def empty : Registry κ ν := ⟨[], by simp⟩

instance : Inhabited (Registry κ ν) := ⟨empty⟩

def keys (r : Registry κ ν) : List κ := r.entries.map Prod.fst

def size (r : Registry κ ν) : Nat := r.entries.length

def isEmpty (r : Registry κ ν) : Bool := r.entries.isEmpty

def mapValues (f : κ → ν → ν) (r : Registry κ ν) : Registry κ ν where
  entries := r.entries.map fun e => (e.1, f e.1 e.2)
  nodup_keys := by simpa [Function.comp_def] using r.nodup_keys

@[simp] theorem size_empty : (empty : Registry κ ν).size = 0 := rfl

@[simp] theorem keys_empty : (empty : Registry κ ν).keys = [] := rfl

theorem keys_nodup (r : Registry κ ν) : r.keys.Nodup := r.nodup_keys

@[simp] theorem keys_mapValues (f : κ → ν → ν) (r : Registry κ ν) :
    (r.mapValues f).keys = r.keys := by
  simp [keys, mapValues, Function.comp_def]

@[simp] theorem size_mapValues (f : κ → ν → ν) (r : Registry κ ν) :
    (r.mapValues f).size = r.size := by
  simp [size, mapValues]

variable [DecidableEq κ]

def get? (r : Registry κ ν) (k : κ) : Option ν := r.entries.lookup k

def contains (r : Registry κ ν) (k : κ) : Bool := (r.get? k).isSome

@[simp] theorem get?_empty (k : κ) : (empty : Registry κ ν).get? k = none := rfl

theorem get?_eq_none_iff {r : Registry κ ν} {k : κ} : r.get? k = none ↔ k ∉ r.keys := by
  obtain ⟨l, hl⟩ := r
  simp only [get?, keys]
  clear hl
  induction l with
  | nil => simp
  | cons e l ih =>
    obtain ⟨k', v⟩ := e
    by_cases h : k = k'
    · simp [h]
    · simp [h, List.lookup_cons, beq_eq_false_iff_ne.mpr h, -List.lookup_eq_none_iff, ih]

theorem contains_iff_mem_keys {r : Registry κ ν} {k : κ} : r.contains k ↔ k ∈ r.keys := by
  rw [contains, Option.isSome_iff_ne_none, Ne, get?_eq_none_iff, Classical.not_not]

@[simp] theorem get?_mapValues (f : κ → ν → ν) (r : Registry κ ν) (k : κ) :
    (r.mapValues f).get? k = (r.get? k).map (f k) := by
  obtain ⟨l, hl⟩ := r
  simp only [get?, mapValues]
  clear hl
  induction l with
  | nil => rfl
  | cons e l ih =>
    obtain ⟨k', v⟩ := e
    by_cases h : k = k'
    · simp [h]
    · simp [List.lookup_cons, beq_eq_false_iff_ne.mpr h, ih]

def modify (r : Registry κ ν) (k : κ) (f : ν → ν) : Registry κ ν :=
  r.mapValues fun k' v => if k' = k then f v else v

@[simp] theorem keys_modify (r : Registry κ ν) (k : κ) (f : ν → ν) :
    (r.modify k f).keys = r.keys := keys_mapValues _ r

@[simp] theorem size_modify (r : Registry κ ν) (k : κ) (f : ν → ν) :
    (r.modify k f).size = r.size := size_mapValues _ r

theorem get?_modify (r : Registry κ ν) (k : κ) (f : ν → ν) (k' : κ) :
    (r.modify k f).get? k' = if k' = k then (r.get? k').map f else r.get? k' := by
  by_cases h : k' = k <;> simp [modify, h]

/-- Enters a value; a key that is already there keeps its place. -/
def insert (r : Registry κ ν) (k : κ) (v : ν) : Registry κ ν :=
  if h : r.get? k = none then
    ⟨r.entries ++ [(k, v)], by
      rw [List.map_append, List.nodup_append]
      exact ⟨r.nodup_keys, by simp, by
        intro a ha b hb e
        simp only [List.map_cons, List.map_nil, List.mem_singleton] at hb
        exact get?_eq_none_iff.mp h (hb ▸ e ▸ ha)⟩⟩
  else r.modify k fun _ => v

theorem insert_of_get?_eq_none {r : Registry κ ν} {k : κ} (h : r.get? k = none) (v : ν) :
    (r.insert k v).entries = r.entries ++ [(k, v)] := by
  rw [insert, dif_pos h]

theorem insert_of_get?_ne_none {r : Registry κ ν} {k : κ} (h : r.get? k ≠ none) (v : ν) :
    r.insert k v = r.modify k fun _ => v := by
  rw [insert, dif_neg h]

theorem keys_insert (r : Registry κ ν) (k : κ) (v : ν) :
    (r.insert k v).keys = if r.contains k then r.keys else r.keys ++ [k] := by
  by_cases h : r.get? k = none
  · simp [keys, contains, insert_of_get?_eq_none h, h]
  · simp [contains, insert_of_get?_ne_none h, Option.isSome_iff_ne_none, h]

theorem size_insert (r : Registry κ ν) (k : κ) (v : ν) :
    (r.insert k v).size = if r.contains k then r.size else r.size + 1 := by
  by_cases h : r.get? k = none
  · simp [size, contains, insert_of_get?_eq_none h, h]
  · simp [contains, insert_of_get?_ne_none h, Option.isSome_iff_ne_none, h]

theorem get?_insert (r : Registry κ ν) (k : κ) (v : ν) (k' : κ) :
    (r.insert k v).get? k' = if k' = k then some v else r.get? k' := by
  by_cases h : r.get? k = none
  · rw [get?, insert_of_get?_eq_none h, List.lookup_append, ← get?]
    by_cases hk : k' = k
    · simp [hk, h]
    · simp [hk, List.lookup_cons, beq_eq_false_iff_ne.mpr hk]
  · rw [insert_of_get?_ne_none h, get?_modify]
    obtain ⟨w, hw⟩ := Option.ne_none_iff_exists'.mp h
    by_cases hk : k' = k
    · simp [hk, hw]
    · simp [hk]

end Registry
end TraceTracks
