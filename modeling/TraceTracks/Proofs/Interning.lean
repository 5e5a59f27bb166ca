import Mathlib.Data.Finset.Card
import Mathlib.Data.Finset.Dedup
import TraceTracks.Proofs.Tables

/-! Texts and their handles after any series of entries. The keys of the registry are the texts of
the table in the same order, whatever is entered; as long as handles do not wrap around, each of the
two is therefore read back from the other. -/
namespace TraceTracks.Strings
variable {s : Strings} {text other : String} {id : StringId}

def internAll (s : Strings) (texts : List String) : Strings :=
  texts.foldl (fun s text => (s.intern text).2) s

@[simp] theorem internAll_nil (s : Strings) : s.internAll [] = s := rfl

@[simp] theorem internAll_cons (s : Strings) (text : String) (texts : List String) :
    s.internAll (text :: texts) = (s.intern text).2.internAll texts := rfl

theorem intern_of_unknown (unknown : s.lookup? text = none) : s.intern text =
    (Handle.ofIndex s.size,
      ⟨s.texts.push text, s.handles.insert text (Handle.ofIndex s.size)⟩) := by
  simp only [intern, unknown]
  rfl

theorem get?_intern_of_ne (ne : id.index ≠ s.size) (text : String) :
    (s.intern text).2.get? id = s.get? id := by
  unfold intern
  split
  · rfl
  · exact Array.getElem?_push.trans (if_neg ne)

theorem lookup?_intern_of_ne (ne : other ≠ text) : (s.intern text).2.lookup? other =
    s.lookup? other := by
  unfold intern
  split
  · rfl
  · rw [lookup?, Registry.get?_insert, if_neg ne, lookup?]

/-- The registry has the texts of the table in their order, each with the handle of its place. -/
structure InStep (s : Strings) : Prop where
  keys : s.handles.keys = s.texts.toList
  handles : ∀ i text, s.texts[i]? = some text → s.lookup? text = some (Handle.ofIndex i)

theorem inStep_empty : empty.InStep := by
  refine ⟨rfl, fun i text here => ?_⟩
  obtain ⟨first, rfl⟩ := Array.getElem?_eq_some_iff.mp here
  obtain rfl : i = 0 := by simpa [empty] using first
  rfl

namespace InStep

theorem lookup?_eq_none_iff (h : s.InStep) : s.lookup? text = none ↔ text ∉ s.texts := by
  rw [lookup?, Registry.get?_eq_none_iff, h.keys, Array.mem_toList_iff]

theorem lookup?_eq_some_iff (h : s.InStep) :
    s.lookup? text = some id ↔ ∃ i, s.texts[i]? = some text ∧ Handle.ofIndex i = id := by
  constructor
  · intro found
    have known : text ∈ s.texts := by
      by_contra unknown
      rw [h.lookup?_eq_none_iff.mpr unknown] at found
      cases found
    obtain ⟨i, here⟩ := Array.mem_iff_getElem?.mp known
    rw [h.handles i text here] at found
    exact ⟨i, here, Option.some.inj found⟩
  · rintro ⟨i, here, rfl⟩
    exact h.handles i text here

theorem intern (h : s.InStep) (text : String) : (s.intern text).2.InStep := by
  cases found : s.lookup? text with
  | some id =>
    rw [intern_of_lookup? found]
    exact h
  | none =>
    rw [intern_of_unknown found]
    have fresh : s.handles.contains text = false := by
      rw [Registry.contains, Option.isSome_eq_false_iff, Option.isNone_iff_eq_none]
      exact found
    refine ⟨?_, fun i other here => ?_⟩
    · rw [Registry.keys_insert, fresh, h.keys]
      simp
    · rw [lookup?, Registry.get?_insert]
      rw [Array.getElem?_push] at here
      split at here
      next last =>
        cases here
        rw [if_pos rfl, last]
        rfl
      next =>
        rw [if_neg]
        · exact h.handles i other here
        · rintro rfl
          exact h.lookup?_eq_none_iff.mp found (Array.mem_of_getElem? here)

theorem internAll (h : s.InStep) (texts : List String) : (s.internAll texts).InStep := by
  induction texts generalizing s with
  | nil => exact h
  | cons text texts ih => exact ih (h.intern text)

theorem nodup (h : s.InStep) : s.texts.toList.Nodup := h.keys ▸ s.handles.keys_nodup

theorem lookup?_eq_some_iff_get? (h : s.InStep) (fits : s.size ≤ UInt32.size) :
    s.lookup? text = some id ↔ s.get? id = some text := by
  rw [h.lookup?_eq_some_iff]
  constructor
  · rintro ⟨i, here, rfl⟩
    obtain ⟨inside, -⟩ := Array.getElem?_eq_some_iff.mp here
    rw [get?, Handle.index_ofIndex (Nat.lt_of_lt_of_le inside fits)]
    exact here
  · exact fun here => ⟨id.index, here, Handle.ofIndex_index id⟩

theorem mem_texts_intern (h : s.InStep) :
    other ∈ (s.intern text).2.texts ↔ other ∈ s.texts ∨ other = text := by
  cases found : s.lookup? text with
  | some id =>
    obtain ⟨i, here, -⟩ := h.lookup?_eq_some_iff.mp found
    rw [intern_of_lookup? found]
    exact ⟨.inl, fun mem => mem.elim (·) fun same => same ▸ Array.mem_of_getElem? here⟩
  | none =>
    rw [intern_of_unknown found]
    exact Array.mem_push

theorem mem_texts_internAll (h : s.InStep) (texts : List String) :
    other ∈ (s.internAll texts).texts ↔ other ∈ s.texts ∨ other ∈ texts := by
  induction texts generalizing s with
  | nil => simp
  | cons text texts ih =>
    rw [internAll_cons, ih (h.intern text), h.mem_texts_intern, List.mem_cons, or_assoc]

end InStep

theorem size_internAll (texts : List String) :
    (empty.internAll texts).size = (texts.toFinset.erase "").card + 1 := by
  have inStep := inStep_empty.internAll texts
  have entries : (empty.internAll texts).texts.toList.toFinset = insert "" texts.toFinset := by
    ext other
    rw [List.mem_toFinset, Array.mem_toList_iff, inStep_empty.mem_texts_internAll,
      Finset.mem_insert, List.mem_toFinset]
    simp [empty]
  rw [size, ← Array.length_toList, ← List.toFinset_card_of_nodup inStep.nodup, entries,
    ← Finset.erase_insert_eq_erase, Finset.card_erase_add_one (Finset.mem_insert_self _ _)]

structure Interns (s : Strings) (text : String) : Prop where
  known : ∀ id, s.lookup? text = some id → s.intern text = (id, s)
  next : s.lookup? text = none →
    (s.intern text).1.index = s.size ∧ (s.intern text).2.size = s.size + 1
  reads : (s.intern text).2.get? (s.intern text).1 = some text
  texts : ∀ id, id.index ≠ s.size → (s.intern text).2.get? id = s.get? id
  handles : ∀ other, other ≠ text → (s.intern text).2.lookup? other = s.lookup? other
  null : (s.intern text).1 = .null ↔ text = ""

theorem InStep.interns (h : s.InStep) (first : s.get? .null = some "") (text : String)
    (fits : (s.intern text).2.size ≤ UInt32.size) : Interns s text := by
  have room := Nat.le_trans (size_le_intern s text) fits
  have reads : (s.intern text).2.get? (s.intern text).1 = some text :=
    ((h.intern text).lookup?_eq_some_iff_get? fits).mp (lookup?_intern s text)
  have null : (s.intern text).2.get? .null = some "" := by
    obtain ⟨inside, -⟩ := Array.getElem?_eq_some_iff.mp first
    exact (get?_intern_of_ne (Nat.ne_of_lt inside) text).trans first
  constructor
  case known => exact fun id found => intern_of_lookup? found
  case next =>
    intro unknown
    have size : (s.intern text).2.size = s.size + 1 := by
      rw [intern_of_unknown unknown]
      exact Array.size_push _
    rw [size] at fits
    refine ⟨?_, size⟩
    rw [intern_of_unknown unknown]
    exact Handle.index_ofIndex fits
  case reads => exact reads
  case texts => exact fun id ne => get?_intern_of_ne ne text
  case handles => exact fun other ne => lookup?_intern_of_ne ne
  case null =>
    constructor
    · intro same
      rw [same, null] at reads
      exact (Option.some.inj reads).symm
    · rintro rfl
      have found := (h.lookup?_eq_some_iff_get? room).mpr first
      rw [intern_of_lookup? found]

theorem get?_null_internAll (texts : List String) :
    (empty.internAll texts).get? .null = some "" := by
  have keeps (texts : List String) {s : Strings} (first : s.get? .null = some "") :
      (s.internAll texts).get? .null = some "" := by
    induction texts generalizing s with
    | nil => exact first
    | cons text texts ih =>
      obtain ⟨inside, -⟩ := Array.getElem?_eq_some_iff.mp first
      exact ih ((get?_intern_of_ne (Nat.ne_of_lt inside) text).trans first)
  exact keeps texts rfl

/-- Texts and handles determine each other, the handles being the numbers below the size. -/
theorem interning_is_bijective (texts : List String) (few : texts.toFinset.card < UInt32.size) :
    (∀ text id, (empty.internAll texts).lookup? text = some id ↔
      (empty.internAll texts).get? id = some text) ∧
    (∀ i, (∃ id : StringId, id.index = i ∧ ((empty.internAll texts).get? id).isSome) ↔
      i < (empty.internAll texts).size) ∧
    (empty.internAll texts).size = (texts.toFinset.erase "").card + 1 ∧
    ∀ text, (texts ++ [text]).toFinset.card < UInt32.size →
      Interns (empty.internAll texts) text := by
  have fits {texts : List String} (few : texts.toFinset.card < UInt32.size) :
      (empty.internAll texts).size ≤ UInt32.size := by
    have fewer := Finset.card_le_card (Finset.erase_subset "" texts.toFinset)
    rw [size_internAll]
    omega
  have inStep := inStep_empty.internAll texts
  refine ⟨fun text id => inStep.lookup?_eq_some_iff_get? (fits few), fun i => ?_,
    size_internAll texts, fun text room => ?_⟩
  · constructor
    · rintro ⟨id, rfl, known⟩
      rwa [get?, isSome_getElem?] at known
    · intro inside
      have index : (Handle.ofIndex i : StringId).index = i :=
        Handle.index_ofIndex (Nat.lt_of_lt_of_le inside (fits few))
      refine ⟨Handle.ofIndex i, index, ?_⟩
      rwa [get?, isSome_getElem?, index]
  · have longer := fits room
    rw [internAll, List.foldl_append] at longer
    exact inStep.interns (get?_null_internAll texts) text longer

theorem interning_is_bijective_repeated :
    (empty.internAll ["b", "", "é", "b"]).size = 3 ∧
    ((empty.internAll ["b", "", "é", "b"]).lookup? "é" = some ⟨2⟩ ↔
      (empty.internAll ["b", "", "é", "b"]).get? ⟨2⟩ = some "é") ∧
    Interns (empty.internAll ["b", "", "é", "b"]) "c" := by
  obtain ⟨bijective, -, size, interns⟩ :=
    interning_is_bijective ["b", "", "é", "b"] (by decide)
  exact ⟨size, bijective "é" ⟨2⟩, interns "c" (by decide)⟩

end TraceTracks.Strings
