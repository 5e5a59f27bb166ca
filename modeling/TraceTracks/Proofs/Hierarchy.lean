import TraceTracks.Proofs.History

/-! The hierarchy of tracks as anybody can read it off the tables: the arguments of a row name its
uuid and the row of its parent. -/
namespace TraceTracks

section ArgsFor
variable {w : Vocabulary} {uuid : Uuid} {parent : Option TrackId} {category : StringId}

theorem find?_argsFor_sourceId (h : w.Distinct) :
    ((argsFor w uuid parent category).find? (·.key = w.sourceId)).map Arg.value =
      some (.integer uuid.toInt64) := by
  simp only [Vocabulary.Distinct, List.nodup_cons, List.mem_cons, not_or] at h
  simp [argsFor, h.1.1]

theorem find?_argsFor_parentTrackId (h : w.Distinct) :
    ((argsFor w uuid parent category).find? (·.key = w.parentTrackId)).map Arg.value =
      parent.map fun p => .integer (Int64.ofNat p.index) := by
  simp only [Vocabulary.Distinct, List.nodup_cons, List.mem_cons, not_or] at h
  obtain ⟨⟨-, hs, -⟩, ⟨hi, -⟩, ⟨hc, -⟩, -⟩ := h
  cases parent with
  | some p => simp [argsFor, hs, hi]
  | none =>
    unfold argsFor
    split
    · simp [hs, hi]
    · simp [hs, hi, Ne.symm hc]

theorem find?_argsFor_category (h : w.Distinct) :
    ((argsFor w uuid parent category).find? (·.key = w.category)).map Arg.value =
      (StringId.nonNull? category).map .string := by
  simp only [Vocabulary.Distinct, List.nodup_cons, List.mem_cons, not_or] at h
  obtain ⟨⟨-, -, hs, -⟩, ⟨-, hi, -⟩, ⟨hp, -⟩, -⟩ := h
  cases hc : StringId.isNull category <;> cases parent <;>
    simp [argsFor, StringId.nonNull?, hc, hs, hi, hp]

theorem value_of_mem_argsFor (h : w.Distinct) {arg : Arg}
    (ha : arg ∈ argsFor w uuid parent category) (key : arg.key = w.parentTrackId) :
    ∃ p, parent = some p ∧ arg.value = .integer (Int64.ofNat p.index) := by
  simp only [Vocabulary.Distinct, List.nodup_cons, List.mem_cons, not_or] at h
  obtain ⟨⟨-, hs, -⟩, ⟨hi, -⟩, ⟨hc, -⟩, -⟩ := h
  simp only [argsFor, List.mem_append, List.mem_cons, List.not_mem_nil, or_false,
    Option.mem_toList, Option.map_eq_some_iff] at ha
  rcases ha with ((rfl | rfl) | ⟨p, hp, rfl⟩) | ha
  · exact absurd key hs
  · exact absurd key hi
  · exact ⟨p, hp, rfl⟩
  · split at ha
    · cases ha
    · rw [List.mem_singleton.mp ha] at key
      exact absurd key.symm hc

end ArgsFor

def Handle.ofInt64 {noun : Noun} (n : Int64) : Handle noun := ofIndex n.toUInt64.toNat

theorem Handle.ofInt64_index {noun : Noun} (h : Handle noun) :
    ofInt64 (Int64.ofNat h.index) = h := by
  have hn : (Int64.ofNat h.index).toUInt64 = UInt64.ofNat h.index := rfl
  have hlt : h.index < UInt64.size := Nat.lt_trans h.index_lt (by decide)
  rw [ofInt64, hn, UInt64.toNat_ofNat_of_lt' hlt, ofIndex_index]

namespace Session

def rowParent? (c : Session) (id : TrackId) : Option TrackId :=
  ((c.backend.store.arg? id c.vocabulary.parentTrackId).bind ArgValue.integer?).map Handle.ofInt64

def rowUuid? (c : Session) (id : TrackId) : Option Uuid :=
  ((c.backend.store.arg? id c.vocabulary.sourceId).bind ArgValue.integer?).map Int64.toUInt64

/-- The uuid of the parent of a uuid's track, read off the rows. -/
def parentOf? (c : Session) (u : Uuid) : Option Uuid := do
  let p ← c.placement? u
  let row ← c.rowParent? p.track
  c.rowUuid? row

section Stands
variable {log : List Entry} {held : List Held} {c : Session} {e : Entry} {r : Reservation}
  {p : Placement} {q : Option Placement}

theorem Stands.rowUuid?_eq (s : Stands c e r p q) (words : c.vocabulary.Distinct) :
    c.rowUuid? p.track = some e.uuid := by
  have hargs : c.backend.store.args.ofTrack p.track = _ := s.args
  rw [rowUuid?, Store.arg?, Args.get?, hargs, find?_argsFor_sourceId words]
  simp [ArgValue.integer?]

theorem Stands.rowParent?_eq (s : Stands c e r p q) (words : c.vocabulary.Distinct) :
    c.rowParent? p.track = q.map Placement.track := by
  have hargs : c.backend.store.args.ofTrack p.track = _ := s.args
  rw [rowParent?, Store.arg?, Args.get?, hargs, find?_argsFor_parentTrackId words]
  cases q with
  | none => rfl
  | some q => simp [ArgValue.integer?, Handle.ofInt64_index]

theorem Stands.parent_cases (s : Stands c e r p q) : (e.parent = none ∧ q = none) ∨
    ∃ v q', e.parent = some v ∧ q = some q' ∧ c.placement? v = some q' := by
  have parent := s.parent
  cases hv : e.parent with
  | none =>
    rw [hv] at parent
    cases q with
    | none => exact .inl ⟨rfl, rfl⟩
    | some q' => cases parent
  | some v =>
    rw [hv] at parent
    cases q with
    | none => cases parent
    | some q' => exact .inr ⟨v, q', rfl, rfl, Option.some.inj parent⟩

theorem Stands.plain (s : Stands c e r p q) (hpid : r.pid = none) :
    p.scope = ((if e.parent = some 0 then none else q).bind Placement.childScope).getD .global ∧
      p.flavor = if r.isCounter then .counter else .slice := by
  have suits := s.suits
  have hpid : r.toShape.pid = none := hpid
  simp only [Placement.Suits, hpid] at suits
  exact suits

theorem Sound.rowUuid?_of_placement? (s : Sound log held c) (words : c.vocabulary.Distinct)
    {u : Uuid} {p : Placement} (hp : c.placement? u = some p) : c.rowUuid? p.track = some u := by
  obtain ⟨e, -, rfl, r, q, stands⟩ := s.stands_of_placement? hp
  exact stands.rowUuid?_eq words

theorem Sound.parentOf?_eq (s : Sound log held c) (words : c.vocabulary.Distinct) (he : e ∈ log) :
    c.parentOf? e.uuid = e.parent := by
  obtain ⟨r, p, q, stands⟩ := s.placed e he
  rw [parentOf?, stands.placed]
  change (c.rowParent? p.track).bind c.rowUuid? = e.parent
  rw [stands.rowParent?_eq words]
  rcases stands.parent_cases with ⟨hv, rfl⟩ | ⟨v, q', hv, rfl, placed⟩
  · rw [hv]
    rfl
  · rw [hv]
    exact s.rowUuid?_of_placement? words placed

end Stands
end Session
end TraceTracks
