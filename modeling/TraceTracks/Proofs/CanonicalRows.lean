import Mathlib.Logic.ExistsUnique
import TraceTracks.Proofs.Hierarchy

/-! One row for each uuid with a track, and one such uuid for each row. -/
namespace TraceTracks
namespace Session

structure RowOf (c : Session) (u : Uuid) (p : Placement) (row : Track) : Prop where
  found : c.rows[p.track.index]? = some row
  id : row.id = p.track
  scope : row.scope = p.scope
  flavor : row.flavor = p.flavor
  uuid : c.rowUuid? p.track = some u

/-- The memo is a bijection between the uuids that have a track and the rows of the track table. -/
structure Canonical (c : Session) : Prop where
  row : ∀ u p, c.placement? u = some p → ∃ row, RowOf c u p row
  apart : ∀ u v p q, c.placement? u = some p → c.placement? v = some q → p.track = q.track → u = v
  owner : ∀ i < c.rows.size, ∃! u, ∃ p, c.placement? u = some p ∧ p.track.index = i

section Rows
variable {log : List Entry} {c : Session}

theorem Sound.apart (s : Sound log [] c) {u v : Uuid} {p q : Placement}
    (hp : c.placement? u = some p) (hq : c.placement? v = some q) (same : p.track = q.track) :
    u = v :=
  s.unique u v p q (.placed hp) (.placed hq) same

theorem Sound.placement?_of_row? (s : Sound log [] c) {id : TrackId} {row : Track}
    (h : c.row? id = some row) : ∃ u p, c.placement? u = some p ∧ p.track = id ∧
      row.scope = p.scope ∧ row.flavor = p.flavor := by
  obtain ⟨u, p, t, rfl⟩ := s.taken id (by simp [h])
  obtain ⟨name, hrow⟩ := s.row_of_taken t
  rw [h] at hrow
  cases hrow
  exact ⟨u, p, t.placement?, rfl, rfl, rfl⟩

theorem Sound.canonical (s : Sound log [] c) (words : c.vocabulary.Distinct) (fits : c.Fits) :
    Canonical c where
  row u p hp := by
    obtain ⟨name, hrow⟩ := s.row_of_taken (.placed hp)
    exact ⟨_, hrow, rfl, rfl, rfl, s.rowUuid?_of_placement? words hp⟩
  apart u v p q hp hq same := s.apart hp hq same
  owner i hi := by
    have index : (Handle.ofIndex i : TrackId).index = i :=
      Handle.index_ofIndex (Nat.lt_of_lt_of_le hi fits.rows)
    have present : (c.row? (Handle.ofIndex i)).isSome := by
      rw [row?_isSome_iff, index]
      exact hi
    obtain ⟨row, hrow⟩ := Option.isSome_iff_exists.mp present
    obtain ⟨u, p, hp, track, -⟩ := s.placement?_of_row? hrow
    refine ⟨u, ⟨p, hp, by rw [track, index]⟩, ?_⟩
    rintro v ⟨q, hq, hi⟩
    refine s.apart hq hp (Handle.index_inj.mp ?_)
    rw [hi, track, index]

end Rows
end Session

namespace History

/-- Neither recycled ids nor loops nor what callers do to lifetimes make two uuids share a row. -/
theorem canonical_rows (h : History) (fits : h.state.Fits) : Session.Canonical h.state :=
  (sound fits).canonical (distinct fits) fits

theorem canonical_rows_recycled : Session.Canonical recycled.state :=
  recycled.canonical_rows
    ⟨by decide +kernel, by decide +kernel, by decide +kernel⟩

end History
end TraceTracks
