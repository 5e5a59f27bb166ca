import Mathlib.Logic.Relation
import TraceTracks.Proofs.CanonicalRows

/-! The rows form a forest. A row may be made before the row of its parent, so handles do not order
children after parents; the order in which uuids were remembered does. -/
namespace TraceTracks
namespace Session

def Below (c : Session) (id parent : TrackId) : Prop := c.rowParent? id = some parent

def BelowWithin (c : Session) (scope : Scope) (id parent : TrackId) : Prop :=
  c.Below id parent ∧ ∃ row, c.row? parent = some row ∧ row.scope = scope ∧ row.flavor = .slice

/-- Why a row may be without a parent: it is the default track's, the primary track of a uuid with a
pid, or the track of a uuid whose link to the default track closed a loop. -/
def RootOf (log : List Entry) (c : Session) (u : Uuid) (p : Placement) : Prop :=
  u = 0 ∨
  (∃ r, c.reservation? u = some r ∧ r.pid.isSome ∧ c.primary? p.scope = some p.track) ∨
  ∃ e ∈ log, e.uuid = u ∧ .defaultLoop ∈ e.cuts

structure Forest (log : List Entry) (c : Session) : Prop where
  parent : ∀ id, ∀ arg ∈ c.argsOf id, arg.key = c.vocabulary.parentTrackId →
    ∃ u p, c.placement? u = some p ∧ arg.value = .integer (Int64.ofNat p.track.index)
  acyclic : ∀ id, ¬Relation.TransGen c.Below id id
  rooted : ∀ id, (c.row? id).isSome →
    ∃ root, Relation.ReflTransGen c.Below id root ∧ (c.row? root).isSome ∧
      c.rowParent? root = none
  root : ∀ id, (c.row? id).isSome → c.rowParent? id = none →
    ∃ u p, c.placement? u = some p ∧ p.track = id ∧ RootOf log c u p
  primary : ∀ id row, c.row? id = some row → row.scope ≠ .global →
    ∃ primary, c.primary? row.scope = some primary ∧
      Relation.ReflTransGen (c.BelowWithin row.scope) id primary

section Links
variable {log : List Entry} {c : Session}

theorem Sound.placed_of_mem_argsOf (s : Sound log [] c) {id : TrackId} {arg : Arg}
    (h : arg ∈ c.argsOf id) : ∃ u p, c.placement? u = some p ∧ p.track = id := by
  apply Classical.byContradiction
  intro none
  rw [s.bare id fun u p hp ht => none ⟨u, p, hp, ht⟩] at h
  cases h

theorem Sound.parent_placed (s : Sound log [] c) (words : c.vocabulary.Distinct) {id : TrackId}
    {arg : Arg} (h : arg ∈ c.argsOf id) (key : arg.key = c.vocabulary.parentTrackId) :
    ∃ u p, c.placement? u = some p ∧ arg.value = .integer (Int64.ofNat p.track.index) := by
  obtain ⟨u, p, hp, rfl⟩ := s.placed_of_mem_argsOf h
  obtain ⟨e, -, rfl, r, q, stands⟩ := s.stands_of_placement? hp
  rw [stands.args] at h
  obtain ⟨track, above, value⟩ := value_of_mem_argsFor words h key
  rcases stands.parent_cases with ⟨-, rfl⟩ | ⟨v, q', -, rfl, hq⟩
  · cases above
  · cases above
    exact ⟨v, q', hq, value⟩

theorem Sound.below_cases (s : Sound log [] c) (words : c.vocabulary.Distinct) {id parent : TrackId}
    (h : c.Below id parent) : ∃ u v p q, c.placement? u = some p ∧ p.track = id ∧
      c.placement? v = some q ∧ q.track = parent ∧ c.placements.rank v < c.placements.rank u := by
  have written : ∃ arg, arg ∈ c.argsOf id := by
    apply List.exists_mem_of_ne_nil
    intro bare
    rw [argsOf] at bare
    rw [Below, rowParent?, Store.arg?, Args.get?, bare] at h
    cases h
  obtain ⟨arg, harg⟩ := written
  obtain ⟨u, p, hp, rfl⟩ := s.placed_of_mem_argsOf harg
  obtain ⟨e, -, rfl, r, q, stands⟩ := s.stands_of_placement? hp
  rw [Below, stands.rowParent?_eq words] at h
  rcases stands.parent_cases with ⟨-, rfl⟩ | ⟨v, q', hv, rfl, hq⟩
  · cases h
  · exact ⟨e.uuid, v, p, q', hp, rfl, hq, Option.some.inj h, stands.rank v hv⟩

theorem Sound.rank_lt_of_transGen (s : Sound log [] c) (words : c.vocabulary.Distinct)
    {id top : TrackId} (h : Relation.TransGen c.Below id top) : ∃ u v p q,
      c.placement? u = some p ∧ p.track = id ∧ c.placement? v = some q ∧ q.track = top ∧
      c.placements.rank v < c.placements.rank u := by
  induction h with
  | single link => exact s.below_cases words link
  | tail _ link ih =>
    obtain ⟨u, v, p, q, hp, hid, hq, hmid, lt⟩ := ih
    obtain ⟨v', w, q', p', hq', hmid', hw, htop, lt'⟩ := s.below_cases words link
    obtain rfl : v' = v := s.apart hq' hq (hmid'.trans hmid.symm)
    exact ⟨u, w, p, p', hp, hid, hw, htop, Nat.lt_trans lt' lt⟩

/-- Going up, the rank sinks until a row without a parent is met. -/
theorem Sound.reaches_root (s : Sound log [] c) (words : c.vocabulary.Distinct) {u : Uuid}
    {p : Placement} (hp : c.placement? u = some p) :
    ∃ root, Relation.ReflTransGen c.Below p.track root ∧ (c.row? root).isSome ∧
      c.rowParent? root = none := by
  induction hn : c.placements.rank u using Nat.strongRecOn generalizing u p with
  | _ n ih =>
  subst hn
  cases h : c.rowParent? p.track with
  | none =>
    obtain ⟨name, hrow⟩ := s.row_of_taken (.placed hp)
    exact ⟨p.track, .refl, by simp [hrow], h⟩
  | some parent =>
    obtain ⟨v, w, p', q, hv, track, hq, rfl, lt⟩ := s.below_cases words h
    obtain rfl : v = u := s.apart hv hp track
    obtain ⟨root, path, present, top⟩ := ih _ lt hq rfl
    exact ⟨root, .head h path, present, top⟩

theorem Sound.rootOf (s : Sound log [] c) (words : c.vocabulary.Distinct) {u : Uuid}
    {p : Placement} (hp : c.placement? u = some p) (top : c.rowParent? p.track = none) :
    RootOf log c u p := by
  obtain ⟨e, he, rfl, r, q, stands⟩ := s.stands_of_placement? hp
  rw [stands.rowParent?_eq words] at top
  rcases stands.parent_cases with ⟨none, -⟩ | ⟨v, q', -, rfl, -⟩
  · rcases stands.due.none none with pid | zero | cut
    · exact .inr (.inl ⟨r, stands.reserved, pid, (stands.owned pid).2⟩)
    · exact .inl zero
    · exact .inr (.inr ⟨e, he, rfl, cut⟩)
  · cases top

theorem Stands.scope_eq {e : Entry} {r : Reservation} {p : Placement} {q : Option Placement}
    (s : Stands c e r p q) (hpid : r.pid = none) (entity : p.scope ≠ .global) :
    ∃ v q', e.parent = some v ∧ q = some q' ∧ c.placement? v = some q' ∧ q'.scope = p.scope ∧
      q'.flavor = .slice := by
  have scope := (s.plain hpid).1
  split at scope
  · exact absurd scope entity
  rcases s.parent_cases with ⟨-, rfl⟩ | ⟨v, q', hv, rfl, hq⟩
  · exact absurd scope entity
  · refine ⟨v, q', hv, rfl, hq, ?_⟩
    simp only [Option.bind_some, Placement.childScope] at scope
    cases hf : q'.flavor <;> cases hs : q'.scope <;> simp_all

/-- Up along plain tracks of the same thread or process, the primary track is met. -/
theorem Sound.reaches_primary (s : Sound log [] c) (words : c.vocabulary.Distinct) {u : Uuid}
    {p : Placement} (hp : c.placement? u = some p) (entity : p.scope ≠ .global) :
    ∃ primary, c.primary? p.scope = some primary ∧
      Relation.ReflTransGen (c.BelowWithin p.scope) p.track primary := by
  induction hn : c.placements.rank u using Nat.strongRecOn generalizing u p with
  | _ n ih =>
  subst hn
  obtain ⟨e, -, rfl, r, q, stands⟩ := s.stands_of_placement? hp
  cases hpid : r.pid with
  | some pid => exact ⟨p.track, (stands.owned (by simp [hpid])).2, .refl⟩
  | none =>
    obtain ⟨v, q', hv, rfl, hq, scope, slice⟩ := stands.scope_eq hpid entity
    obtain ⟨primary, found, path⟩ := ih _ (stands.rank v hv) hq (scope ▸ entity) rfl
    obtain ⟨name, hrow⟩ := s.row_of_taken (.placed hq)
    have link : c.BelowWithin p.scope p.track q'.track :=
      ⟨stands.rowParent?_eq words, _, hrow, scope, slice⟩
    rw [scope] at found path
    exact ⟨primary, found, .head link path⟩

theorem Sound.forest (s : Sound log [] c) (words : c.vocabulary.Distinct) : Forest log c where
  parent id arg h key := s.parent_placed words h key
  acyclic id h := by
    obtain ⟨u, v, p, q, hp, hid, hq, hid', lt⟩ := s.rank_lt_of_transGen words h
    obtain rfl : u = v := s.apart hp hq (hid.trans hid'.symm)
    exact Nat.lt_irrefl _ lt
  rooted id h := by
    obtain ⟨row, hrow⟩ := Option.isSome_iff_exists.mp h
    obtain ⟨u, p, hp, rfl, -⟩ := s.placement?_of_row? hrow
    exact s.reaches_root words hp
  root id h top := by
    obtain ⟨row, hrow⟩ := Option.isSome_iff_exists.mp h
    obtain ⟨u, p, hp, rfl, -⟩ := s.placement?_of_row? hrow
    exact ⟨u, p, hp, rfl, s.rootOf words hp top⟩
  primary id row hrow entity := by
    obtain ⟨u, p, hp, rfl, scope, -⟩ := s.placement?_of_row? hrow
    rw [scope] at entity ⊢
    exact s.reaches_primary words hp entity

end Links
end Session

namespace History

/-- The hierarchy is a forest, whatever was announced, and every dropped link in the log was counted
as often as it is there. -/
theorem hierarchy_is_forest (h : History) (fits : h.state.Fits) :
    Session.Forest h.log h.state ∧ h.log.map Entry.uuid = h.state.placements.keys ∧
      ∀ cut : Cut, h.state.countOf cut.anomaly = cutCount cut.anomaly (cutsOf h.log) :=
  ⟨(sound fits).forest (distinct fits), (sound fits).keys.symm, countOf_eq fits⟩

theorem hierarchy_is_forest_looped : Session.Forest looped.log looped.state ∧
    looped.log.map Entry.uuid = looped.state.placements.keys ∧
      ∀ cut : Cut, looped.state.countOf cut.anomaly = cutCount cut.anomaly (cutsOf looped.log) :=
  looped.hierarchy_is_forest ⟨by decide +kernel, by decide +kernel, by decide +kernel⟩

end History
end TraceTracks
