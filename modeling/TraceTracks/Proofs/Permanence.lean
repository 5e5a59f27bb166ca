import TraceTracks.Proofs.Naming

/-! What was resolved stays. Later moves make rows of their own, so that a row which is there keeps
its place, its arguments and the uuid that it was made for; at most it gets a name that it did not
have. -/
namespace TraceTracks
namespace Session
variable {log : List Entry} {a b c c' : Session} {u : Uuid} {p : Placement}

section Lasting

/-- Placements, rows and arguments last, and so do names. -/
structure Lasting (c c' : Session) : Prop where
  placed : ∀ u p, c.placement? u = some p → c'.placement? u = some p
  args : ∀ id, (c.row? id).isSome → c'.argsOf id = c.argsOf id
  row : ∀ id row, c.row? id = some row →
    ∃ name, c'.row? id = some { row with name := name } ∧ (row.name ≠ .null → name = row.name)

theorem Lasting.refl (c : Session) : Lasting c c where
  placed _ _ h := h
  args _ _ := rfl
  row _ row h := ⟨row.name, h, fun _ => rfl⟩

theorem Lasting.trans (h : Lasting a b) (h' : Lasting b c) : Lasting a c where
  placed u p hp := h'.placed u p (h.placed u p hp)
  args id present := by
    obtain ⟨row, hrow⟩ := Option.isSome_iff_exists.mp present
    obtain ⟨name, kept, -⟩ := h.row id row hrow
    exact (h'.args id (Option.isSome_of_eq_some kept)).trans (h.args id present)
  row id row hrow := by
    obtain ⟨name, kept, same⟩ := h.row id row hrow
    obtain ⟨name', kept', same'⟩ := h'.row id _ kept
    refine ⟨name', kept', fun named => ?_⟩
    rw [← same named]
    exact same' (same named ▸ named)

end Lasting

section Moves

theorem Sound.argsOf_kept (s : Sound log [] c) (x : Extends c c') {id : TrackId}
    (present : (c.row? id).isSome) : c'.argsOf id = c.argsOf id := by
  obtain ⟨row, hrow⟩ := Option.isSome_iff_exists.mp present
  obtain ⟨u, p, placed, rfl, -⟩ := s.placement?_of_row? hrow
  exact x.args u p placed

theorem Sound.row?_kept {cuts : List Cut} (s : Sound log [] c) (x : Progress c c' cuts)
    {id : TrackId} {row : Track} (hrow : c.row? id = some row) : c'.row? id = some row := by
  obtain ⟨u, p, placed, rfl, -⟩ := s.placement?_of_row? hrow
  exact (x.steady u p placed).trans hrow

theorem row?_heard_cases {id : TrackId} {row : Track} (hrow : c.row? id = some row) (u : Uuid)
    (event : StringId) : (c.heard u event).row? id = some row ∨
      ∃ p, c.placement? u = some p ∧ p.track = id ∧ row.name = .null ∧ event ≠ .null ∧
        (c.heard u event).row? id = some { row with name := event } := by
  unfold heard
  cases placed : c.placement? u with
  | none => exact .inl hrow
  | some p =>
    dsimp only
    split
    next unnamed =>
      by_cases here : id = p.track
      · subst here
        rw [hrow, Option.any_some, Bool.and_eq_true, Bool.and_eq_true, Bool.not_eq_true'] at unnamed
        refine .inr ⟨p, rfl, rfl, StringId.isNull_iff.mp unnamed.1, ?_, ?_⟩
        · rintro rfl
          cases unnamed.2.1
        · rw [row?_withName, if_pos rfl, hrow, Option.map_some]
      · rw [row?_withName, if_neg here]
        exact .inl hrow
    next => exact .inl hrow

/-- A move leaves a row as it is, unless it names the track of the uuid that it passes an event
with. -/
theorem Sound.row?_move (s : Sound log [] c) (m : Move) (fits : (c.move m).Fits) {id : TrackId}
    {row : Track} (hrow : c.row? id = some row) : (c.move m).row? id = some row ∨
      ∃ u event p, m = .command (.track u event) ∧ c.placement? u = some p ∧ p.track = id ∧
        row.name = .null ∧ event ≠ .null ∧
        (c.move m).row? id = some { row with name := event } := by
  cases m with
  | errand e => exact .inl (by cases e <;> exact hrow)
  | command command =>
    cases command with
    | announce u descriptor =>
      refine .inl (Eq.trans ?_ hrow)
      simp only [move, Catalog.perform, Catalog.reserve]
      split <;> rfl
    | sample u s x => exact .inl hrow
    | clear s => exact .inl hrow
    | defaultTrack =>
      rw [move, perform_defaultTrack] at fits ⊢
      obtain ⟨_, c', found, -, -, progress⟩ := defaultTrackId_ok s fits
      rw [found]
      exact .inl (s.row?_kept progress hrow)
    | track u event =>
      rw [move, perform_track] at fits ⊢
      obtain ⟨c₁, heard, sound, progress, -⟩ := track?_heard s fits
      rw [heard]
      rcases row?_heard_cases (s.row?_kept progress hrow) u event with
        kept | ⟨p, placed, here, unnamed, named, renamed⟩
      · exact .inl kept
      · -- The row was there before, so the track of the event's uuid was.
        obtain ⟨v, q, placed', there, -⟩ := s.placement?_of_row? hrow
        have kept := progress.kept.placed v q placed'
        obtain rfl : v = u := sound.apart kept placed (there.trans here.symm)
        exact .inr ⟨v, event, q, rfl, placed', there, unnamed, named, renamed⟩

theorem Sound.lasting_move (s : Sound log [] c) (m : Move) (fits : (c.move m).Fits) :
    Lasting c (c.move m) := by
  have kept := (move_ok s m fits).kept
  refine ⟨kept.placed, fun id => s.argsOf_kept kept, fun id row hrow => ?_⟩
  rcases s.row?_move m fits hrow with same | ⟨u, event, p, -, -, -, unnamed, -, renamed⟩
  · exact ⟨row.name, same, fun _ => rfl⟩
  · exact ⟨event, renamed, fun named => absurd unnamed named⟩

theorem Sound.lasting_after (s : Sound log [] c) (moves : List Move) (fits : (c.after moves).Fits) :
    Lasting c (c.after moves) := by
  induction moves generalizing log c with
  | nil => exact .refl c
  | cons m moves ih =>
    have roomy : (c.move m).Fits := fits.of_grows (grows_after _ moves)
    exact (s.lasting_move m roomy).trans (ih (move_ok s m roomy).sound fits)

theorem Sound.reservation?_move (s : Sound log [] c) {m : Move} (fits : (c.move m).Fits)
    (looksUp : (∃ u event, m = .command (.track u event)) ∨ m = .command .defaultTrack) {v : Uuid}
    (other : v ≠ 0 ∨ (c.reservation? 0).isSome) : (c.move m).reservation? v = c.reservation? v := by
  have untouched {c' : Session} {cuts : List Cut} (x : Progress c c' cuts) :
      c'.reservation? v = c.reservation? v := by
    rcases x.announced v with same | ⟨zero, unreserved, -⟩
    · exact same
    · rw [unreserved] at other
      exact (other.elim (absurd zero) Bool.noConfusion)
  rcases looksUp with ⟨u, event, rfl⟩ | rfl
  · rw [move, perform_track] at fits ⊢
    obtain ⟨c₁, heard, -, progress, -⟩ := track?_heard s fits
    rw [heard, reservation?_heard]
    exact untouched progress
  · rw [move, perform_defaultTrack] at fits ⊢
    obtain ⟨_, c', found, -, -, progress⟩ := defaultTrackId_ok s fits
    rw [found]
    exact untouched progress

theorem track?_null_of_placed (placed : c.placement? u = some p) :
    Catalog.track? u .null c = .ok (some p.track) c := by
  rw [Catalog.track?_eq_bind, Act.bind_ok (Catalog.resolve_of_placement? placed _ _)]
  rfl

end Moves
end Session

namespace History

def nameless : History where
  settings := .default
  before := [.intern "early", .intern "late"]
  moves := [.command (.announce 2 (.child 0 .null)), .command (.track 2 .null)]
  room := by decide +kernel

/-- Whatever is done next, uuids keep their tracks, rows keep what they are and all their arguments,
and a row is left as it is unless it gets the name of an event that its uuid is looked up for. A
look-up announces the default track at most. Later moves, any number of them, add nothing to
this. -/
theorem resolution_is_permanent (h : History) (m : Move) (more : List Move)
    (fits : ((h.state.move m).after more).Fits) :
    (∀ u p, h.state.placement? u = some p → (h.state.move m).placement? u = some p) ∧
    (∀ id row, h.state.row? id = some row →
      (h.state.move m).argsOf id = h.state.argsOf id ∧
      ((h.state.move m).row? id = some row ∨
        ∃ u event p, m = .command (.track u event) ∧ h.state.placement? u = some p ∧
          p.track = id ∧ row.name = .null ∧ event ≠ .null ∧
          (h.state.move m).row? id = some { row with name := event })) ∧
    ((∃ u event, m = .command (.track u event)) ∨ m = .command .defaultTrack →
      ∀ v, v ≠ 0 ∨ (h.state.reservation? 0).isSome →
        (h.state.move m).reservation? v = h.state.reservation? v) ∧
    (∀ u p, h.state.placement? u = some p →
      Catalog.track? u .null h.state = .ok (some p.track) h.state) ∧
    h.state.Lasting ((h.state.move m).after more) := by
  have roomy : (h.state.move m).Fits := fits.of_grows (Session.grows_after _ more)
  have sound := h.sound (roomy.of_grows (Session.grows_move _ m))
  have first := sound.lasting_move m roomy
  refine ⟨first.placed, fun id row hrow => ?_, fun looksUp v => ?_, fun u p => ?_, ?_⟩
  · exact ⟨first.args id (Option.isSome_of_eq_some hrow), sound.row?_move m roomy hrow⟩
  · exact sound.reservation?_move roomy looksUp
  · exact Session.track?_null_of_placed
  · exact first.trans ((Session.move_ok sound m roomy).sound.lasting_after more fits)

theorem resolution_is_permanent_nameless :
    nameless.state.row? ⟨0⟩ = some ⟨⟨0⟩, .null, .global, .slice⟩ ∧
      (nameless.state.move (.command (.track 2 ⟨1⟩))).row? ⟨0⟩ =
        some ⟨⟨0⟩, ⟨1⟩, .global, .slice⟩ ∧
      nameless.state.Lasting ((nameless.state.move (.command (.track 2 ⟨1⟩))).after
        [.command (.announce 3 (.thread 2 4 5 .null 1)), .command (.track 3 .null),
          .command (.track 2 ⟨2⟩)]) := by
  obtain ⟨-, -, -, -, lasting⟩ := nameless.resolution_is_permanent (.command (.track 2 ⟨1⟩))
    [.command (.announce 3 (.thread 2 4 5 .null 1)), .command (.track 3 .null),
      .command (.track 2 ⟨2⟩)]
    ⟨by decide +kernel, by decide +kernel, by decide +kernel⟩
  exact ⟨by decide +kernel, by decide +kernel, lasting⟩

end History
end TraceTracks
