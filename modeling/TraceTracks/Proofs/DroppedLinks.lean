import TraceTracks.Proofs.CanonicalRows
import TraceTracks.Proofs.WellFormed

/-! The books of dropped links balance. A uuid whose track is not below the parent that it was
announced with has had one link dropped, and so has a uuid that found no shelter below the default
track; every entry of a log pays for exactly these. -/
namespace TraceTracks

theorem length_eq_cutCount (cuts : List Cut) : cuts.length =
    cutCount .unknownParent cuts + cutCount .loop cuts + cutCount .tooManyAncestors cuts := by
  induction cuts with
  | nil => rfl
  | cons cut cuts ih =>
    have one : cutCount .unknownParent [cut] + cutCount .loop [cut] +
        cutCount .tooManyAncestors [cut] = 1 := by cases cut <;> rfl
    rw [List.length_cons, ← List.singleton_append, cutCount_append, cutCount_append,
      cutCount_append, ih]
    omega

namespace Catalog
variable {β : Type}

def displaces (c : Catalog β) (e : Entry) : Bool :=
  decide (c.declared e.uuid ≠ 0 ∧ e.parent ≠ some (c.declared e.uuid))

def strands (c : Catalog β) (e : Entry) : Bool := decide (c.homeless e.uuid ∧ e.parent = none)

/-- The links dropped for an entry are those that it lacks. -/
def Balanced (c : Catalog β) (e : Entry) : Prop :=
  e.cuts.length = (c.displaces e).toNat + (c.strands e).toNat

section Survey
variable {c c' : Catalog β} {limit : Nat} {path : List Uuid} {u : Uuid} {k : Nat} {ending : Ending}

theorem Balanced.congr {e : Entry} (h : c.Balanced e)
    (declared : c'.declared e.uuid = c.declared e.uuid)
    (homeless : c'.homeless e.uuid = c.homeless e.uuid) : c'.Balanced e := by
  unfold Balanced displaces strands at *
  rw [declared, homeless]
  exact h

theorem Announces.balanced {e : Entry} (h : c.Announces c') (b : c.Balanced e) : c'.Balanced e :=
  b.congr (by rw [h.declared_eq]) (by rw [h.homeless_eq])

theorem Stops.cases (s : c.Stops limit path u k ending) :
    (c.declared (c.link u k) = 0 ∧ ending = .root) ∨ (c.declared (c.link u k) ≠ 0 ∧
      (ending = .join (c.declared (c.link u k)) ∨
        ending.joined? = none ∧ ending.cuts.length = 1)) := by
  have here := s.here
  unfold stop? at here
  dsimp only at here
  split at here
  next h0 => exact .inl ⟨h0, (Option.some.inj here).symm⟩
  next h0 =>
  refine .inr ⟨h0, ?_⟩
  split at here
  next => exact .inr (Option.some.inj here ▸ ⟨rfl, rfl⟩)
  split at here
  next => exact .inr (Option.some.inj here ▸ ⟨rfl, rfl⟩)
  split at here
  next => exact .inl (Option.some.inj here).symm
  split at here
  next => exact .inr (Option.some.inj here ▸ ⟨rfl, rfl⟩)
  next => cases here

/-- The top of a walk pays for its own link and for its shelter. -/
theorem Stops.balanced_top (s : c.Stops limit path u k ending) :
    c.Balanced ⟨c.link u k, c.topParent? u k ending, c.dropped u k ending⟩ := by
  unfold Balanced displaces strands topParent? dropped Sheltered
  dsimp only
  by_cases homeless : c.homeless (c.link u k) = true <;> by_cases waits : 0 ∈ c.chain u k
  all_goals
    rcases s.cases with ⟨h0, rfl⟩ | ⟨h0, rfl | ⟨apart, one⟩⟩
    · simp [homeless, waits, h0, Ending.joined?, Ending.cuts]
    · simp [homeless, waits, h0, Ending.joined?, Ending.cuts]
    · simp [homeless, waits, h0, Ne.symm h0, apart, one]

theorem Listed.balanced {entries : List Entry} (s : c.Stops limit path u k ending)
    (listed : c.Listed u k (c.topParent? u k ending) (c.dropped u k ending) entries) :
    ∀ e ∈ entries, c.Balanced e := by
  intro e he
  rcases listed.only e he with ⟨j, -, rfl⟩ | rfl
  · simp [Balanced, displaces, strands, link]
  · exact s.balanced_top

variable [TrackSink β]

theorem balanced_defaultSurvey (c : Catalog β) (limit : Nat) (path : List Uuid) :
    ∀ e ∈ c.defaultSurvey limit path, c.Balanced e := by
  cases placed : c.placement? 0 with
  | some p => simp [defaultSurvey, placed]
  | none =>
    obtain ⟨m, ending, stops, listed⟩ := c.defaultSurvey_eq limit path placed
    have announces := c.announces_withDefault
    intro e he
    exact (listed.balanced stops e he).congr (by rw [announces.declared_eq])
      (by rw [announces.homeless_eq])

theorem balanced_arrivals (c : Catalog β) (limit : Nat) (u : Uuid) :
    ∀ e ∈ c.arrivals limit limit [] u, c.Balanced e := by
  intro e he
  unfold arrivals at he
  split at he
  · cases he
  obtain ⟨k, ending, entries, stops, listed, survey⟩ := c.survey_eq limit u
  rw [survey] at he
  rcases List.mem_append.mp he with he | he
  · split at he
    · exact c.balanced_defaultSurvey limit _ e he
    · cases he
  · exact listed.balanced stops e he

end Survey
end Catalog

namespace Session

def rowAbove? (c : Session) (u : Uuid) : Option TrackId :=
  (c.placement? u).bind fun p => c.rowParent? p.track

/-- The track of a uuid is not below that of the parent that the uuid was announced with. -/
def displaced (c : Session) (u : Uuid) : Bool :=
  decide (c.declared u ≠ 0 ∧ (c.rowAbove? u = none ∨
    c.rowAbove? u ≠ (c.placement? (c.declared u)).map Placement.track))

/-- The track of a uuid that has no pid is below none, and it is not the default track. -/
def stranded (c : Session) (u : Uuid) : Bool :=
  decide (c.homeless u ∧ c.rowAbove? u = none)

section Run
variable {log : List Entry} {c c' : Session} {e : Entry}

theorem Extends.balanced (x : Extends c c') (reserved : (c.reservation? e.uuid).isSome)
    (h : c.Balanced e) : c'.Balanced e := by
  obtain ⟨r, hr⟩ := Option.isSome_iff_exists.mp reserved
  obtain ⟨r', hr', same⟩ := x.reserved e.uuid r hr
  have shape := Reservation.toShape_of_still same
  have parent : r'.parent = r.parent := congrArg Shape.parent shape
  have pid : r'.pid = r.pid := congrArg Shape.pid shape
  refine h.congr ?_ ?_
  · rw [Catalog.declared_of_reservation? hr, Catalog.declared_of_reservation? hr', parent]
  · simp [Catalog.homeless, hr, hr', pid]

theorem announces_track {u : Uuid} {event : StringId} (s : Sound log [] c)
    (fits : (c.move (.command (.track u event))).Fits) :
    c.Announces (c.move (.command (.track u event))) := by
  rw [move, perform_track] at fits ⊢
  obtain ⟨c₁, c', found, -, progress, same⟩ := track?_ok s fits
  rw [found]
  rcases same with rfl | ⟨-, track, rfl⟩
  · exact progress.announced
  · exact progress.announced

theorem announces_defaultTrack (s : Sound log [] c)
    (fits : (c.move (.command .defaultTrack)).Fits) :
    c.Announces (c.move (.command .defaultTrack)) := by
  rw [move, perform_defaultTrack] at fits ⊢
  obtain ⟨p, c', found, -, -, progress⟩ := defaultTrackId_ok s fits
  rw [found]
  exact progress.announced

theorem balanced_arrivalsOf (s : Sound log [] c) (m : Move) (fits : (c.move m).Fits) :
    ∀ e ∈ c.arrivalsOf m, (c.move m).Balanced e := by
  cases m with
  | errand errand => exact List.forall_mem_nil _
  | command command =>
    cases command with
    | track u event =>
      exact fun e he => (announces_track s fits).balanced (c.balanced_arrivals _ u e he)
    | defaultTrack =>
      have announces := announces_defaultTrack s fits
      exact fun e he => announces.balanced (c.balanced_defaultSurvey _ [] e he)
    | announce uuid descriptor => exact List.forall_mem_nil _
    | sample uuid sequence value => exact List.forall_mem_nil _
    | clear sequence => exact List.forall_mem_nil _

theorem balanced_move (s : Sound log [] c) (b : ∀ e ∈ log, c.Balanced e) (m : Move)
    (fits : (c.move m).Fits) : ∀ e ∈ log ++ c.arrivalsOf m, (c.move m).Balanced e := by
  have kept := (move_ok s m fits).kept
  intro e he
  rcases List.mem_append.mp he with he | he
  · obtain ⟨r, p, q, stands⟩ := s.placed e he
    exact kept.balanced (by simp [stands.reserved]) (b e he)
  · exact balanced_arrivalsOf s m fits e he

theorem balanced_after (s : Sound log [] c) (b : ∀ e ∈ log, c.Balanced e) (moves : List Move)
    (fits : (c.after moves).Fits) : ∀ e ∈ log ++ c.logOf moves, (c.after moves).Balanced e := by
  induction moves generalizing log c with
  | nil =>
    rw [logOf, List.append_nil]
    exact b
  | cons m moves ih =>
    have roomy : (c.move m).Fits := fits.of_grows (grows_after _ _)
    rw [logOf, ← List.append_assoc]
    exact ih (move_ok s m roomy).sound (balanced_move s b m roomy) fits

end Run

section Count
variable {log : List Entry} {c : Session} {e : Entry}

/-- What an entry lacks is what the rows show. -/
theorem Sound.displaced_eq (s : Sound log [] c) (words : c.vocabulary.Distinct) (he : e ∈ log) :
    c.displaced e.uuid = c.displaces e ∧ c.stranded e.uuid = c.strands e := by
  obtain ⟨r, p, q, stands⟩ := s.placed e he
  have above : c.rowAbove? e.uuid = q.map Placement.track := by
    rw [rowAbove?, stands.placed, Option.bind_some, stands.rowParent?_eq words]
  unfold displaced stranded Catalog.displaces Catalog.strands
  rw [above]
  rcases stands.parent_cases with ⟨none, rfl⟩ | ⟨v, q', link, rfl, hq⟩
  · simp [none]
  · rw [link]
    refine ⟨decide_eq_decide.mpr (and_congr_right fun _ => ?_), by simp⟩
    have track : (c.placement? (c.declared e.uuid)).map Placement.track = some q'.track ↔
        c.declared e.uuid = v := by
      constructor
      · intro h
        obtain ⟨p', hp', same⟩ := Option.map_eq_some_iff.mp h
        exact s.apart hp' hq same
      · rintro rfl
        rw [hq]
        rfl
    simp only [Option.map_some, reduceCtorEq, false_or, ne_eq, Option.some.injEq]
    rw [eq_comm, track, eq_comm]

theorem length_cutsOf (h : ∀ e ∈ log, c.Balanced e) :
    (cutsOf log).length = log.countP c.displaces + log.countP c.strands := by
  induction log with
  | nil => rfl
  | cons e log ih =>
    have here : e.cuts.length = _ := h e List.mem_cons_self
    have rest := ih fun e he => h e (List.mem_cons_of_mem _ he)
    have split : cutsOf (e :: log) = e.cuts ++ cutsOf log := rfl
    rw [split, List.length_append, here, rest, List.countP_cons, List.countP_cons]
    cases c.displaces e <;> cases c.strands e <;> simp <;> omega

end Count
end Session

namespace History

/-- Of the tracks that were made, each that is displaced and each that is stranded has been counted
once as a dropped link, and nothing else has. -/
theorem dropped_links_balance (h : History) (fits : h.state.Fits) :
    h.state.countOf .unknownParent + h.state.countOf .loop + h.state.countOf .tooManyAncestors =
      h.state.placements.keys.countP h.state.displaced +
        h.state.placements.keys.countP h.state.stranded := by
  have sound := sound fits
  have balanced : ∀ e ∈ h.log, h.state.Balanced e := by
    have start := Session.sound_start h.settings h.unwritten
    exact Session.balanced_after start (List.forall_mem_nil _) h.moves fits
  have agree (e : Entry) (he : e ∈ h.log) := sound.displaced_eq (distinct fits) he
  have displaced :
      h.log.countP (h.state.displaced ∘ Entry.uuid) = h.log.countP h.state.displaces :=
    List.countP_congr fun e he => by rw [Function.comp_apply, (agree e he).1]
  have stranded :
      h.log.countP (h.state.stranded ∘ Entry.uuid) = h.log.countP h.state.strands :=
    List.countP_congr fun e he => by rw [Function.comp_apply, (agree e he).2]
  calc h.state.countOf .unknownParent + h.state.countOf .loop + h.state.countOf .tooManyAncestors
    _ = (cutsOf h.log).length := by
      have unknown : h.state.countOf .unknownParent = _ := countOf_eq fits .unknownParent
      have loop : h.state.countOf .loop = _ := countOf_eq fits .loop
      have tooMany : h.state.countOf .tooManyAncestors = _ := countOf_eq fits .tooManyAncestors
      rw [length_eq_cutCount, unknown, loop, tooMany]
      rfl
    _ = h.log.countP h.state.displaces + h.log.countP h.state.strands :=
      Session.length_cutsOf balanced
    _ = _ := by rw [sound.keys, List.countP_map, List.countP_map, displaced, stranded]

def mislinked : History where
  settings := { maxAncestors := 1 }
  before := [.intern "parent"]
  moves := [.command (.announce 1 (.child 2 .null)), .command (.announce 2 (.child 3 .null)),
    .command (.announce 3 (.child 0 .null)), .command (.announce 5 (.child 4 .null)),
    .command (.announce 6 (.child 6 .null)), .command (.announce 7 (.thread 8 4 5 .null 1)),
    .command (.announce 0 (.child 9 .null)), .command (.announce 9 (.child 0 .null)),
    .command (.track 9 .null), .command (.track 1 .null), .command (.track 5 .null),
    .command (.announce 4 (.child 0 .null)), .command (.track 4 .null), .command (.track 6 .null),
    .command (.track 7 .null)]
  room := by decide +kernel

theorem dropped_links_balance_mislinked :
    mislinked.state.countOf .unknownParent + mislinked.state.countOf .loop +
        mislinked.state.countOf .tooManyAncestors =
      mislinked.state.placements.keys.countP mislinked.state.displaced +
        mislinked.state.placements.keys.countP mislinked.state.stranded :=
  mislinked.dropped_links_balance ⟨by decide +kernel, by decide +kernel, by decide +kernel⟩

end History
end TraceTracks
