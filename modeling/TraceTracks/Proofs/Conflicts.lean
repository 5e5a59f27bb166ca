import TraceTracks.Proofs.Announcements
import TraceTracks.Proofs.Availability
import TraceTracks.Proofs.Tenancy

/-! What a session posts to its reservations: what it is told, and the default track when a look-up
has to make it before it was announced. The conflicts among these announcements are what is
counted. -/
namespace TraceTracks

namespace Session
variable {a b c c₁ c' : Session}

section Silent

structure Silent (c c' : Session) : Prop where
  vocabulary : c'.vocabulary = c.vocabulary
  reservations : c'.reservations = c.reservations
  conflicts : c'.countOf .conflictingDescriptor = c.countOf .conflictingDescriptor

theorem Silent.refl (c : Session) : Silent c c := ⟨rfl, rfl, rfl⟩

theorem Silent.trans (h : Silent a b) (h' : Silent b c) : Silent a c :=
  ⟨h'.vocabulary.trans h.vocabulary, h'.reservations.trans h.reservations,
    h'.conflicts.trans h.conflicts⟩

theorem Silent.bind {α γ : Type} {x : Act Trace α} {f : α → Act Trace γ}
    (hx : Catalog.Evolves Silent x) (hf : ∀ a, Catalog.Evolves Silent (f a)) :
    Catalog.Evolves Silent (x >>= f) :=
  fun c => (hx c).trans (Catalog.Evolves.left_bind .refl x hf c)

theorem Silent.map {α γ : Type} {x : Act Trace α} (hx : Catalog.Evolves Silent x) (f : α → γ) :
    Catalog.Evolves Silent (f <$> x) := by
  intro c
  rw [Act.left_map]
  exact hx c

theorem silent_count {a : Anomaly} (h : .conflictingDescriptor ≠ a) (c : Session) :
    Silent c (c.count a) :=
  ⟨rfl, rfl, (Tally.get_count _ _ _).trans (if_neg h)⟩

theorem silent_countCuts (cuts : List Cut) (c : Session) : Silent c (c.countCuts cuts) := by
  induction cuts generalizing c with
  | nil => exact .refl c
  | cons cut cuts ih =>
    have first : Silent c (c.count cut.anomaly) := silent_count (by cases cut <;> decide) c
    exact first.trans (ih _)

theorem silent_createTrack (scope : Scope) (r : Reservation) :
    Catalog.Evolves Silent (Catalog.createTrack scope r : Act Trace Placement) :=
  fun _ => ⟨rfl, rfl, rfl⟩

theorem silent_claimThread (u : Uuid) (pid : Pid) (tid : Tid) :
    Catalog.Evolves Silent
      (Act.claim (Owners.claimThread u pid tid) : Act Trace (Claim .thread)) := by
  intro (c : Session)
  rw [claimThread_eq_estate]
  cases Owners.claimThread u pid tid c.estate <;> exact ⟨rfl, rfl, rfl⟩

theorem silent_claimProcess (u : Uuid) (pid : Pid) :
    Catalog.Evolves Silent
      (Act.claim (Owners.claimProcess u pid) : Act Trace (Claim .process)) := by
  intro (c : Session)
  rw [claimProcess_eq_estate]
  cases Owners.claimProcess u pid c.estate <;> exact ⟨rfl, rfl, rfl⟩

theorem silent_situate (u : Uuid) (r : Reservation) (q : Option Placement) :
    Catalog.Evolves Silent (Catalog.situate u r q : Act Trace Placement) := by
  have threadClaimed (claim : Claim .thread) : Catalog.Evolves Silent (threadClaimed claim) := by
    obtain ⟨utid, reused⟩ := claim
    cases reused with
    | false => exact fun _ => ⟨rfl, rfl, rfl⟩
    | true => exact fun c => (silent_count (by decide) c).trans ⟨rfl, rfl, rfl⟩
  have processClaimed (claim : Claim .process) : Catalog.Evolves Silent (processClaimed claim) := by
    obtain ⟨upid, reused⟩ := claim
    cases reused with
    | false => exact fun _ => ⟨rfl, rfl, rfl⟩
    | true => exact fun c => (silent_count (by decide) c).trans ⟨rfl, rfl, rfl⟩
  unfold Catalog.situate
  split
  · exact Silent.bind (silent_claimThread _ _ _) threadClaimed
  · exact Silent.bind (silent_claimProcess _ _) processClaimed
  · exact silent_createTrack _ r

theorem silent_record (u : Uuid) (r : Reservation) (p : Placement) (q : Option Placement) :
    Catalog.Evolves Silent (Catalog.record u r p q : Act Trace Placement) := by
  intro (c : Session)
  cases row : c.row? p.track with
  | none =>
    rw [record_error row]
    exact .refl c
  | some _ =>
    rw [record_ok (by simp [row])]
    exact ⟨vocabulary_recorded c u r p q, reservations_recorded c u r p q,
      countOf_recorded c u r p q _⟩

theorem silent_settle (u : Uuid) (r : Reservation) (q : Option Placement) :
    Catalog.Evolves Silent (Catalog.settle u r q : Act Trace Placement) :=
  Silent.bind (silent_situate u r q) fun p => silent_record u r p q

theorem silent_nameIfUnnamed (track : TrackId) (name : StringId) :
    Catalog.Evolves Silent (Catalog.nameIfUnnamed track name : Act Trace Unit) := by
  intro (c : Session)
  cases row : c.row? track with
  | none =>
    unfold Catalog.nameIfUnnamed
    rw [Act.bind_error (name_error row)]
    exact .refl c
  | some _ =>
    obtain ⟨c', named, rfl | rfl⟩ := nameIfUnnamed_ok (Option.isSome_of_eq_some row) name
    · rw [named]
      exact .refl c'
    · rw [named]
      exact ⟨rfl, rfl, rfl⟩

theorem silent_nameAfter (u : Uuid) (event : StringId) (o : Option Placement) :
    Catalog.Evolves Silent (Catalog.nameAfter u event o : Act Trace (Option TrackId)) := by
  cases o with
  | none => exact Silent.refl
  | some p =>
    refine .get fun c => ?_
    split
    · exact Silent.bind (silent_nameIfUnnamed p.track event) fun _ => Silent.refl
    · exact Silent.refl

end Silent

section Files

/-- Nothing is posted, or the default track is announced for the first time and nothing else. -/
inductive Files (c c' : Session) : Prop
  | silent (h : Silent c c')
  | announced (unreserved : c.reservation? 0 = none)
      (h : Silent (c.reserve 0 c.defaultReservation) c')

theorem Silent.reservation? (h : Silent c c') (u : Uuid) :
    c'.reservation? u = c.reservation? u := by
  rw [Catalog.reservation?, h.reservations, Catalog.reservation?]

theorem Silent.reserve (h : Silent c c') (unreserved : c.reservation? 0 = none) :
    Silent (c.reserve 0 c.defaultReservation) (c'.reserve 0 c'.defaultReservation) := by
  have unreserved' : c'.reservation? 0 = none := (h.reservation? 0).trans unreserved
  rw [reserve_of_unreserved unreserved, reserve_of_unreserved unreserved']
  refine ⟨h.vocabulary, ?_, h.conflicts⟩
  rw [Catalog.defaultReservation, h.vocabulary, h.reservations, Catalog.defaultReservation]

theorem reservation?_reserve_self (u : Uuid) (r : Reservation) (c : Session) :
    (Catalog.reservation? (c.reserve u r) u).isSome := by
  rw [Catalog.reservation?_reserve, if_pos rfl, Option.isSome_some]

theorem Files.trans (h : Files a b) (h' : Files b c) : Files a c := by
  cases h with
  | silent h =>
    cases h' with
    | silent h' => exact .silent (h.trans h')
    | announced unreserved h' =>
      have unreserved := (h.reservation? 0).symm.trans unreserved
      exact .announced unreserved ((h.reserve unreserved).trans h')
  | announced unreserved h =>
    cases h' with
    | silent h' => exact .announced unreserved (h.trans h')
    | announced again =>
      have known := reservation?_reserve_self 0 a.defaultReservation a
      rw [← h.reservation? 0, again] at known
      cases known

theorem files_makeDefault (unreserved : c.reservation? 0 = none) :
    Files c (Act.left (Catalog.makeDefault c)) :=
  .announced unreserved (Silent.bind (silent_createTrack .global c.defaultReservation)
    (fun p => silent_record 0 c.defaultReservation p none) (c.reserve 0 c.defaultReservation))

variable {limit : Nat} {path : Trail} {u : Uuid}

theorem Resolution.files {result : EStateM.Result Fault (Catalog Trace) (Option Placement)}
    (h : Catalog.Resolution limit path u c result) : Files c (Act.left result) := by
  have row {r : Reservation} {p : Placement} {c c₁ : Session} {cuts : List Cut}
      (made : Catalog.createTrack .global r (c.countCuts cuts) = .ok p c₁) : Silent c c₁ := by
    have created := silent_createTrack .global r (c.countCuts cuts)
    rw [made] at created
    exact (silent_countCuts cuts c).trans created
  induction h with
  | known => exact .silent (.refl _)
  | unannounced => exact .silent (.refl _)
  | joined => exact .silent (Silent.map (silent_settle _ _ _) some _)
  | linked _ _ _ _ ih => exact ih.trans (.silent (Silent.map (silent_settle _ _ _) some _))
  | linkFailed _ _ _ _ ih => exact ih
  | housed =>
    exact .silent ((silent_countCuts _ _).trans (Silent.map (silent_settle _ _ _) some _))
  | barred _ _ _ _ _ _ made =>
    exact .silent ((row made).trans ((silent_count (by decide) _).trans
      (Silent.map (silent_record _ _ _ _) some _)))
  | sheltered _ _ _ _ _ _ made _ ih =>
    exact (Files.silent (row made)).trans
      (ih.trans (.silent (Silent.map (silent_record _ _ _ _) some _)))
  | shelterMade _ _ _ _ _ _ made absent₀ unreserved₀ =>
    rw [Act.left_map]
    exact (Files.silent (row made)).trans ((files_makeDefault unreserved₀).trans
      (.silent (Catalog.Evolves.left_bind .refl _ (fun q => silent_record _ _ _ (some q)) _)))
  | shelterFailed _ _ _ _ _ _ made _ ih => exact (Files.silent (row made)).trans ih

theorem files_resolve (limit : Nat) (u : Uuid) (c : Session) :
    Files c (Act.left (Catalog.resolve limit .empty u c)) :=
  Resolution.files (Catalog.resolution limit .empty Trail.level_empty u c)

theorem files_track? (u : Uuid) (event : StringId) (c : Session) :
    Files c (Act.left (Catalog.track? u event c)) := by
  rw [Catalog.track?_eq_bind]
  exact (files_resolve _ u c).trans
    (.silent (Catalog.Evolves.left_bind .refl _ (silent_nameAfter u event) c))

theorem files_defaultTrackId (c : Session) : Files c (Act.left (Catalog.defaultTrackId c)) := by
  rw [Catalog.defaultTrackId_eq_map, Act.left_map]
  have resolution := Catalog.resolution c.settings.maxAncestors .empty Trail.level_empty 0 c
  have files := Resolution.files resolution
  cases found : (Catalog.resolve c.settings.maxAncestors .empty 0 : Act Trace _) c with
  | error e c₁ =>
    rw [found] at files
    rw [Catalog.defaultTrack_of_error found]
    exact files
  | ok o c₁ =>
  cases o with
  | some p =>
    rw [found] at files
    rw [Catalog.defaultTrack_of_found found]
    exact files
  | none =>
    rw [found] at resolution
    obtain ⟨-, unreserved, rfl⟩ := resolution.of_none
    rw [Catalog.defaultTrack_of_none found]
    exact files_makeDefault unreserved

end Files

section Turns

def postingsOf (c : Session) : Turn → List Posting
  | .command (.announce uuid descriptor) => [.reserve uuid descriptor.reservation]
  | .command (.sample uuid sequence value) => [.sample uuid sequence value]
  | .command (.clear sequence) => [.clear sequence]
  | turn =>
    if (c.reservation? 0).isNone ∧ ((c.take turn).reservation? 0).isSome then
      [.reserve 0 c.defaultReservation]
    else []

def postingsAfter (c : Session) : List Turn → List Posting
  | [] => []
  | turn :: turns => c.postingsOf turn ++ (c.take turn).postingsAfter turns

structure Posts (c : Session) (ps : List Posting) (c' : Session) : Prop where
  reservations : c'.reservations = c.reservations.after ps
  conflicts : c'.countOf .conflictingDescriptor =
    c.countOf .conflictingDescriptor + (c.reservations.outcomes ps).count .conflict

theorem Files.posts (h : Files c c') : Posts c
    (if (c.reservation? 0).isNone ∧ (c'.reservation? 0).isSome then
      [.reserve 0 c.defaultReservation] else []) c' := by
  cases h with
  | silent h =>
    rw [h.reservation? 0, if_neg]
    · exact ⟨h.reservations, h.conflicts⟩
    · cases c.reservation? 0 <;> simp
  | announced unreserved h =>
    rw [h.reservation? 0, if_pos ⟨by rw [unreserved]; rfl, reservation?_reserve_self _ _ c⟩]
    have none : c.reservations.get? 0 = none := unreserved
    rw [reserve_of_unreserved unreserved] at h
    refine ⟨h.reservations, h.conflicts.trans ?_⟩
    rw [Reservations.outcomes, Reservations.fst_reserve, none]
    rfl

theorem countOf_reserve_conflict (u : Uuid) (r : Reservation) (c : Session) :
    countOf (c.reserve u r) .conflictingDescriptor = c.countOf .conflictingDescriptor +
      [(c.reservations.reserve u r).1].count .conflict := by
  unfold Catalog.reserve
  dsimp only
  split
  next conflict =>
    rw [conflict]
    exact (Tally.get_count _ _ _).trans (if_pos rfl)
  next other => simp [other, countOf]

theorem conflicts_deed {d : Deed} (h : d ≠ .count .conflictingDescriptor) (b : Trace) :
    (d.perform b).store.tally.get .conflictingDescriptor =
      b.store.tally.get .conflictingDescriptor := by
  cases d with
  | errand e => cases e <;> rfl
  | createTrack scope flavor => rfl
  | threadTrack utid => rfl
  | processTrack upid => rfl
  | setName track name =>
    simp only [Deed.perform, TrackSink.setName, Backend.tryStore, Store.setName]
    cases Tracks.setName track name b.store.tracks <;> rfl
  | addArg track key value =>
    simp only [Deed.perform, TrackSink.addArg, Backend.tryStore, Store.addArg]
    cases b.store.track? track <;> rfl
  | count a =>
    exact (Tally.get_count _ _ _).trans (if_neg fun same => h (by rw [same]))

theorem posts_take {turn : Turn} (h : turn ≠ .deed (.count .conflictingDescriptor)) (c : Session) :
    Posts c (c.postingsOf turn) (c.take turn) := by
  cases turn with
  | deed d =>
    refine Files.posts (.silent ⟨rfl, rfl, conflicts_deed ?_ c.backend⟩)
    rintro rfl
    exact h rfl
  | command command =>
    cases command with
    | announce u descriptor =>
      exact ⟨Catalog.reservations_reserve _ _ _, countOf_reserve_conflict _ _ _⟩
    | sample u s x => exact ⟨rfl, rfl⟩
    | clear s => exact ⟨rfl, rfl⟩
    | track u event =>
      have files := files_track? u event c
      rw [← left_eq, ← perform_track] at files
      exact files.posts
    | defaultTrack =>
      have files := files_defaultTrackId c
      rw [← left_eq, ← perform_defaultTrack] at files
      exact files.posts

theorem Posts.trans {ps more : List Posting} (h : Posts a ps b) (h' : Posts b more c) :
    Posts a (ps ++ more) c := by
  refine ⟨?_, ?_⟩
  · rw [h'.reservations, h.reservations, Reservations.after, Reservations.after,
      Reservations.after, List.foldl_append]
  · rw [h'.conflicts, h.conflicts, h.reservations, Reservations.outcomes_append,
      List.count_append, Nat.add_assoc]

theorem posts_turns {turns : List Turn}
    (h : Turn.deed (.count .conflictingDescriptor) ∉ turns) (c : Session) :
    Posts c (c.postingsAfter turns) (turns.foldl Session.take c) := by
  induction turns generalizing c with
  | nil => exact ⟨rfl, rfl⟩
  | cons turn turns ih =>
    rw [List.mem_cons, not_or] at h
    exact (posts_take (Ne.symm h.1) c).trans (ih h.2 _)

end Turns
end Session

namespace Interplay

def postings (h : Interplay) : List Posting := h.opening.postingsAfter h.turns

theorem conflicts_opening {h : Interplay} (fresh : .count .conflictingDescriptor ∉ h.before) :
    h.opening.countOf .conflictingDescriptor = 0 := by
  have kept (deeds : List Deed) (fresh : .count .conflictingDescriptor ∉ deeds) (b : Trace) :
      (deeds.foldl Deed.perform b).store.tally.get .conflictingDescriptor =
        b.store.tally.get .conflictingDescriptor := by
    induction deeds generalizing b with
    | nil => rfl
    | cons d deeds ih =>
      rw [List.mem_cons, not_or] at fresh
      exact (ih fresh.2 _).trans (Session.conflicts_deed (Ne.symm fresh.1) b)
  rw [opening, Session.start_eq]
  exact (kept h.before fresh Trace.empty).trans (Tally.get_zero _)

theorem posts {h : Interplay} (fresh : .count .conflictingDescriptor ∉ h.before)
    (alone : .deed (.count .conflictingDescriptor) ∉ h.turns) :
    h.state.reservations = Reservations.empty.after h.postings ∧
      h.state.countOf .conflictingDescriptor =
        (Reservations.empty.outcomes h.postings).count .conflict := by
  have posted := Session.posts_turns alone h.opening
  have none : h.opening.reservations = .empty := by rw [opening, Session.start_eq]
  have conflicts := posted.conflicts
  rw [conflicts_opening fresh, Nat.zero_add, none] at conflicts
  exact ⟨none ▸ posted.reservations, conflicts⟩

/-- A uuid is announced again as something else, and so is the default track, which was made before
it was announced. -/
def disputed : Interplay where
  settings := .default
  before := [.errand (.intern "early"), .count .loop]
  turns := [.command (.announce 5 (.child 0 .null)), .command (.track 5 .null),
    .command (.announce 5 (.counter 0 .null .null 1 true 7)), .deed (.setName ⟨0⟩ ⟨3⟩),
    .command (.announce 0 (.process 4 .null 9)), .command (.announce 0 (.child 0 ⟨3⟩))]

end Interplay

namespace Reservations

/-- The first announcement of a uuid is inserted, one of another shape conflicts, and any other is
merged. What is stored is the first one, but for its total and for its time, which is the earliest
of those that were merged. Uuids are counted once each, and the order of announcements does not
matter beyond the first of each uuid. A session counts the conflicts among what was posted, the
default track included that it announces itself, and an announcement is counted as nothing else. -/
theorem first_announcement_stands :
    (∀ ps u r, ((empty.after ps).reserve u r).1 =
      match Posting.opening? u ps with
      | none => .inserted
      | some (first, _) => if first.toShape = r.toShape then .merged else .conflict) ∧
    (∀ ps u, ∃ total, (empty.after ps).get? u = (Posting.opening? u ps).map fun (first, later) =>
      { first with
        firstSeen := first.firstSeen.bind fun t => (t :: first.mergedTimes u later).min?
        total := total }) ∧
    (∀ ps, (empty.after ps).size = (ps.filterMap Posting.uuid?).toFinset.card) ∧
    (∀ calls calls', calls'.Perm calls → (∀ u, calls'.lookup u = calls.lookup u) →
      (∀ u, (empty.after (Posting.ofCalls calls')).get? u =
        (empty.after (Posting.ofCalls calls)).get? u) ∧
      (empty.after (Posting.ofCalls calls')).size = (empty.after (Posting.ofCalls calls)).size) ∧
    ∀ h : Interplay, .count .conflictingDescriptor ∉ h.before →
      .deed (.count .conflictingDescriptor) ∉ h.turns →
      h.state.reservations = empty.after h.postings ∧
      h.state.countOf .conflictingDescriptor = (empty.outcomes h.postings).count .conflict ∧
      ∀ u r a, a ≠ .conflictingDescriptor →
        Session.countOf (h.state.reserve u r) a = h.state.countOf a := by
  refine ⟨fst_reserve_after, stored_after, size_after, ?_, ?_⟩
  · intro calls calls' perm first
    exact ⟨fun u => get?_after_ofCalls_congr perm (first u), size_after_ofCalls_congr perm⟩
  · intro h fresh alone
    obtain ⟨reservations, conflicts⟩ := Interplay.posts fresh alone
    refine ⟨reservations, conflicts, fun u r a other => ?_⟩
    exact Session.countOf_reserve_of_ne other u r h.state

theorem first_announcement_stands_disputed :
    Interplay.disputed.state.countOf .conflictingDescriptor = 2 ∧
      ∀ u, (empty.after (Posting.ofCalls [(2, { tid := some 1 }), (1, { firstSeen := some 5 }),
          (1, { firstSeen := some 3 })])).get? u =
        (empty.after (Posting.ofCalls [(1, { firstSeen := some 5 }), (1, { firstSeen := some 3 }),
          (2, { tid := some 1 })])).get? u := by
  obtain ⟨-, -, -, order, counted⟩ := first_announcement_stands
  obtain ⟨-, conflicts, -⟩ := counted Interplay.disputed (by decide) (by decide)
  refine ⟨?_, (order _ _ (by decide) fun u => ?_).1⟩
  · rw [conflicts]
    decide +kernel
  · by_cases same : u = 1
    · subst same
      rfl
    · have other : (u == 1) = false := beq_eq_false_iff_ne.mpr same
      simp only [List.lookup_cons, other]

end Reservations
end TraceTracks
