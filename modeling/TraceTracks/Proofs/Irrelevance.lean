import TraceTracks.Proofs.Evolution
import TraceTracks.Proofs.History

/-! Repeated announcements and counter traffic do not influence which tracks are made, and making
tracks does not influence what counters read. Both are about two runs: without some of its commands
a run goes on from states that are alike. -/
namespace TraceTracks

namespace Command

def looksUp : Command → Bool
  | track _ _ => true
  | defaultTrack => true
  | _ => false

def reads : Command → Bool
  | sample uuid _ _ => uuid != 0
  | _ => false

end Command

namespace Session
variable {α γ : Type}

theorem reservation?_lookUp (c : Session) {command : Command} {u : Uuid} (nonzero : u ≠ 0)
    (looksUp : command.looksUp) :
    (c.perform command).2.reservation? u = c.reservation? u := by
  cases command with
  | track uuid event => exact Catalog.steps_spares.perform_track c uuid event u nonzero
  | defaultTrack => exact Catalog.steps_spares.perform_defaultTrack c u nonzero
  | announce uuid descriptor => cases looksUp
  | sample uuid sequence value => cases looksUp
  | clear sequence => cases looksUp

section Readings
variable {c d : Session}

def readings (c : Session) (commands : List Command) : List (Command × Reply) :=
  (commands.zip (c.run commands).1).filter fun exchange => exchange.1.reads

theorem readings_cons (c : Session) (command : Command) (rest : List Command) :
    c.readings (command :: rest) =
      (if command.reads then [(command, (c.perform command).1)] else []) ++
        readings (c.perform command).2 rest := by
  simp only [readings, Catalog.run, List.zip_cons_cons, List.filter_cons]
  split <;> rfl

theorem perform_congr {command : Command} (still : command.looksUp = false)
    (same : ∀ u, u ≠ 0 → d.reservation? u = c.reservation? u) :
    (∀ u, u ≠ 0 → (d.perform command).2.reservation? u = (c.perform command).2.reservation? u) ∧
      (command.reads → (d.perform command).1 = (c.perform command).1) := by
  cases command with
  | track uuid event => cases still
  | defaultTrack => cases still
  | announce uuid descriptor =>
    refine ⟨fun u nonzero => ?_, fun reads => by cases reads⟩
    have here := same u nonzero
    simp only [Catalog.perform, Catalog.reservation?, Catalog.reservations_reserve,
      Reservations.get?_reserve] at here ⊢
    split
    next at_uuid => rw [← at_uuid, here]
    next => exact here
  | sample uuid sequence value =>
    refine ⟨fun u nonzero => ?_, fun reads => ?_⟩
    · have here := same u nonzero
      simp only [Catalog.perform, Catalog.sample, Catalog.reservation?,
        Reservations.get?_sample] at here ⊢
      split
      next at_uuid => rw [← at_uuid, here]
      next => exact here
    · have here := same uuid (by simpa [Command.reads] using reads)
      simp only [Catalog.reservation?] at here
      simp only [Catalog.perform, Catalog.sample, Reservations.fst_sample, here]
  | clear sequence =>
    refine ⟨fun u nonzero => ?_, fun reads => by cases reads⟩
    have here := same u nonzero
    simp only [Catalog.perform, Catalog.clear, Catalog.reservation?,
      Reservations.get?_clear] at here ⊢
    rw [here]

/-- Counters read the same with the look-ups left out. -/
theorem readings_filter (commands : List Command)
    (same : ∀ u, u ≠ 0 → d.reservation? u = c.reservation? u) :
    d.readings (commands.filter fun command => !command.looksUp) = c.readings commands := by
  induction commands generalizing c d with
  | nil => rfl
  | cons command rest ih =>
    rw [readings_cons, List.filter_cons]
    cases looksUp : command.looksUp with
    | true =>
      have silent : command.reads = false := by
        cases command <;> first | rfl | cases looksUp
      have unchanged : ∀ u, u ≠ 0 →
          d.reservation? u = (c.perform command).2.reservation? u := fun u nonzero => by
        rw [reservation?_lookUp c nonzero looksUp]
        exact same u nonzero
      simpa [silent] using ih unchanged
    | false =>
      obtain ⟨kept, reply⟩ := perform_congr looksUp same
      simp only [Bool.not_false, if_true]
      rw [readings_cons, ih kept]
      split
      next reads => rw [reply reads]
      next => rfl

end Readings

/-- Two sessions that have made the same tracks from the same announcements. They may have counted
different numbers of conflicting descriptors, seen announcements at different times, and have
counters at different totals. -/
structure Alike (c d : Session) : Prop where
  settings : d.settings = c.settings
  vocabulary : d.vocabulary = c.vocabulary
  placements : d.placements = c.placements
  owners : d.owners = c.owners
  tracks : d.backend.store.tracks = c.backend.store.tracks
  args : d.backend.store.args = c.backend.store.args
  strings : d.backend.store.strings = c.backend.store.strings
  lifetimes : d.backend.lifetimes = c.backend.lifetimes
  counts : ∀ a, a ≠ .conflictingDescriptor → d.countOf a = c.countOf a
  reserved : ∀ u, (d.reservation? u).map Reservation.still =
    (c.reservation? u).map Reservation.still

inductive Agree : EStateM.Result Fault (Catalog Trace) α →
    EStateM.Result Fault (Catalog Trace) α → Prop
  | ok {a c d} (h : Alike c d) : Agree (.ok a c) (.ok a d)
  | error {e c d} (h : Alike c d) : Agree (.error e c) (.error e d)

/-- Sees no more of a session than what it has in common with those that are alike. -/
def Blind (x : Act Trace α) : Prop := ∀ c d, Alike c d → Agree (x c) (x d)

section Alike
variable {b c d : Session}

theorem Alike.refl (c : Session) : Alike c c :=
  ⟨rfl, rfl, rfl, rfl, rfl, rfl, rfl, rfl, fun _ _ => rfl, fun _ => rfl⟩

theorem Alike.symm (h : Alike c d) : Alike d c :=
  ⟨h.settings.symm, h.vocabulary.symm, h.placements.symm, h.owners.symm, h.tracks.symm,
    h.args.symm, h.strings.symm, h.lifetimes.symm, fun a ha => (h.counts a ha).symm,
    fun u => (h.reserved u).symm⟩

theorem Alike.trans (h : Alike b c) (h' : Alike c d) : Alike b d where
  settings := h'.settings.trans h.settings
  vocabulary := h'.vocabulary.trans h.vocabulary
  placements := h'.placements.trans h.placements
  owners := h'.owners.trans h.owners
  tracks := h'.tracks.trans h.tracks
  args := h'.args.trans h.args
  strings := h'.strings.trans h.strings
  lifetimes := h'.lifetimes.trans h.lifetimes
  counts a ha := (h'.counts a ha).trans (h.counts a ha)
  reserved u := (h'.reserved u).trans (h.reserved u)

def dressed (c : Session) (reservations : Reservations) (tally : Tally) : Session :=
  { c with reservations := reservations, backend.store.tally := tally }

theorem Alike.eq_dressed (h : Alike c d) : d = c.dressed d.reservations d.backend.store.tally := by
  obtain ⟨⟨⟨tracks, args, strings, tally⟩, lifetimes⟩, settings, vocabulary, reservations,
    placements, owners⟩ := d
  obtain ⟨rfl, rfl, rfl, rfl, rfl, rfl, rfl, rfl, -, -⟩ := h
  rfl

theorem Alike.map (h : Alike c d) {f : Session → Session}
    (dress : ∀ c reservations tally, f (dressed c reservations tally) =
      (f c).dressed reservations tally)
    (reservations : (f c).reservations = c.reservations)
    (tally : (f c).backend.store.tally = c.backend.store.tally) : Alike (f c) (f d) := by
  rw [h.eq_dressed, dress]
  refine ⟨rfl, rfl, rfl, rfl, rfl, rfl, rfl, rfl, fun a ha => ?_, fun u => ?_⟩
  · refine (h.counts a ha).trans ?_
    rw [countOf, countOf, tally]
  · refine (h.reserved u).trans ?_
    rw [Catalog.reservation?, Catalog.reservation?, reservations]

theorem Alike.rows_eq (h : Alike c d) : d.rows = c.rows := by rw [rows, h.tracks, rows]

theorem Alike.row?_eq (h : Alike c d) (track : TrackId) : d.row? track = c.row? track := by
  rw [Session.row?_eq, h.rows_eq, Session.row?_eq]

theorem Alike.owner?_eq (h : Alike c d) (s : Scope) : d.owner? s = c.owner? s := by
  cases s <;> simp only [owner?, h.owners]

theorem Alike.placement?_eq (h : Alike c d) (u : Uuid) : d.placement? u = c.placement? u := by
  rw [Catalog.placement?, h.placements]
  rfl

theorem Alike.count (h : Alike c d) (a : Anomaly) : Alike (c.count a) (d.count a) where
  settings := h.settings
  vocabulary := h.vocabulary
  placements := h.placements
  owners := h.owners
  tracks := h.tracks
  args := h.args
  strings := h.strings
  lifetimes := h.lifetimes
  counts b hb := by
    have counted (c : Session) : countOf (c.count a) b = if b = a then c.countOf b + 1
      else c.countOf b := Tally.get_count _ _ _
    rw [counted, counted, h.counts b hb]
  reserved := h.reserved

end Alike

section Blind
variable {c d : Session} {x : Act Trace α}

theorem blind_pure (a : α) : Blind (pure a : Act Trace α) := fun _ _ h => .ok h

theorem Blind.bind {f : α → Act Trace γ} (hx : Blind x) (hf : ∀ a, Blind (f a)) :
    Blind (x >>= f) := by
  intro c d h
  have agree := hx c d h
  generalize hc : x c = first at agree
  generalize hd : x d = second at agree
  cases agree with
  | ok h₁ =>
    rw [Act.bind_ok hc, Act.bind_ok hd]
    exact hf _ _ _ h₁
  | error h₁ =>
    rw [Act.bind_error hc, Act.bind_error hd]
    exact .error h₁

theorem blind_record (u : Uuid) (r : Reservation) (p : Placement) (q : Option Placement) :
    Blind (Catalog.record u r p q) := by
  intro c d h
  have same := h.row?_eq p.track
  cases row : Session.row? c p.track with
  | none =>
    rw [record_error row, record_error (same.trans row)]
    exact .error h
  | some _ =>
    rw [record_ok (by simp [row]), record_ok (by simp [same, row])]
    refine .ok (h.map (f := fun c => recorded c u r p q) (fun c rs tally => ?_) ?_ ?_)
    · unfold recorded
      dsimp only
      split <;> rfl
    · exact reservations_recorded c u r p q
    · unfold recorded
      dsimp only
      split <;> rfl

theorem Alike.withOwner (h : Alike c d) (l : Lifetimes) (uuid : Uuid) (s : Scope) :
    Alike ((c.withLifetimes l).withOwner uuid s) ((d.withLifetimes l).withOwner uuid s) := by
  refine h.map (f := fun c => (withLifetimes c l).withOwner uuid s) ?_ ?_ ?_
  · intro c rs tally
    cases s <;> rfl
  · cases s <;> rfl
  · cases s <;> rfl

theorem Alike.withLifetimes (h : Alike c d) (l : Lifetimes) :
    Alike (c.withLifetimes l) (d.withLifetimes l) :=
  h.map (f := fun c => Session.withLifetimes c l) (fun _ _ _ => rfl) rfl rfl

theorem blind_claimThread (uuid : Uuid) (pid : Pid) (tid : Tid) :
    Blind (Act.claim (Owners.claimThread uuid pid tid)) := by
  intro c d h
  rw [claimThread_eq, claimThread_eq, h.lifetimes]
  dsimp only
  generalize c.backend.lifetimes.updateThread tid pid = first
  generalize first.2.startThread none tid = fresh
  generalize fresh.2.updateThread tid pid = again
  rw [h.owner?_eq]
  cases owner? c (.thread first.1) with
  | none => exact .ok (h.withOwner first.2 uuid _)
  | some owner =>
  dsimp only
  split
  · exact .ok (h.withLifetimes first.2)
  cases again.1 == fresh.1 with
  | true => exact .ok (h.withOwner again.2 uuid _)
  | false => exact .error (h.withLifetimes again.2)

theorem blind_claimProcess (uuid : Uuid) (pid : Pid) :
    Blind (Act.claim (Owners.claimProcess uuid pid)) := by
  intro c d h
  rw [claimProcess_eq, claimProcess_eq, h.lifetimes]
  dsimp only
  generalize c.backend.lifetimes.process pid = first
  generalize first.2.startProcess none none pid .null = fresh
  rw [h.owner?_eq]
  cases owner? c (.process first.1) with
  | none => exact .ok (h.withOwner first.2 uuid _)
  | some owner =>
  dsimp only
  split
  · exact .ok (h.withLifetimes first.2)
  · exact .ok (h.withOwner fresh.2 uuid _)

theorem blind_row (f : Tracks → TrackId × Tracks) :
    Blind (Act.onBackend fun b : Trace =>
      ((f b.store.tracks).1, { b with store.tracks := (f b.store.tracks).2 })) := by
  intro c d h
  have kept := h.map
    (f := fun c => { c with backend.store.tracks := (f c.backend.store.tracks).2 })
    (fun _ _ _ => rfl) rfl rfl
  unfold Act.onBackend
  dsimp only
  rw [show (f d.backend.store.tracks).1 = (f c.backend.store.tracks).1 by rw [h.tracks]]
  exact .ok kept

theorem ground_blind : Catalog.Ground fun {α} (x : Act Trace α) => Blind x where
  pure := blind_pure
  bind := Blind.bind
  count a _ _ h := .ok (h.count a)
  createRow scope flavor := blind_row fun t => t.create scope flavor
  threadRow utid := blind_row fun t => t.threadTrack utid
  processRow upid := blind_row fun t => t.processTrack upid
  claimThread := blind_claimThread
  claimProcess := blind_claimProcess

theorem alike_reserve_of_reserved {u : Uuid} (announced : (c.reservation? u).isSome)
    (r : Reservation) : Alike c (c.reserve u r) := by
  obtain ⟨old, found⟩ := Option.isSome_iff_exists.mp announced
  have found : c.reservations.get? u = some old := found
  have merged : Alike c { c with reservations := (c.reservations.reserve u r).2 } := by
    refine ⟨rfl, rfl, rfl, rfl, rfl, rfl, rfl, rfl, fun _ _ => rfl, fun v => ?_⟩
    simp only [Catalog.reservation?, Reservations.get?_reserve, found, Option.elim_some]
    split
    next same =>
      rw [same, found, Option.map_some, Option.map_some]
      split
      · rw [Reservation.still_merge]
      · rfl
    next => rfl
  unfold Catalog.reserve
  dsimp only
  split
  · refine merged.trans ⟨rfl, rfl, rfl, rfl, rfl, rfl, rfl, rfl, fun a ha => ?_, fun _ => rfl⟩
    exact (Tally.get_count _ _ _).trans (if_neg ha)
  · exact merged

theorem Alike.reserve (h : Alike c d) (u : Uuid) (r : Reservation) :
    Alike (c.reserve u r) (d.reserve u r) := by
  have reserved := h.reserved u
  cases hc : c.reservation? u with
  | some old =>
    have announced : (d.reservation? u).isSome := by
      rw [← Option.isSome_map, reserved, hc]
      rfl
    exact (alike_reserve_of_reserved (by simp [hc]) r).symm.trans
      (h.trans (alike_reserve_of_reserved announced r))
  | none =>
    have hd : d.reservation? u = none := by simpa [hc] using reserved
    rw [reserve_of_unreserved hc, reserve_of_unreserved hd]
    refine ⟨h.settings, h.vocabulary, h.placements, h.owners, h.tracks, h.args, h.strings,
      h.lifetimes, h.counts, fun v => ?_⟩
    have hc : c.reservations.get? u = none := hc
    have hd : d.reservations.get? u = none := hd
    simp only [Catalog.reservation?, Reservations.get?_reserve, hc, hd]
    split
    · rfl
    · exact h.reserved v

theorem blind_makeDefault : Blind Catalog.makeDefault := by
  intro c d h
  have made (words : Vocabulary) : Blind (do
      let reservation := (Descriptor.child 0 words.defaultTrackName).reservation
      modify (Catalog.reserve 0 reservation)
      let placement ← Catalog.createTrack .global reservation
      Catalog.record 0 reservation placement none) :=
    Blind.bind (fun _ _ h => .ok (h.reserve 0 _)) fun _ =>
      (ground_blind.createTrack _ _).bind fun p => blind_record _ _ _ _
  unfold Catalog.makeDefault
  rw [Act.get_bind, Act.get_bind, h.vocabulary]
  exact made c.vocabulary c d h

theorem closed_blind : Catalog.Closed fun {α} (x : Act Trace α) => Blind x where
  toGround := ground_blind
  record := blind_record
  makeDefault := blind_makeDefault
  findOrMake uuid make still hm := by
    intro c d h
    have reserved := h.reserved uuid
    unfold Catalog.findOrMake
    rw [Act.get_bind, Act.get_bind, h.placement?_eq]
    cases c.placement? uuid with
    | some p => exact .ok h
    | none =>
    dsimp only
    rw [Act.get_bind, Act.get_bind]
    cases hc : c.reservation? uuid with
    | none =>
      have hd : d.reservation? uuid = none := by simpa [hc] using reserved
      rw [hd]
      exact .ok h
    | some r =>
      rw [hc, Option.map_some, Option.map_eq_some_iff] at reserved
      obtain ⟨r', hd, same⟩ := reserved
      have makes : make r' = make r := (still r').trans ((congrArg make same).trans (still r).symm)
      rw [hd]
      dsimp only
      rw [makes]
      exact hm r c d h

theorem Alike.any_hasFixedName_eq (h : Alike c d) (u : Uuid) :
    (d.reservation? u).any (!·.hasFixedName) = (c.reservation? u).any (!·.hasFixedName) := by
  have fixed (o : Option Reservation) : o.any (!·.hasFixedName) =
      (o.map Reservation.still).any (!·.hasFixedName) := by cases o <;> rfl
  rw [fixed, h.reserved, ← fixed]

theorem blind_nameIfUnnamed (track : TrackId) (name : StringId) :
    Blind (Catalog.nameIfUnnamed track name) := by
  have read : Blind (Act.tryBackend (TrackSink.name track)) := by
    intro c d h
    have same := h.row?_eq track
    cases row : Session.row? c track with
    | none =>
      rw [name_error row, name_error (same.trans row)]
      exact .error h
    | some _ =>
      rw [name_ok row, name_ok (same.trans row)]
      exact .ok h
  have write : Blind (Act.tryBackend (TrackSink.setName track name)) := by
    intro c d h
    have same := h.row?_eq track
    cases row : Session.row? c track with
    | none =>
      rw [setName_error row, setName_error (same.trans row)]
      exact .error h
    | some _ =>
      rw [setName_ok (by simp [row]), setName_ok (by simp [same, row])]
      exact .ok (h.map (f := fun c => withName c track name) (fun _ _ _ => rfl) rfl rfl)
  refine read.bind fun old => ?_
  split
  · exact write
  · exact blind_pure _

theorem blind_nameAfter (u : Uuid) (event : StringId) (o : Option Placement) :
    Blind (Catalog.nameAfter u event o) := by
  cases o with
  | none => exact blind_pure none
  | some p =>
    intro c d h
    unfold Catalog.nameAfter
    dsimp only
    rw [Act.get_bind, Act.get_bind, h.any_hasFixedName_eq]
    split
    · exact (blind_nameIfUnnamed p.track event).bind (fun _ => blind_pure _) c d h
    · exact .ok h

end Blind

section Essentials
variable {c d : Session}

/-- An announcement of what was announced before, and what counters do. -/
def superfluous (c : Session) : Command → Bool
  | .announce uuid _ => (c.reservation? uuid).isSome
  | .sample _ _ _ => true
  | .clear _ => true
  | _ => false

def essentials (c : Session) : List Command → List (Command × Reply)
  | [] => []
  | command :: rest =>
    (if c.superfluous command then [] else [(command, (c.perform command).1)]) ++
      essentials (c.perform command).2 rest

theorem alike_of_superfluous {command : Command} (h : c.superfluous command) :
    Alike c (c.perform command).2 := by
  cases command with
  | track uuid event => cases h
  | defaultTrack => cases h
  | announce uuid descriptor => exact alike_reserve_of_reserved h descriptor.reservation
  | sample uuid sequence value =>
    refine ⟨rfl, rfl, rfl, rfl, rfl, rfl, rfl, rfl, fun _ _ => rfl, fun u => ?_⟩
    simp only [Catalog.perform, Catalog.sample, Catalog.reservation?, Reservations.get?_sample]
    split
    next same =>
      rw [same, Option.map_map]
      congr 1
      funext r
      simp only [Function.comp_apply]
      split <;> rfl
    next => rfl
  | clear sequence =>
    refine ⟨rfl, rfl, rfl, rfl, rfl, rfl, rfl, rfl, fun _ _ => rfl, fun u => ?_⟩
    simp only [Catalog.perform, Catalog.clear, Catalog.reservation?, Reservations.get?_clear]
    rw [Option.map_map]
    congr 1
    funext r
    simp only [Function.comp_apply]
    split <;> rfl

/-- A command that is not superfluous has the same reply in sessions that are alike. -/
theorem Alike.perform (h : Alike c d) {command : Command} (essential : ¬c.superfluous command) :
    (d.perform command).1 = (c.perform command).1 ∧
      Alike (c.perform command).2 (d.perform command).2 := by
  cases command with
  | announce uuid descriptor => exact ⟨rfl, h.reserve uuid descriptor.reservation⟩
  | sample uuid sequence value => exact absurd rfl essential
  | clear sequence => exact absurd rfl essential
  | track uuid event =>
    have agree : Agree (Catalog.track? uuid event c) (Catalog.track? uuid event d) := by
      rw [Catalog.track?_eq_bind, Catalog.track?_eq_bind, h.settings]
      exact (closed_blind.resolve _ _ _).bind (blind_nameAfter uuid event) c d h
    unfold Catalog.perform
    dsimp only
    generalize Catalog.track? uuid event c = first at agree
    generalize Catalog.track? uuid event d = second at agree
    cases agree with
    | ok h' => exact ⟨rfl, h'⟩
    | error h' => exact ⟨rfl, h'⟩
  | defaultTrack =>
    have agree : Agree (Catalog.defaultTrackId c) (Catalog.defaultTrackId d) := by
      rw [Catalog.defaultTrackId_eq_map, Catalog.defaultTrackId_eq_map, h.settings]
      exact ground_blind.map (closed_blind.defaultTrack (closed_blind.resolve _ _ _)) _ c d h
    unfold Catalog.perform
    dsimp only
    generalize Catalog.defaultTrackId c = first at agree
    generalize Catalog.defaultTrackId d = second at agree
    cases agree with
    | ok h' => exact ⟨rfl, h'⟩
    | error h' => exact ⟨rfl, h'⟩

theorem Alike.run_essentials (h : Alike c d) (commands : List Command) :
    (d.run ((c.essentials commands).map Prod.fst)).1 = (c.essentials commands).map Prod.snd ∧
      Alike (c.run commands).2 (d.run ((c.essentials commands).map Prod.fst)).2 := by
  induction commands generalizing c d with
  | nil => exact ⟨rfl, h⟩
  | cons command rest ih =>
    unfold essentials
    split
    next superfluous => exact ih ((alike_of_superfluous superfluous).symm.trans h)
    next essential =>
      obtain ⟨reply, next⟩ := h.perform essential
      obtain ⟨replies, alike⟩ := ih next
      simp only [List.singleton_append, List.map_cons, Catalog.run]
      exact ⟨by rw [reply, replies], alike⟩

end Essentials

/-- Without the announcements of what was announced before, and without counter traffic, the other
commands of a run get the same replies and leave the same tables. Without the look-ups, counters
read the same. -/
theorem announcements_and_traffic_apart (c : Session) (commands : List Command) :
    (c.run ((c.essentials commands).map Prod.fst)).1 = (c.essentials commands).map Prod.snd ∧
      Alike (c.run commands).2 (c.run ((c.essentials commands).map Prod.fst)).2 ∧
      c.readings (commands.filter fun command => !command.looksUp) = c.readings commands := by
  obtain ⟨replies, alike⟩ := (Alike.refl c).run_essentials commands
  exact ⟨replies, alike, readings_filter commands fun _ _ => rfl⟩

end Session
end TraceTracks
