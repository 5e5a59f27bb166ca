import TraceTracks.Proofs.WellFormed

/-! When nothing is wrong with the announcements, every track comes out the same in whatever order
tracks are looked up. Only the numbers of rows, threads and processes tell the orders apart. -/
namespace TraceTracks

/-- What a track is, apart from numbers that depend on what was made before it. -/
structure Standing where
  parent : Option Uuid
  flavor : Flavor
  scope : String
  owner : Option Uuid
  name : StringId
  category : Option StringId
  deriving DecidableEq

namespace Session

def rowCategory? (c : Session) (id : TrackId) : Option StringId :=
  (c.backend.store.arg? id c.vocabulary.category).bind ArgValue.string?

def standing? (c : Session) (u : Uuid) : Option Standing := do
  let p ← c.placement? u
  let row ← c.row? p.track
  return ⟨c.parentOf? u, row.flavor, row.scope.name, c.owner? row.scope, row.name,
    c.rowCategory? p.track⟩

def lookup : Option Uuid → Move
  | some uuid => .command (.track uuid .null)
  | none => .command .defaultTrack

def lookUp (c : Session) (uuids : List (Option Uuid)) : Session := c.after (uuids.map lookup)

structure Settled (c₀ : Session) (log : List Entry) (c : Session) : Prop where
  sound : Sound log [] c
  progress : Progress c₀ c []
  parents : ∀ e ∈ log, e.parent = c₀.effectiveParent? e.uuid

section Run
variable {c₀ c c' : Session} {log entries : List Entry}

theorem cutsOf_eq_nil (straight : ∀ e ∈ entries, e.cuts = []) : cutsOf entries = [] :=
  List.flatMap_eq_nil_iff.mpr straight

theorem Settled.extend (x : Settled c₀ log c) (sound : Sound (log ++ entries) [] c')
    (progress : Progress c c' (cutsOf entries))
    (straight : ∀ e ∈ entries, e.cuts = [] ∧ e.parent = c.effectiveParent? e.uuid) :
    Settled c₀ (log ++ entries) c' := by
  have announces : c₀.Announces c := x.progress.announced
  refine ⟨sound, ?_, fun e he => ?_⟩
  · rw [cutsOf_eq_nil fun e he => (straight e he).1] at progress
    exact x.progress.trans progress
  · rcases List.mem_append.mp he with he | he
    · exact x.parents e he
    · rw [← announces.effectiveParent?_eq]
      exact (straight e he).2

theorem Settled.lookup (x : Settled c₀ log c) (w : c₀.WellFormed) (l : Option Uuid)
    (fits : (c.move (lookup l)).Fits) : ∃ log', Settled c₀ log' (c.move (lookup l)) := by
  have announces : c₀.Announces c := x.progress.announced
  have formed := w.of_announces announces x.progress.kept.settings
  cases l with
  | some u =>
    obtain ⟨c', found, sound, progress⟩ := perform_track_null x.sound fits
    have same : c.move (Session.lookup (some u)) = c' := congrArg Prod.snd found
    rw [same]
    exact ⟨_, x.extend sound progress (formed.arrivals u)⟩
  | none =>
    have same : c.move (Session.lookup none) = left (Catalog.defaultTrackId c) :=
      perform_defaultTrack c
    rw [same] at fits ⊢
    obtain ⟨p, c', found, -, sound, progress⟩ := defaultTrackId_ok x.sound fits
    rw [found]
    exact ⟨_, x.extend sound progress (formed.defaultSurvey (List.forall_mem_nil _))⟩

theorem Settled.lookUp (x : Settled c₀ log c) (w : c₀.WellFormed) (l : List (Option Uuid))
    (fits : (c.lookUp l).Fits) : ∃ log', Settled c₀ log' (c.lookUp l) := by
  induction l generalizing c log with
  | nil => exact ⟨log, x⟩
  | cons u l ih =>
    have roomy : (c.move (Session.lookup u)).Fits := fits.of_grows (grows_after _ _)
    obtain ⟨log', next⟩ := x.lookup w u roomy
    exact ih next fits

end Run

section Agreement
variable {c₀ c c' : Session} {log log' : List Entry} {u : Uuid} {r r' : Reservation}
  {p p' : Placement}

theorem Settled.reservation_eq (x : Settled c₀ log c) (x' : Settled c₀ log' c')
    (reserved : c.reservation? u = some r) (reserved' : c'.reservation? u = some r') : r = r' := by
  rcases x.progress.announced u with same | ⟨rfl, absent, made⟩
  · rcases x'.progress.announced u with same' | ⟨rfl, absent, -⟩
    · exact Option.some.inj (reserved.symm.trans (same.trans (same'.symm.trans reserved')))
    · rw [absent, reserved] at same
      cases same
  · rcases x'.progress.announced 0 with same' | ⟨-, -, made'⟩
    · rw [absent, reserved'] at same'
      cases same'
    · exact Option.some.inj (reserved.symm.trans (made.trans (made'.symm.trans reserved')))

/-- Where a placement lies, its entity named by the owner. -/
def mark (c : Session) (p : Placement) : Flavor × String × Option Uuid :=
  (p.flavor, p.scope.name, c.owner? p.scope)

theorem mark_eq_iff : c.mark p = c'.mark p' ↔
    p.flavor = p'.flavor ∧ p.scope.name = p'.scope.name ∧
      c.owner? p.scope = c'.owner? p'.scope := by
  simp only [mark, Prod.mk.injEq]

theorem childScope_of_mark_eq (h : c.mark p = c'.mark p') :
    (p.childScope.getD .global).name = (p'.childScope.getD .global).name ∧
      c.owner? (p.childScope.getD .global) = c'.owner? (p'.childScope.getD .global) := by
  obtain ⟨track, scope, flavor⟩ := p
  obtain ⟨track', scope', flavor'⟩ := p'
  obtain ⟨rfl, name, owner⟩ := mark_eq_iff.mp h
  cases flavor with
  | counter => exact ⟨rfl, rfl⟩
  | slice =>
    cases scope <;> cases scope' <;> first | exact ⟨rfl, owner⟩ | simp [Scope.name] at name

/-- A parent decides where a track without a pid lies. -/
theorem mark_eq_of_suits {q q' : Option Placement} (hpid : r.pid = none)
    (suits : p.Suits r.toShape q) (suits' : p'.Suits r.toShape q')
    (above : q.isSome = q'.isSome)
    (same : ∀ a a', q = some a → q' = some a' → c.mark a = c'.mark a') :
    c.mark p = c'.mark p' := by
  simp only [Placement.Suits, hpid] at suits suits'
  rw [mark_eq_iff, suits.1, suits.2, suits'.1, suits'.2]
  refine ⟨rfl, ?_⟩
  cases q with
  | none =>
    cases q' with
    | none => exact ⟨rfl, rfl⟩
    | some a' => cases above
  | some a =>
    cases q' with
    | none => cases above
    | some a' => exact childScope_of_mark_eq (same a a' rfl rfl)

theorem mark_eq_of_owner (hpid : r.pid.isSome) {q q' : Option Placement}
    (suits : p.Suits r.toShape q) (suits' : p'.Suits r.toShape q')
    (owner : c.owner? p.scope = some u) (owner' : c'.owner? p'.scope = some u) :
    c.mark p = c'.mark p' := by
  obtain ⟨pid, hpid⟩ := Option.isSome_iff_exists.mp hpid
  rw [mark_eq_iff, owner, owner']
  cases htid : r.tid with
  | none =>
    simp only [Placement.Suits, hpid, htid] at suits suits'
    obtain ⟨⟨upid, scope⟩, flavor⟩ := suits
    obtain ⟨⟨upid', scope'⟩, flavor'⟩ := suits'
    rw [scope, scope', flavor, flavor']
    exact ⟨rfl, rfl, rfl⟩
  | some tid =>
    simp only [Placement.Suits, hpid, htid] at suits suits'
    obtain ⟨⟨utid, scope⟩, flavor⟩ := suits
    obtain ⟨⟨utid', scope'⟩, flavor'⟩ := suits'
    rw [scope, scope', flavor, flavor']
    exact ⟨rfl, rfl, rfl⟩

/-- Both runs put the track of a uuid in the same place. -/
theorem Settled.mark_eq (x : Settled c₀ log c) (x' : Settled c₀ log' c')
    (placed : c.placement? u = some p) (placed' : c'.placement? u = some p') :
    c.mark p = c'.mark p' := by
  -- By induction on the order in which the first run made its tracks: parents come first.
  induction hn : c.placements.rank u using Nat.strongRecOn generalizing u p p' with
  | _ n ih =>
    obtain ⟨e, he, rfl, r, q, stands⟩ := x.sound.stands_of_placement? placed
    obtain ⟨e', he', hu', r', q', stands'⟩ := x'.sound.stands_of_placement? placed'
    have parent' : e'.parent = e.parent := by rw [x'.parents e' he', hu', x.parents e he]
    have suits := stands.suits
    have suits' := stands'.suits
    obtain rfl : r = r' := x.reservation_eq x' stands.reserved (hu' ▸ stands'.reserved)
    rw [parent'] at suits'
    cases hpid : r.pid with
    | some pid =>
      have primary : r.pid.isSome := by simp [hpid]
      have owner' := (stands'.owned primary).1
      rw [hu'] at owner'
      exact mark_eq_of_owner primary suits suits' (stands.owned primary).1 owner'
    | none =>
      have rises := stands'.parent_cases
      rw [parent'] at rises
      rcases stands.parent_cases with ⟨root, rfl⟩ | ⟨v, a, link, rfl, above⟩
      · rcases rises with ⟨-, rfl⟩ | ⟨v', a', link, -⟩
        · rw [if_neg (by simp [root])] at suits suits'
          exact mark_eq_of_suits hpid suits suits' rfl nofun
        · rw [root] at link
          cases link
      · rcases rises with ⟨root, -⟩ | ⟨v', a', link', rfl, above'⟩
        · rw [root] at link
          cases link
        rw [link] at link'
        cases link'
        have same := ih _ (hn ▸ stands.rank v link) above above' rfl
        by_cases shelter : e.parent = some 0
        · rw [if_pos shelter] at suits suits'
          exact mark_eq_of_suits hpid suits suits' rfl nofun
        · rw [if_neg shelter] at suits suits'
          apply mark_eq_of_suits hpid suits suits' rfl
          rintro _ _ ⟨⟩ ⟨⟩
          exact same

theorem Stands.rowCategory?_eq {e : Entry} {q : Option Placement} (s : Stands c e r p q)
    (words : c.vocabulary.Distinct) :
    c.rowCategory? p.track = StringId.nonNull? r.category := by
  have hargs : c.backend.store.args.ofTrack p.track = _ := s.args
  rw [rowCategory?, Store.arg?, Args.get?, hargs, find?_argsFor_category words]
  cases StringId.nonNull? r.category <;> rfl

theorem Settled.standing?_eq (x : Settled c₀ log c) (words : c₀.vocabulary.Distinct)
    (blank : ∀ u, c₀.placement? u = none) (placed : c.placement? u = some p)
    (reserved : c.reservation? u = some r) :
    c.standing? u = some ⟨c₀.effectiveParent? u, p.flavor, p.scope.name, c.owner? p.scope,
      r.name, StringId.nonNull? r.category⟩ := by
  have words' : c.vocabulary.Distinct := by rwa [x.progress.kept.vocabulary]
  obtain ⟨e, he, rfl, r', q, stands⟩ := x.sound.stands_of_placement? placed
  obtain rfl : r = r' := Option.some.inj (reserved.symm.trans stands.reserved)
  obtain ⟨name, row⟩ := stands.row
  obtain ⟨r', row', reserved', hrow, named⟩ := x.progress.labelled _ _ (blank e.uuid) placed
  obtain rfl : r = r' := Option.some.inj (reserved.symm.trans reserved')
  obtain rfl := Option.some.inj (row.symm.trans hrow)
  rw [standing?, placed]
  simp only [Option.bind_eq_bind, Option.bind_some, row, Option.pure_def]
  rw [x.sound.parentOf?_eq words' he, x.parents e he, stands.rowCategory?_eq words', ← named]

theorem Settled.agree (x : Settled c₀ log c) (x' : Settled c₀ log' c')
    (words : c₀.vocabulary.Distinct) (blank : ∀ u, c₀.placement? u = none)
    (placed : c.placement? u = some p)
    (placed' : c'.placement? u = some p') : ∃ st : Standing, c.standing? u = some st ∧
      c'.standing? u = some st ∧ st.parent = c₀.effectiveParent? u := by
  obtain ⟨e, -, rfl, r, q, stands⟩ := x.sound.stands_of_placement? placed
  obtain ⟨e', -, hu, r', q', stands'⟩ := x'.sound.stands_of_placement? placed'
  have reserved' := stands'.reserved
  rw [hu] at reserved'
  obtain rfl : r = r' := x.reservation_eq x' stands.reserved reserved'
  obtain ⟨flavor, scope, owner⟩ := mark_eq_iff.mp (x.mark_eq x' placed placed')
  refine ⟨_, x.standing?_eq words blank placed stands.reserved, ?_, rfl⟩
  rw [flavor, scope, owner]
  exact x'.standing?_eq words blank placed' reserved'

end Agreement
end Session

namespace History

theorem log_eq_nil {h : History} (fits : h.state.Fits)
    (blank : ∀ u, h.state.placement? u = none) : h.log = [] := by
  rw [← List.map_eq_nil_iff, ← (sound fits).keys, List.eq_nil_iff_forall_not_mem]
  intro u hu
  exact Registry.get?_eq_none_iff.mp (blank u) hu

/-- While nothing has a track yet and the announcements are well formed, two ways to look tracks up
make the same of whatever both look up, and drop no link. -/
theorem order_independence (h : History) (blank : ∀ u, h.state.placement? u = none)
    (formed : h.state.WellFormed) (l l' : List (Option Uuid)) (fits : (h.state.lookUp l).Fits)
    (fits' : (h.state.lookUp l').Fits) :
    (∀ u, ((h.state.lookUp l).placement? u).isSome → ((h.state.lookUp l').placement? u).isSome →
      ∃ st : Standing, (h.state.lookUp l).standing? u = some st ∧
        (h.state.lookUp l').standing? u = some st ∧ st.parent = h.state.effectiveParent? u) ∧
    ∀ cut : Cut, (h.state.lookUp l).countOf cut.anomaly = 0 ∧
      (h.state.lookUp l').countOf cut.anomaly = 0 := by
  have roomy : h.state.Fits := fits.of_grows (Session.grows_after _ _)
  have start : Session.Settled h.state [] h.state := by
    refine ⟨?_, .refl _, List.forall_mem_nil _⟩
    rw [← log_eq_nil roomy blank]
    exact sound roomy
  obtain ⟨log, x⟩ := start.lookUp formed l fits
  obtain ⟨log', x'⟩ := start.lookUp formed l' fits'
  refine ⟨fun u placed placed' => ?_, fun cut => ?_⟩
  · obtain ⟨p, hp⟩ := Option.isSome_iff_exists.mp placed
    obtain ⟨p', hp'⟩ := Option.isSome_iff_exists.mp placed'
    exact x.agree x' (distinct roomy) blank hp hp'
  · have none : h.state.countOf cut.anomaly = 0 := by
      rw [countOf_eq roomy, log_eq_nil roomy blank]
      rfl
    have isError : cut.anomaly.isError := by cases cut <;> rfl
    rw [x.progress.counts _ isError, x'.progress.counts _ isError, none]
    exact ⟨rfl, rfl⟩

def orderly : History where
  settings := .default
  before := [.intern "early"]
  moves := [.command (.announce 1 (.process 4 .null 1)),
    .command (.announce 2 (.thread 1 4 5 .null 1)), .command (.announce 3 (.child 2 .null)),
    .command (.announce 4 (.counter 3 .null .null 1 false 0)),
    .command (.announce 5 (.child 0 .null)), .command (.announce 6 (.process 4 .null 2)),
    .command (.announce 7 (.child 6 .null)), .command (.announce 8 (.child 4 .null))]
  room := by decide +kernel

theorem blank_orderly (u : Uuid) : orderly.state.placement? u = none := by
  have empty : orderly.state.placements.keys = [] := by decide +kernel
  refine Registry.get?_eq_none_iff.mpr ?_
  rw [empty]
  exact List.not_mem_nil

theorem wellFormed_orderly : orderly.state.WellFormed :=
  .of_rankFalls (show orderly.state.rankFalls UInt64.toNat = true by decide +kernel)

theorem order_independence_orderly :
    (∀ u, ((orderly.state.lookUp [some 8, some 5, some 6]).placement? u).isSome →
      ((orderly.state.lookUp [some 7, none, some 8, some 5]).placement? u).isSome →
      ∃ st : Standing,
        (orderly.state.lookUp [some 8, some 5, some 6]).standing? u = some st ∧
        (orderly.state.lookUp [some 7, none, some 8, some 5]).standing? u = some st ∧
        st.parent = orderly.state.effectiveParent? u) ∧
    ∀ cut : Cut,
      (orderly.state.lookUp [some 8, some 5, some 6]).countOf cut.anomaly = 0 ∧
      (orderly.state.lookUp [some 7, none, some 8, some 5]).countOf cut.anomaly = 0 :=
  orderly.order_independence blank_orderly wellFormed_orderly _ _
    ⟨by decide +kernel, by decide +kernel, by decide +kernel⟩
    ⟨by decide +kernel, by decide +kernel, by decide +kernel⟩

end History
end TraceTracks
